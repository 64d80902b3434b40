import TemplateAxum.Views

/-!
# Requests, responses and problem details

The parts of an HTTP exchange that the handlers look at, and `problem_details.rs`: the one error type
and its rendering.
-/

namespace TemplateAxum

/-! ### Header values -/

/-- A byte that `http::HeaderValue` allows: visible ASCII, a blank, a tab or an opaque byte. -/
def HeaderValue.allows (byte : Nat) : Bool := (32 ≤ byte && byte != 127) || byte == 9

/-- The bytes of a received header value. -/
structure HeaderValue where
  bytes : List UInt8
  allowed : bytes.all (fun b => HeaderValue.allows b.toNat) = true

namespace HeaderValue

/-- `to_str`: none when there is an opaque byte. -/
def toStr (value : HeaderValue) : Option String :=
  if value.bytes.all (fun b => b.toNat < 127) then
    some (String.ofList (value.bytes.map fun b => Char.ofNat b.toNat))
  else none

/-- Whether `HeaderValue::try_from` accepts a string. The UTF-8 bytes of a character that is not
ASCII are all opaque, so one checks the characters. -/
def accepts (text : String) : Bool := text.toList.all fun c => allows c.toNat

end HeaderValue

/-- `str::strip_prefix`. -/
def stripPrefix (lead text : String) : Option String :=
  if lead.toList.isPrefixOf text.toList then some (String.ofList (text.toList.drop lead.length)) else none

structure Headers where
  authorization : Option HeaderValue
  contentType : Option HeaderValue
  ifMatch : List HeaderValue
  ifNoneMatch : List HeaderValue

/-- A request as it reaches a route. -/
structure HttpRequest where
  /-- The text of the peer's IP address. -/
  addr : String
  headers : Headers
  /-- The segment that a route with `{id}` captures, `""` elsewhere. -/
  path : String
  query : String
  body : List UInt8

/-! ### Responses -/

structure BulkResult where
  matched : Nat
  ids : List Int32
deriving DecidableEq, Repr

/-- What the representations of the JSON and XML routers show. -/
inductive View
  | hero (hero : HeroRead)
  | heroes (heroes : List HeroRead)
  | heroV1 (hero : HeroReadV1)
  | heroesV1 (heroes : List HeroReadV1)
  | bulk (result : BulkResult)
deriving DecidableEq

/-- The HTML pages of the web router. -/
inductive Page
  | bootstrap (message : Option String)
  | heroes (heroes : List Model) (token : String)
deriving DecidableEq

inductive ProblemText
  | text (msg : String)
  | fields (errors : List FieldError)
deriving DecidableEq

structure ProblemDetail where
  kind : String
  title : String
  status : Nat
  detail : ProblemText
deriving DecidableEq

inductive Body
  | empty
  | problem (body : ProblemDetail)
  | json (view : View)
  | xml (text : String)
  | html (page : Page)
  | text (text : String)
deriving DecidableEq

structure Response where
  status : Nat
  headers : List (String × String)
  body : Body
deriving DecidableEq

namespace Response

def isSuccess (response : Response) : Bool := 200 ≤ response.status && response.status < 300

def isError (response : Response) : Bool := 400 ≤ response.status && response.status < 600

/-- `(status, response).into_response()`. -/
def withStatus (status : Nat) (response : Response) : Response := { response with status }

/-- `([(name, value)], response).into_response()`, which is a `500` when the value is no header value. -/
def withHeader (name value : String) (response : Response) : Response :=
  if HeaderValue.accepts value then { response with headers := (name, value) :: response.headers }
  else ⟨500, [], .text "failed to parse header value"⟩

def json (view : View) : Response := ⟨200, [("content-type", "application/json")], .json view⟩

def html (page : Page) : Response := ⟨200, [("content-type", "text/html; charset=utf-8")], .html page⟩

def noContent : Response := ⟨204, [], .empty⟩

theorem withHeader_of_accepts {name value : String} (h : HeaderValue.accepts value = true) (response : Response) :
    (response.withHeader name value).status = response.status := by
  rw [withHeader, if_pos h]

end Response

/-! ### Problem details -/

/-- `AppError`. -/
inductive AppError
  | notFound (msg : String)
  | unauthorized (msg : String)
  | invalidToken (msg : String)
  | forbidden (msg : String)
  | unprocessableEntity (errors : List FieldError)
  | preconditionFailed (msg : String)
  | serviceUnavailable (msg : String)
  | tooManyRequests (msg : String)
  | internal (msg : String)
deriving DecidableEq

/-- `craftainer_crud::error::CrudError`; `other` is a variant it may grow. -/
inductive CrudError
  | notFound (msg : String)
  | unprocessableEntity (errors : List FieldError)
  | preconditionFailed (msg : String)
  | serviceUnavailable (msg : String)
  | tooManyRequests (msg : String)
  | internal (msg : String)
  | other (msg : String)
deriving DecidableEq

namespace AppError

/-- `From<CrudError>`. -/
def ofCrud : CrudError → AppError
  | .notFound msg => .notFound msg
  | .unprocessableEntity errors => .unprocessableEntity errors
  | .preconditionFailed msg => .preconditionFailed msg
  | .serviceUnavailable msg => .serviceUnavailable msg
  | .tooManyRequests msg => .tooManyRequests msg
  | .internal msg => .internal msg
  | .other msg => .internal msg

/-- `From<RepoError>`. -/
def ofRepo (err : RepoError) : AppError := .internal err.message

/-- The status, title and detail of an error; outside `Mode::Dev` the detail of an internal one is
redacted. -/
def parts (dev : Bool) : AppError → Nat × String × ProblemText
  | notFound msg => (404, "Not Found", .text msg)
  | unauthorized msg => (401, "Unauthorized", .text msg)
  | invalidToken msg => (401, "Unauthorized", .text msg)
  | forbidden msg => (403, "Forbidden", .text msg)
  | unprocessableEntity errors => (422, "Unprocessable Content", .fields errors)
  | preconditionFailed msg => (412, "Precondition Failed", .text msg)
  | serviceUnavailable msg => (503, "Service Unavailable", .text msg)
  | tooManyRequests msg => (429, "Too Many Requests", .text msg)
  | internal msg => (500, "Internal Server Error", .text (if dev then msg else "Internal Server Error"))

/-- The bare challenge, which names the error when a token was presented and rejected. -/
def challenge : AppError → String
  | invalidToken _ => "Bearer error=\"invalid_token\""
  | _ => "Bearer"

def intoResponse (dev : Bool) (err : AppError) : Response :=
  let (status, title, detail) := err.parts dev
  { status
    headers :=
      if status = 401 then
        [("content-type", "application/problem+json"), ("www-authenticate", err.challenge)]
      else [("content-type", "application/problem+json")]
    body := .problem ⟨"about:blank", title, status, detail⟩ }

theorem isError_intoResponse (dev : Bool) (err : AppError) : (err.intoResponse dev).isError = true := by
  cases err <;> rfl

end AppError
end TemplateAxum
