import TemplateAxum.World

/-!
# Bearer tokens

`OidcVerifier::decode_bearer_token` and the two extractors that use it: `AuthClaims`, which takes the
token from the `Authorization` header, and the web router's `WebAuthClaims`, which also takes it from
`?token=`. What the token crates do is a parameter.
-/

namespace TemplateAxum

open Prog

/-- Handler code: it makes the calls of `Op` and stops early with an `AppError`. -/
abbrev Handler := Prog Op Op.Ans AppError

/-! ### The verifier -/

structure Validation where
  algorithm : String
  issuer : String
  audience : String
  requiredSpecClaims : List String

/-- The crates a token goes through: `jsonwebtoken`, `base64` (`URL_SAFE_NO_PAD`) and `serde_json`. -/
structure TokenCrates where
  /-- The `kid` of `decode_header`. -/
  decodeHeader : String → Option (Option String)
  decodingKey : Jwk → Option (List UInt8)
  /-- `jsonwebtoken::decode` at a Unix time, which it compares `exp` with. -/
  decode : String → List UInt8 → Validation → Nat → Option Json
  base64Url : String → Option (List UInt8)
  fromSlice : List UInt8 → Option Json

/-- A character of the compact serialization of a signed token: base64url or the dot between segments. -/
def isTokenChar (c : Char) : Bool := c.isAlphanum || c == '-' || c == '_' || c == '.'

/-- `jsonwebtoken` decodes each of the three segments. -/
structure TokenCrates.Documented (crates : TokenCrates) : Prop where
  decode_chars : ∀ token key validation now claims, crates.decode token key validation now = some claims →
    token.toList.all isTokenChar = true

structure ResourceServer where
  issuer : String
  audience : String

structure OidcVerifier where
  mode : Mode
  resource : ResourceServer
  crates : TokenCrates

namespace OidcVerifier

variable (oidc : OidcVerifier)

def decodeWithoutVerification (token : String) : Option Json := do
  let payload ← (token.toList.splitOn '.')[1]?
  let bytes ← oidc.crates.base64Url (String.ofList payload)
  oidc.crates.fromSlice bytes

def invalid {α : Type} : Option α → Except AppError α
  | some a => .ok a
  | none => .error (.invalidToken "Invalid or expired token")

def fetchJwks : Handler (Option JwkSet) := perform Op.fetchJwks

def unixTime : Handler Nat := perform Op.unixTime

def jwks : Handler JwkSet := do
  match ← fetchJwks with
  | some keys => pure keys
  | none => raise (.serviceUnavailable "Authentication service unavailable")

def validation : Validation :=
  { algorithm := "RS256", issuer := oidc.resource.issuer, audience := oidc.resource.audience,
    requiredSpecClaims := ["exp", "iss", "aud"] }

def decodeBearerToken (token : String) : Handler Claims :=
  if oidc.mode = .mock then ofExcept ((invalid (oidc.decodeWithoutVerification token)).map Claims.mk)
  else do
    let header ← ofExcept (invalid (oidc.crates.decodeHeader token))
    let kid ← ofExcept (invalid header)
    let keys ← jwks
    let jwk ← ofExcept (invalid (JwkSet.find keys kid))
    let decodingKey ← ofExcept (invalid (oidc.crates.decodingKey jwk))
    let now ← unixTime
    let claims ← ofExcept (invalid (oidc.crates.decode token decodingKey oidc.validation now))
    pure ⟨claims⟩

/-- The calls that decoding a token takes. -/
def Verifies : Op → Prop
  | .fetchJwks | .unixTime => True
  | _ => False

theorem jwks_calls : jwks.Calls Verifies := by
  refine (calls_perform Op.fetchJwks trivial).bind ?_
  rintro (_ | keys)
  · exact calls_raise _
  · exact calls_ret keys

theorem decodeBearerToken_calls (token : String) : (oidc.decodeBearerToken token).Calls Verifies := by
  unfold decodeBearerToken
  split
  · exact calls_ofExcept _
  · refine (calls_ofExcept _).bind fun header => (calls_ofExcept _).bind fun kid => jwks_calls.bind fun keys => ?_
    refine (calls_ofExcept _).bind fun jwk => (calls_ofExcept _).bind fun key => ?_
    refine (calls_perform Op.unixTime trivial).bind fun now => ?_
    exact (calls_ofExcept _).bind fun claims => calls_ret _

theorem decodeBearerToken_reads (token : String) : (oidc.decodeBearerToken token).Calls World.IsRead := by
  refine (oidc.decodeBearerToken_calls token).imp fun op hop => ?_
  cases op with
  | fetchJwks => trivial
  | unixTime => trivial
  | _ => exact absurd hop id

end OidcVerifier

/-! ### The extractors -/

def bearerToken (headers : Headers) : Except AppError String :=
  match headers.authorization.bind HeaderValue.toStr with
  | none => .error (.unauthorized "Not authenticated")
  | some header =>
    match stripPrefix "Bearer " header with
    | none => .error (.unauthorized "Not authenticated")
    | some token => .ok token

/-- `AuthClaims`. -/
def authClaims (oidc : OidcVerifier) (headers : Headers) : Handler Claims := do
  let token ← ofExcept (bearerToken headers)
  oidc.decodeBearerToken token

/-- The token of a web request: the header's, else the query's. -/
def webToken (headers : Headers) (queryToken : Option String) : Option String :=
  ((headers.authorization.bind HeaderValue.toStr).bind (stripPrefix "Bearer ")).or queryToken

structure WebAuthClaims where
  claims : Claims
  token : String

/-- `Result<WebAuthClaims, Response>` as an extractor: a request without an accepted token is not
rejected but answered with the sign-in page, by the handler. -/
def webAuthClaims {ε : Type} (oidc : OidcVerifier) (headers : Headers) (queryToken : Option String) :
    Prog Op Op.Ans ε (Except Response WebAuthClaims) :=
  match webToken headers queryToken with
  | none => pure (.error (.html (.bootstrap none)))
  | some token => do
    match ← (oidc.decodeBearerToken token).attempt with
    | .ok claims => pure (.ok ⟨claims, token⟩)
    | .error _ =>
      pure (.error ((Response.html (.bootstrap (some "That token was rejected -- paste a current one."))).withStatus 401))

end TemplateAxum
