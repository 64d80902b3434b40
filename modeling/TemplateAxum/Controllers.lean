import TemplateAxum.Oidc
import TemplateAxum.Craftainer

/-!
# What the controllers share

The application state with the crates around it, and the parts of `hero/controllers/mod.rs` and of
the handlers that every router uses.
-/

namespace TemplateAxum

open Prog

/-! ### The environment -/

structure Settings where
  mode : Mode
  oidcClientId : String
  rateLimitHeroWritePerMinute : Nat
  bulkActionMaxMatched : Nat

/-- The extractors of axum, and its redirect. -/
structure Axum where
  listQuery : String → Except Response HeroListQuery
  rawParams : String → Except Response (List (String × String))
  /-- `Query<TokenQuery>`, a rejection counting as no token. -/
  tokenQuery : String → Option String
  pathId : String → Except Response Int32
  jsonHeroCreate : HttpRequest → Except Response HeroCreate
  jsonHeroUpdate : HttpRequest → Except Response HeroUpdate
  jsonHeroCreateV1 : HttpRequest → Except Response HeroCreateV1
  jsonHeroUpdateV1 : HttpRequest → Except Response HeroUpdateV1
  form : HttpRequest → Except Response HeroFormFields
  bytes : HttpRequest → Except Response (List UInt8)
  redirectTo : String → Response

/-- Every rejection of an extractor is an error response. -/
def Rejects {α β : Type} (extract : α → Except Response β) : Prop :=
  ∀ a response, extract a = .error response → response.isError = true

structure Axum.Documented (axum : Axum) : Prop where
  listQuery : Rejects axum.listQuery
  rawParams : Rejects axum.rawParams
  pathId : Rejects axum.pathId
  jsonHeroCreate : Rejects axum.jsonHeroCreate
  jsonHeroUpdate : Rejects axum.jsonHeroUpdate
  jsonHeroCreateV1 : Rejects axum.jsonHeroCreateV1
  jsonHeroUpdateV1 : Rejects axum.jsonHeroUpdateV1
  form : Rejects axum.form
  bytes : Rejects axum.bytes
  /-- `Redirect::to` is a 303 when its target can be a header value, and a 500 when it cannot. -/
  redirectTo_ok : ∀ uri, HeaderValue.accepts uri = true → axum.redirectTo uri = ⟨303, [("location", uri)], .empty⟩
  redirectTo_err : ∀ uri, HeaderValue.accepts uri = false → (axum.redirectTo uri).status = 500

/-- `quick_xml`: `de::from_str` at each payload type, and `se::to_string_with_root`. -/
structure QuickXml where
  heroCreate : String → Except String HeroCreate
  heroUpdate : String → Except String HeroUpdate
  heroCreateV1 : String → Except String HeroCreateV1
  heroUpdateV1 : String → Except String HeroUpdateV1
  toStringWithRoot : String → View → Except String String

/-- The application state with the crates around it. -/
structure Env where
  settings : Settings
  resource : ResourceServer
  tokens : TokenCrates
  crud : Craftainer
  axum : Axum
  xml : QuickXml

namespace Env

def oidc (env : Env) : OidcVerifier := ⟨env.settings.mode, env.resource, env.tokens⟩

/-- `AppError::into_response`. -/
def problem (env : Env) (err : AppError) : Response := err.intoResponse (env.settings.mode = .dev)

end Env

/-! ### What the routers share -/

def heroReadRoles : List String := ["viewer", "editor", "maintainer", "detective"]
def heroWriteRoles : List String := ["editor", "maintainer"]
def heroDeleteRoles : List String := ["maintainer"]

def heroEventResource : String := "heroes"
def heroWriteRateScope : String := "hero-write"

def heroFieldSpecs : List FieldSpec :=
  [⟨"id", .number⟩, ⟨"name", .string⟩, ⟨"power_level", .number⟩, ⟨"owner_id", .string⟩,
    ⟨"archived_at", .datetime⟩, ⟨"created_at", .datetime⟩, ⟨"updated_at", .datetime⟩]

/-- A repository program of the CRUD crate, its error converted by `?`. -/
def liftCrud {ε α : Type} (ofError : ε → AppError) (p : Crud ε α) : Handler α := (p.embed Op.repo).mapError ofError

/-- `.map_err(AppError::UnprocessableEntity)?`. -/
def orUnprocessable {α : Type} (r : Checked α) : Handler α := ofExcept (r.mapError .unprocessableEntity)

def checkRate (env : Env) (req : HttpRequest) : Handler Unit := do
  let verdict : Except AppError Unit ←
    perform (Op.check heroWriteRateScope req.addr env.settings.rateLimitHeroWritePerMinute 60)
  ofExcept verdict

def publish {ε : Type} (action : EventAction) (ids : List Int32) : Prog Op Op.Ans ε Unit :=
  perform (Op.publish heroEventResource action ids)

def readEtag (env : Env) : ListOrGet → String
  | .one hero => env.crud.recordEtag hero
  | .many heroes => env.crud.listEtag heroes

def enforceIfMatch (env : Env) (headers : Headers) (id : Option Int32) (rawParams : List (String × String)) :
    Handler Unit :=
  match id with
  | none => pure ()
  | some id =>
    if headers.ifMatch.isEmpty then pure ()
    else do
      let includeArchived ← orUnprocessable (env.crud.parseIncludeArchived rawParams)
      match ← liftCrud AppError.ofRepo (env.crud.get id includeArchived) with
      | some current =>
        ofExcept ((env.crud.checkIfMatch headers.ifMatch (env.crud.recordEtag current) "Hero").mapError AppError.ofCrud)
      | none => pure ()

end TemplateAxum
