import TemplateAxum.ApiRouter

/-!
# The web router

`heroes_web.rs`, and all requests to the five routers together. A web handler takes its claims as a
`Result`: the page that asks for a token is returned from the body, after the other extractors.
-/

namespace TemplateAxum

open Prog

/-- The location that the write handlers redirect to. -/
def formLocation (token : String) : String := "/heroes/form?token=" ++ token

namespace HeroesWeb

variable (env : Env) (req : HttpRequest)

def claims : Prog Op Op.Ans Response (Except Response WebAuthClaims) :=
  webAuthClaims env.oidc req.headers (env.axum.tokenQuery req.query)

def formPage : Prog Op Op.Ans Response Response := do
  let auth ← claims env req
  let auth ← ofExcept auth
  Prog.mapError env.problem do
    ofExcept (auth.claims.requireAnyRole env.settings.oidcClientId heroReadRoles)
    let heroes ← liftCrud AppError.ofRepo (env.crud.list ⟨0, 100, false, false, [], []⟩)
    pure (.html (.heroes heroes auth.token))

def create : Prog Op Op.Ans Response Response := do
  let auth ← claims env req
  let fields ← ofExcept (env.axum.form req)
  let auth ← ofExcept auth
  Prog.mapError env.problem do
    checkRate env req
    ofExcept (auth.claims.requireAnyRole env.settings.oidcClientId heroWriteRoles)
    let create ← orUnprocessable fields.intoHeroCreate
    let ownerId ← ofExcept auth.claims.subject
    let hero ← liftCrud AppError.ofRepo (env.crud.create ownerId create)
    publish .create [hero.id]
    pure (env.axum.redirectTo (formLocation auth.token))

/-- An error of the CRUD crate is rendered by the crate itself. -/
def update : Prog Op Op.Ans Response Response := do
  let id ← ofExcept (env.axum.pathId req.path)
  let auth ← claims env req
  let fields ← ofExcept (env.axum.form req)
  let auth ← ofExcept auth
  let (update, ownerId) ← Prog.mapError env.problem do
    checkRate env req
    ofExcept (auth.claims.requireAnyRole env.settings.oidcClientId heroWriteRoles)
    let update ← orUnprocessable fields.intoHeroUpdate
    let ownerId ← ofExcept auth.claims.subject
    pure (update, ownerId)
  let hero ← Prog.mapError env.crud.errorResponse ((env.crud.resolveUpdateById id ownerId update).embed Op.repo)
  publish .update [hero.id]
  pure (env.axum.redirectTo (formLocation auth.token))

def delete : Prog Op Op.Ans Response Response := do
  let id ← ofExcept (env.axum.pathId req.path)
  let auth ← claims env req
  let auth ← ofExcept auth
  let ownerId ← Prog.mapError env.problem do
    checkRate env req
    ofExcept (auth.claims.requireAnyRole env.settings.oidcClientId heroDeleteRoles)
    ofExcept auth.claims.subject
  -- by id only, so the flag for unpublished records is moot
  let _ ← Prog.mapError env.crud.errorResponse
    ((env.crud.resolveDelete (some id) ownerId [] env.settings.bulkActionMaxMatched true).embed Op.repo)
  publish .delete [id]
  pure (env.axum.redirectTo (formLocation auth.token))

end HeroesWeb

/-! ### Requests -/

inductive Api
  | v2Json | v2Xml | v1Json | v1Xml
deriving DecidableEq

def Api.router : Api → ApiRouter
  | v2Json => heroes
  | v2Xml => heroesXml
  | v1Json => heroesV1
  | v1Xml => heroesV1Xml

inductive Method
  | get | post | patch | delete
deriving DecidableEq

inductive WebRoute
  | formPage | create | update | delete
deriving DecidableEq

/-- The handler of a route that is not modelled and only reads: `/stats`, `/predict`, `/events` and
`/components.js`. -/
structure ReadHandler where
  prog : Prog Op Op.Ans Response Response
  reads : prog.Calls World.IsRead

/-- A request to one of the five routers. -/
inductive Request
  | api (server : Api) (method : Method) (req : HttpRequest)
  | web (route : WebRoute) (req : HttpRequest)
  | read (handler : ReadHandler)

def Request.serve (env : Env) : Request → Prog Op Op.Ans Response Response
  | api server .get req => server.router.listOrGet env req
  | api server .post req => server.router.create env req
  | api server .patch req => server.router.update env req
  | api server .delete req => server.router.deleteHero env req
  | web .formPage req => HeroesWeb.formPage env req
  | web .create req => HeroesWeb.create env req
  | web .update req => HeroesWeb.update env req
  | web .delete req => HeroesWeb.delete env req
  | read handler => handler.prog

/-- A request is answered however its handler ends. -/
def Request.handle (env : Env) (request : Request) : Prog Op Op.Ans Empty Response := do
  match ← (request.serve env).attempt with
  | .ok response => pure response
  | .error response => pure response

end TemplateAxum
