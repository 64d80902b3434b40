import Mathlib
import TemplateAxum.Service

/-!
# Requests that get through

Under `Mode::Mock` the checks before a write depend on the request alone, but for the rate limiter,
which lets everyone through in time if its limit is not zero. `Passes` is their conjunction. The
program of a passing request is its rate check, its write and what follows (`Proceeds`), which in the
web router is the announcement and the redirect (`Redirects`).
-/

namespace TemplateAxum

open Prog Seen

variable {env : Env} {request : Request} {op : WriteOp}

/-- The token as `Mode::Mock` reads it: one of the roles, and a subject. -/
def MockGrants (env : Env) (token : String) (roles : List String) (ownerId : String) : Prop :=
  ∃ value, env.oidc.decodeWithoutVerification token = some value ∧
    (Claims.mk value).requireAnyRole env.settings.oidcClientId roles = .ok () ∧ (Claims.mk value).subject = .ok ownerId

structure Passes (env : Env) (request : Request) (op : WriteOp) : Prop where
  mock : env.settings.mode = .mock
  limit : 1 ≤ env.settings.rateLimitHeroWritePerMinute
  asks : request.Asks env op
  granted : ∃ token ownerId, request.token? env = some token ∧ MockGrants env token op.roles ownerId ∧
    op.Scoped ownerId

/-! ### Tokens -/

theorem decodeBearerToken_mock (hmock : env.settings.mode = .mock) (token : String) :
    env.oidc.decodeBearerToken token =
      ofExcept ((OidcVerifier.invalid (env.oidc.decodeWithoutVerification token)).map Claims.mk) := if_pos hmock

/-- Outside `Mode::Mock` an accepted token is made of base64url segments. -/
theorem isTokenChar_of_accepted (htokens : env.tokens.Documented) (hmode : env.settings.mode ≠ .mock) {token : String}
    {seg : Seen} {claims : Claims} (h : (env.oidc.decodeBearerToken token).Returns seg (.ok claims)) :
    token.toList.all isTokenChar = true := by
  have hsat : Sat (fun _ _ => True) (fun _ _ => token.toList.all isTokenChar = true) (fun _ _ => True) []
      (env.oidc.decodeBearerToken token) := by
    rw [OidcVerifier.decodeBearerToken, if_neg (show ¬ env.oidc.mode = .mock from hmode)]
    refine Sat.ofExcept_bind (fun _ _ => trivial) fun header _ => ?_
    refine Sat.ofExcept_bind (fun _ _ => trivial) fun kid _ => ?_
    refine Sat.bind (Q := fun _ _ => True) ⟨trivial, ?_⟩ fun h keys _ => ?_
    · rintro (_ | keys) <;> exact trivial
    refine Sat.ofExcept_bind (fun _ _ => trivial) fun jwk _ => ?_
    refine Sat.ofExcept_bind (fun _ _ => trivial) fun key _ => ⟨trivial, fun now => ?_⟩
    refine Sat.ofExcept_bind (fun _ _ => trivial) fun claims hclaims => ?_
    cases hd : env.tokens.decode token key env.oidc.validation now with
    | none =>
      rw [show env.oidc.crates.decode token key env.oidc.validation now = none from hd] at hclaims
      cases hclaims
    | some value => exact htokens.decode_chars _ _ _ _ _ hd
  exact hsat.of_returns h

theorem allows_of_isTokenChar {c : Char} (h : isTokenChar c = true) : HeaderValue.allows c.toNat = true := by
  simp only [isTokenChar, Char.isAlphanum, Char.isAlpha, Char.isUpper, Char.isLower, Char.isDigit, Bool.or_eq_true,
    Bool.and_eq_true, decide_eq_true_eq, beq_iff_eq, UInt32.le_iff_toNat_le] at h
  have hvisible : 32 ≤ c.toNat ∧ c.toNat ≠ 127 := by
    rcases h with ((h | rfl) | rfl) | rfl
    · have hbounds : 'A'.val.toNat = 65 ∧ 'Z'.val.toNat = 90 ∧ 'a'.val.toNat = 97 ∧ 'z'.val.toNat = 122 ∧
        '0'.val.toNat = 48 ∧ '9'.val.toNat = 57 := ⟨rfl, rfl, rfl, rfl, rfl, rfl⟩
      unfold Char.toNat
      omega
    · decide
    · decide
    · decide
  simp [HeaderValue.allows, hvisible]

theorem allows_lead : ("/heroes/form?token=".toList.all fun c => HeaderValue.allows c.toNat) = true := by decide +kernel

theorem accepts_formLocation_iff {token : String} :
    HeaderValue.accepts (formLocation token) = true ↔ ∀ c ∈ token.toList, HeaderValue.allows c.toNat = true := by
  have hlead := allows_lead
  unfold HeaderValue.accepts formLocation
  rw [String.toList_append, List.all_append, hlead, Bool.true_and, List.all_eq_true]

theorem accepts_formLocation {token : String} (h : token.toList.all isTokenChar = true) :
    HeaderValue.accepts (formLocation token) = true :=
  accepts_formLocation_iff.2 fun c hc => allows_of_isTokenChar (List.all_eq_true.1 h c hc)

/-- An entitled request passes. -/
theorem Entitled.passes {h : Seen} (he : Entitled env request op h) (hmock : env.settings.mode = .mock)
    (hlimit : 1 ≤ env.settings.rateLimitHeroWritePerMinute) : Passes env request op := by
  refine ⟨hmock, hlimit, he.asks, ?_⟩
  rcases he.granted with ⟨ownerId, hscoped, ⟨⟨claims, ⟨token, seg, htoken, -, hret⟩, hrole, hsub⟩, -⟩⟩
  refine ⟨token, ownerId, htoken, ⟨claims.value, ?_, hrole, hsub⟩, hscoped⟩
  rw [decodeBearerToken_mock hmock] at hret
  cases hv : env.oidc.decodeWithoutVerification token with
  | none => rw [hv] at hret; cases hret
  | some value => rw [hv] at hret; cases hret; rfl

/-! ### Programs -/

/-- The rate check lets the request through, the write is answered, the announcement is made. -/
def passage (env : Env) (addr : String) (op : WriteOp) (r : op.Result) : Seen :=
  [⟨.check heroWriteRateScope addr env.settings.rateLimitHeroWritePerMinute 60, .ok ()⟩, ⟨.repo (.write op), .ok r⟩,
    ⟨.publish heroEventResource op.action (op.reports (op.pack r)), ()⟩]

section Programs

variable {req : HttpRequest} {token : String} {value : Json} {ownerId : String}

theorem claims_mock {route : WebRoute} (hmock : env.settings.mode = .mock)
    (htoken : (Request.web route req).token? env = some token)
    (hvalue : env.oidc.decodeWithoutVerification token = some value) :
    HeroesWeb.claims env req = ret (.ok ⟨⟨value⟩, token⟩) := by
  have htoken : webToken req.headers (env.axum.tokenQuery req.query) = some token := htoken
  simp only [HeroesWeb.claims, webAuthClaims, htoken, decodeBearerToken_mock hmock, hvalue]
  rfl

theorem eq_ok_of_toOption {ε α : Type} {r : Except ε α} {a : α} (h : r.toOption = some a) : r = .ok a := by
  cases r with
  | error e => cases h
  | ok b => cases h; rfl

theorem formPayload_eq {α : Type} {into : HeroFormFields → Checked α} {form : Except Response HeroFormFields} {a : α}
    (h : formPayload into form = some a) : ∃ fields, form = .ok fields ∧ into fields = .ok a := by
  cases form with
  | error response => cases h
  | ok fields =>
    exact ⟨fields, rfl, eq_ok_of_toOption h⟩

theorem payload_eq {α β : Type} {validate : α → Checked Unit} {convert : α → β}
    {body : Except Response (Except AppError α)} {b : β} (h : payload validate convert body = some b) :
    ∃ a, body = .ok (.ok a) ∧ validate a = .ok () ∧ convert a = b := by
  unfold payload at h
  split at h
  · rename_i a
    refine ⟨a, rfl, ?_⟩
    split at h
    · rename_i hvalid
      cases h
      exact ⟨hvalid, rfl⟩
    · cases h
  · cases h

theorem webCreate_returns (hcrud : env.crud.Documented) (hmock : env.settings.mode = .mock)
    (htoken : (Request.web .create req).token? env = some token)
    (hvalue : env.oidc.decodeWithoutVerification token = some value)
    (hrole : (Claims.mk value).requireAnyRole env.settings.oidcClientId heroWriteRoles = .ok ())
    (hsub : (Claims.mk value).subject = .ok ownerId) {data : HeroCreate}
    (hdata : (Request.web .create req).createData env = some data) (hero : Model) :
    ((Request.web .create req).handle env).Returns (passage env req.addr (.create ownerId data) hero)
      (.ok (env.axum.redirectTo (formLocation token))) := by
  obtain ⟨fields, hform, hinto⟩ := formPayload_eq hdata
  simp only [Request.handle, Request.serve, HeroesWeb.create, claims_mock hmock htoken hvalue, hform, checkRate,
    perform, ret_bind, ofExcept_ok, call_bind, mapError_call, attempt_call]
  refine .call ?_
  simp only [hrole, hsub, hinto, orUnprocessable, Except.mapError, ret_bind, ofExcept_ok, liftCrud, hcrud.create_eq,
    Crud.write]
  refine .call ?_
  refine .call ?_
  exact .ret _

theorem webUpdate_returns (hcrud : env.crud.Documented) (hmock : env.settings.mode = .mock)
    (htoken : (Request.web .update req).token? env = some token)
    (hvalue : env.oidc.decodeWithoutVerification token = some value)
    (hrole : (Claims.mk value).requireAnyRole env.settings.oidcClientId heroWriteRoles = .ok ())
    (hsub : (Claims.mk value).subject = .ok ownerId) {id : Int32} {data : HeroUpdate}
    (htarget : (Request.web .update req).target env = some id)
    (hdata : (Request.web .update req).updateData env = some data) (hero : Model) :
    ((Request.web .update req).handle env).Returns (passage env req.addr (.update id ownerId data) (some hero))
      (.ok (env.axum.redirectTo (formLocation token))) := by
  obtain ⟨fields, hform, hinto⟩ := formPayload_eq hdata
  obtain ⟨notFound, hupdate⟩ := hcrud.resolveUpdateById_eq
  have hid := eq_ok_of_toOption htarget
  simp only [Request.handle, Request.serve, HeroesWeb.update, claims_mock hmock htoken hvalue, hform, hid, checkRate,
    perform, ret_bind, ofExcept_ok, call_bind, mapError_call, attempt_call]
  refine .call ?_
  simp only [hrole, hsub, hinto, orUnprocessable, Except.mapError, ret_bind, ofExcept_ok, hupdate]
  refine .call ?_
  refine .call ?_
  exact .ret _

theorem webDelete_returns (hcrud : env.crud.Documented) (hmock : env.settings.mode = .mock)
    (htoken : (Request.web .delete req).token? env = some token)
    (hvalue : env.oidc.decodeWithoutVerification token = some value)
    (hrole : (Claims.mk value).requireAnyRole env.settings.oidcClientId heroDeleteRoles = .ok ())
    (hsub : (Claims.mk value).subject = .ok ownerId) {id : Int32}
    (htarget : (Request.web .delete req).target env = some id) :
    ((Request.web .delete req).handle env).Returns (passage env req.addr (.delete id ownerId) true)
      (.ok (env.axum.redirectTo (formLocation token))) := by
  obtain ⟨notFound, hdelete⟩ := hcrud.resolveDelete_eq
  have hid := eq_ok_of_toOption htarget
  simp only [Request.handle, Request.serve, HeroesWeb.delete, claims_mock hmock htoken hvalue, hid, checkRate,
    perform, ret_bind, ofExcept_ok, call_bind, mapError_call, attempt_call]
  refine .call ?_
  simp only [hrole, hsub, ret_bind, ofExcept_ok, hdelete]
  refine .call ?_
  refine .call ?_
  exact .ret _

theorem apiCreate_returns {server : Api} (hcrud : env.crud.Documented) (hmock : env.settings.mode = .mock)
    (htoken : (Request.api server .post req).token? env = some token)
    (hvalue : env.oidc.decodeWithoutVerification token = some value)
    (hrole : (Claims.mk value).requireAnyRole env.settings.oidcClientId heroWriteRoles = .ok ())
    (hsub : (Claims.mk value).subject = .ok ownerId) {data : HeroCreate}
    (hdata : (Request.api server .post req).createData env = some data) (hero : Model) :
    ∃ response, ((Request.api server .post req).handle env).Returns
      (passage env req.addr (.create ownerId data) hero) (.ok response) := by
  obtain ⟨payload, hbody, hvalid, rfl⟩ := payload_eq hdata
  have htoken := eq_ok_of_toOption htoken
  simp only [Request.handle, Request.serve, ApiRouter.create, authClaims, htoken, decodeBearerToken_mock hmock, hvalue,
    hbody, OidcVerifier.invalid, Except.map, checkRate, perform, ret_bind, ofExcept_ok, call_bind, mapError_ret,
    mapError_call, attempt_call]
  obtain ⟨response, hresponse⟩ : ∃ response, response =
      match server.router.respond env "hero" (server.router.hero hero) with
      | .ok shown => server.router.withSunset (shown.withStatus 201)
      | .error e => env.problem e := ⟨_, rfl⟩
  refine ⟨response, .call ?_⟩
  simp only [hrole, hsub, hvalid, orUnprocessable, Except.mapError, ret_bind, ofExcept_ok, liftCrud, hcrud.create_eq,
    Crud.write]
  refine .call ?_
  refine .call ?_
  subst hresponse
  show Returns (Prog.bind (Prog.attempt (Prog.mapError env.problem
    (Prog.ofExcept (server.router.respond env "hero" (server.router.hero hero)) >>= _))) _) [] _
  cases server.router.respond env "hero" (server.router.hero hero) with
  | ok shown => exact .ret _
  | error e => exact .ret _

/-- The write of a passing request can be performed, and is then announced. In the web router the
response is the redirect, whatever its location. -/
theorem Passes.returns (hcrud : env.crud.Documented) (hp : Passes env request op)
    (hroute : op.isCreate = true ∨ request.isWeb = true) {r : op.Result} (hr : (op.pack r).performed = true) :
    ∃ addr response, (request.handle env).Returns (passage env addr op r) (.ok response) ∧
      ∀ token, request.isWeb = true → request.token? env = some token →
        response = env.axum.redirectTo (formLocation token) := by
  rcases hp with ⟨hmock, -, ⟨haction, hasks⟩, ⟨token, ownerId, htoken, ⟨value, hvalue, hrole, hsub⟩, hscoped⟩⟩
  have redirect : ∀ token', true = true → request.token? env = some token' →
      env.axum.redirectTo (formLocation token) = env.axum.redirectTo (formLocation token') := by
    intro token' _ htoken'
    cases htoken.symm.trans htoken'
    rfl
  cases request with
  | read handler => cases haction
  | api server m req =>
    cases op with
    | create owner data =>
      cases hscoped
      cases m with
      | get => cases haction
      | post =>
        rcases apiCreate_returns hcrud hmock htoken hvalue hrole hsub hasks r with ⟨response, hret⟩
        exact ⟨_, response, hret, fun _ hweb _ => by cases hweb⟩
      | patch => cases hasks
      | delete => cases hasks
    | _ => rcases hroute with h | h <;> cases h
  | web route req =>
    cases op with
    | create owner data =>
      cases hscoped
      cases route with
      | create => exact ⟨_, _, webCreate_returns hcrud hmock htoken hvalue hrole hsub hasks r, redirect⟩
      | _ => cases hasks
    | update id owner data =>
      cases hscoped
      obtain ⟨hero, rfl⟩ : ∃ hero, r = some hero := Option.isSome_iff_exists.1 hr
      cases route with
      | update => exact ⟨_, _, webUpdate_returns hcrud hmock htoken hvalue hrole hsub hasks.1 hasks.2 hero, redirect⟩
      | _ => cases haction
    | delete id owner =>
      cases hscoped
      cases r with
      | false => cases hr
      | true =>
        cases route with
        | delete => exact ⟨_, _, webDelete_returns hcrud hmock htoken hvalue hrole hsub hasks, redirect⟩
        | _ => cases haction
    | updateMany filters data => cases route <;> cases haction
    | deleteMany filters includeUnpublished => cases route <;> cases haction

end Programs

/-! ### Runs -/

section Runs

variable [Lowercase] {w : World}

/-- The rate limiter lets a passing request through in time. -/
theorem Passes.plays_check (hp : Passes env request op) (w : World) (addr : String) :
    ∃ limiter, Pool.Plays World.Answers w
      [⟨.check heroWriteRateScope addr env.settings.rateLimitHeroWritePerMinute 60, .ok ()⟩] { w with limiter } := by
  rcases RateLimiter.checks_ok w.limiter heroWriteRateScope addr 60 hp.limit with ⟨limiter, hcheck⟩
  exact ⟨limiter, .cons ⟨limiter, hcheck, rfl⟩ (.nil _)⟩

/-- And then nothing stands in the way of its write. -/
theorem Passes.plays (hp : Passes env request op) (addr : String) {r : op.Result} {repo' : Repo}
    (hwrite : w.repo.Answers (.write op) (.ok r) repo') :
    ∃ limiter, Pool.Plays World.Answers w (passage env addr op r)
      ⟨repo', limiter, w.log ++ [announcement op (op.pack r)]⟩ := by
  rcases RateLimiter.checks_ok w.limiter heroWriteRateScope addr 60 hp.limit with ⟨limiter, hcheck⟩
  exact ⟨limiter, .cons ⟨limiter, hcheck, rfl⟩ (.cons ⟨repo', hwrite, rfl⟩ (.cons rfl (.nil _)))⟩

end Runs
end TemplateAxum
