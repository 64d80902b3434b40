import TemplateAxum.HeroesWeb

/-!
# What a request may do

The specification that every handler meets, in terms of what it has seen: `Permits` says when a
handler may write and publish, `Concluded` how it may end. Before its one write a request has done
nothing, has a token that was accepted, holds the role, asks for that very write and acts on its
owner's rows only; after it, it announces the write and nothing else. `Serve.lean` proves it of the
handlers.
-/

namespace TemplateAxum

open Prog

/-! ### What has been seen -/

/-- The calls of a handler so far, with their answers. -/
abbrev Seen := History Op Op.Ans

def Op.written? : Answered Op Op.Ans → Option (WriteOp × WriteAnswer)
  | ⟨.repo c, answer⟩ => RepoCall.written? ⟨c, answer⟩
  | _ => none

def Op.published? : Answered Op Op.Ans → Option Event
  | ⟨.publish resource action ids, _⟩ => some ⟨resource, action, ids⟩
  | _ => none

namespace Seen

/-- The writes performed. -/
def written (h : Seen) : List (WriteOp × WriteAnswer) := h.filterMap Op.written?

def published (h : Seen) : List Event := h.filterMap Op.published?

/-- Nothing has been changed yet. -/
structure Idle (h : Seen) : Prop where
  written : h.written = []
  published : h.published = []

variable {h h' : Seen}

theorem written_append : written (h ++ h') = written h ++ written h' := List.filterMap_append

theorem published_append : published (h ++ h') = published h ++ published h' := List.filterMap_append

theorem idle_nil : Idle [] := ⟨rfl, rfl⟩

theorem Idle.append (hi : Idle h) (hi' : Idle h') : Idle (h ++ h') :=
  ⟨by rw [written_append, hi.written, hi'.written]; rfl, by rw [published_append, hi.published, hi'.published]; rfl⟩

theorem Idle.of_append (hi : Idle (h ++ h')) : Idle h := by
  have hw := hi.written
  have hp := hi.published
  rw [written_append, List.append_eq_nil_iff] at hw
  rw [published_append, List.append_eq_nil_iff] at hp
  exact ⟨hw.1, hp.1⟩

theorem idle_of_reads (hr : ∀ c ∈ h, World.IsRead c.1) : Idle h := by
  constructor
  · refine List.filterMap_eq_nil_iff.2 ?_
    rintro ⟨op, answer⟩ hc
    have := hr _ hc
    cases op with
    | repo c =>
      cases c with
      | write op => exact absurd this id
      | _ => rfl
    | _ => rfl
  · refine List.filterMap_eq_nil_iff.2 ?_
    rintro ⟨op, answer⟩ hc
    have := hr _ hc
    cases op with
    | publish resource action ids => exact absurd this id
    | _ => rfl

theorem written_lift (h : History RepoCall RepoCall.Ans) :
    written (h.map (lift Op.repo)) = h.filterMap RepoCall.written? := by
  rw [written, List.filterMap_map]; rfl

theorem published_lift (h : History RepoCall RepoCall.Ans) : published (h.map (lift Op.repo)) = [] := by
  refine List.filterMap_eq_nil_iff.2 fun c hc => ?_
  obtain ⟨c, -, rfl⟩ := List.mem_map.1 hc
  rfl

end Seen

/-! ### What a request asks for -/

/-- A body as the handler sees it, checked and converted. -/
def payload {α β : Type} (validate : α → Checked Unit) (convert : α → β) (body : Except Response (Except AppError α)) :
    Option β :=
  match body with
  | .ok (.ok payload) => match validate payload with | .ok () => some (convert payload) | .error _ => none
  | _ => none

/-- What a form becomes. -/
def formPayload {α : Type} (into : HeroFormFields → Checked α) (form : Except Response HeroFormFields) : Option α :=
  form.toOption.bind fun fields => (into fields).toOption

namespace Request

variable (env : Env)

/-- The bearer token a request carries. -/
def token? : Request → Option String
  | api _ _ req => (bearerToken req.headers).toOption
  | web _ req => webToken req.headers (env.axum.tokenQuery req.query)
  | read _ => none

/-- The record a request addresses. -/
def target : Request → Option Int32
  | api _ .patch req | api _ .delete req => (env.axum.listQuery req.query).toOption.bind HeroListQuery.id
  | web .update req | web .delete req => (env.axum.pathId req.path).toOption
  | _ => none

/-- The action of the route. -/
def action (request : Request) : Option EventAction :=
  match request with
  | api _ .post _ | web .create _ => some .create
  | api _ .patch _ => some (if (request.target env).isSome then .update else .updateMany)
  | api _ .delete _ => some (if (request.target env).isSome then .delete else .deleteMany)
  | web .update _ => some .update
  | web .delete _ => some .delete
  | api _ .get _ | web .formPage _ | read _ => none

def createData : Request → Option HeroCreate
  | api server .post req =>
    payload server.router.validateCreate server.router.toCreate (server.router.createBody env req)
  | web .create req => formPayload HeroFormFields.intoHeroCreate (env.axum.form req)
  | _ => none

def updateData : Request → Option HeroUpdate
  | api server .patch req =>
    payload server.router.validateUpdate server.router.toUpdate (server.router.updateBody env req)
  | web .update req => formPayload HeroFormFields.intoHeroUpdate (env.axum.form req)
  | _ => none

/-- The write is the one asked for. -/
def Asks (request : Request) (op : WriteOp) : Prop :=
  request.action env = some op.action ∧
    match op with
    | .create _ data => request.createData env = some data
    | .update id _ data => request.target env = some id ∧ request.updateData env = some data
    | .updateMany _ data => request.updateData env = some data
    | .delete id _ => request.target env = some id
    | .deleteMany _ _ => True

/-- The id and the `If-Match` values of a conditional request. -/
def ifMatch : Request → Option (Int32 × List HeaderValue)
  | api _ .patch req | api _ .delete req =>
    if req.headers.ifMatch.isEmpty then none
    else ((env.axum.listQuery req.query).toOption.bind HeroListQuery.id).map fun id => (id, req.headers.ifMatch)
  | _ => none

end Request

/-! ### The specification -/

/-- The rows a write reaches are its owner's. -/
def WriteOp.Scoped (ownerId : String) : WriteOp → Prop
  | create owner _ | update _ owner _ | delete _ owner => owner = ownerId
  | updateMany filters _ | deleteMany filters _ => ownerClause ownerId ∈ filters

def WriteOp.roles : WriteOp → List String
  | delete .. | deleteMany .. => heroDeleteRoles
  | create .. | update .. | updateMany .. => heroWriteRoles

section Spec

variable (env : Env) (request : Request)

/-- The request carries a token that `decode_bearer_token` has accepted. -/
def Accepted (claims : Claims) (h : Seen) : Prop :=
  ∃ token seg, request.token? env = some token ∧ seg <+: h ∧
    (env.oidc.decodeBearerToken token).Returns seg (.ok claims)

/-- Its claims hold one of the roles and name the owner. -/
structure Granted (roles : List String) (ownerId : String) (h : Seen) : Prop where
  claims : ∃ claims, Accepted env request claims h ∧
    claims.requireAnyRole env.settings.oidcClientId roles = .ok () ∧ claims.subject = .ok ownerId
  rate : ∃ addr, ⟨Op.check heroWriteRateScope addr env.settings.rateLimitHeroWritePerMinute 60, .ok ()⟩ ∈ h

/-- A conditional request has found the record with a tag of the header, or has not found it. -/
def Guarded (h : Seen) : Prop :=
  ∀ id values, request.ifMatch env = some (id, values) →
    (∃ includeArchived hero, ⟨Op.repo (.get id includeArchived), .ok (some hero)⟩ ∈ h ∧
      env.crud.checkIfMatch values (env.crud.recordEtag hero) "Hero" = .ok ()) ∨
    ∃ includeArchived, ⟨Op.repo (.get id includeArchived), .ok none⟩ ∈ h

/-- Everything that is established before a write. -/
structure Entitled (op : WriteOp) (h : Seen) : Prop where
  asks : request.Asks env op
  granted : ∃ ownerId, op.Scoped ownerId ∧ Granted env request op.roles ownerId h
  guarded : Guarded env request h

/-- The announcement of a performed write. -/
def announcement (op : WriteOp) (answer : WriteAnswer) : Event := ⟨heroEventResource, op.action, op.reports answer⟩

def Permits (h : Seen) : Op → Prop
  | .repo (.write op) => h.Idle ∧ Entitled env request op h
  | .publish resource action ids =>
    h.published = [] ∧ ∃ op answer, h.written = [(op, answer)] ∧ announcement op answer = ⟨resource, action, ids⟩
  | _ => True

def Request.isWrite : Request → Bool
  | api _ .get _ | web .formPage _ | read _ => false
  | _ => true

def Request.isWeb : Request → Bool
  | web .. => true
  | _ => false

/-- The success response of a write route: 2xx, of the web router a redirect. -/
def Request.Succeeded (response : Response) : Prop :=
  if request.isWeb then response.status = 303 else response.isSuccess = true

/-- An error, or the web router's sign-in page for a missing token. -/
def Request.Refused (response : Response) : Prop :=
  response.isError = true ∨ request.isWeb = true ∧ request.token? env = none ∧ response = .html (.bootstrap none)

/-- Why a response may fail after the write: XML that cannot be encoded, a location that cannot be a
header value. -/
def Request.Botched : Prop :=
  if request.isWeb then ∃ token, request.token? env = some token ∧ HeaderValue.accepts (formLocation token) = false
  else ∃ root view err, env.xml.toStringWithRoot root view = .error err

/-- The write `op` was performed and announced. -/
structure Done (op : WriteOp) (h : Seen) : Prop where
  done : ∃ answer, h.written = [(op, answer)] ∧ h.published = [announcement op answer]
  entitled : Entitled env request op h

/-- How a request may end. -/
def Concluded (h : Seen) (response : Response) : Prop :=
  h.Idle ∧ (request.isWrite = true → request.Refused env response) ∨
    ∃ op, Done env request op h ∧
      (request.Succeeded response ∨ response.status = 500 ∧ request.Botched env)

end Spec

/-! ### What stays established -/

section Mono

variable {env : Env} {request : Request} {h h' : Seen}

theorem Accepted.append {claims : Claims} (ha : Accepted env request claims h) :
    Accepted env request claims (h ++ h') := by
  rcases ha with ⟨token, seg, htoken, hseg, hreturns⟩
  exact ⟨token, seg, htoken, hseg.trans (List.prefix_append h h'), hreturns⟩

theorem Granted.append {roles : List String} {ownerId : String} (hg : Granted env request roles ownerId h) :
    Granted env request roles ownerId (h ++ h') := by
  rcases hg with ⟨⟨claims, ha, hrest⟩, ⟨addr, hmem⟩⟩
  exact ⟨⟨claims, ha.append, hrest⟩, ⟨addr, List.mem_append_left _ hmem⟩⟩

theorem Guarded.append (hg : Guarded env request h) : Guarded env request (h ++ h') := by
  intro id values hif
  rcases hg id values hif with ⟨includeArchived, hero, hmem, hcheck⟩ | ⟨includeArchived, hmem⟩
  · exact .inl ⟨includeArchived, hero, List.mem_append_left _ hmem, hcheck⟩
  · exact .inr ⟨includeArchived, List.mem_append_left _ hmem⟩

theorem Entitled.append {op : WriteOp} (he : Entitled env request op h) : Entitled env request op (h ++ h') := by
  rcases he with ⟨hasks, ⟨ownerId, hscoped, hgranted⟩, hguarded⟩
  exact ⟨hasks, ⟨ownerId, hscoped, hgranted.append⟩, hguarded.append⟩

end Mono
end TemplateAxum
