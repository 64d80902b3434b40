import TemplateAxum.Permits

/-!
# Every handler meets the specification

First the steps that handlers share, each with the part of `Permits` and `Concluded` that it
establishes or keeps; then the handlers, which are these steps in order.
-/

namespace TemplateAxum

open Prog Seen

/-- The handler code left after `h` meets the specification. -/
def Meets (env : Env) (request : Request) (h : Seen) (p : Prog Op Op.Ans Response Response) : Prop :=
  Sat (Permits env request) (Concluded env request) (Concluded env request) h p

variable {env : Env} {request : Request} {h : Seen}

theorem Concluded.refused {response : Response} (hi : Idle h) (hr : request.Refused env response) :
    Concluded env request h response := .inl ⟨hi, fun _ => hr⟩

theorem Concluded.error {response : Response} (hi : Idle h) (hr : response.isError = true) :
    Concluded env request h response := .refused hi (.inl hr)

theorem Concluded.problem (hi : Idle h) (err : AppError) : Concluded env request h (env.problem err) :=
  .error hi (AppError.isError_intoResponse _ err)

/-! ### Shared steps -/

theorem permits_of_read {op : Op} (hop : World.IsRead op) : Permits env request h op := by
  cases op with
  | repo c =>
    cases c with
    | write op => exact absurd hop id
    | _ => trivial
  | publish resource action ids => exact absurd hop id
  | _ => trivial

/-- A program that only reads leaves the request idle. -/
theorem sat_reads {ε α : Type} {p : Prog Op Op.Ans ε α} (hp : p.Calls World.IsRead) (hi : Idle h) :
    Sat (Permits env request)
      (fun h' a => Idle h' ∧ ∃ seg, h' = h ++ seg ∧ p.Returns seg (.ok a))
      (fun h' e => Idle h' ∧ ∃ seg, h' = h ++ seg ∧ p.Returns seg (.error e)) h p := by
  refine (hp.sat_returns h).mono (fun _ _ hop => permits_of_read hop) ?_ ?_
  · rintro h' a ⟨seg, rfl, hret, hreads⟩
    exact ⟨hi.append (idle_of_reads hreads), seg, rfl, hret⟩
  · rintro h' e ⟨seg, rfl, hret, hreads⟩
    exact ⟨hi.append (idle_of_reads hreads), seg, rfl, hret⟩

theorem sat_decode {token : String} (htoken : request.token? env = some token) :
    Sat (Permits env request) (fun h claims => Idle h ∧ Accepted env request claims h) (fun h _ => Idle h) []
      (env.oidc.decodeBearerToken token) := by
  refine (sat_reads (env.oidc.decodeBearerToken_reads token) idle_nil).mono (fun _ _ hop => hop) ?_ ?_
  · rintro h claims ⟨hi, seg, heq, hret⟩
    exact ⟨hi, token, seg, htoken, heq ▸ List.prefix_rfl, hret⟩
  · rintro h e ⟨hi, -⟩
    exact hi

theorem sat_authClaims {headers : Headers} (htoken : request.token? env = (bearerToken headers).toOption) :
    Sat (Permits env request) (fun h claims => Idle h ∧ Accepted env request claims h) (fun h _ => Idle h) []
      (authClaims env.oidc headers) := by
  refine Sat.ofExcept_bind (fun _ _ => idle_nil) fun token heq => ?_
  refine sat_decode ?_
  rw [htoken, heq]
  rfl

theorem sat_checkRate {req : HttpRequest} (hi : Idle h) :
    Sat (Permits env request)
      (fun h' _ => Idle h' ∧
        h' = h ++ [⟨Op.check heroWriteRateScope req.addr env.settings.rateLimitHeroWritePerMinute 60, .ok ()⟩])
      (fun h' _ => Idle h') h (checkRate env req) := by
  let call : Op := .check heroWriteRateScope req.addr env.settings.rateLimitHeroWritePerMinute 60
  refine Sat.bind (Q := fun h' (answer : call.Ans) => Idle h' ∧ h' = h ++ [⟨call, answer⟩])
    ⟨trivial, fun answer => ⟨hi.append ⟨rfl, rfl⟩, rfl⟩⟩ ?_
  rintro h' answer ⟨hi', rfl⟩
  refine sat_ofExcept.2 ⟨?_, ?_⟩
  · rintro ⟨⟩ rfl
    exact ⟨hi', rfl⟩
  · rintro e -
    exact hi'

theorem Sat.orUnprocessable_bind {α β : Type} {r : Checked α} {f : α → Handler β}
    {Φ : Seen → Op → Prop} {Q : Seen → β → Prop} {E : Seen → AppError → Prop}
    (herr : ∀ errors, E h (.unprocessableEntity errors)) (hok : ∀ a, r = .ok a → Sat Φ Q E h (f a)) :
    Sat Φ Q E h (orUnprocessable r >>= f) := by
  refine Sat.ofExcept_bind ?_ ?_
  · intro e he
    cases r with
    | ok a => cases he
    | error errors => cases he; exact herr errors
  · intro a ha
    cases r with
    | ok a' => cases ha; exact hok a rfl
    | error errors => cases ha

/-- A program over the repository, as a step of a handler. -/
theorem sat_embed {ε α : Type} {p : Crud ε α} {Φ : History RepoCall RepoCall.Ans → RepoCall → Prop}
    {Q : History RepoCall RepoCall.Ans → α → Prop} {E : History RepoCall RepoCall.Ans → ε → Prop}
    (hp : Sat Φ Q E [] p) (h : Seen) :
    Sat (fun h' op => ∃ g c, h' = h ++ g.map (lift Op.repo) ∧ op = Op.repo c ∧ Φ g c)
      (fun h' a => ∃ g, h' = h ++ g.map (lift Op.repo) ∧ Q g a)
      (fun h' e => ∃ g, h' = h ++ g.map (lift Op.repo) ∧ E g e) h (p.embed Op.repo) := by
  have := @Sat.embed Op RepoCall Op.Ans ε α Op.repo p Φ Q E [] hp h
  rwa [List.map_nil, List.append_nil] at this

theorem idle_lift (hi : Idle h) {g : History RepoCall RepoCall.Ans} (hg : g.filterMap RepoCall.written? = []) :
    Idle (h ++ g.map (lift Op.repo)) :=
  hi.append ⟨by rw [written_lift, hg], published_lift g⟩

theorem sat_readCrud {ε α : Type} {p : Crud ε α} (hp : p.Calls fun c => ∀ op, c ≠ .write op) (hi : Idle h) :
    Sat (Permits env request) (fun h' _ => Idle h') (fun h' _ => Idle h') h (p.embed Op.repo) := by
  have hreads : ∀ g : History RepoCall RepoCall.Ans, (∀ c ∈ g, ∀ op, c.1 ≠ .write op) →
      g.filterMap RepoCall.written? = [] := by
    intro g hg
    refine List.filterMap_eq_nil_iff.2 ?_
    rintro ⟨c, answer⟩ hc
    cases c with
    | write op => exact absurd rfl (hg _ hc op)
    | _ => rfl
  refine (sat_embed (hp.sat_returns []) h).mono ?_ ?_ ?_
  · rintro h' op ⟨g, c, -, rfl, hc⟩
    cases c with
    | write op => exact absurd rfl (hc op)
    | _ => trivial
  · rintro h' a ⟨g, rfl, seg, rfl, -, hseg⟩
    exact idle_lift hi (hreads _ hseg)
  · rintro h' e ⟨g, rfl, seg, rfl, -, hseg⟩
    exact idle_lift hi (hreads _ hseg)

/-- A write by way of the CRUD crate, once the request is entitled to what the crate may call. -/
theorem sat_mutates {ε α : Type} {allowed : WriteOp → Prop} {result : WriteAnswer → α → Prop} {p : Crud ε α}
    (hp : Mutates allowed result p) (hi : Idle h)
    (hent : ∀ op, allowed op → Entitled env request op h) :
    Sat (Permits env request)
      (fun h' a => ∃ op answer, written h' = [(op, answer)] ∧ published h' = [] ∧ Entitled env request op h' ∧
        allowed op ∧ result answer a)
      (fun h' _ => Idle h') h (p.embed Op.repo) := by
  refine (sat_embed hp h).mono ?_ ?_ ?_
  · rintro h' op ⟨g, c, rfl, rfl, hc⟩
    cases c with
    | write op =>
      obtain ⟨hallowed, hg⟩ := hc op rfl
      exact ⟨idle_lift hi hg, (hent op hallowed).append⟩
    | _ => trivial
  · rintro h' a ⟨g, rfl, op, answer, hg, hallowed, hresult⟩
    refine ⟨op, answer, ?_, ?_, (hent op hallowed).append, hallowed, hresult⟩
    · rw [written_append, hi.written, written_lift, hg]; rfl
    · rw [published_append, hi.published, published_lift]; rfl
  · rintro h' e ⟨g, rfl, hg⟩
    exact idle_lift hi hg

/-- `hero_crud.create` and the by-id methods are one write. -/
theorem mutates_call {ε α : Type} {op : WriteOp} {k : Except RepoError op.Result → Crud ε α}
    {result : WriteAnswer → α → Prop} (hfail : ∀ e, ∃ e', k (.error e) = raise e')
    (hdone : ∀ r, (op.pack r).performed = true → ∃ a, k (.ok r) = ret a ∧ result (op.pack r) a)
    (hmiss : ∀ r, (op.pack r).performed = false → ∃ e, k (.ok r) = raise e) :
    Mutates (fun o => o = op) result (.call (.write op) k) := by
  refine ⟨?_, ?_⟩
  · rintro o ho
    cases ho
    exact ⟨rfl, rfl⟩
  · rintro (e | r)
    · obtain ⟨e', hk⟩ := hfail e
      rw [hk]
      exact rfl
    · cases hr : (op.pack r).performed with
      | true =>
        obtain ⟨a, hk, hresult⟩ := hdone r hr
        rw [hk]
        exact ⟨op, op.pack r, by simp [RepoCall.written?, hr], rfl, hresult⟩
      | false =>
        obtain ⟨e, hk⟩ := hmiss r hr
        rw [hk]
        show List.filterMap _ _ = _
        simp [RepoCall.written?, hr]

theorem mutates_create (ownerId : String) (data : HeroCreate) :
    Mutates (fun op => op = .create ownerId data) (fun answer hero => answer = .hero (some hero))
      (Crud.write (.create ownerId data)) := by
  refine mutates_call (fun e => ⟨e, rfl⟩) (fun hero _ => ⟨hero, rfl, rfl⟩) fun hero h => ?_
  cases h

theorem mutates_updateById (notFound : String) (id : Int32) (ownerId : String) (data : HeroUpdate) :
    Mutates (fun op => op = .update id ownerId data) (fun answer hero => answer = .hero (some hero))
      (Crud.resolveUpdateById notFound id ownerId data) := by
  refine mutates_call (fun e => ⟨.internal e.message, rfl⟩) ?_ ?_
  · rintro (_ | hero) h
    · cases h
    · exact ⟨hero, rfl, rfl⟩
  · rintro (_ | hero) h
    · exact ⟨_, rfl⟩
    · cases h

theorem sat_publish {ε : Type} {op : WriteOp} {answer : WriteAnswer} {action : EventAction} {ids : List Int32}
    (hw : written h = [(op, answer)]) (hp : published h = []) (haction : op.action = action)
    (hids : op.reports answer = ids) (hent : Entitled env request op h) (E : Seen → ε → Prop) :
    Sat (Permits env request) (fun h' _ => Done env request op h') E h (publish action ids) := by
  have hann : announcement op answer = ⟨heroEventResource, action, ids⟩ := by rw [announcement, haction, hids]
  refine ⟨⟨hp, op, answer, hw, hann⟩, fun _ => ⟨⟨answer, ?_, ?_⟩, hent.append⟩⟩
  · rw [written_append, hw]; rfl
  · rw [published_append, hp, hann]; rfl

/-- Only the record itself is looked up, and only for a conditional request. -/
theorem sat_enforceIfMatch (hcrud : env.crud.Documented) {headers : Headers} {id : Option Int32}
    (rawParams : List (String × String)) (hi : Idle h)
    (hif : request.ifMatch env = if headers.ifMatch.isEmpty then none else id.map fun id => (id, headers.ifMatch)) :
    Sat (Permits env request) (fun h' _ => Idle h' ∧ h <+: h' ∧ Guarded env request h') (fun h' _ => Idle h') h
      (enforceIfMatch env headers id rawParams) := by
  have unguarded : request.ifMatch env = none → Guarded env request h := by
    intro hnone id values hsome
    rw [hnone] at hsome
    cases hsome
  cases id with
  | none =>
    refine ⟨hi, List.prefix_rfl, unguarded ?_⟩
    rw [hif]
    split <;> rfl
  | some id =>
    unfold enforceIfMatch
    dsimp only
    split
    · rename_i hempty
      rw [if_pos hempty] at hif
      exact ⟨hi, List.prefix_rfl, unguarded hif⟩
    · rename_i hheader
      rw [if_neg hheader, Option.map_some] at hif
      refine Sat.orUnprocessable_bind (fun _ => hi) fun includeArchived _ => ?_
      let call : RepoCall := .get id includeArchived
      refine Sat.bind (Q := fun h' (found : Option Model) => h' = h ++ [⟨Op.repo call, .ok found⟩]) ?_ ?_
      · rw [hcrud.get_eq]
        refine ⟨trivial, ?_⟩
        rintro (e | found)
        · exact hi.append ⟨rfl, rfl⟩
        · exact rfl
      · rintro h' found rfl
        have hi' : Idle (h ++ [⟨Op.repo call, .ok found⟩]) := hi.append ⟨rfl, rfl⟩
        have hmem : ⟨Op.repo call, .ok found⟩ ∈ h ++ [⟨Op.repo call, .ok found⟩] :=
          List.mem_append_right _ (List.mem_singleton.2 rfl)
        cases found with
        | none =>
          refine ⟨hi', List.prefix_append _ _, fun id' values hif' => .inr ⟨includeArchived, ?_⟩⟩
          cases hif.symm.trans hif'
          exact hmem
        | some hero =>
          refine sat_ofExcept.2 ⟨?_, fun e _ => hi'⟩
          rintro ⟨⟩ hcheck
          refine ⟨hi', List.prefix_append _ _, fun id' values hif' => .inl ⟨includeArchived, hero, ?_, ?_⟩⟩
          · cases hif.symm.trans hif'
            exact hmem
          · cases hif.symm.trans hif'
            cases hc : env.crud.checkIfMatch headers.ifMatch (env.crud.recordEtag hero) "Hero" with
            | ok u => rfl
            | error e => rw [hc] at hcheck; cases hcheck

/-! ### The JSON and XML routers -/

section Api

variable {server : Api} {req : HttpRequest}

theorem Api.respond_ok {root : String} {view : View} {response : Response}
    (h : server.router.respond env root view = .ok response) : response.status = 200 := by
  have xml : xmlResponse env root view = .ok response → response.status = 200 := by
    unfold xmlResponse
    intro h
    split at h
    · cases h; rfl
    · cases h
  cases server with
  | v2Json => cases h; rfl
  | v2Xml => exact xml h
  | v1Json => cases h; rfl
  | v1Xml => exact xml h

theorem Api.respond_error {root : String} {view : View} {e : AppError}
    (h : server.router.respond env root view = .error e) :
    (∃ msg, e = .internal msg) ∧ ∃ root view err, env.xml.toStringWithRoot root view = .error err := by
  have xml : xmlResponse env root view = .error e →
      (∃ msg, e = .internal msg) ∧ ∃ root view err, env.xml.toStringWithRoot root view = .error err := by
    unfold xmlResponse
    intro h
    split at h
    · cases h
    · rename_i err herr
      cases h
      exact ⟨⟨_, rfl⟩, root, view, err, herr⟩
  cases server with
  | v2Json => cases h
  | v2Xml => exact xml h
  | v1Json => cases h
  | v1Xml => exact xml h

theorem Api.status_withSunset (response : Response) : (server.router.withSunset response).status = response.status := by
  cases server <;> rfl

theorem rejects_map {α β : Type} {extract : HttpRequest → Except Response α} (hr : Rejects extract) {f : α → β}
    {response : Response} (h : (extract req).map f = .error response) : response.isError = true := by
  cases hx : extract req with
  | ok a => rw [hx] at h; cases h
  | error response' => rw [hx] at h; cases h; exact hr req _ hx

theorem Api.rejects_createBody (haxum : env.axum.Documented) {response : Response}
    (h : server.router.createBody env req = .error response) : response.isError = true := by
  cases server with
  | v2Json => exact rejects_map haxum.jsonHeroCreate h
  | v2Xml => exact rejects_map haxum.bytes h
  | v1Json => exact rejects_map haxum.jsonHeroCreateV1 h
  | v1Xml => exact rejects_map haxum.bytes h

theorem Api.rejects_updateBody (haxum : env.axum.Documented) {response : Response}
    (h : server.router.updateBody env req = .error response) : response.isError = true := by
  cases server with
  | v2Json => exact rejects_map haxum.jsonHeroUpdate h
  | v2Xml => exact rejects_map haxum.bytes h
  | v1Json => exact rejects_map haxum.jsonHeroUpdateV1 h
  | v1Xml => exact rejects_map haxum.bytes h

/-- The response after the write. -/
theorem sat_respond {m : Method} {op : WriteOp} {root : String} {view : View} {finish : Response → Response}
    (hd : Done env (.api server m req) op h)
    (hs : ∀ response, response.status = 200 → (finish response).isSuccess = true) :
    Sat (Permits env (.api server m req)) (Concluded env (.api server m req))
      (fun h e => Concluded env (.api server m req) h (env.problem e)) h
      (do
        let response ← ofExcept (server.router.respond env root view)
        pure (server.router.withSunset (finish response))) := by
  refine Sat.ofExcept_bind ?_ ?_
  · intro e he
    obtain ⟨⟨msg, rfl⟩, hbotched⟩ := Api.respond_error he
    exact .inr ⟨op, hd, .inr ⟨rfl, hbotched⟩⟩
  · intro response hok
    refine .inr ⟨op, hd, .inl ?_⟩
    show (server.router.withSunset (finish response)).isSuccess = true
    have := hs response (Api.respond_ok hok)
    unfold Response.isSuccess at this ⊢
    rwa [Api.status_withSunset]

theorem isSuccess_of_status {response : Response} {status : Nat} (h : response.status = status)
    (hs : (200 ≤ status && status < 300) = true) : response.isSuccess = true := by
  rw [Response.isSuccess, h]; exact hs

theorem sat_authenticate {m : Method} :
    Sat (Permits env (.api server m req)) (fun h claims => Idle h ∧ Accepted env (.api server m req) claims h)
      (Concluded env (.api server m req)) [] ((authClaims env.oidc req.headers).mapError env.problem) :=
  sat_mapError.2 ((sat_authClaims rfl).mono (fun _ _ hop => hop) (fun _ _ hq => hq) fun _ e hi => .problem hi e)

theorem meets_create (hcrud : env.crud.Documented) (haxum : env.axum.Documented) :
    Meets env (.api server .post req) [] (server.router.create env req) := by
  refine sat_authenticate.bind ?_
  rintro h claims ⟨hi, hacc⟩
  refine Sat.ofExcept_bind (fun _ he => .error hi (Api.rejects_createBody haxum he)) fun body hbody => ?_
  refine sat_mapError.2 (Sat.bind ((sat_checkRate hi).mono (fun _ _ hop => hop) (fun _ _ hq => hq)
    fun _ e hi => .problem hi e) ?_)
  rintro _ _ ⟨hi, rfl⟩
  refine Sat.ofExcept_bind (fun e _ => .problem hi e) fun _ hrole => ?_
  refine Sat.ofExcept_bind (fun e _ => .problem hi e) fun data hdata => ?_
  refine Sat.orUnprocessable_bind (fun _ => .problem hi _) fun _ hvalid => ?_
  refine Sat.ofExcept_bind (fun e _ => .problem hi e) fun ownerId hsub => ?_
  have hpayload : (Request.api server .post req).createData env = some (server.router.toCreate data) := by
    simp only [Request.createData, payload, hbody, hdata, hvalid]
  rw [hcrud.create_eq]
  refine Sat.bind (sat_mapError.2 ((sat_mutates (mutates_create ownerId _) hi ?_).mono (fun _ _ hop => hop)
    (fun _ _ hq => hq) fun _ e hi => .problem hi _)) ?_
  · rintro op rfl
    refine ⟨⟨rfl, hpayload⟩, ⟨ownerId, rfl, ⟨⟨claims, hacc.append, hrole, hsub⟩, ⟨req.addr, ?_⟩⟩⟩, ?_⟩
    · exact List.mem_append_right _ (List.mem_singleton.2 rfl)
    · rintro id values hif
      cases hif
  · rintro h' hero ⟨op, answer, hw, hp, hent, rfl, rfl⟩
    refine Sat.bind (sat_publish hw hp rfl rfl hent _) ?_
    intro h'' _ hd
    exact sat_respond hd fun response _ => rfl

theorem meets_update (hcrud : env.crud.Documented) (haxum : env.axum.Documented) :
    Meets env (.api server .patch req) [] (server.router.update env req) := by
  refine sat_authenticate.bind ?_
  rintro h claims ⟨hi, hacc⟩
  refine Sat.ofExcept_bind (fun _ he => .error hi (haxum.listQuery _ _ he)) fun query hquery => ?_
  refine Sat.ofExcept_bind (fun _ he => .error hi (haxum.rawParams _ _ he)) fun rawParams _ => ?_
  refine Sat.ofExcept_bind (fun _ he => .error hi (Api.rejects_updateBody haxum he)) fun body hbody => ?_
  refine sat_mapError.2 (Sat.bind ((sat_checkRate hi).mono (fun _ _ hop => hop) (fun _ _ hq => hq)
    fun _ e hi => .problem hi e) ?_)
  rintro h₁ _ ⟨hi₁, hh₁⟩
  refine Sat.ofExcept_bind (fun e _ => .problem hi₁ e) fun _ hrole => ?_
  refine Sat.ofExcept_bind (fun e _ => .problem hi₁ e) fun data hdata => ?_
  refine Sat.orUnprocessable_bind (fun _ => .problem hi₁ _) fun _ hvalid => ?_
  refine Sat.orUnprocessable_bind (fun _ => .problem hi₁ _) fun filters _ => ?_
  refine Sat.orUnprocessable_bind (fun _ => .problem hi₁ _) fun _ _ => ?_
  refine Sat.ofExcept_bind (fun e _ => .problem hi₁ e) fun ownerId hsub => ?_
  have htarget : (Request.api server .patch req).target env = query.id := by
    simp only [Request.target, hquery]; rfl
  have hpayload : (Request.api server .patch req).updateData env = some (server.router.toUpdate data) := by
    simp only [Request.updateData, payload, hbody, hdata, hvalid]
  have hif : (Request.api server .patch req).ifMatch env =
      if req.headers.ifMatch.isEmpty then none else query.id.map fun id => (id, req.headers.ifMatch) := by
    simp only [Request.ifMatch, hquery]; rfl
  refine Sat.bind ((sat_enforceIfMatch hcrud rawParams hi₁ hif).mono (fun _ _ hop => hop) (fun _ _ hq => hq)
    fun _ e hi => .problem hi e) ?_
  rintro h₂ _ ⟨hi₂, ⟨g, rfl⟩, hguarded⟩
  have hgranted : Granted env (.api server .patch req) heroWriteRoles ownerId (h₁ ++ g) := by
    refine Granted.append ⟨⟨claims, hh₁ ▸ hacc.append, hrole, hsub⟩, ⟨req.addr, ?_⟩⟩
    rw [hh₁]
    exact List.mem_append_right _ (List.mem_singleton.2 rfl)
  cases hid : query.id with
  | some id =>
    have hop : ∀ op, op = .update id ownerId (server.router.toUpdate data) →
        Entitled env (.api server .patch req) op (h₁ ++ g) := by
      rintro op rfl
      refine ⟨⟨?_, htarget.trans hid, hpayload⟩, ⟨ownerId, rfl, hgranted⟩, hguarded⟩
      simp only [Request.action, htarget, hid]; rfl
    refine Sat.bind (sat_mapError.2 ((sat_mutates (hcrud.resolveUpdate_byId id ownerId filters _ _) hi₂ hop).mono
      (fun _ _ hop => hop) (fun _ _ hq => hq) fun _ e hi => .problem hi _)) ?_
    rintro h₃ outcome ⟨op, answer, hw, hp, hent, rfl, hero, rfl, rfl⟩
    refine Sat.bind (sat_publish hw hp rfl rfl hent _) ?_
    intro h₄ _ hd
    refine sat_respond hd fun response hstatus => ?_
    exact isSuccess_of_status ((Response.withHeader_of_accepts (hcrud.recordEtag_accepts hero) _).trans hstatus) rfl
  | none =>
    have hop : ∀ op, (∃ clauses, op = .updateMany clauses (server.router.toUpdate data) ∧
        ownerClause ownerId ∈ clauses ∧ filters ⊆ clauses) → Entitled env (.api server .patch req) op (h₁ ++ g) := by
      rintro op ⟨clauses, rfl, howner, -⟩
      refine ⟨⟨?_, hpayload⟩, ⟨ownerId, howner, hgranted⟩, hguarded⟩
      simp only [Request.action, htarget, hid]; rfl
    refine Sat.bind (sat_mapError.2 ((sat_mutates (hcrud.resolveUpdate_bulk ownerId filters _ _) hi₂ hop).mono
      (fun _ _ hop => hop) (fun _ _ hq => hq) fun _ e hi => .problem hi _)) ?_
    rintro h₃ outcome ⟨op, answer, hw, hp, hent, ⟨clauses, rfl, -⟩, result, rfl, heroes, rfl, hids⟩
    refine Sat.bind (sat_publish hw hp rfl hids.symm hent _) ?_
    intro h₄ _ hd
    exact sat_respond hd fun response hstatus => isSuccess_of_status hstatus rfl

theorem meets_deleteHero (hcrud : env.crud.Documented) (haxum : env.axum.Documented) :
    Meets env (.api server .delete req) [] (server.router.deleteHero env req) := by
  refine sat_authenticate.bind ?_
  rintro h claims ⟨hi, hacc⟩
  refine Sat.ofExcept_bind (fun _ he => .error hi (haxum.listQuery _ _ he)) fun query hquery => ?_
  refine Sat.ofExcept_bind (fun _ he => .error hi (haxum.rawParams _ _ he)) fun rawParams _ => ?_
  refine sat_mapError.2 (Sat.bind ((sat_checkRate hi).mono (fun _ _ hop => hop) (fun _ _ hq => hq)
    fun _ e hi => .problem hi e) ?_)
  rintro h₁ _ ⟨hi₁, hh₁⟩
  refine Sat.ofExcept_bind (fun e _ => .problem hi₁ e) fun _ hrole => ?_
  refine Sat.orUnprocessable_bind (fun _ => .problem hi₁ _) fun filters _ => ?_
  refine Sat.orUnprocessable_bind (fun _ => .problem hi₁ _) fun _ _ => ?_
  refine Sat.orUnprocessable_bind (fun _ => .problem hi₁ _) fun includeUnpublished _ => ?_
  refine Sat.ofExcept_bind (fun e _ => .problem hi₁ e) fun ownerId hsub => ?_
  have htarget : (Request.api server .delete req).target env = query.id := by
    simp only [Request.target, hquery]; rfl
  have hif : (Request.api server .delete req).ifMatch env =
      if req.headers.ifMatch.isEmpty then none else query.id.map fun id => (id, req.headers.ifMatch) := by
    simp only [Request.ifMatch, hquery]; rfl
  refine Sat.bind ((sat_enforceIfMatch hcrud rawParams hi₁ hif).mono (fun _ _ hop => hop) (fun _ _ hq => hq)
    fun _ e hi => .problem hi e) ?_
  rintro h₂ _ ⟨hi₂, ⟨g, rfl⟩, hguarded⟩
  have hgranted : Granted env (.api server .delete req) heroDeleteRoles ownerId (h₁ ++ g) := by
    refine Granted.append ⟨⟨claims, hh₁ ▸ hacc.append, hrole, hsub⟩, ⟨req.addr, ?_⟩⟩
    rw [hh₁]
    exact List.mem_append_right _ (List.mem_singleton.2 rfl)
  cases hid : query.id with
  | some id =>
    have hop : ∀ op, op = .delete id ownerId → Entitled env (.api server .delete req) op (h₁ ++ g) := by
      rintro op rfl
      refine ⟨⟨?_, htarget.trans hid⟩, ⟨ownerId, rfl, hgranted⟩, hguarded⟩
      simp only [Request.action, htarget, hid]; rfl
    refine Sat.bind (sat_mapError.2 ((sat_mutates (hcrud.resolveDelete_byId id ownerId filters _ _) hi₂ hop).mono
      (fun _ _ hop => hop) (fun _ _ hq => hq) fun _ e hi => .problem hi _)) ?_
    rintro h₃ outcome ⟨op, answer, hw, hp, hent, rfl, rfl, rfl⟩
    refine Sat.bind (sat_publish hw hp rfl rfl hent _) ?_
    intro h₄ _ hd
    refine .inr ⟨_, hd, .inl ?_⟩
    exact isSuccess_of_status (Api.status_withSunset _) rfl
  | none =>
    have hop : ∀ op, (∃ clauses unpublished, op = .deleteMany clauses unpublished ∧
        ownerClause ownerId ∈ clauses ∧ filters ⊆ clauses) → Entitled env (.api server .delete req) op (h₁ ++ g) := by
      rintro op ⟨clauses, unpublished, rfl, howner, -⟩
      refine ⟨⟨?_, trivial⟩, ⟨ownerId, howner, hgranted⟩, hguarded⟩
      simp only [Request.action, htarget, hid]; rfl
    refine Sat.bind (sat_mapError.2 ((sat_mutates (hcrud.resolveDelete_bulk ownerId filters _ _) hi₂ hop).mono
      (fun _ _ hop => hop) (fun _ _ hq => hq) fun _ e hi => .problem hi _)) ?_
    rintro h₃ outcome ⟨op, answer, hw, hp, hent, ⟨clauses, unpublished, rfl, -⟩, result, rfl, heroes, rfl, hids⟩
    refine Sat.bind (sat_publish hw hp rfl hids.symm hent _) ?_
    intro h₄ _ hd
    exact sat_respond hd fun response hstatus => isSuccess_of_status hstatus rfl

theorem meets_listOrGet (hcrud : env.crud.Documented) :
    Meets env (.api server .get req) [] (server.router.listOrGet env req) := by
  have idle : ∀ {h : Seen} {response : Response}, Idle h → Concluded env (.api server .get req) h response :=
    fun hi => .inl ⟨hi, fun hw => by cases hw⟩
  refine sat_authenticate.bind ?_
  rintro h claims ⟨hi, -⟩
  refine Sat.ofExcept_bind (fun _ _ => idle hi) fun query _ => ?_
  refine Sat.ofExcept_bind (fun _ _ => idle hi) fun rawParams _ => sat_mapError.2 ?_
  refine Sat.ofExcept_bind (fun _ _ => idle hi) fun _ _ => ?_
  refine Sat.orUnprocessable_bind (fun _ => idle hi) fun archived _ => ?_
  refine Sat.orUnprocessable_bind (fun _ => idle hi) fun filters _ => ?_
  refine Sat.orUnprocessable_bind (fun _ => idle hi) fun sort _ => ?_
  refine Sat.bind (sat_mapError.2 ((sat_readCrud (hcrud.resolveListOrGet_reads _ _ _ _ _ _) hi).mono
    (fun _ _ hop => hop) (fun _ _ hq => hq) fun _ e hi => idle hi)) ?_
  intro h result hi
  dsimp only
  split
  · exact idle hi
  · exact Sat.ofExcept_bind (fun _ _ => idle hi) fun _ _ => idle hi

end Api
/-! ### The web router -/

section Web

variable {route : WebRoute} {req : HttpRequest}

/-- The claims of a web request, or what is answered instead. -/
def Identified (env : Env) (request : Request) (h : Seen) : Except Response WebAuthClaims → Prop
  | .ok auth => request.token? env = some auth.token ∧ Accepted env request auth.claims h
  | .error response => request.Refused env response

theorem sat_claims {E : Seen → Response → Prop} :
    Sat (Permits env (.web route req)) (fun h auth => Idle h ∧ Identified env (.web route req) h auth) E []
      (HeroesWeb.claims env req) := by
  unfold HeroesWeb.claims webAuthClaims
  cases htoken : webToken req.headers (env.axum.tokenQuery req.query) with
  | none => exact ⟨idle_nil, .inr ⟨rfl, htoken, rfl⟩⟩
  | some token =>
    have hcarried : (Request.web route req).token? env = some token := htoken
    refine sat_bind.2 (sat_attempt.2 ((sat_decode hcarried).mono (fun _ _ hop => hop) ?_ ?_))
    · rintro h claims ⟨hi, hacc⟩
      exact ⟨hi, hcarried, hacc⟩
    · intro h e hi
      exact ⟨hi, .inl rfl⟩

/-- The response after the write. -/
theorem concluded_redirect (haxum : env.axum.Documented) {op : WriteOp} {token : String}
    (hd : Done env (.web route req) op h) (htoken : (Request.web route req).token? env = some token) :
    Concluded env (.web route req) h (env.axum.redirectTo (formLocation token)) := by
  cases hloc : HeaderValue.accepts (formLocation token) with
  | true =>
    refine .inr ⟨op, hd, .inl ?_⟩
    rw [haxum.redirectTo_ok _ hloc]
    exact rfl
  | false => exact .inr ⟨op, hd, .inr ⟨haxum.redirectTo_err _ hloc, token, htoken, hloc⟩⟩

theorem guarded_web : Guarded env (.web route req) h := by
  intro id values hif
  cases hif

/-- The part of a write handler before the payload is looked at. -/
theorem sat_grant {α : Type} {auth : WebAuthClaims} {roles : List String} {rest : Handler α}
    {Q : Seen → α → Prop} (hi : Idle h) (hacc : Accepted env (.web route req) auth.claims h)
    (hrest : ∀ h', Idle h' → (∀ ownerId, auth.claims.subject = .ok ownerId →
        Granted env (.web route req) roles ownerId h') →
      Sat (Permits env (.web route req)) Q (fun h e => Concluded env (.web route req) h (env.problem e)) h' rest) :
    Sat (Permits env (.web route req)) Q (fun h e => Concluded env (.web route req) h (env.problem e)) h
      (do
        checkRate env req
        ofExcept (auth.claims.requireAnyRole env.settings.oidcClientId roles)
        rest) := by
  refine Sat.bind ((sat_checkRate hi).mono (fun _ _ hop => hop) (fun _ _ hq => hq) fun _ e hi => .problem hi e) ?_
  rintro _ _ ⟨hi, rfl⟩
  refine Sat.ofExcept_bind (fun e _ => .problem hi e) fun _ hrole => hrest _ hi fun ownerId hsub => ?_
  exact ⟨⟨auth.claims, hacc.append, hrole, hsub⟩, req.addr, List.mem_append_right _ (List.mem_singleton.2 rfl)⟩

theorem meets_webCreate (hcrud : env.crud.Documented) (haxum : env.axum.Documented) :
    Meets env (.web .create req) [] (HeroesWeb.create env req) := by
  refine sat_claims.bind ?_
  rintro h auth ⟨hi, hauth⟩
  refine Sat.ofExcept_bind (fun _ he => .error hi (haxum.form _ _ he)) fun fields hfields => ?_
  refine Sat.ofExcept_bind ?_ ?_
  · rintro response rfl
    exact .refused hi hauth
  rintro auth rfl
  obtain ⟨htoken, hacc⟩ := hauth
  refine sat_mapError.2 (sat_grant hi hacc fun h hi hgranted => ?_)
  refine Sat.orUnprocessable_bind (fun _ => .problem hi _) fun data hdata => ?_
  refine Sat.ofExcept_bind (fun e _ => .problem hi e) fun ownerId hsub => ?_
  have hpayload : (Request.web .create req).createData env = some data := by
    simp only [Request.createData, formPayload, hfields]
    show (fields.intoHeroCreate).toOption = _
    rw [hdata]; rfl
  rw [hcrud.create_eq]
  refine Sat.bind (sat_mapError.2 ((sat_mutates (mutates_create ownerId data) hi ?_).mono (fun _ _ hop => hop)
    (fun _ _ hq => hq) fun _ e hi => .problem hi _)) ?_
  · rintro op rfl
    exact ⟨⟨rfl, hpayload⟩, ⟨ownerId, rfl, hgranted ownerId hsub⟩, guarded_web⟩
  · rintro h' hero ⟨op, answer, hw, hp, hent, rfl, rfl⟩
    refine Sat.bind (sat_publish hw hp rfl rfl hent _) ?_
    intro h'' _ hd
    exact concluded_redirect haxum hd htoken

theorem meets_webUpdate (hcrud : env.crud.Documented) (haxum : env.axum.Documented) :
    Meets env (.web .update req) [] (HeroesWeb.update env req) := by
  refine Sat.ofExcept_bind (fun _ he => .error idle_nil (haxum.pathId _ _ he)) fun id hid => ?_
  refine sat_claims.bind ?_
  rintro h auth ⟨hi, hauth⟩
  refine Sat.ofExcept_bind (fun _ he => .error hi (haxum.form _ _ he)) fun fields hfields => ?_
  refine Sat.ofExcept_bind ?_ ?_
  · rintro response rfl
    exact .refused hi hauth
  rintro auth rfl
  obtain ⟨htoken, hacc⟩ := hauth
  have htarget : (Request.web .update req).target env = some id := by
    simp only [Request.target, hid]; rfl
  refine Sat.bind (Q := fun h (p : HeroUpdate × String) => Idle h ∧
      (Request.web .update req).updateData env = some p.1 ∧ Granted env (.web .update req) heroWriteRoles p.2 h)
    (sat_mapError.2 (sat_grant hi hacc fun h hi hgranted => ?_)) ?_
  · refine Sat.orUnprocessable_bind (fun _ => .problem hi _) fun data hdata => ?_
    refine Sat.ofExcept_bind (fun e _ => .problem hi e) fun ownerId hsub => ⟨hi, ?_, hgranted ownerId hsub⟩
    simp only [Request.updateData, formPayload, hfields]
    show (fields.intoHeroUpdate).toOption = _
    rw [hdata]; rfl
  rintro h ⟨data, ownerId⟩ ⟨hi, hpayload, hgranted⟩
  obtain ⟨notFound, heq⟩ := hcrud.resolveUpdateById_eq
  dsimp only
  rw [heq]
  refine Sat.bind (sat_mapError.2 ((sat_mutates (mutates_updateById notFound id ownerId data) hi ?_).mono
    (fun _ _ hop => hop) (fun _ _ hq => hq) fun _ e hi => .error hi (hcrud.errorResponse_isError e))) ?_
  · rintro op rfl
    exact ⟨⟨rfl, htarget, hpayload⟩, ⟨ownerId, rfl, hgranted⟩, guarded_web⟩
  · rintro h' hero ⟨op, answer, hw, hp, hent, rfl, rfl⟩
    refine Sat.bind (sat_publish hw hp rfl rfl hent _) ?_
    intro h'' _ hd
    exact concluded_redirect haxum hd htoken

theorem meets_webDelete (hcrud : env.crud.Documented) (haxum : env.axum.Documented) :
    Meets env (.web .delete req) [] (HeroesWeb.delete env req) := by
  refine Sat.ofExcept_bind (fun _ he => .error idle_nil (haxum.pathId _ _ he)) fun id hid => ?_
  refine sat_claims.bind ?_
  rintro h auth ⟨hi, hauth⟩
  refine Sat.ofExcept_bind ?_ ?_
  · rintro response rfl
    exact .refused hi hauth
  rintro auth rfl
  obtain ⟨htoken, hacc⟩ := hauth
  have htarget : (Request.web .delete req).target env = some id := by
    simp only [Request.target, hid]; rfl
  refine Sat.bind (Q := fun h (ownerId : String) => Idle h ∧ Granted env (.web .delete req) heroDeleteRoles ownerId h)
    (sat_mapError.2 (sat_grant hi hacc fun h hi hgranted => ?_)) ?_
  · exact sat_ofExcept.2 ⟨fun ownerId hsub => ⟨hi, hgranted ownerId hsub⟩, fun e _ => .problem hi e⟩
  rintro h ownerId ⟨hi, hgranted⟩
  refine Sat.bind (sat_mapError.2 ((sat_mutates (hcrud.resolveDelete_byId id ownerId [] _ _) hi ?_).mono
    (fun _ _ hop => hop) (fun _ _ hq => hq) fun _ e hi => .error hi (hcrud.errorResponse_isError e))) ?_
  · rintro op rfl
    exact ⟨⟨rfl, htarget⟩, ⟨ownerId, rfl, hgranted⟩, guarded_web⟩
  · rintro h' outcome ⟨op, answer, hw, hp, hent, rfl, rfl, rfl⟩
    refine Sat.bind (sat_publish hw hp rfl rfl hent _) ?_
    intro h'' _ hd
    exact concluded_redirect haxum hd htoken

theorem meets_formPage (hcrud : env.crud.Documented) :
    Meets env (.web .formPage req) [] (HeroesWeb.formPage env req) := by
  have idle : ∀ {h : Seen} {response : Response}, Idle h → Concluded env (.web .formPage req) h response :=
    fun hi => .inl ⟨hi, fun hw => by cases hw⟩
  refine sat_claims.bind ?_
  rintro h auth ⟨hi, -⟩
  refine Sat.ofExcept_bind (fun _ _ => idle hi) fun auth _ => sat_mapError.2 ?_
  refine Sat.ofExcept_bind (fun _ _ => idle hi) fun _ _ => ?_
  refine Sat.bind (sat_mapError.2 ((sat_readCrud (hcrud.list_reads _) hi).mono
    (fun _ _ hop => hop) (fun _ _ hq => hq) fun _ e hi => idle hi)) ?_
  intro h heroes hi
  exact idle hi

end Web

/-! ### All requests -/

theorem meets_serve (hcrud : env.crud.Documented) (haxum : env.axum.Documented) (request : Request) :
    Meets env request [] (request.serve env) := by
  cases request with
  | api server m req =>
    cases m with
    | get => exact meets_listOrGet hcrud
    | post => exact meets_create hcrud haxum
    | patch => exact meets_update hcrud haxum
    | delete => exact meets_deleteHero hcrud haxum
  | web route req =>
    cases route with
    | formPage => exact meets_formPage hcrud
    | create => exact meets_webCreate hcrud haxum
    | update => exact meets_webUpdate hcrud haxum
    | delete => exact meets_webDelete hcrud haxum
  | read handler =>
    refine (sat_reads handler.reads idle_nil).mono (fun _ _ hop => hop) ?_ ?_
    · rintro h response ⟨hi, -⟩
      exact .inl ⟨hi, fun hw => by cases hw⟩
    · rintro h response ⟨hi, -⟩
      exact .inl ⟨hi, fun hw => by cases hw⟩

theorem sat_handle (hcrud : env.crud.Documented) (haxum : env.axum.Documented) (request : Request) :
    Sat (Permits env request) (Concluded env request) (fun _ _ => False) [] (request.handle env) :=
  sat_bind.2 (sat_attempt.2 (meets_serve hcrud haxum request))

end TemplateAxum
