import TemplateAxum.AllOrNothing

/-!
# Conditional writes

`If-Match` is checked by one repository call and the write is another. What can happen in between: a
record that the check did not find can only come to be by a `create`. A step is `Clear` when it does
not create such a record, and over a run of clear steps a conditional write that succeeds has found
its record with one of the tags. A `412` changes nothing, whatever the run.
-/

namespace TemplateAxum

open Prog Seen

variable [Lowercase] {env : Env}

/-! ### Looking a record up -/

theorem HeroSeaOrmRepository.get_eq {db : Table} (hk : db.Keyed) (id : Int32) (includeArchived : Bool) :
    HeroSeaOrmRepository.get id includeArchived db =
      (db.get? id).filter fun hero => includeArchived || hero.archivedAt.isNone := by
  have hsel : ∀ row, HeroSeaOrm.whereHolds (HeroSeaOrmRepository.eqId id ::
      if includeArchived then [] else [.isNull .archivedAt]) row =
        (row.id == id && (includeArchived || row.archivedAt.isNone)) := by
    intro row
    cases includeArchived <;> simp [Model.live]
  have hkey : ∀ e ∈ db.entries, (e.2.id == id && (includeArchived || e.2.archivedAt.isNone)) = true → e.1 = id := by
    intro e he hrow
    rw [← hk e.1 e.2 (OrdMap.get?_eq_some_iff.2 he)]
    exact beq_iff_eq.1 (Bool.and_eq_true_iff.1 hrow).1
  rw [HeroSeaOrmRepository.get, List.filter_congr fun row _ => hsel row, OrdMap.filter_values_of_key hkey,
    Option.head?_toList]
  cases hrow : db.get? id with
  | none => rfl
  | some row => simp [Option.filter, hk id row hrow]

variable {repo repo' : Repo} {id : Int32} {includeArchived : Bool}

/-- A lookup that is answered leaves the repository alone and gives the row, unless it hides it. -/
theorem Repo.answers_get (h : repo.Inv) {found : Option Model}
    (ha : repo.Answers (.get id includeArchived) (.ok found) repo') :
    repo' = repo ∧ found = (repo.rows.get? id).filter fun hero => includeArchived || hero.archivedAt.isNone := by
  cases repo with
  | memory repo =>
    obtain ⟨hans, rfl⟩ := ha
    cases hans
    exact ⟨rfl, rfl⟩
  | seaOrm db =>
    rcases ha with ⟨rfl, ⟨err, hans⟩ | hans⟩
    · cases hans
    · cases hans
      exact ⟨rfl, HeroSeaOrmRepository.get_eq h id includeArchived⟩

/-- What is not found is not there, or archived. -/
theorem Repo.dead_of_answers_get (h : repo.Inv) (ha : repo.Answers (.get id includeArchived) (.ok none) repo')
    {row : Model} (hrow : repo.rows.get? id = some row) : row.live = false := by
  have hnone := (Repo.answers_get h ha).2
  rw [hrow, Option.filter] at hnone
  split at hnone
  · cases hnone
  · rename_i hhidden
    rw [Bool.not_eq_true, Bool.or_eq_false_iff] at hhidden
    exact hhidden.2

/-! ### A record that was not found -/

/-- The request of `job` is conditional on the record `id`, has looked for it in vain, and has not
written yet; it acts for `ownerId`. -/
structure Missed (env : Env) (job : HeroJob) (id : Int32) (ownerId : String) : Prop where
  pending : ∀ response, job.prog ≠ .ret response
  idle : written job.history = []
  missed : ∃ values includeArchived, job.request.ifMatch env = some (id, values) ∧
    ⟨Op.repo (.get id includeArchived), .ok none⟩ ∈ job.history
  owner : ∃ claims, Accepted env job.request claims job.history ∧ claims.subject = .ok ownerId

/-- The step creates no record that a pending request has missed, under its owner. -/
def Clear (env : Env) (s s' : Service) : Prop :=
  ∀ (i : Nat) (job : HeroJob) (id : Int32) (ownerId : String) (row : Model), s.jobs[i]? = some job →
    Missed env job id ownerId → s.shared.repo.rows.get? id = none → s'.shared.repo.rows.get? id = some row →
    row.ownerId ≠ ownerId

def AllClear (env : Env) (trace : List Service) : Prop :=
  ∀ s s', [s', s] <:+: trace → Clear env s s'

/-- A missed record cannot be written by the request that missed it. -/
def StaysMissed (env : Env) (s : Service) : Prop :=
  ∀ (i : Nat) (job : HeroJob) (id : Int32) (ownerId : String) (row : Model), s.jobs[i]? = some job →
    Missed env job id ownerId → s.shared.repo.rows.get? id = some row → ¬ (row.live = true ∧ row.ownerId = ownerId)

/-- No call takes a row away, hands it over or brings it back. -/
theorem World.persists {w w' : World} (h : w.repo.Inv) {op : Op} {answer : op.Ans} (ha : w.Answers op answer w')
    {row : Model} (hrow : w.repo.rows.get? id = some row) :
    ∃ row', w'.repo.rows.get? id = some row' ∧ row.SameRecord row' ∧ (row.live = false → row' = row) := by
  by_cases hop : ∃ o, op = .repo (.write o)
  · rcases hop with ⟨o, rfl⟩
    rcases ha with ⟨repo', hrepo, rfl⟩
    rcases (Repo.answers_write h hrepo).2 with ⟨rfl, -⟩ | ⟨r, newId, stamps, -, hwrote⟩
    · exact ⟨row, hrow, .refl row, fun _ => rfl⟩
    · show ∃ row', repo'.rows.get? id = some row' ∧ _
      rw [hwrote.rows]
      exact Change.persists hwrote.fresh hrow
  · rw [World.repo_of_answers ha fun o heq => hop ⟨o, heq⟩]
    exact ⟨row, hrow, .refl row, fun _ => rfl⟩

omit [Lowercase] in
/-- An accepted token was accepted before the repository was first called. -/
theorem Accepted.of_append {request : Request} {claims : Claims} {h : Seen} {c : RepoCall} {answer : c.Ans}
    {last : Answered Op Op.Ans} (hmem : ⟨Op.repo c, answer⟩ ∈ h) (ha : Accepted env request claims (h ++ [last])) :
    Accepted env request claims h := by
  rcases ha with ⟨token, seg, htoken, hseg, hret⟩
  refine ⟨token, seg, htoken, ?_, hret⟩
  rcases List.prefix_concat_iff.1 hseg with rfl | hseg
  · exact absurd ((env.oidc.decodeBearerToken_calls token).of_returns hret _ (List.mem_append_left _ hmem)) id
  · exact hseg

theorem StaysMissed.step {s s' : Service} (hinv : s.shared.repo.Inv) (hs : StaysMissed env s)
    (hstep : Service.Step env s s') (hclear : Clear env s s') : StaysMissed env s' := by
  -- what a request has missed before the step
  have before : ∀ (i : Nat) (job : HeroJob) (id : Int32) (ownerId : String) (row : Model), s.jobs[i]? = some job →
      Missed env job id ownerId → s'.shared.repo.rows.get? id = some row →
      ¬ (row.live = true ∧ row.ownerId = ownerId) := by
    rintro i job id ownerId row hjob hmissed hrow ⟨hlive, howner⟩
    cases hold : s.shared.repo.rows.get? id with
    | none => exact hclear i job id ownerId row hjob hmissed hold hrow howner
    | some old =>
      obtain ⟨row', hrow', hsame, hdead⟩ : ∃ row', s'.shared.repo.rows.get? id = some row' ∧ old.SameRecord row' ∧
          (old.live = false → row' = old) := by
        rcases hstep.shared_cases with heq | ⟨_, _, op, _, answer, -, -, hans, -⟩
        · rw [heq]; exact ⟨old, hold, .refl old, fun _ => rfl⟩
        · exact World.persists hinv hans hold
      cases hrow.symm.trans hrow'
      refine hs i job id ownerId old hjob hmissed hold ⟨?_, hsame.ownerId.symm.trans howner⟩
      by_contra hdead'
      rw [hdead (Bool.not_eq_true _ ▸ hdead')] at hlive
      exact hdead' hlive
  intro i job' id ownerId row hjob' hmissed hrow
  rcases hstep.job_cases hjob' with hjob | ⟨request, rfl⟩ | ⟨job, op, k, answer, hjob, hprog, hans, rfl⟩
  · exact before i job' id ownerId row hjob hmissed hrow
  · rcases hmissed.missed with ⟨values, includeArchived, -, hmem⟩
    cases hmem
  · have hpending : ∀ response, job.prog ≠ .ret response := fun response heq => by
      rw [hprog] at heq; cases heq
    have hidle : written job.history = [] := by
      have := hmissed.idle
      rw [written_append, List.append_eq_nil_iff] at this
      exact this.1
    rcases hmissed.missed with ⟨values, includeArchived, hif, hmem⟩
    rcases List.mem_append.1 hmem with hmem | hmem
    · -- missed before, by an owner known before
      rcases hmissed.owner with ⟨claims, hacc, hsub⟩
      exact before i job id ownerId row hjob
        ⟨hpending, hidle, ⟨values, includeArchived, hif, hmem⟩, ⟨claims, hacc.of_append hmem, hsub⟩⟩ hrow
    · -- missed right now
      cases List.mem_singleton.1 hmem
      rcases hans with ⟨repo', hrepo, hw⟩
      rw [hw] at hrow
      rw [(Repo.answers_get hinv hrepo).1] at hrow
      rintro ⟨hlive, -⟩
      rw [Repo.dead_of_answers_get hinv hrepo hrow] at hlive
      cases hlive

theorem StaysMissed.of_run {trace : List Service} (hrun : Service.Run env trace) (hclear : AllClear env trace)
    {s : Service} (hs : s ∈ trace) : StaysMissed env s := by
  induction hrun generalizing s with
  | start hinit =>
    cases List.mem_singleton.1 hs
    intro i job id ownerId row hjob
    rw [hinit.2] at hjob
    cases hjob
  | @next s₁ s₂ past hrun hstep ih =>
    have hpast : AllClear env (s₁ :: past) := fun a b hab => hclear a b (hab.trans (List.suffix_cons _ _).isInfix)
    rcases List.mem_cons.1 hs with rfl | hs
    · exact (ih hpast (List.mem_cons_self ..)).step (Service.Run.inv hrun) hstep
        (hclear s₁ s (List.prefix_append [s, s₁] past).isInfix)
    · exact ih hpast hs

/-! ### Conditional requests -/

section Requests

variable {request : Request} {values : List HeaderValue} {op : WriteOp}

omit [Lowercase] in
theorem Request.of_ifMatch (h : request.ifMatch env = some (id, values)) :
    request.isWrite = true ∧ request.isWeb = false ∧ request.target env = some id := by
  have target : ∀ {found : Option Int32} {headers : List HeaderValue},
      (if headers.isEmpty then none else found.map fun id => (id, headers)) = some (id, values) → found = some id := by
    intro found headers h
    split at h
    · cases h
    · obtain ⟨id', hfound, heq⟩ := Option.map_eq_some_iff.1 h
      cases heq
      exact hfound
  cases request with
  | read handler => cases h
  | web route req => cases h
  | api server m req =>
    cases m with
    | patch => exact ⟨rfl, rfl, target h⟩
    | delete => exact ⟨rfl, rfl, target h⟩
    | _ => cases h

omit [Lowercase] in
/-- The write of a conditional request finds the record the condition is on. -/
theorem Request.Asks.finds (hasks : request.Asks env op) (h : request.ifMatch env = some (id, values))
    {ownerId : String} (hscoped : op.Scoped ownerId) {table : Table} (hfinds : Repo.Finds table op) :
    ∃ row, table.get? id = some row ∧ row.live = true ∧ row.ownerId = ownerId := by
  obtain ⟨haction, hdata⟩ := hasks
  obtain ⟨-, -, htarget⟩ := Request.of_ifMatch h
  cases request with
  | read handler => cases h
  | web route req => cases h
  | api server m req =>
    cases m with
    | get => cases h
    | post => cases h
    | patch =>
      rw [Request.action, htarget] at haction
      cases op with
      | update id' owner data =>
        cases htarget.symm.trans hdata.1
        cases hscoped
        rcases hfinds with ⟨row, hrow, howner, hlive⟩
        exact ⟨row, hrow, hlive, howner⟩
      | _ => cases haction
    | delete =>
      rw [Request.action, htarget] at haction
      cases op with
      | delete id' owner =>
        cases htarget.symm.trans hdata
        cases hscoped
        rcases hfinds with ⟨row, hrow, howner, hlive⟩
        exact ⟨row, hrow, hlive, howner⟩
      | _ => cases haction

omit [Lowercase] in
/-- The call that a performed write was. -/
theorem exists_of_written {h : Seen} {answer : WriteAnswer} (hw : written h = [(op, answer)]) :
    ∃ h₁ h₂ r, h = h₁ ++ ⟨.repo (.write op), .ok r⟩ :: h₂ ∧ (op.pack r).performed = true := by
  have hmem : (op, answer) ∈ written h := by rw [hw]; exact List.mem_singleton.2 rfl
  obtain ⟨⟨call, ans⟩, hcall, hsome⟩ := List.mem_filterMap.1 hmem
  obtain ⟨h₁, h₂, rfl⟩ := List.append_of_mem hcall
  cases call with
  | repo c =>
    cases c with
    | write o =>
      cases ans with
      | error err => cases hsome
      | ok r =>
        unfold Op.written? RepoCall.written? at hsome
        dsimp only at hsome
        split at hsome
        · rename_i hperf
          cases hsome
          exact ⟨h₁, h₂, r, rfl, hperf⟩
        · cases hsome
    | _ => cases hsome
  | _ => cases hsome

end Requests

/-! ### Over all runs -/

section Runs

variable {s : Service} {past : List Service} {i : Nat} {job : HeroJob} {response : Response} {values : List HeaderValue}

/-- At the moment of its write, a conditional request has seen its record with one of the tags. -/
theorem Service.Run.seen_tag (hcrud : env.crud.Documented) (haxum : env.axum.Documented)
    (hrun : Service.Run env (s :: past)) (hclear : AllClear env (s :: past)) (hjob : s.jobs[i]? = some job)
    (hif : job.request.ifMatch env = some (id, values)) {tags : List String}
    (htags : env.crud.ifMatchTags values = some tags) {op : WriteOp} {r : op.Result} {h₁ h₂ : Seen}
    (hhist : job.history = h₁ ++ ⟨.repo (.write op), .ok r⟩ :: h₂) (hperf : (op.pack r).performed = true) :
    Idle h₁ ∧ ∃ includeArchived hero, ⟨Op.repo (.get id includeArchived), .ok (some hero)⟩ ∈ h₁ ∧
      env.crud.recordEtag hero ∈ tags := by
  rcases Pool.answered (fun _ hs => hs.2) hrun hjob hhist with ⟨s₁, hs₁, s₂, -, k, hjob₁, repo', hrepo, -⟩
  obtain ⟨past₁, hrun₁⟩ : ∃ past₁, Service.Run env (s₁ :: past₁) := hrun.of_mem (List.mem_cons_of_mem _ hs₁)
  obtain ⟨hidle, hent⟩ := Service.Run.permits hcrud haxum hrun₁ hjob₁ rfl
  refine ⟨hidle, ?_⟩
  rcases hent.guarded id values hif with ⟨includeArchived, hero, hmem, hcheck⟩ | ⟨includeArchived, hmem⟩
  · exact ⟨includeArchived, hero, hmem, (hcrud.checkIfMatch_iff _ _ _ _ htags).1 hcheck⟩
  · -- it was missed, but then the write cannot have found it
    rcases hent.granted with ⟨ownerId, hscoped, ⟨⟨claims, hacc, -, hsub⟩, -⟩⟩
    have hfinds : Repo.Finds s₁.shared.repo.rows op := by
      rcases (Repo.answers_write hrun₁.inv hrepo).2 with ⟨-, err, herr⟩ | ⟨r', newId, stamps, hr, hwrote⟩
      · cases herr
      · cases hr
        exact (hwrote.performed_iff hrun₁.inv).1 hperf
    rcases hent.asks.finds hif hscoped hfinds with ⟨row, hrow, hlive, howner⟩
    have hmissed : Missed env ⟨job.request, h₁, .call (.repo (.write op)) k⟩ id ownerId :=
      ⟨fun _ heq => (by cases heq), hidle.written, ⟨values, includeArchived, hif, hmem⟩, ⟨claims, hacc, hsub⟩⟩
    have hstays := StaysMissed.of_run hrun hclear (List.mem_cons_of_mem _ hs₁)
    exact absurd ⟨hlive, howner⟩ (hstays i _ id ownerId row hjob₁ hmissed hrow)

/-- What a step of a job that has changed nothing leaves as it was. -/
theorem Service.Run.unchanged_of_idle (hrun : Service.Run env (s :: past)) (hjob : s.jobs[i]? = some job)
    (hidle : Idle job.history) {s₁ s₂ : Service} {job₂ : HeroJob} (hstep : [s₂, s₁] <:+: s :: past)
    (hjob₂ : s₂.jobs[i]? = some job₂) (hne : (s₁.jobs[i]?).map Job.history ≠ some job₂.history) :
    s₂.shared.repo = s₁.shared.repo ∧ s₂.shared.log = s₁.shared.log := by
  obtain ⟨past₁, hrun₁, hstep₁⟩ : ∃ past₁, Service.Run env (s₁ :: past₁) ∧ Service.Step env s₁ s₂ := hrun.of_infix hstep
  have hmem : s₂ ∈ s :: past := hstep.subset (List.mem_cons_self ..)
  rcases Pool.history_grows hrun hmem hjob₂ with ⟨job', seg, hjob', -, hhist⟩
  cases hjob.symm.trans hjob'
  rw [hhist] at hidle
  rcases hstep₁.of_history_ne hjob₂ hne with heq | ⟨old, op, k, answer, -, -, hans, -, hhist₂⟩
  · rw [heq]
    exact ⟨rfl, rfl⟩
  · have hidle₂ := hidle.of_append
    rw [hhist₂] at hidle₂
    have hwritten := hidle₂.written
    have hpublished := hidle₂.published
    rw [written_append, List.append_eq_nil_iff] at hwritten
    rw [published_append, List.append_eq_nil_iff] at hpublished
    constructor
    · rcases written_of_answers hrun₁.inv hans with ⟨-, hrepo⟩ | ⟨o, a, -, hsome, -⟩
      · exact hrepo
      · simp [written, hsome] at hwritten
    · cases hpub : Op.published? ⟨op, answer⟩ with
      | none => rw [log_of_answers hans, hpub]; exact List.append_nil _
      | some event => simp [published, hpub] at hpublished

/-- A run is clear when no lookup of it has been in vain. -/
theorem allClear_of_found (hrun : Service.Run env (s :: past)) (hfound : ∀ (i : Nat) (job : HeroJob),
    s.jobs[i]? = some job → ∀ id includeArchived, ⟨Op.repo (.get id includeArchived), .ok none⟩ ∉ job.history) :
    AllClear env (s :: past) := by
  intro s₁ s₂ hstep i job₁ id ownerId row hjob₁ hmissed
  rcases hmissed.missed with ⟨values, includeArchived, -, hmem⟩
  have hs₁ : s₁ ∈ s :: past := hstep.subset (List.mem_cons_of_mem _ (List.mem_cons_self ..))
  rcases Pool.history_grows hrun hs₁ hjob₁ with ⟨job, seg, hjob, -, hhist⟩
  refine absurd ?_ (hfound i job hjob id includeArchived)
  rw [hhist]
  exact List.mem_append_left _ hmem

omit [Lowercase] in
theorem not_refused_of_isSuccess {request : Request} (hweb : request.isWeb = false) (hsucc : response.isSuccess = true) :
    ¬ request.Refused env response := by
  rintro (herr | ⟨hweb', -⟩)
  · simp only [Response.isSuccess, Response.isError, Bool.and_eq_true, decide_eq_true_eq] at hsucc herr
    omega
  · rw [hweb] at hweb'
    cases hweb'

theorem conditional_of_allClear (hcrud : env.crud.Documented) (haxum : env.axum.Documented)
    (hrun : Service.Run env (s :: past)) (hjob : s.jobs[i]? = some job) (hdone : job.prog = .ret response)
    (hif : job.request.ifMatch env = some (id, values)) :
    (AllClear env (s :: past) → response.isSuccess = true → ∀ tags, env.crud.ifMatchTags values = some tags →
      ∃ s₁ ∈ past, ∃ job₁ hero, s₁.jobs[i]? = some job₁ ∧ written job₁.history = [] ∧
        s₁.shared.repo.rows.get? id = some hero ∧ env.crud.recordEtag hero ∈ tags) ∧
    (response.status = 412 → ∀ s₁ s₂ job₂, [s₂, s₁] <:+: s :: past → s₂.jobs[i]? = some job₂ →
      (s₁.jobs[i]?).map Job.history ≠ some job₂.history →
      s₂.shared.repo = s₁.shared.repo ∧ s₂.shared.log = s₁.shared.log) := by
  obtain ⟨hwrite, hweb, -⟩ := Request.of_ifMatch hif
  have hend := hrun.concluded hcrud haxum hjob hdone
  constructor
  · intro hclear hsucc tags htags
    rcases hend with ⟨-, hrefused⟩ | ⟨op, ⟨⟨answer, hwritten, -⟩, -⟩, -⟩
    · exact absurd (hrefused hwrite) (not_refused_of_isSuccess hweb hsucc)
    · rcases exists_of_written hwritten with ⟨h₁, h₂, r, hhist, hperf⟩
      rcases hrun.seen_tag hcrud haxum hclear hjob hif htags hhist hperf with ⟨hidle, includeArchived, hero, hmem, htag⟩
      obtain ⟨g₁, g₂, rfl⟩ := List.append_of_mem hmem
      rw [List.append_assoc, List.cons_append] at hhist
      rcases Pool.answered (fun _ hs => hs.2) hrun hjob hhist with ⟨s₁, hs₁, s₂, -, k, hjob₁, repo', hrepo, -⟩
      obtain ⟨past₁, hrun₁⟩ : ∃ past₁, Service.Run env (s₁ :: past₁) := hrun.of_mem (List.mem_cons_of_mem _ hs₁)
      refine ⟨s₁, hs₁, _, hero, hjob₁, hidle.of_append.written, ?_, htag⟩
      exact (Option.filter_eq_some_iff.1 (Repo.answers_get hrun₁.inv hrepo).2.symm).1
  · intro hstatus s₁ s₂ job₂ hstep hjob₂ hne
    rcases hend with ⟨hidle, -⟩ | ⟨op, -, hresponse⟩
    · exact hrun.unchanged_of_idle hjob hidle hstep hjob₂ hne
    · rcases hresponse with hsucc | ⟨h500, -⟩
      · rw [Request.Succeeded, if_neg (by rw [hweb]; exact Bool.false_ne_true), Response.isSuccess, hstatus] at hsucc
        cases hsucc
      · rw [hstatus] at h500
        cases h500

end Runs
/-! ### On the reference -/

/-- The calls of a conditional delete whose lookup does not refuse it. -/
def passageIfMatch (env : Env) (addr : String) (id : Int32) (includeArchived : Bool) (found : Option Model)
    (ownerId : String) : Seen :=
  [⟨.check heroWriteRateScope addr env.settings.rateLimitHeroWritePerMinute 60, .ok ()⟩,
    ⟨.repo (.get id includeArchived), .ok found⟩, ⟨.repo (.write (.delete id ownerId)), .ok true⟩,
    ⟨.publish heroEventResource .delete [id], ()⟩]

omit [Lowercase] in
theorem apiDelete_returns {server : Api} {req : HttpRequest} {token : String} {value : Json} {ownerId : String}
    (hcrud : env.crud.Documented) (hmock : env.settings.mode = .mock) (htoken : bearerToken req.headers = .ok token)
    (hvalue : env.oidc.decodeWithoutVerification token = some value)
    (hrole : (Claims.mk value).requireAnyRole env.settings.oidcClientId heroDeleteRoles = .ok ())
    (hsub : (Claims.mk value).subject = .ok ownerId) {query : HeroListQuery}
    (hquery : env.axum.listQuery req.query = .ok query) (hid : query.id = some id)
    {rawParams : List (String × String)} (hraw : env.axum.rawParams req.query = .ok rawParams)
    (hfilters : env.crud.parseFilters heroFieldSpecs rawParams = .ok [])
    (honly : env.crud.rejectOnlyArchived rawParams = .ok ()) {includeUnpublished : Bool}
    (hbulk : env.crud.parseBulkDeleteIncludeUnpublished rawParams = .ok includeUnpublished)
    (hheader : req.headers.ifMatch.isEmpty = false) (hscope : env.crud.parseIncludeArchived rawParams = .ok includeArchived)
    {found : Option Model} (hfound : ∀ hero, found = some hero →
      env.crud.checkIfMatch req.headers.ifMatch (env.crud.recordEtag hero) "Hero" = .ok ()) :
    ((Request.api server .delete req).handle env).Returns (passageIfMatch env req.addr id includeArchived found ownerId)
      (.ok (server.router.withSunset .noContent)) := by
  obtain ⟨notFound, hdelete⟩ := hcrud.resolveDelete_eq
  simp only [Request.handle, Request.serve, ApiRouter.deleteHero, authClaims, htoken, decodeBearerToken_mock hmock,
    hvalue, hquery, hraw, OidcVerifier.invalid, Except.map, checkRate, perform, ret_bind, ofExcept_ok, call_bind,
    mapError_ret, mapError_call, attempt_call]
  refine .call ?_
  simp only [hrole, hsub, hfilters, honly, hbulk, hid, enforceIfMatch, hheader, hscope, orUnprocessable,
    Except.mapError, ret_bind, ofExcept_ok, liftCrud, hcrud.get_eq, hdelete]
  refine .call ?_
  cases found with
  | none =>
    refine .call ?_
    refine .call ?_
    exact .ret _
  | some hero =>
    show Returns (Prog.bind (Prog.attempt (Prog.mapError env.problem (Prog.bind (Prog.ofExcept
      ((env.crud.checkIfMatch req.headers.ifMatch (env.crud.recordEtag hero) "Hero").mapError AppError.ofCrud)) _))) _) _ _
    rw [hfound hero rfl]
    refine .call ?_
    refine .call ?_
    exact .ret _

/-- `DELETE /heroes?id=1` with an `If-Match` header. -/
def deleteIfMatch (tag : HeaderValue) : HttpRequest :=
  ⟨"10.0.0.2", ⟨some aliceBearer, none, [tag], []⟩, "", "id=1", []⟩

def freshTag : HeaderValue := ⟨ascii "\"\"", by decide⟩

def staleTag : HeaderValue := ⟨ascii "\"stale\"", by decide⟩

omit [Lowercase] in
theorem deleteIfMatch_query (tag : HeaderValue) :
    Env.reference.axum.listQuery (deleteIfMatch tag).query = .ok ⟨some 1, none, none⟩ := by
  have haxum : Env.reference.axum = .reference := rfl
  have hquery : (deleteIfMatch tag).query = "id=1" := rfl
  have hid : Axum.reference.listQuery "id=1" = .ok ⟨some 1, none, none⟩ := by rfl
  rw [haxum, hquery, hid]

omit [Lowercase] in
theorem deleteIfMatch_returns (tag : HeaderValue) {found : Option Model} (hfound : ∀ hero, found = some hero →
      Env.reference.crud.checkIfMatch [tag] (Env.reference.crud.recordEtag hero) "Hero" = .ok ()) :
    ((Request.api .v2Json .delete (deleteIfMatch tag)).handle Env.reference).Returns
      (passageIfMatch Env.reference "10.0.0.2" 1 false found "alice") (.ok .noContent) := by
  have hid : HeroListQuery.id ⟨some 1, none, none⟩ = some 1 := rfl
  exact apiDelete_returns Craftainer.reference_documented rfl (bearerToken_alice rfl)
    (OidcVerifier.decode_reference rfl splitOn_alice) (by decide) rfl (deleteIfMatch_query tag) hid rfl rfl rfl
    rfl rfl rfl hfound

omit [Lowercase] in
/-- A record is created, and deleted under its tag. -/
theorem conditional_of_allClear_alice : let _ := Lowercase.ascii
    ∃ s past, Service.Run Env.reference (s :: past) ∧ AllClear Env.reference (s :: past) ∧
      ∃ s₁ ∈ past, ∃ job₁ hero, s₁.jobs[1]? = some job₁ ∧ written job₁.history = [] ∧
        s₁.shared.repo.rows.get? 1 = some hero ∧ Env.reference.crud.recordEtag hero ∈ ["\"\""] := by
  intro
  let hero : Model := novaData.row 1 "alice" 0
  let repo : HeroMemoryRepository := ⟨HeroMemoryRepository.new.records.insert 1 hero, 2⟩
  have hcreate : (Repo.memory .new).Answers (.write (.create "alice" novaData)) (.ok hero) (.memory repo) :=
    ⟨fun _ => 0, hero, _, rfl, rfl, rfl⟩
  have hdelete : ∃ repo', (Repo.memory repo).Answers (.write (.delete 1 "alice")) (.ok true) repo' :=
    ⟨_, fun _ => 0, true, _, rfl, rfl, rfl⟩
  have hrun := (Service.run_fresh.next (.arrive _ (.web .create (createForm aliceQuery)))).next
    (.arrive _ (.api .v2Json .delete (deleteIfMatch freshTag)))
  rcases createForm_alice.returns Craftainer.reference_documented (.inl rfl) (r := hero) rfl with ⟨addr, response, hretc, -⟩
  rcases createForm_alice.plays (w := Service.fresh.shared) addr hcreate with ⟨limiter, hplays⟩
  rw [← List.append_nil (passage _ _ _ _)] at hretc
  rcases Pool.exists_run (i := 0) hrun rfl hretc hplays with ⟨past, q', hrun, -⟩
  rcases hdelete with ⟨repo', hdelete⟩
  have hfound : ∀ hero', some hero = some hero' → Env.reference.crud.checkIfMatch [freshTag]
      (Env.reference.crud.recordEtag hero') "Hero" = .ok () := by
    rintro _ ⟨⟩
    rfl
  have hret := deleteIfMatch_returns freshTag hfound
  have hlimit : 1 ≤ Env.reference.settings.rateLimitHeroWritePerMinute := by decide
  rcases RateLimiter.checks_ok limiter heroWriteRateScope "10.0.0.2" 60 hlimit with ⟨limiter', hcheck⟩
  have hplays : Pool.Plays World.Answers
      ⟨.memory repo, limiter, [announcement (.create "alice" novaData) (.hero (some hero))]⟩
      (passageIfMatch Env.reference "10.0.0.2" 1 false (some hero) "alice") ⟨repo', limiter', _⟩ :=
    .cons ⟨limiter', hcheck, rfl⟩ (.cons ⟨_, ⟨rfl, rfl⟩, rfl⟩ (.cons ⟨repo', hdelete, rfl⟩ (.cons rfl (.nil _))))
  rw [← List.append_nil (passageIfMatch _ _ _ _ _ _)] at hret
  rcases Pool.exists_run (i := 1) hrun rfl hret hplays with ⟨past, q, hrun, hret⟩
  have hclear : AllClear Env.reference _ := allClear_of_found hrun (by
    intro i job hjob id includeArchived hmem
    match i, hjob with
    | 0, hjob => cases hjob; simp [passage] at hmem
    | 1, hjob => cases hjob; simp [passageIfMatch] at hmem)
  have hif : (Request.api .v2Json .delete (deleteIfMatch freshTag)).ifMatch Env.reference = some (1, [freshTag]) := rfl
  exact ⟨_, past, hrun, hclear, (conditional_of_allClear Craftainer.reference_documented Axum.reference_documented hrun rfl
    hret.eq_ret hif).1 hclear rfl _ (by decide +kernel)⟩

omit [Lowercase] in
/-- The record is deleted under a tag it never had: it is created between the lookup and the write. -/
theorem not_conditional_recreated : let _ := Lowercase.ascii
    ∃ s past job, Service.Run Env.reference (s :: past) ∧ s.jobs[0]? = some job ∧ job.prog = .ret .noContent ∧
      job.request.ifMatch Env.reference = some (1, [staleTag]) ∧
      Env.reference.crud.ifMatchTags [staleTag] = some ["\"stale\""] ∧
      ∀ s₁ ∈ s :: past, ∀ hero, s₁.shared.repo.rows.get? 1 = some hero →
        Env.reference.crud.recordEtag hero ∉ ["\"stale\""] := by
  intro
  let hero : Model := novaData.row 1 "alice" 0
  let repo : HeroMemoryRepository := ⟨HeroMemoryRepository.new.records.insert 1 hero, 2⟩
  have hcreate : (Repo.memory .new).Answers (.write (.create "alice" novaData)) (.ok hero) (.memory repo) :=
    ⟨fun _ => 0, hero, _, rfl, rfl, rfl⟩
  have hdelete : ∃ repo', (Repo.memory repo).Answers (.write (.delete 1 "alice")) (.ok true) repo' :=
    ⟨_, fun _ => 0, true, _, rfl, rfl, rfl⟩
  have hrun := (Service.run_fresh.next (.arrive _ (.api .v2Json .delete (deleteIfMatch staleTag)))).next
    (.arrive _ (.web .create (createForm aliceQuery)))
  have hret := deleteIfMatch_returns staleTag (fun (hero : Model) (h : none = some hero) => by cases h)
  -- the lookup of the one request
  have hlimit : 1 ≤ Env.reference.settings.rateLimitHeroWritePerMinute := by decide
  rcases RateLimiter.checks_ok (.mock fun _ => none) heroWriteRateScope "10.0.0.2" 60 hlimit with ⟨limiter, hcheck⟩
  have hplays : Pool.Plays World.Answers Service.fresh.shared
      ((passageIfMatch Env.reference "10.0.0.2" 1 false none "alice").take 2) ⟨.memory .new, limiter, []⟩ :=
    .cons ⟨limiter, hcheck, rfl⟩ (.cons ⟨_, ⟨rfl, rfl⟩, rfl⟩ (.nil _))
  rcases Pool.exists_run (i := 0) hrun rfl hret hplays with ⟨past, q, hrun, hret⟩
  -- all of the other
  rcases createForm_alice.returns Craftainer.reference_documented (.inl rfl) (r := hero) rfl with ⟨addr, response, hretc, -⟩
  rcases createForm_alice.plays (w := ⟨.memory .new, limiter, []⟩) addr hcreate with ⟨limiter, hplays⟩
  rw [← List.append_nil (passage _ _ _ _)] at hretc
  rcases Pool.exists_run (i := 1) hrun rfl hretc hplays with ⟨past, q', hrun, -⟩
  -- the write after the lookup
  rcases hdelete with ⟨repo', hdelete⟩
  have hplays : Pool.Plays World.Answers
      ⟨.memory repo, limiter, [announcement (.create "alice" novaData) (.hero (some hero))]⟩
      ((passageIfMatch Env.reference "10.0.0.2" 1 false none "alice").drop 2) ⟨repo', limiter, _⟩ :=
    .cons ⟨repo', hdelete, rfl⟩ (.cons rfl (.nil _))
  have hret : q.Returns ((passageIfMatch Env.reference "10.0.0.2" 1 false none "alice").drop 2 ++ [])
    (.ok .noContent) := hret
  rcases Pool.exists_run (i := 0) hrun rfl hret hplays with ⟨past, q, hrun, hret⟩
  refine ⟨_, past, _, hrun, rfl, hret.eq_ret, rfl, by decide +kernel, ?_⟩
  intro s₁ _ hero' _ htag
  have hchars : '"' :: List.replicate hero'.updatedAt.toNat '1' ++ ['"'] = "\"stale\"".toList := by
    rw [← List.mem_singleton.1 htag]
    exact String.toList_ofList.symm
  have hsecond := congrArg (fun l => l[1]?) hchars
  cases hn : hero'.updatedAt.toNat with
  | zero => rw [hn] at hsecond; exact absurd hsecond (by decide)
  | succ n =>
    rw [hn] at hsecond
    have hone : some '1' = "\"stale\"".toList[1]? := hsecond
    exact absurd hone (by decide)

end TemplateAxum
