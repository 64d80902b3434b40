import TemplateAxum.Reference

/-!
# Writes stay with their owner and role

Whatever requests are in flight and however their calls interleave, a row is created or changed by a
request with an accepted token whose subject owns the row and whose roles admit the write; and no row
changes hands.
-/

namespace TemplateAxum

open Prog Seen HeroMemory HeroSeaOrm

variable [Lowercase] {env : Env}

/-! ### The owner's clause -/

theorem ownerId_of_matchesOne {row : Model} {ownerId : String} (h : matchesOne row (ownerClause ownerId) = true) :
    row.ownerId = ownerId := by
  simpa [matchesOne, ownerClause, matchesStr] using h

theorem ownerId_of_conditionFor {row : Model} {ownerId : String}
    (h : ((conditionFor (ownerClause ownerId)).eval row).holds = true) : row.ownerId = ownerId := by
  have heq : conditionFor (ownerClause ownerId) = HeroSeaOrmRepository.eqOwner ownerId := rfl
  rw [heq, holds_eqOwner] at h
  exact beq_iff_eq.1 h

/-- However many other clauses there are, they can only narrow the rows. -/
theorem Repo.ownerId_of_chooses {repo : Repo} {filters : List FilterClause} {ownerId : String}
    (hmem : ownerClause ownerId ∈ filters) {row : Model} (h : repo.chooses filters row = true) :
    row.ownerId = ownerId := by
  cases repo with
  | memory repo => exact ownerId_of_matchesOne (List.all_eq_true.1 h _ hmem)
  | seaOrm db => exact ownerId_of_conditionFor (whereHolds_applyFilters_iff.1 h _ hmem)

/-! ### What a scoped write changes -/

/-- The rows that a write revises are live rows of its owner. -/
theorem WriteOp.Scoped.of_selects {op : WriteOp} {ownerId : String} (hs : op.Scoped ownerId) {repo : Repo}
    {newId : Int32} {stamps : Stamps} {r : Revision} (hr : op.change repo.chooses newId stamps = .revise r)
    {row : Model} (hsel : r.selects row = true) : row.ownerId = ownerId := by
  have owned : ∀ {id : Int32}, Revision.ownedBy id ownerId row = true → row.ownerId = ownerId := by
    intro id h
    exact beq_iff_eq.1 (Bool.and_eq_true_iff.1 h).2
  cases op with
  | create owner data => cases hr
  | update id owner data =>
    cases hr; cases hs
    exact owned (Bool.and_eq_true_iff.1 hsel).2
  | updateMany filters data =>
    cases hr
    exact Repo.ownerId_of_chooses hs (Bool.and_eq_true_iff.1 hsel).2
  | delete id owner =>
    cases hr; cases hs
    exact owned (Bool.and_eq_true_iff.1 hsel).2
  | deleteMany filters includeUnpublished =>
    cases hr
    exact Repo.ownerId_of_chooses hs (Bool.and_eq_true_iff.1 hsel).2

omit [Lowercase] in
/-- A delete archives, no other write does. -/
theorem WriteOp.archived_of_change {op : WriteOp} {chooses : List FilterClause → Model → Bool} {newId : Int32}
    {stamps : Stamps} {table : Table} {row : Model}
    (hrow : row ∈ (op.change chooses newId stamps).reported table) :
    op.roles = if row.archivedAt.isSome then heroDeleteRoles else heroWriteRoles := by
  have live : ∀ {r : Revision}, (∀ old, (r.revise old).archivedAt = old.archivedAt) → row ∈ r.changed table →
      row.archivedAt.isSome = false := by
    intro r hkeep hmem
    obtain ⟨id, old, -, hsel, rfl⟩ := Revision.mem_changed.1 hmem
    rw [hkeep]
    simpa [Model.live] using r.live hsel
  have dead : ∀ {r : Revision}, (∀ old, (r.revise old).archivedAt.isSome = true) → row ∈ r.changed table →
      row.archivedAt.isSome = true := by
    intro r harch hmem
    obtain ⟨id, old, -, -, rfl⟩ := Revision.mem_changed.1 hmem
    exact harch old
  cases op with
  | create owner data =>
    cases List.mem_singleton.1 hrow
    rfl
  | update id owner data => rw [live (fun _ => rfl) hrow]; rfl
  | updateMany filters data => rw [live (fun _ => rfl) hrow]; rfl
  | delete id owner => rw [dead (fun _ => rfl) hrow]; rfl
  | deleteMany filters includeUnpublished => rw [dead (fun _ => rfl) hrow]; rfl

/-- A row that a write has left different is the owner's, before and after. -/
theorem Repo.Wrote.owner {repo repo' : Repo} {op : WriteOp} {r : op.Result} {newId : Int32} {stamps : Stamps}
    (hw : repo.Wrote op r repo' newId stamps) {ownerId : String} (hs : op.Scoped ownerId) {id : Int32}
    (hne : repo'.rows.get? id ≠ repo.rows.get? id) :
    ∃ row, repo'.rows.get? id = some row ∧ row.ownerId = ownerId ∧
      (∀ old, repo.rows.get? id = some old → old.ownerId = ownerId) ∧
      op.roles = if row.archivedAt.isSome then heroDeleteRoles else heroWriteRoles := by
  have hroles : ∀ row ∈ (op.change repo.chooses newId stamps).reported repo.rows,
      op.roles = if row.archivedAt.isSome then heroDeleteRoles else heroWriteRoles :=
    fun _ hrow => WriteOp.archived_of_change hrow
  rw [hw.rows] at hne ⊢
  cases hc : op.change repo.chooses newId stamps with
  | insert new =>
    rw [hc] at hne hroles
    by_cases hid : id = new.id
    · subst hid
      refine ⟨new, by rw [Change.run, OrdMap.get?_insert, if_pos rfl], ?_, ?_, ?_⟩
      · cases op with
        | create owner data => cases hc; exact hs
        | _ => cases hc
      · intro old hold
        have := hw.fresh
        rw [hc] at this
        rw [this] at hold
        cases hold
      · exact hroles new (List.mem_singleton.2 rfl)
    · rw [Change.run, OrdMap.get?_insert, if_neg hid] at hne
      exact absurd rfl hne
  | revise r =>
    rw [hc] at hne hroles
    rw [Change.run, Revision.get?_run] at hne ⊢
    cases hold : repo.rows.get? id with
    | none => rw [hold] at hne; exact absurd rfl hne
    | some old =>
      have hsel : r.selects old = true := by
        by_contra hno
        rw [hold, Option.map_some, Revision.apply, if_neg hno] at hne
        exact hne rfl
      have howner := hs.of_selects hc hsel
      refine ⟨r.apply old, rfl, (Revision.same_apply old).ownerId.trans howner, ?_, ?_⟩
      · rintro _ ⟨⟩
        exact howner
      · apply hroles
        rw [Revision.apply, if_pos hsel]
        exact Revision.mem_changed.2 ⟨id, old, hold, hsel, rfl⟩

/-! ### Over all runs -/

/-- The request carries an accepted token of the owner, with one of the roles. -/
def Authorized (env : Env) (job : Job Request Op Op.Ans Empty Response) (ownerId : String) (roles : List String) : Prop :=
  ∃ claims, Accepted env job.request claims job.history ∧ claims.subject = .ok ownerId ∧
    ∃ role ∈ roles, role ∈ claims.grantedRoles env.settings.oidcClientId

theorem writes_isolated (hcrud : env.crud.Documented) (haxum : env.axum.Documented) {s s' : Service}
    {past : List Service} (hrun : Service.Run env (s :: past)) (hstep : Service.Step env s s') {id : Int32}
    (hne : s'.shared.repo.rows.get? id ≠ s.shared.repo.rows.get? id) :
    ∃ row, s'.shared.repo.rows.get? id = some row ∧
      (∀ old, s.shared.repo.rows.get? id = some old → old.ownerId = row.ownerId) ∧
      ∃ (i : Nat) (job : Job Request Op Op.Ans Empty Response) (call : Answered Op Op.Ans), s.jobs[i]? = some job ∧
        (s'.jobs[i]?).map Job.history = some (job.history ++ [call]) ∧
        Authorized env job row.ownerId (if row.archivedAt.isSome then heroDeleteRoles else heroWriteRoles) := by
  rcases hstep.shared_cases with heq | ⟨i, job, op, k, answer, hjob, hprog, hans, hjob'⟩
  · rw [heq] at hne
    exact absurd rfl hne
  · -- only a repository write changes a row
    have hwrite : ∃ w, op = .repo (.write w) := by
      by_contra hno
      rw [World.repo_of_answers hans fun w heq => hno ⟨w, heq⟩] at hne
      exact hne rfl
    rcases hwrite with ⟨w, rfl⟩
    rcases hans with ⟨repo', hrepo, hw'⟩
    obtain ⟨-, hent⟩ := hrun.permits hcrud haxum hjob hprog
    rcases hent.granted with ⟨ownerId, hscoped, ⟨⟨claims, hacc, hrole, hsub⟩, -⟩⟩
    rw [hw'] at hne ⊢
    rcases (Repo.answers_write hrun.inv hrepo).2 with ⟨heq, -⟩ | ⟨r, newId, stamps, rfl, hwrote⟩
    · rw [heq] at hne
      exact absurd rfl hne
    · rcases hwrote.owner hscoped hne with ⟨row, hrow, rfl, hold, hroles⟩
      refine ⟨row, hrow, hold, i, job, _, hjob, congrArg _ hjob', claims, hacc, hsub, ?_⟩
      rw [← hroles]
      exact Claims.requireAnyRole_eq_ok.1 hrole

omit [Lowercase] in
theorem writes_isolated_create : ∃ (s s' : Service) (row : Model), s.shared.repo.rows.get? 1 = none ∧
    s'.shared.repo.rows.get? 1 = some row ∧ ∃ (i : Nat) (job : HeroJob), s.jobs[i]? = some job ∧
      Authorized Env.reference job row.ownerId (if row.archivedAt.isSome then heroDeleteRoles else heroWriteRoles) := by
  let _ := Lowercase.ascii
  rcases Service.exists_created Service.initial_fresh with ⟨s, s', past, hrun, hstep, hrow, hrow'⟩
  have hne : s'.shared.repo.rows.get? 1 ≠ s.shared.repo.rows.get? 1 := by
    rw [hrow, hrow']
    exact Option.some_ne_none _
  rcases writes_isolated Craftainer.reference_documented Axum.reference_documented hrun hstep hne with
    ⟨row, hnew, -, i, job, -, hjob, -, hauth⟩
  exact ⟨s, s', row, hrow, hnew, i, job, hjob, hauth⟩

end TemplateAxum
