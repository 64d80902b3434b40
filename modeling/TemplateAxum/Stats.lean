import TemplateAxum.Agree
import TemplateAxum.Craftainer
import TemplateAxum.Lib.Pool

/-!
# `/stats` beside writes

The build of `get_stats` of `heroes.rs`: two counts and a list, each a call of its own, with any other
clients in between. No write makes a table smaller, so the count of all rows that comes second is not
below what the first one left out.
-/

namespace TemplateAxum

open Prog

/-! ### Counting -/

namespace Table

def size (table : Table) : Nat := table.values.length

def archived (table : Table) : Nat := (table.values.filter fun row => row.archivedAt.isSome).length

end Table

theorem Change.size_le (c : Change) (table : Table) : table.size ≤ (c.run table).size := by
  unfold Table.size OrdMap.values
  rw [List.length_map, List.length_map]
  cases c with
  | insert row => exact OrdMap.le_length_insertList row.id row table.entries
  | revise r =>
    show _ ≤ (table.entries.map fun e => (e.1, r.apply e.2)).length
    rw [List.length_map]

namespace Repo

variable [Lowercase] {repo repo' : Repo}

/-- No call removes a row. -/
theorem size_le (h : repo.Inv) {c : RepoCall} {answer : c.Ans} (ha : repo.Answers c answer repo') :
    repo'.Inv ∧ repo.rows.size ≤ repo'.rows.size := by
  cases c with
  | write op =>
    obtain ⟨hinv, ⟨rfl, -⟩ | ⟨r, newId, stamps, -, hwrote⟩⟩ := answers_write h ha
    · exact ⟨hinv, Nat.le_refl _⟩
    · rw [hwrote.rows]
      exact ⟨hinv, Change.size_le _ _⟩
  | get id includeArchived =>
    cases answers_read (by rintro op ⟨⟩) ha
    exact ⟨h, Nat.le_refl _⟩
  | list opts =>
    cases answers_read (by rintro op ⟨⟩) ha
    exact ⟨h, Nat.le_refl _⟩
  | count filters includeArchived onlyArchived =>
    cases answers_read (by rintro op ⟨⟩) ha
    exact ⟨h, Nat.le_refl _⟩

/-- A count without filters counts the visible rows. -/
theorem count_eq {includeArchived onlyArchived : Bool} {n : Nat}
    (ha : repo.Answers (.count [] includeArchived onlyArchived) (.ok n) repo') :
    n = (repo.rows.values.filter fun row => HeroMemory.visible row includeArchived onlyArchived).length := by
  cases repo with
  | memory repo =>
    rw [Except.ok.inj ha.1, HeroMemoryRepository.count]
    simp [HeroMemory.matchesAll, rows]
  | seaOrm db =>
    rcases ha.2 with ⟨err, herr⟩ | hok
    · cases herr
    · rw [Except.ok.inj hok, HeroSeaOrmRepository.count, whereHolds_scope]
      simp [HeroSeaOrm.whereHolds, HeroSeaOrm.applyFilters, Sql.Truth.all, Sql.Truth.holds, rows]

theorem count_visible {n : Nat} (ha : repo.Answers (.count [] false false) (.ok n) repo') :
    n + repo.rows.archived = repo.rows.size := by
  rw [count_eq ha, Table.archived, Table.size]
  induction repo.rows.values with
  | nil => rfl
  | cons row rows ih =>
    have hvisible : HeroMemory.visible row false false = row.archivedAt.isNone := by simp [HeroMemory.visible]
    cases harch : row.archivedAt <;> simp [hvisible, harch] <;> omega

theorem count_all {n : Nat} (ha : repo.Answers (.count [] true false) (.ok n) repo') : n = repo.rows.size := by
  rw [count_eq ha]
  simp [HeroMemory.visible, Table.size]

end Repo

/-! ### `get_stats` -/

/-- Of the crate: the passthroughs to the repository and the statistics of the listed rows. -/
structure CrudStats (Bucket Summary Series : Type) where
  maxHistoryRecords : Nat
  count : List FilterClause → Bool → Bool → Crud RepoError Nat
  list : ListOptions → Crud RepoError (List Model)
  /-- The statistics of the fields, numeric and categorical. -/
  summary : List Model → Summary
  timeSeries : List Model → Bucket → Series

variable {Bucket Summary Series : Type}

/-- `count` passes through to the repository. -/
structure CrudStats.Documented (crud : CrudStats Bucket Summary Series) : Prop where
  count_eq : ∀ filters includeArchived onlyArchived,
    crud.count filters includeArchived onlyArchived = .call (.count filters includeArchived onlyArchived) ofExcept

structure ResourceStats (Summary Series : Type) where
  total : Nat
  summary : Summary
  timeSeries : Option Series
  /-- Of the lifecycle statistics. -/
  archived : Nat

/-- The difference of two unsigned numbers, if it is one. -/
def checkedSub (a b : Nat) : Option Nat := if b ≤ a then some (a - b) else none

/-- What `get_stats` caches; `none` is a subtraction that underflows. -/
def getStats (crud : CrudStats Bucket Summary Series) (includeArchived : Bool) (bucket : Option Bucket) :
    Crud AppError (Option (ResourceStats Summary Series)) := do
  let totalVisible ← (crud.count [] false false).mapError AppError.ofRepo
  let totalAll ← (crud.count [] true false).mapError AppError.ofRepo
  let total := if includeArchived then totalAll else totalVisible
  let records ← (crud.list ⟨0, crud.maxHistoryRecords, includeArchived, false, [], []⟩).mapError AppError.ofRepo
  pure <| (checkedSub totalAll totalVisible).map fun archived =>
    { total, summary := crud.summary records, timeSeries := bucket.map (crud.timeSeries records), archived }

/-! ### Runs -/

namespace Stats

/-- One build of the statistics, and whatever else calls the repository. -/
inductive Request (Bucket Summary Series : Type)
  | stats (includeArchived : Bool) (bucket : Option Bucket)
  | other (p : Crud AppError (Option (ResourceStats Summary Series)))

def Request.handle (crud : CrudStats Bucket Summary Series) :
    Request Bucket Summary Series → Crud AppError (Option (ResourceStats Summary Series))
  | stats includeArchived bucket => getStats crud includeArchived bucket
  | other p => p

abbrev System (Bucket Summary Series : Type) :=
  Pool Repo (Request Bucket Summary Series) RepoCall RepoCall.Ans AppError (Option (ResourceStats Summary Series))

def Initial (s : System Bucket Summary Series) : Prop := s.shared.Inv ∧ s.jobs = []

variable [Lowercase]

abbrev Run (crud : CrudStats Bucket Summary Series) : List (System Bucket Summary Series) → Prop :=
  Trace Initial (Pool.Step Repo.Answers (Request.handle crud))

variable {crud : CrudStats Bucket Summary Series} {s : System Bucket Summary Series}
  {past : List (System Bucket Summary Series)}

theorem Run.inv (h : Run crud (s :: past)) : s.shared.Inv :=
  Pool.shared_invariant (I := Repo.Inv) (fun _ hs => hs.1) (fun _ _ _ _ hinv hans => (Repo.size_le hinv hans).1) h

theorem Run.size_le (h : Run crud (s :: past)) {s₁ : System Bucket Summary Series} (hs₁ : s₁ ∈ s :: past) :
    s₁.shared.rows.size ≤ s.shared.rows.size := by
  have hgrows := Pool.shared_grows (R := fun repo repo' => repo.Inv → repo'.Inv ∧ repo.rows.size ≤ repo'.rows.size)
    (fun repo hinv => ⟨hinv, Nat.le_refl _⟩)
    (fun u v w huv hvw hinv => ⟨(hvw (huv hinv).1).1, (huv hinv).2.trans (hvw (huv hinv).1).2⟩)
    (fun repo c answer repo' hans hinv => Repo.size_le hinv hans) h hs₁
  obtain ⟨past₁, hrun⟩ := h.of_mem hs₁
  exact (hgrows (Run.inv hrun)).2

omit [Lowercase] in
/-- The two counts come first, that of the visible rows before that of all. -/
theorem sat_getStats (hcrud : crud.Documented) (includeArchived : Bool) (bucket : Option Bucket) :
    Sat (fun _ _ => True)
      (fun h result => ∃ visible all rest, h = ⟨.count [] false false, .ok visible⟩ ::
        ⟨.count [] true false, .ok all⟩ :: rest ∧ result.map ResourceStats.archived = checkedSub all visible)
      (fun _ _ => True) [] (getStats crud includeArchived bucket) := by
  unfold getStats
  rw [hcrud.count_eq, hcrud.count_eq, sat_bind, sat_mapError, sat_call]
  refine ⟨trivial, fun first => sat_ofExcept.2 ⟨fun visible hvisible => ?_, fun _ _ => trivial⟩⟩
  subst hvisible
  rw [sat_bind, sat_mapError, sat_call]
  refine ⟨trivial, fun second => sat_ofExcept.2 ⟨fun all hall => ?_, fun _ _ => trivial⟩⟩
  subst hall
  rw [sat_bind, sat_mapError]
  refine (sat_along _ _).mono (fun _ _ hop => hop) (fun h records hpre => ?_) fun _ _ he => he
  obtain ⟨rest, rfl⟩ := hpre
  refine ⟨visible, all, rest, by simp, ?_⟩
  rw [Option.map_map]
  exact Option.map_id'

/-- The build of a run that has ended. -/
theorem counts_of_run (hcrud : crud.Documented) (h : Run crud (s :: past)) {i : Nat}
    {job : Job (Request Bucket Summary Series) RepoCall RepoCall.Ans AppError (Option (ResourceStats Summary Series))}
    (hjob : s.jobs[i]? = some job) {includeArchived : Bool} {bucket : Option Bucket}
    (hrequest : job.request = .stats includeArchived bucket) {result : Option (ResourceStats Summary Series)}
    (hprog : job.prog = .ret result) :
    ∃ visible all rest, job.history = ⟨.count [] false false, .ok visible⟩ :: ⟨.count [] true false, .ok all⟩ :: rest ∧
      result.map ResourceStats.archived = checkedSub all visible := by
  have hsat := Pool.sat (Φ := fun _ _ _ => True) (E := fun _ _ _ => True)
    (Q := fun request h result => ∀ includeArchived bucket, request = .stats includeArchived bucket →
      ∃ visible all rest, h = ⟨.count [] false false, .ok visible⟩ :: ⟨.count [] true false, .ok all⟩ :: rest ∧
        result.map ResourceStats.archived = checkedSub all visible) (fun request => ?_) (fun _ hs => hs.2) h hjob
  · rw [hprog] at hsat
    exact hsat includeArchived bucket hrequest
  · cases request with
    | stats includeArchived bucket =>
      refine (sat_getStats hcrud includeArchived bucket).mono (fun _ _ hop => hop) ?_ fun _ _ he => he
      exact fun h result hcounts _ _ _ => hcounts
    | other p =>
      refine (sat_along p []).mono (fun _ _ hop => hop) ?_ fun _ _ he => he
      rintro h result - includeArchived bucket ⟨⟩

/-- The subtraction never underflows, and what it gives is not below the rows archived when the visible
ones were counted. -/
theorem archived_le (hcrud : crud.Documented) (h : Run crud (s :: past)) {i : Nat}
    {job : Job (Request Bucket Summary Series) RepoCall RepoCall.Ans AppError (Option (ResourceStats Summary Series))}
    (hjob : s.jobs[i]? = some job) {includeArchived : Bool} {bucket : Option Bucket}
    (hrequest : job.request = .stats includeArchived bucket) {result : Option (ResourceStats Summary Series)}
    (hprog : job.prog = .ret result) :
    ∃ stats, result = some stats ∧ ∃ s₁ s₂ past₁ first job₁ job₂, s₂ :: s₁ :: past₁ <:+ s :: past ∧
      s₁.jobs[i]? = some job₁ ∧ job₁.history = [] ∧
      s₂.jobs[i]? = some job₂ ∧ job₂.history = [⟨.count [] false false, first⟩] ∧
      s₁.shared.rows.archived ≤ stats.archived := by
  obtain ⟨visible, all, rest, hhistory, hresult⟩ := counts_of_run hcrud h hjob hrequest hprog
  obtain ⟨s₃, s₄, past₃, k₃, hsuf₃, hjob₃, hsecond, -⟩ :=
    Pool.answered_step (fun _ hs => hs.2) h hjob
      (show _ = [⟨.count [] false false, .ok visible⟩] ++ ⟨.count [] true false, .ok all⟩ :: rest from hhistory)
  have hrun₃ : Run crud (s₃ :: past₃) := h.of_suffix ((List.suffix_cons _ _).trans hsuf₃)
  obtain ⟨s₁, s₂, past₁, k₁, hsuf₁, hjob₁, hfirst, hjob₂⟩ :=
    Pool.answered_step (fun _ hs => hs.2) hrun₃ hjob₃
      (show [(⟨.count [] false false, .ok visible⟩ : Answered RepoCall RepoCall.Ans)] = [] ++ ⟨_, _⟩ :: [] from rfl)
  have hgrown : s₁.shared.rows.size ≤ s₃.shared.rows.size :=
    Run.size_le hrun₃ (hsuf₁.subset (by simp))
  have hvisible := Repo.count_visible hfirst
  have hall := Repo.count_all hsecond
  have hle : visible ≤ all := by omega
  rw [checkedSub, if_pos hle] at hresult
  obtain ⟨stats, rfl, harchived⟩ := Option.map_eq_some_iff.1 hresult
  refine ⟨stats, rfl, s₁, s₂, past₁, _, _, _, hsuf₁.trans ((List.suffix_cons _ _).trans hsuf₃), hjob₁, rfl, hjob₂, rfl, ?_⟩
  omega

omit [Lowercase] in
/-- A record that is created between the counts is taken for an archived one. -/
theorem archived_le_created : let _ := Lowercase.ascii
    ∃ (crud : CrudStats Unit Unit Unit) (s : System Unit Unit Unit) (past : List (System Unit Unit Unit))
      (stats : ResourceStats Unit Unit), Run crud (s :: past) ∧ s.shared.rows.archived = 0 ∧ stats.archived = 1 ∧
      ∃ s₁ ∈ s :: past, s₁.shared.rows.archived ≤ stats.archived := by
  intro _
  let crud : CrudStats Unit Unit Unit :=
    ⟨100, fun filters includeArchived onlyArchived => .call (.count filters includeArchived onlyArchived) ofExcept,
      fun opts => .call (.list opts) ofExcept, fun _ => (), fun _ _ => ()⟩
  let op : WriteOp := .create "alice" ⟨"Nova", [], none⟩
  let hero : Model := ⟨1, some "Nova", some [], none, "alice", none, 0, 0⟩
  let created : Repo := .memory ⟨HeroMemoryRepository.new.records.insert 1 hero, 2⟩
  let heroes := HeroMemoryRepository.list ⟨0, 100, false, false, [], []⟩ ⟨HeroMemoryRepository.new.records.insert 1 hero, 2⟩
  let result : ResourceStats Unit Unit := ⟨0, (), none, 1⟩
  have hstart : Run crud [⟨.memory .new, []⟩] := .start ⟨HeroMemoryRepository.Inv.new, rfl⟩
  have hrun := (hstart.next (.arrive _ (.stats false none))).next (.arrive _ (.other (.call (.write op) fun _ => .ret none)))
  have hret : (getStats crud false none).Returns ([⟨.count [] false false, .ok 0⟩] ++
      [⟨.count [] true false, .ok 1⟩, ⟨.list ⟨0, 100, false, false, [], []⟩, .ok heroes⟩]) (.ok (some result)) :=
    .call (.call (.call (.ret _)))
  rcases Pool.exists_run (i := 0) hrun rfl hret (.cons ⟨rfl, rfl⟩ (.nil _)) with ⟨past, q, hrun, hret⟩
  have hwrite : (Repo.memory .new).Answers (.write op) (.ok hero) created := ⟨fun _ => 0, hero, _, rfl, rfl, rfl⟩
  have hcreate : (Prog.call (.write op) fun _ => .ret none : Crud AppError (Option (ResourceStats Unit Unit))).Returns
      ([⟨.write op, .ok hero⟩] ++ []) (.ok none) := .call (.ret _)
  rcases Pool.exists_run (i := 1) hrun rfl hcreate (.cons hwrite (.nil _)) with ⟨past, q', hrun, -⟩
  have hplays : Pool.Plays Repo.Answers created
      [⟨.count [] true false, .ok 1⟩, ⟨.list ⟨0, 100, false, false, [], []⟩, .ok heroes⟩] created :=
    .cons ⟨rfl, rfl⟩ (.cons ⟨rfl, rfl⟩ (.nil _))
  rw [← List.append_nil [_, _]] at hret
  rcases Pool.exists_run (i := 0) hrun rfl hret hplays with ⟨past, q, hrun, hret⟩
  rcases archived_le ⟨fun _ _ _ => rfl⟩ hrun (i := 0) rfl rfl hret.eq_ret with
    ⟨stats, hstats, s₁, s₂, past₁, -, -, -, hsuf, -, -, -, -, hle⟩
  cases hstats
  exact ⟨crud, _, past, result, hrun, rfl, rfl, s₁, hsuf.subset (by simp), hle⟩

end Stats
end TemplateAxum
