import Mathlib
import TemplateAxum.NumericFilters
import TemplateAxum.Writes

/-!
# The two repositories simulate each other

A run of writes, each with one clock instant and one id for the row it may insert, on both
repositories side by side. `WriteOp.Meets` spells out what a write does, without reference to either
repository; every write of every run meets it on both, with the same answers and the same tables.
-/

open Std StableSort Sql

namespace TemplateAxum

open HeroMemory HeroSeaOrm

/-- One write of a run: its clock instant, the id for the row it may insert, and the order in which
the database would list what it returns. -/
structure Step where
  op : WriteOp
  now : DateTime
  newId : Int32
  returning : RowOrder

namespace Step

variable [Lowercase]

omit [Lowercase] in
/-- The same write on the in-memory repository, whose clock stands still meanwhile. -/
def toMemory (step : Step) : MemoryWrite := ⟨step.op, fun _ => step.now⟩

def runMemory (steps : List Step) (repo : HeroMemoryRepository) : Option (List WriteAnswer × HeroMemoryRepository) :=
  MemoryWrite.run (steps.map toMemory) repo

def runSeaOrm : List Step → Table → Option (List WriteAnswer × Table)
  | [], db => some ([], db)
  | step :: steps, db =>
    (step.op.seaOrm step.returning step.now step.newId db).bind fun (answer, db) =>
      (runSeaOrm steps db).map fun (answers, db) => (answer :: answers, db)

omit [Lowercase] in
/-- The database hands out the ids that `next_id` counts out. -/
def SameIds : List Step → Int32 → Prop
  | [], _ => True
  | step :: steps, nextId =>
    if step.op.isCreate then step.newId = nextId ∧ SameIds steps (nextId + 1) else SameIds steps nextId

omit [Lowercase] in
def creates (steps : List Step) : Nat := MemoryWrite.creates (steps.map toMemory)

end Step

/-! ### What a write does -/

/-- The live row with an id and an owner. -/
def Table.owned (table : Table) (id : Int32) (ownerId : String) : Option Model :=
  (table.get? id).filter fun row => row.ownerId == ownerId && row.live

/-- What a write answers and leaves behind, from the table before it. -/
def WriteOp.Meets [Lowercase] (now : DateTime) (newId : Int32) (before : Table) (answer : WriteAnswer)
    (after : Table) : WriteOp → Prop
  | create ownerId data =>
    before.get? newId = none ∧ answer = .hero (some (data.row newId ownerId now)) ∧
      after = before.insert newId (data.row newId ownerId now)
  | update id ownerId data =>
    match before.owned id ownerId with
    | none => answer = .hero none ∧ after = before
    | some row =>
      answer = .hero (some (row.patch data now)) ∧ after = before.insert id (row.patch data now)
  | delete id ownerId =>
    match before.owned id ownerId with
    | none => answer = .done false ∧ after = before
    | some row =>
      answer = .done true ∧ after = before.insert id { row with archivedAt := some now, updatedAt := now }
  | updateMany filters data =>
    ∃ rows, answer = .heroes rows ∧ (rows.Pairwise fun a b => a.id < b.id) ∧
      rows = (before.values.filter fun row => row.live && matchesAll row filters).map (·.patch data now) ∧
      after = before.map fun row => if row.live && matchesAll row filters then row.patch data now else row
  | deleteMany filters _ =>
    ∃ rows, answer = .heroes rows ∧ (rows.Pairwise fun a b => a.id < b.id) ∧
      (rows = (before.values.filter fun row => row.live && matchesAll row filters).map fun row =>
        { row with archivedAt := some now, updatedAt := now }) ∧
      after = before.map fun row =>
        if row.live && matchesAll row filters then { row with archivedAt := some now, updatedAt := now } else row

/-- Every write of a run meets its description. -/
inductive Step.Meet [Lowercase] : List Step → Table → List WriteAnswer → Table → Prop
  | nil (table : Table) : Meet [] table [] table
  | cons {step : Step} {steps : List Step} {before middle after : Table} {answer : WriteAnswer}
      {answers : List WriteAnswer} (first : step.op.Meets step.now step.newId before answer middle)
      (rest : Meet steps middle answers after) : Meet (step :: steps) before (answer :: answers) after

namespace Revision
variable {table : Table} {id : Int32} {ownerId : String} {r : Revision} (hk : table.Keyed)
  (h : ∀ row, r.selects row = (row.live && ownedBy id ownerId row))
include hk h

theorem owned_cases :
    (table.owned id ownerId = none ∧ r.changed table = [] ∧ r.run table = table) ∨
      ∃ row, table.owned id ownerId = some row ∧ r.changed table = [r.revise row] ∧
        r.run table = table.insert id (r.revise row) := by
  rw [changed_of_ownedBy hk h, run_of_ownedBy hk h, Table.owned]
  cases hrow : table.get? id with
  | none => exact .inl ⟨rfl, rfl, rfl⟩
  | some row =>
    have hguard : (row.ownerId == ownerId && row.live) = !(row.ownerId ≠ ownerId || row.archivedAt.isSome) := by
      simp [Model.live, Bool.beq_eq_decide_eq]
    rw [Option.filter_some, hguard]
    dsimp only
    cases row.ownerId ≠ ownerId || row.archivedAt.isSome with
    | true => exact .inl ⟨rfl, rfl, rfl⟩
    | false =>
      refine .inr ⟨row, rfl, rfl, OrdMap.ext_get? fun k => ?_⟩
      rw [if_neg Bool.false_ne_true, OrdMap.get?_adjust, OrdMap.get?_insert]
      split
      · rename_i hkid; rw [hkid, hrow]; rfl
      · exact Option.map_id' ..

end Revision

namespace WriteOp
variable [Lowercase]

theorem meets {before : Table} (hk : before.Keyed) (now : DateTime) (newId : Int32) (op : WriteOp)
    (hfresh : op.isCreate → before.get? newId = none) :
    let change := op.change (fun filters row => matchesAll row filters) newId (.const now)
    op.Meets now newId before (op.answer (change.reported before)) (change.run before) := by
  have sorted : ∀ r : Revision, (r.changed before).Pairwise fun a b => a.id < b.id := fun r =>
    (Revision.pairwise_id_changed hk).imp compare_int32_lt.1
  cases op with
  | create ownerId data => exact ⟨hfresh rfl, rfl, rfl⟩
  | update id ownerId data =>
    obtain ⟨ho, hc, hr⟩ | ⟨row, ho, hc, hr⟩ :=
      Revision.owned_cases (r := .updateOwned id ownerId data now) hk fun _ => rfl
    all_goals
      simp only [Meets, ho, change, Change.reported, Change.run, Stamps.const, hc, hr]
      exact ⟨rfl, by trivial⟩
  | updateMany filters data => exact ⟨_, rfl, sorted _, rfl, rfl⟩
  | delete id ownerId =>
    obtain ⟨ho, hc, hr⟩ | ⟨row, ho, hc, hr⟩ :=
      Revision.owned_cases (r := .archiveOwned id ownerId now now) hk fun _ => rfl
    all_goals
      simp only [Meets, ho, change, Change.reported, Change.run, Stamps.const, hc, hr]
      exact ⟨rfl, by trivial⟩
  | deleteMany filters includeUnpublished => exact ⟨_, rfl, sorted _, rfl, rfl⟩

/-- Where the interpreters agree on its clauses, a write is the same change on both sides. -/
theorem change_agrees {op : WriteOp} (h : ∀ clause ∈ op.filters, clause.Agrees) (now : DateTime) (newId : Int32) :
    op.seaOrmChange now newId = op.change (fun filters row => matchesAll row filters) newId (.const now) := by
  have hf : ∀ filters, filters = op.filters →
      whereHolds (applyFilters filters) = fun row => matchesAll row filters :=
    fun filters heq => funext (filtersAgree_of_agrees (heq ▸ h))
  cases op with
  | updateMany filters data => rw [seaOrmChange, change, hf filters rfl]; rfl
  | deleteMany filters includeUnpublished => rw [seaOrmChange, change, hf filters rfl]; rfl
  | _ => rfl

theorem memoryChange_const (now : DateTime) (repo : HeroMemoryRepository) (op : WriteOp) :
    op.memoryChange (fun _ => now) repo =
      op.change (fun filters row => matchesAll row filters) repo.nextId (.const now) := by
  cases op <;> rfl

end WriteOp

/-! ### Runs -/

namespace Step
variable [Lowercase]

/-- One write, on both repositories. -/
theorem simulates {step : Step} {repo : HeroMemoryRepository} (hinv : repo.Inv)
    (hid : step.op.isCreate → step.newId = repo.nextId)
    (hroom : step.op.isCreate → repo.nextId ≠ Int32.maxValue)
    (hagree : ∀ clause ∈ step.op.filters, clause.Agrees) :
    ∃ answer repo', step.op.memory (fun _ => step.now) repo = some (answer, repo') ∧
      step.op.seaOrm step.returning step.now step.newId repo.records = some (answer, repo'.records) ∧
      step.op.Meets step.now step.newId repo.records answer repo'.records ∧
      repo'.nextId = if step.op.isCreate then repo.nextId + 1 else repo.nextId := by
  have hfresh : step.op.isCreate → repo.records.get? step.newId = none := fun hc => by
    rw [hid hc]; exact hinv.get?_nextId
  -- the change of the memory repository, under the id of the step
  have hchange : step.op.memoryChange (fun _ => step.now) repo =
      step.op.change (fun filters row => matchesAll row filters) step.newId (.const step.now) := by
    rw [WriteOp.memoryChange_const]
    cases hop : step.op with
    | create ownerId data => rw [hid (by rw [hop]; rfl)]
    | _ => rfl
  refine ⟨_, ⟨_, if step.op.isCreate then repo.nextId + 1 else repo.nextId⟩, ?_, ?_,
    step.op.meets hinv.keyed step.now step.newId hfresh, rfl⟩
  · rw [step.op.memory_eq hinv.keyed, if_neg fun h => hroom h.1 h.2, hchange]; rfl
  · rw [step.op.seaOrm_eq hinv.keyed, if_neg fun h => by simp [hfresh h.1] at h,
      WriteOp.change_agrees hagree]; rfl

theorem run_simulates (steps : List Step) (repo : HeroMemoryRepository) (hinv : repo.Inv)
    (hids : SameIds steps repo.nextId) (hroom : repo.nextId.toInt + creates steps < 2 ^ 31)
    (hagree : ∀ step ∈ steps, ∀ clause ∈ step.op.filters, clause.Agrees) :
    ∃ answers repo', runMemory steps repo = some (answers, repo') ∧
      runSeaOrm steps repo.records = some (answers, repo'.records) ∧
      Meet steps repo.records answers repo'.records := by
  induction steps generalizing repo with
  | nil => exact ⟨[], repo, rfl, rfl, .nil _⟩
  | cons step steps ih =>
    have hnext : (step.op.isCreate → step.newId = repo.nextId) ∧
        SameIds steps (if step.op.isCreate then repo.nextId + 1 else repo.nextId) := by
      by_cases hc : step.op.isCreate = true
      · rw [SameIds, if_pos hc] at hids
        rw [if_pos hc]; exact ⟨fun _ => hids.1, hids.2⟩
      · rw [SameIds, if_neg hc] at hids
        rw [if_neg hc]; exact ⟨fun h => absurd h hc, hids⟩
    have hcreates : creates (step :: steps) = creates steps + if step.op.isCreate then 1 else 0 :=
      MemoryWrite.creates_cons ..
    have hmax : step.op.isCreate → repo.nextId ≠ Int32.maxValue := fun hc heq => by
      rw [hcreates, if_pos hc, heq] at hroom
      have : Int32.maxValue.toInt = 2 ^ 31 - 1 := by decide
      omega
    obtain ⟨answer, repo₁, hmem, hsql, hmeets, hnext₁⟩ :=
      simulates hinv hnext.1 hmax (hagree step (List.mem_cons_self ..))
    have hroom₁ : repo₁.nextId.toInt + creates steps < 2 ^ 31 := by
      rw [hinv.nextId_step hmem]
      omega
    obtain ⟨answers, repo', hmem', hsql', hmeet⟩ := ih repo₁ (hinv.step hmem) (hnext₁ ▸ hnext.2) hroom₁
      fun s hs => hagree s (List.mem_cons_of_mem _ hs)
    have hrun : runMemory (step :: steps) repo = some (answer :: answers, repo') := by
      rw [runMemory] at hmem' ⊢
      simp only [List.map_cons, MemoryWrite.run, toMemory, hmem, Option.bind_some]
      rw [hmem']; rfl
    exact ⟨answer :: answers, repo', hrun,
      by simp only [runSeaOrm, hsql, Option.bind_some, hsql', Option.map_some], .cons hmeets hmeet⟩

omit [Lowercase] in
/-- A create, a bulk update of the row it makes, and a delete of it. -/
def sample : List Step :=
  [⟨.create "alice" ⟨"Spectra", [], some 3⟩, 10, 1, .asListed⟩,
    ⟨.updateMany [⟨"id", .eq, .int 1⟩] ⟨none, none, some 9⟩, 11, 0, .asListed⟩,
    ⟨.delete 1 "alice", 12, 0, .asListed⟩]

omit [Lowercase] in
theorem sample_agrees (step : Step) (hs : step ∈ sample) (clause : FilterClause)
    (hc : clause ∈ step.op.filters) : @FilterClause.Agrees .ascii clause := by
  let _ := Lowercase.ascii
  simp only [sample, List.mem_cons, List.not_mem_nil, or_false] at hs
  rcases hs with rfl | rfl | rfl
  · cases hc
  · obtain rfl := List.mem_singleton.1 hc
    exact NumericClause.agrees_of_exact (c := .int .id .eq 1) (.inl (by unfold NumericClause.InRange; decide))
  · cases hc

omit [Lowercase] in
theorem run_simulates_sample :
    ∃ answers repo', @runMemory .ascii sample .new = some (answers, repo') ∧
      @runSeaOrm .ascii sample .empty = some (answers, repo'.records) ∧
      @Meet .ascii sample .empty answers repo'.records :=
  @run_simulates .ascii sample .new .new ⟨rfl, trivial⟩ (by decide) sample_agrees

end Step
end TemplateAxum
