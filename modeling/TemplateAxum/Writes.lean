import TemplateAxum.Refine

/-!
# Writes as data

The five writes of the `Repository` trait with their arguments (`WriteOp`), what each backend does
with one, and the `Change` it stands for. `memory_eq` and `seaOrm_eq` are the two refinements: an
answer is read off the rows the change reports, the table is the one it leaves.
-/

open Std StableSort Sql

namespace TemplateAxum

open HeroMemory HeroSeaOrm

inductive WriteOp
  | create (ownerId : String) (data : HeroCreate)
  | update (id : Int32) (ownerId : String) (data : HeroUpdate)
  | updateMany (filters : List FilterClause) (data : HeroUpdate)
  | delete (id : Int32) (ownerId : String)
  | deleteMany (filters : List FilterClause) (includeUnpublished : Bool)

/-- `create` and `update` answer a row, `delete` a flag, the bulk writes their rows. -/
inductive WriteAnswer
  | hero (hero : Option Model)
  | done (done : Bool)
  | heroes (heroes : List Model)
deriving DecidableEq

/-- The clock readings a write puts into rows: the first and second one, and for a bulk update the
one of each row. -/
structure Stamps where
  first : DateTime
  second : DateTime
  each : Model → DateTime

namespace Stamps

/-- One reading for the whole write. -/
def const (now : DateTime) : Stamps := ⟨now, now, fun _ => now⟩

end Stamps

namespace WriteOp

def isCreate : WriteOp → Bool
  | create .. => true
  | _ => false

/-- The clauses that choose its rows. -/
def filters : WriteOp → List FilterClause
  | updateMany filters _ | deleteMany filters _ => filters
  | _ => []

/-- The change a write stands for, when clauses choose rows by `chooses` and `newId` is handed out. -/
def change (chooses : List FilterClause → Model → Bool) (newId : Int32) (stamps : Stamps) : WriteOp → Change
  | create ownerId data => .insert (data.row newId ownerId stamps.first)
  | update id ownerId data => .revise (.updateOwned id ownerId data stamps.first)
  | updateMany filters data => .revise (.update (chooses filters) data stamps.each)
  | delete id ownerId => .revise (.archiveOwned id ownerId stamps.first stamps.second)
  | deleteMany filters _ => .revise (.archive (chooses filters) stamps.first stamps.first)

/-- The answer of a write that reports `rows`. -/
def answer (rows : List Model) : WriteOp → WriteAnswer
  | create .. | update .. => .hero rows.head?
  | delete .. => .done !rows.isEmpty
  | updateMany .. | deleteMany .. => .heroes rows

/-- The ids of the rows that an answer reports to have been made or changed. -/
def reports : WriteOp → WriteAnswer → List Int32
  | delete id _, .done done => if done then [id] else []
  | _, .hero hero => hero.toList.map Model.id
  | _, .heroes heroes => heroes.map Model.id
  | _, .done _ => []

/-- They are the ids of the rows the change reports. -/
theorem reports_answer {table : Table} (hk : table.Keyed) (chooses : List FilterClause → Model → Bool)
    (newId : Int32) (stamps : Stamps) (op : WriteOp) :
    op.reports (op.answer ((op.change chooses newId stamps).reported table)) =
      ((op.change chooses newId stamps).reported table).map Model.id := by
  cases op with
  | update id ownerId data =>
    have hlen := Revision.length_changed_of_ownedBy (r := .updateOwned id ownerId data stamps.first) hk fun _ => rfl
    simp only [change, Change.reported, answer, reports]
    match (Revision.updateOwned id ownerId data stamps.first).changed table, hlen with
    | [], _ => rfl
    | [row], _ => rfl
  | delete id ownerId =>
    have hlen :=
      Revision.length_changed_of_ownedBy (r := .archiveOwned id ownerId stamps.first stamps.second) hk fun _ => rfl
    have hid : ∀ row ∈ (Revision.archiveOwned id ownerId stamps.first stamps.second).changed table, row.id = id :=
      fun _ hrow => Revision.id_of_mem_changed hk (fun _ => rfl) hrow
    simp only [change, Change.reported, answer, reports]
    match (Revision.archiveOwned id ownerId stamps.first stamps.second).changed table, hlen, hid with
    | [], _, _ => rfl
    | [row], _, hid => simp [hid row (List.mem_singleton.2 rfl)]
  | _ => rfl

/-- The rows a write made or changed, as the table has them afterwards. -/
def written (op : WriteOp) (answer : WriteAnswer) (table : Table) : List Model :=
  (op.reports answer).filterMap table.get?

theorem written_answer {table : Table} (hk : table.Keyed) (chooses : List FilterClause → Model → Bool)
    (newId : Int32) (stamps : Stamps) (op : WriteOp) :
    op.written (op.answer ((op.change chooses newId stamps).reported table))
        ((op.change chooses newId stamps).run table) = (op.change chooses newId stamps).reported table := by
  rw [written, reports_answer hk, List.filterMap_map]
  have : ∀ row ∈ (op.change chooses newId stamps).reported table,
      (((op.change chooses newId stamps).run table).get? ∘ Model.id) row = some row :=
    fun row hrow => Change.get?_run_of_reported hk hrow
  rw [List.filterMap_congr this, List.filterMap_some]

variable [Lowercase]

/-- A write of `HeroMemoryRepository`; `none` is the panic of `create`. -/
def memory (now : Nat → DateTime) (repo : HeroMemoryRepository) :
    WriteOp → Option (WriteAnswer × HeroMemoryRepository)
  | create ownerId data => (repo.create now ownerId data).map fun (hero, repo) => (.hero (some hero), repo)
  | update id ownerId data => let (hero, repo) := repo.update now id ownerId data; some (.hero hero, repo)
  | updateMany filters data => let (heroes, repo) := repo.updateMany now filters data; some (.heroes heroes, repo)
  | delete id ownerId => let (done, repo) := repo.delete now id ownerId; some (.done done, repo)
  | deleteMany filters includeUnpublished =>
    let (heroes, repo) := repo.deleteMany now filters includeUnpublished
    some (.heroes heroes, repo)

/-- A write of `HeroSeaOrmRepository`; `none` is an `INSERT` that the database refuses. -/
def seaOrm (returning : RowOrder) (now : DateTime) (newId : Int32) (db : Table) :
    WriteOp → Option (WriteAnswer × Table)
  | create ownerId data =>
    (HeroSeaOrmRepository.create now newId ownerId data db).map fun (hero, db) => (.hero (some hero), db)
  | update id ownerId data =>
    let (hero, db) := HeroSeaOrmRepository.update returning now id ownerId data db
    some (.hero hero, db)
  | updateMany filters data =>
    let (heroes, db) := HeroSeaOrmRepository.updateMany returning now filters data db
    some (.heroes heroes, db)
  | delete id ownerId =>
    let (done, db) := HeroSeaOrmRepository.delete returning now id ownerId db
    some (.done done, db)
  | deleteMany filters includeUnpublished =>
    let (heroes, db) := HeroSeaOrmRepository.deleteMany returning now filters includeUnpublished db
    some (.heroes heroes, db)

/-- The stamps of a write on `HeroMemoryRepository`. -/
def memoryStamps (now : Nat → DateTime) (repo : HeroMemoryRepository) : WriteOp → Stamps
  | updateMany filters data => ⟨now 0, now 1, repo.stampOf now filters data⟩
  | _ => ⟨now 0, now 1, fun _ => now 0⟩

/-- The change a write makes on `HeroMemoryRepository`. -/
def memoryChange (now : Nat → DateTime) (repo : HeroMemoryRepository) (op : WriteOp) : Change :=
  op.change (fun filters row => matchesAll row filters) repo.nextId (op.memoryStamps now repo)

/-- The change a write makes on the `heroes` table. -/
def seaOrmChange (now : DateTime) (newId : Int32) (op : WriteOp) : Change :=
  op.change (fun filters => whereHolds (applyFilters filters)) newId (.const now)

theorem memory_eq {repo : HeroMemoryRepository} (hk : repo.records.Keyed) (now : Nat → DateTime) (op : WriteOp) :
    op.memory now repo =
      if op.isCreate ∧ repo.nextId = Int32.maxValue then none
      else some (op.answer ((op.memoryChange now repo).reported repo.records),
        ⟨(op.memoryChange now repo).run repo.records,
          if op.isCreate then repo.nextId + 1 else repo.nextId⟩) := by
  cases op with
  | create ownerId data =>
    rw [memory, HeroMemoryRepository.create_eq]
    by_cases hmax : repo.nextId = Int32.maxValue
    · simp [hmax, isCreate]
    · simp only [hmax, isCreate, if_false, and_false, Option.map_some, if_true]; rfl
  | update id ownerId data => rw [memory, HeroMemoryRepository.update_eq hk]; rfl
  | updateMany filters data => rw [memory, HeroMemoryRepository.updateMany_eq hk]; rfl
  | delete id ownerId => rw [memory, HeroMemoryRepository.delete_eq hk]; rfl
  | deleteMany filters includeUnpublished => rw [memory, HeroMemoryRepository.deleteMany_eq]; rfl

theorem seaOrm_eq {db : Table} (hk : db.Keyed) (returning : RowOrder) (now : DateTime) (newId : Int32)
    (op : WriteOp) :
    op.seaOrm returning now newId db =
      if op.isCreate ∧ (db.get? newId).isSome then none
      else some (op.answer ((op.seaOrmChange now newId).reported db), (op.seaOrmChange now newId).run db) := by
  cases op with
  | create ownerId data =>
    rw [seaOrm, HeroSeaOrmRepository.create_eq]
    by_cases htaken : (db.get? newId).isSome = true
    · simp [htaken, isCreate]
    · rw [if_neg htaken, if_neg fun h => htaken h.2]; rfl
  | update id ownerId data => rw [seaOrm, HeroSeaOrmRepository.update_eq hk]; rfl
  | updateMany filters data => rw [seaOrm, HeroSeaOrmRepository.updateMany_eq hk]; rfl
  | delete id ownerId => rw [seaOrm, HeroSeaOrmRepository.delete_eq hk]; rfl
  | deleteMany filters includeUnpublished => rw [seaOrm, HeroSeaOrmRepository.deleteMany_eq hk]; rfl

end WriteOp

/-! ### The invariant of the in-memory repository -/

/-- Rows stand under their ids, which run from 1 to below `next_id`. -/
structure HeroMemoryRepository.Inv (repo : HeroMemoryRepository) : Prop where
  keyed : repo.records.Keyed
  below : ∀ id row, repo.records.get? id = some row → 1 ≤ id.toInt ∧ id.toInt < repo.nextId.toInt
  pos : 1 ≤ repo.nextId.toInt

namespace HeroMemoryRepository.Inv
variable {repo repo' : HeroMemoryRepository}

theorem new : HeroMemoryRepository.new.Inv where
  keyed _ _ h := by cases h
  below _ _ h := by cases h
  pos := by decide

theorem toInt_add_one {n : Int32} (h : n ≠ Int32.maxValue) : (n + 1).toInt = n.toInt + 1 := by
  have hne : n.toInt ≠ 2147483647 := fun heq => h (Int32.toInt_inj.1 heq)
  have hlt := Int32.toInt_lt n
  have hge := Int32.le_toInt n
  rw [Int32.toInt_add, Int32.toInt_one, Int.bmod_eq_of_le] <;> omega

theorem get?_nextId (h : repo.Inv) : repo.records.get? repo.nextId = none := by
  cases hrow : repo.records.get? repo.nextId with
  | none => rfl
  | some row => exact absurd (h.below _ _ hrow).2 (Int.lt_irrefl _)

variable [Lowercase]

theorem fresh (h : repo.Inv) (now : Nat → DateTime) (op : WriteOp) :
    (op.memoryChange now repo).Fresh repo.records := by
  cases op with
  | create ownerId data => exact h.get?_nextId
  | _ => trivial

theorem nextId_step (h : repo.Inv) {now : Nat → DateTime} {op : WriteOp} {answer : WriteAnswer}
    (hstep : op.memory now repo = some (answer, repo')) :
    repo'.nextId.toInt = repo.nextId.toInt + (if op.isCreate then 1 else 0 : Nat) := by
  rw [op.memory_eq h.keyed] at hstep
  split at hstep
  · cases hstep
  · rename_i hroom
    cases hstep
    by_cases hc : op.isCreate = true
    · simp only [if_pos hc]; exact toInt_add_one fun hmax => hroom ⟨hc, hmax⟩
    · simp only [if_neg hc]; omega

theorem step (h : repo.Inv) {now : Nat → DateTime} {op : WriteOp} {answer : WriteAnswer}
    (hstep : op.memory now repo = some (answer, repo')) : repo'.Inv := by
  have hnextId := h.nextId_step hstep
  have hnext : repo.nextId.toInt ≤ repo'.nextId.toInt := by omega
  rw [op.memory_eq h.keyed] at hstep
  split at hstep
  · cases hstep
  · rename_i hroom
    cases hstep
    refine ⟨Change.keyed_run h.keyed, fun id row hrow => ?_, Int.le_trans h.pos hnext⟩
    rcases Change.get?_run_cases hrow with ⟨old, hold, -⟩ | ⟨hins, rfl⟩
    · have := h.below id old hold
      exact ⟨this.1, Int.lt_of_lt_of_le this.2 hnext⟩
    · -- the only insert is the one of `create`, under `next_id`
      cases op with
      | create ownerId data =>
        cases hins
        have hid : (data.row repo.nextId ownerId (now 0)).id = repo.nextId := rfl
        rw [hnextId]
        exact ⟨h.pos, by simp only [WriteOp.memoryStamps, hid, WriteOp.isCreate, if_true]; omega⟩
      | _ => cases hins

end HeroMemoryRepository.Inv

/-! ### Runs of the in-memory repository -/

/-- A write with the clock readings it makes. -/
structure MemoryWrite where
  op : WriteOp
  now : Nat → DateTime

namespace MemoryWrite

/-- One write after the other; `none` when one of them panics. -/
def run [Lowercase] : List MemoryWrite → HeroMemoryRepository → Option (List WriteAnswer × HeroMemoryRepository)
  | [], repo => some ([], repo)
  | write :: writes, repo =>
    (write.op.memory write.now repo).bind fun (answer, repo) =>
      (run writes repo).map fun (answers, repo) => (answer :: answers, repo)

def creates (writes : List MemoryWrite) : Nat := (writes.filter fun write => write.op.isCreate).length

theorem creates_cons (write : MemoryWrite) (writes : List MemoryWrite) :
    creates (write :: writes) = creates writes + if write.op.isCreate then 1 else 0 := by
  unfold creates; rw [List.filter_cons]; split <;> simp

theorem creates_append (writes writes' : List MemoryWrite) :
    creates (writes ++ writes') = creates writes + creates writes' := by
  simp [creates]

end MemoryWrite
end TemplateAxum
