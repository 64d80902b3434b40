import TemplateAxum.Memory
import TemplateAxum.SeaOrm
import TemplateAxum.Store

/-!
# Both repositories make the changes of the abstract store

One equation for each write method: the method's answer and the table it leaves are those of a
`Change`. The memory methods need the table to be keyed by its rows' ids, the statements do too where
they go by id.
-/

open Std StableSort Sql

namespace TemplateAxum

/-- The row a create makes. -/
def HeroCreate.row (data : HeroCreate) (id : Int32) (ownerId : String) (stamp : DateTime) : Model :=
  { id := id, name := some data.name, powers := some data.powers, powerLevel := data.powerLevel,
    ownerId := ownerId, archivedAt := none, createdAt := stamp, updatedAt := stamp }

namespace Revision

/-- The revisions of `update` and `delete`. -/
def updateOwned (id : Int32) (ownerId : String) (data : HeroUpdate) (stamp : DateTime) : Revision :=
  .update (ownedBy id ownerId) data fun _ => stamp

def archiveOwned (id : Int32) (ownerId : String) (archivedAt stamp : DateTime) : Revision :=
  .archive (ownedBy id ownerId) archivedAt stamp

variable {table : Table} {id : Int32} {ownerId : String}

section OwnedBy

variable {r : Revision} (hk : table.Keyed)
  (h : ∀ row, r.selects row = (row.live && ownedBy id ownerId row))
include hk h

theorem eq_of_ownedBy {k : Int32} {row : Model} (hrow : table.get? k = some row) (hs : r.selects row = true) :
    k = id := by
  simp only [h, ownedBy, Bool.and_eq_true, beq_iff_eq] at hs
  rw [← hk k row hrow, hs.2.1]

/-- The guard of `update` and `delete`. -/
theorem selects_of_ownedBy {row : Model} (hrow : table.get? id = some row) :
    r.selects row = !(row.ownerId ≠ ownerId || row.archivedAt.isSome) := by
  simp [h, ownedBy, Model.live, hk id row hrow, Bool.and_comm, Bool.beq_eq_decide_eq]

/-- A revision of one owned record looks the record up by its id. -/
theorem changed_of_ownedBy :
    r.changed table =
      match table.get? id with
      | none => []
      | some row => if row.ownerId ≠ ownerId || row.archivedAt.isSome then [] else [r.revise row] := by
  rw [changed, OrdMap.filter_values_of_key (k := id) fun e he =>
    eq_of_ownedBy hk h (OrdMap.get?_eq_some_iff.2 he)]
  cases hrow : table.get? id with
  | none => rfl
  | some row =>
    have hg := selects_of_ownedBy hk h hrow
    dsimp only
    split
    · rename_i hrej; rw [hrej] at hg; simp [Option.filter, hg]
    · rename_i hacc; rw [Bool.not_eq_true] at hacc; rw [hacc] at hg; simp [Option.filter, hg]

theorem length_changed_of_ownedBy : (r.changed table).length ≤ 1 := by
  rw [changed_of_ownedBy hk h]
  cases table.get? id with
  | none => exact Nat.zero_le 1
  | some row => dsimp only; split <;> simp

theorem id_of_mem_changed {row : Model} (hrow : row ∈ r.changed table) : row.id = id := by
  obtain ⟨k, old, hold, hs, rfl⟩ := mem_changed.1 hrow
  rw [(r.same old).id, hk k old hold, eq_of_ownedBy hk h hold hs]

theorem run_of_ownedBy :
    r.run table =
      match table.get? id with
      | none => table
      | some row =>
        if row.ownerId ≠ ownerId || row.archivedAt.isSome then table else table.adjust id r.revise := by
  have untouched : ∀ k row, table.get? k = some row → k ≠ id → r.apply row = row := fun k row hrow hne =>
    if_neg fun hs => hne (eq_of_ownedBy hk h hrow hs)
  refine OrdMap.ext_get? fun k => ?_
  rw [get?_run]
  cases hrow : table.get? id with
  | none =>
    refine (Option.map_congr fun v hv => untouched k v hv ?_).trans (Option.map_id' ..)
    rintro rfl; rw [hrow] at hv; cases hv
  | some row =>
    have hg := selects_of_ownedBy hk h hrow
    dsimp only
    split
    · rename_i hrej
      rw [hrej] at hg
      refine (Option.map_congr fun v hv => ?_).trans (Option.map_id' ..)
      by_cases hne : k = id
      · subst hne; rw [hrow] at hv; cases hv; exact if_neg (by simp [hg])
      · exact untouched k v hv hne
    · rename_i hacc
      rw [Bool.not_eq_true] at hacc
      rw [hacc] at hg
      rw [OrdMap.get?_adjust]
      refine Option.map_congr fun v hv => ?_
      by_cases hne : k = id
      · subst hne; rw [hrow] at hv; cases hv; rw [if_pos rfl]; exact if_pos (by simp [hg])
      · rw [if_neg hne]; exact untouched k v hv hne

end OwnedBy

end Revision

namespace HeroMemory

theorem applyUpdate_eq (now : DateTime) (row : Model) (data : HeroUpdate) :
    applyUpdate now row data = row.patch data now := by
  unfold applyUpdate Model.patch
  cases data.name <;> cases data.powers <;> cases data.powerLevel <;> rfl

theorem selects_eq [Lowercase] (filters : List FilterClause) (row : Model) :
    selects filters row = (row.live && matchesAll row filters) := by
  simp [selects, Model.live, Option.not_isSome]

end HeroMemory

open HeroMemory

namespace HeroMemoryRepository
variable {repo : HeroMemoryRepository} {now : Nat → DateTime}

theorem create_eq (now : Nat → DateTime) (ownerId : String) (data : HeroCreate) (repo : HeroMemoryRepository) :
    repo.create now ownerId data =
      if repo.nextId = Int32.maxValue then none
      else
        let row := data.row repo.nextId ownerId (now 0)
        some (row, ⟨(Change.insert row).run repo.records, repo.nextId + 1⟩) := rfl

theorem update_eq (hk : repo.records.Keyed) (now : Nat → DateTime) (id : Int32) (ownerId : String)
    (data : HeroUpdate) :
    repo.update now id ownerId data =
      (((Revision.updateOwned id ownerId data (now 0)).changed repo.records).head?,
        { repo with records := (Revision.updateOwned id ownerId data (now 0)).run repo.records }) := by
  rw [Revision.changed_of_ownedBy hk fun _ => rfl, Revision.run_of_ownedBy hk fun _ => rfl, update]
  cases repo.records.get? id with
  | none => rfl
  | some row =>
    simp only [applyUpdate_eq]
    split <;> rfl

theorem delete_eq (hk : repo.records.Keyed) (now : Nat → DateTime) (id : Int32) (ownerId : String) :
    repo.delete now id ownerId =
      (!((Revision.archiveOwned id ownerId (now 0) (now 1)).changed repo.records).isEmpty,
        { repo with records := (Revision.archiveOwned id ownerId (now 0) (now 1)).run repo.records }) := by
  rw [Revision.changed_of_ownedBy hk fun _ => rfl, Revision.run_of_ownedBy hk fun _ => rfl, delete]
  cases repo.records.get? id with
  | none => rfl
  | some row => dsimp only; split <;> rfl

variable [Lowercase]

/-- The clock reading that `update_many` stamps a row with: one reading for each matched row, in id order. -/
def stampOf (now : Nat → DateTime) (filters : List FilterClause) (data : HeroUpdate)
    (repo : HeroMemoryRepository) (row : Model) : DateTime :=
  now (OrdMap.accAt (OrdMap.collect (selects filters) fun updated hero => applyUpdate (now updated.length) hero data)
    row.id [] repo.records.entries).length

theorem updateMany_eq (hk : repo.records.Keyed) (now : Nat → DateTime) (filters : List FilterClause)
    (data : HeroUpdate) :
    repo.updateMany now filters data =
      ((Revision.update (matchesAll · filters) data (repo.stampOf now filters data)).changed repo.records,
        { repo with
          records := (Revision.update (matchesAll · filters) data (repo.stampOf now filters data)).run repo.records }) := by
  have hsel : selects filters =
      (Revision.update (matchesAll · filters) data (repo.stampOf now filters data)).selects := funext (selects_eq filters)
  rw [updateMany, OrdMap.walk_collect
    (f := (Revision.update (matchesAll · filters) data (repo.stampOf now filters data)).revise) fun e he => ?_, hsel]
  · rfl
  · rw [applyUpdate_eq, ← hk e.1 e.2 (OrdMap.get?_eq_some_iff.2 he)]; rfl

/-- The `n`-th row that is updated has the `n`-th reading. -/
theorem updatedAt_updateMany {now : Nat → DateTime} {filters : List FilterClause} {data : HeroUpdate} {n : Nat} {row : Model}
    (hrow : (repo.updateMany now filters data).1[n]? = some row) : row.updatedAt = now n := by
  obtain ⟨hero, rfl⟩ := (OrdMap.getElem?_walkList_collect (selects filters)
    (fun updated hero => applyUpdate (now updated.length) hero data) [] repo.records.entries).2 n row (Nat.zero_le n) hrow
  have hlt : n < (repo.updateMany now filters data).1.length := (List.getElem?_eq_some_iff.1 hrow).1
  show now (List.take n (repo.updateMany now filters data).1).length = now n
  rw [List.length_take, Nat.min_eq_left (Nat.le_of_lt hlt)]

theorem deleteMany_eq (now : Nat → DateTime) (filters : List FilterClause) (includeUnpublished : Bool)
    (repo : HeroMemoryRepository) :
    repo.deleteMany now filters includeUnpublished =
      ((Revision.archive (matchesAll · filters) (now 0) (now 0)).changed repo.records,
        { repo with records := (Revision.archive (matchesAll · filters) (now 0) (now 0)).run repo.records }) := by
  have hsel : selects filters = (Revision.archive (matchesAll · filters) (now 0) (now 0)).selects :=
    funext (selects_eq filters)
  rw [deleteMany, OrdMap.walk_collect (f := (Revision.archive (matchesAll · filters) (now 0) (now 0)).revise)
    fun _ _ => rfl, hsel]
  rfl

end HeroMemoryRepository

/-! ### The Postgres repository -/

open HeroSeaOrm

theorem Table.Keyed.pairwise_values {table : Table} (hk : table.Keyed) :
    table.values.Pairwise fun a b => compare a.id b.id = .lt := by
  refine List.pairwise_map.2 (table.sorted.imp_of_mem fun {a b} ha hb hab => ?_)
  rwa [hk a.1 a.2 (OrdMap.get?_eq_some_iff.2 ha), hk b.1 b.2 (OrdMap.get?_eq_some_iff.2 hb)]

theorem Table.Keyed.nodup_values {table : Table} (hk : table.Keyed) : table.values.Nodup :=
  hk.pairwise_values.imp fun {a b} hab heq => by subst heq; simp at hab

theorem Revision.pairwise_id_changed {r : Revision} {table : Table} (hk : table.Keyed) :
    (r.changed table).Pairwise fun a b => compare a.id b.id = .lt := by
  refine List.pairwise_map.2 ((hk.pairwise_values.filter _).imp fun {a b} hab => ?_)
  rwa [(r.same a).id, (r.same b).id]

namespace HeroSeaOrm

instance : TransCmp fun a b : Model => compare a.id b.id := inferInstanceAs (TransCmp (compareOn Model.id))

variable [Lowercase] {row : Model}

@[simp] theorem whereHolds_nil : whereHolds [] row = true := rfl

@[simp] theorem whereHolds_cons (e : SimpleExpr) (conditions : List SimpleExpr) :
    whereHolds (e :: conditions) row = ((e.eval row).holds && whereHolds conditions row) := by
  simp [whereHolds, Truth.holds_all]

theorem whereHolds_append (c₁ c₂ : List SimpleExpr) :
    whereHolds (c₁ ++ c₂) row = (whereHolds c₁ row && whereHolds c₂ row) := by
  simp [whereHolds, Truth.holds_all]

theorem whereHolds_applyFilters_iff {filters : List FilterClause} :
    whereHolds (applyFilters filters) row = true ↔
      ∀ clause ∈ filters, ((conditionFor clause).eval row).holds = true := by
  simp [whereHolds, applyFilters, Truth.holds_all]

@[simp] theorem holds_isNull_archivedAt : ((SimpleExpr.isNull .archivedAt).eval row).holds = row.live := by
  simp [SimpleExpr.eval, cell, Value.isNull, Model.live]

@[simp] theorem holds_isNotNull_archivedAt :
    ((SimpleExpr.isNotNull .archivedAt).eval row).holds = !row.live := by
  simp [SimpleExpr.eval, cell, Value.isNull, Model.live]

omit [Lowercase] in
theorem isEq_compare {α : Type} [Ord α] [LawfulEqOrd α] [DecidableEq α] (a b : α) :
    (compare a b).isEq = (a == b) := by
  rw [Bool.eq_iff_iff, Ordering.isEq_iff_eq_eq, LawfulEqCmp.compare_eq_iff_eq, beq_iff_eq]

@[simp] theorem holds_eqId (id : Int32) :
    ((HeroSeaOrmRepository.eqId id).eval row).holds = (row.id == id) := by
  simp [HeroSeaOrmRepository.eqId, SimpleExpr.eval, cell, Value.compare?, binaryHolds, isEq_compare]

@[simp] theorem holds_eqOwner (ownerId : String) :
    ((HeroSeaOrmRepository.eqOwner ownerId).eval row).holds = (row.ownerId == ownerId) := by
  simp [HeroSeaOrmRepository.eqOwner, SimpleExpr.eval, cell, Value.compare?, binaryHolds, isEq_compare]

omit [Lowercase] in
@[simp] theorem apply_updateValues (data : HeroUpdate) (now : DateTime) :
    (updateValues data now).apply row = row.patch data now := by
  unfold updateValues ActiveModel.apply Model.patch
  cases data.name <;> cases data.powers <;> cases data.powerLevel <;> rfl

omit [Lowercase] in
/-- One row can be listed in one order only. -/
theorem order_eq_self {rows : List Model} (h : rows.length ≤ 1) (returning : RowOrder) :
    returning.order rows = rows := by
  have hp := returning.perm rows
  match rows with
  | [] => exact hp.eq_nil
  | [row] => exact List.perm_singleton.1 hp

omit [Lowercase] in
/-- Sorting by id undoes whatever order `RETURNING` chose. -/
theorem byId_order {r : Revision} {table : Table} (hk : table.Keyed) (returning : RowOrder) :
    byId (returning.order (r.changed table)) = r.changed table := by
  have hperm := (sortBy_perm (fun a b : Model => compare a.id b.id) _).trans (returning.perm (r.changed table))
  exact eq_of_perm_of_strict hperm (sorted_sortBy _ _) (Revision.pairwise_id_changed hk)

/-- A statement whose `WHERE` and `SET` are those of a revision makes that revision. -/
theorem execWithReturning_eq {r : Revision} {active : ActiveModel} {conditions : List SimpleExpr}
    (hwhere : ∀ row, whereHolds conditions row = r.selects row) (hset : ∀ row, active.apply row = r.revise row)
    (returning : RowOrder) (db : Table) :
    execWithReturning returning active conditions db = (returning.order (r.changed db), r.run db) := by
  have hw : whereHolds conditions = r.selects := funext hwhere
  have hs : active.apply = r.revise := funext hset
  rw [execWithReturning, hw, hs]; rfl

end HeroSeaOrm

namespace HeroSeaOrmRepository
variable {db : Table}

theorem create_eq (now : DateTime) (id : Int32) (ownerId : String) (data : HeroCreate) (db : Table) :
    create now id ownerId data db =
      if (db.get? id).isSome then none
      else some (data.row id ownerId now, (Change.insert (data.row id ownerId now)).run db) := rfl

variable [Lowercase]

theorem update_eq (hk : db.Keyed) (returning : RowOrder) (now : DateTime) (id : Int32) (ownerId : String)
    (data : HeroUpdate) :
    update returning now id ownerId data db =
      (((Revision.updateOwned id ownerId data now).changed db).head?,
        (Revision.updateOwned id ownerId data now).run db) := by
  rw [update, execWithReturning_eq (r := .updateOwned id ownerId data now)
    (fun row => by simp [Revision.updateOwned, Revision.update, Revision.ownedBy, Bool.and_comm, Bool.and_assoc])
    (fun row => apply_updateValues data now),
    order_eq_self (Revision.length_changed_of_ownedBy hk fun _ => rfl)]

theorem delete_eq (hk : db.Keyed) (returning : RowOrder) (now : DateTime) (id : Int32) (ownerId : String) :
    delete returning now id ownerId db =
      (!((Revision.archiveOwned id ownerId now now).changed db).isEmpty,
        (Revision.archiveOwned id ownerId now now).run db) := by
  rw [delete, execWithReturning_eq (r := .archiveOwned id ownerId now now)
    (fun row => by simp [Revision.archiveOwned, Revision.archive, Revision.ownedBy, Bool.and_comm, Bool.and_assoc])
    (fun row => rfl), order_eq_self (Revision.length_changed_of_ownedBy hk fun _ => rfl)]

theorem updateMany_eq (hk : db.Keyed) (returning : RowOrder) (now : DateTime) (filters : List FilterClause)
    (data : HeroUpdate) :
    updateMany returning now filters data db =
      ((Revision.update (whereHolds (applyFilters filters)) data fun _ => now).changed db,
        (Revision.update (whereHolds (applyFilters filters)) data fun _ => now).run db) := by
  rw [updateMany, execWithReturning_eq (r := .update (whereHolds (applyFilters filters)) data fun _ => now)
    (fun row => by simp [Revision.update]) (fun row => apply_updateValues data now)]
  exact Prod.ext (byId_order hk returning) rfl

theorem deleteMany_eq (hk : db.Keyed) (returning : RowOrder) (now : DateTime) (filters : List FilterClause)
    (includeUnpublished : Bool) :
    deleteMany returning now filters includeUnpublished db =
      ((Revision.archive (whereHolds (applyFilters filters)) now now).changed db,
        (Revision.archive (whereHolds (applyFilters filters)) now now).run db) := by
  rw [deleteMany, execWithReturning_eq (r := .archive (whereHolds (applyFilters filters)) now now)
    (fun row => by simp [Revision.archive]) (fun row => rfl)]
  exact Prod.ext (byId_order hk returning) rfl

end HeroSeaOrmRepository
end TemplateAxum
