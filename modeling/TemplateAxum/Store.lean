import TemplateAxum.Model

/-!
# The abstract store

What a repository of heroes is for, whichever one holds the rows: a write either inserts a row under
a fresh id or revises some live rows, and a revision keeps a row's id, owner and creation time by
construction (`Revision`). Both repositories are shown to make these changes and no others
(`Refine.lean`); what holds of the changes holds of both.
-/

open Std

namespace TemplateAxum

theorem compare_int32 (a b : Int32) : compare a b = compare a.toInt b.toInt := by
  simp [compare, compareOfLessAndEq, Int32.lt_iff_toInt_lt, Int32.toInt_inj]

theorem compare_int32_lt {a b : Int32} : compare a b = .lt ↔ a < b := by
  rw [compare_int32, Int.compare_eq_lt, Int32.lt_iff_toInt_lt]

/-- Every row stands under its own id. -/
def Table.Keyed (table : Table) : Prop := ∀ id row, table.get? id = some row → row.id = id

/-- The fields a row keeps for life. -/
structure Model.SameRecord (row row' : Model) : Prop where
  id : row'.id = row.id
  ownerId : row'.ownerId = row.ownerId
  createdAt : row'.createdAt = row.createdAt

namespace Model.SameRecord
variable {a b c : Model}

theorem refl (a : Model) : SameRecord a a := ⟨rfl, rfl, rfl⟩

theorem trans (h : SameRecord a b) (h' : SameRecord b c) : SameRecord a c :=
  ⟨h'.id.trans h.id, h'.ownerId.trans h.ownerId, h'.createdAt.trans h.createdAt⟩

end Model.SameRecord

/-! ### Revisions -/

/-- A change of some live rows that keeps each of them the same record. -/
structure Revision where
  selects : Model → Bool
  revise : Model → Model
  live : ∀ {row}, selects row = true → row.live = true
  same : ∀ row : Model, row.SameRecord (revise row)

/-- A row with the fields that a partial update carries, and a new `updated_at`. -/
def Model.patch (row : Model) (data : HeroUpdate) (stamp : DateTime) : Model :=
  { row with
    name := data.name.or row.name
    powers := data.powers.or row.powers
    powerLevel := data.powerLevel.or row.powerLevel
    updatedAt := stamp }

namespace Revision

/-- Patch the live rows that `p` selects. -/
def update (p : Model → Bool) (data : HeroUpdate) (stamp : Model → DateTime) : Revision where
  selects row := row.live && p row
  revise row := row.patch data (stamp row)
  live h := (Bool.and_eq_true_iff.1 h).1
  same _ := ⟨rfl, rfl, rfl⟩

/-- Soft-delete the live rows that `p` selects. -/
def archive (p : Model → Bool) (archivedAt stamp : DateTime) : Revision where
  selects row := row.live && p row
  revise row := { row with archivedAt := some archivedAt, updatedAt := stamp }
  live h := (Bool.and_eq_true_iff.1 h).1
  same _ := ⟨rfl, rfl, rfl⟩

/-- One record of one owner. -/
def ownedBy (id : Int32) (ownerId : String) (row : Model) : Bool := row.id == id && row.ownerId == ownerId

variable (r : Revision)

def apply (row : Model) : Model := if r.selects row then r.revise row else row

def run (table : Table) : Table := table.map r.apply

/-- The rows it changes, as changed, in ascending id order. -/
def changed (table : Table) : List Model := (table.values.filter r.selects).map r.revise

variable {r} {table : Table} {id : Int32} {row : Model}

theorem same_apply (row : Model) : row.SameRecord (r.apply row) := by
  unfold apply; split
  · exact r.same row
  · exact .refl row

theorem apply_of_not_live (h : row.live = false) : r.apply row = row :=
  if_neg fun hs => by simp [r.live hs] at h

theorem get?_run (id : Int32) : (r.run table).get? id = (table.get? id).map r.apply :=
  OrdMap.get?_map table r.apply id

theorem mem_changed : row ∈ r.changed table ↔
    ∃ id old, table.get? id = some old ∧ r.selects old = true ∧ r.revise old = row := by
  simp only [changed, List.mem_map, List.mem_filter, OrdMap.mem_values]
  constructor
  · intro h
    rcases h with ⟨old, ⟨⟨id, hid⟩, hs⟩, hr⟩
    exact ⟨id, old, hid, hs, hr⟩
  · intro h
    rcases h with ⟨id, old, hid, hs, hr⟩
    exact ⟨old, ⟨⟨id, hid⟩, hs⟩, hr⟩

theorem keyed_run (h : table.Keyed) : (r.run table).Keyed := fun id row hrow => by
  rw [get?_run] at hrow
  obtain ⟨old, hold, rfl⟩ := Option.map_eq_some_iff.1 hrow
  rw [(same_apply old).id, h id old hold]

end Revision

/-! ### Changes -/

/-- What one write does to the table. -/
inductive Change
  | insert (row : Model)
  | revise (r : Revision)

namespace Change

def run (table : Table) : Change → Table
  | insert row => table.insert row.id row
  | revise r => r.run table

/-- The rows it makes or changes, as they are afterwards. -/
def reported (table : Table) : Change → List Model
  | insert row => [row]
  | revise r => r.changed table

/-- An insert takes an id that no row has. -/
def Fresh (table : Table) : Change → Prop
  | insert row => table.get? row.id = none
  | revise _ => True

variable {table : Table} {c : Change} {id : Int32} {row : Model}

theorem keyed_run (h : table.Keyed) : (c.run table).Keyed := by
  cases c with
  | insert new =>
    intro id row hrow
    rw [run, OrdMap.get?_insert] at hrow
    split at hrow
    · rename_i heq; cases hrow; exact heq.symm
    · exact h id row hrow
  | revise r => exact Revision.keyed_run h

/-- No row goes away, each stays the same record, and an archived one does not change at all. -/
theorem persists (hc : c.Fresh table) (hrow : table.get? id = some row) :
    ∃ row', (c.run table).get? id = some row' ∧ row.SameRecord row' ∧ (row.live = false → row' = row) := by
  cases c with
  | insert new =>
    have hne : id ≠ new.id := fun heq => by rw [heq, hc] at hrow; cases hrow
    exact ⟨row, by rw [run, OrdMap.get?_insert, if_neg hne, hrow], .refl row, fun _ => rfl⟩
  | revise r =>
    exact ⟨r.apply row, by rw [run, Revision.get?_run, hrow]; rfl, Revision.same_apply row,
      Revision.apply_of_not_live⟩

/-- Where a row of the new table comes from. -/
theorem get?_run_cases (hrow : (c.run table).get? id = some row) :
    (∃ old, table.get? id = some old ∧ old.SameRecord row) ∨ (c = .insert row ∧ row.id = id) := by
  cases c with
  | insert new =>
    rw [run, OrdMap.get?_insert] at hrow
    split at hrow
    · rename_i heq; cases hrow; exact .inr ⟨rfl, heq.symm⟩
    · exact .inl ⟨row, hrow, .refl row⟩
  | revise r =>
    rw [run, Revision.get?_run] at hrow
    obtain ⟨old, hold, rfl⟩ := Option.map_eq_some_iff.1 hrow
    exact .inl ⟨old, hold, Revision.same_apply old⟩

/-- The frame: an id that is not reported keeps its row, or its absence. -/
theorem get?_run_of_not_reported (hk : table.Keyed) (h : ∀ row ∈ c.reported table, row.id ≠ id) :
    (c.run table).get? id = table.get? id := by
  cases c with
  | insert new =>
    rw [run, OrdMap.get?_insert, if_neg fun heq => h new (List.mem_singleton.2 rfl) heq.symm]
  | revise r =>
    rw [run, Revision.get?_run]
    cases hrow : table.get? id with
    | none => rfl
    | some row =>
      have hs : ¬ r.selects row = true := fun hs =>
        h _ (Revision.mem_changed.2 ⟨id, row, hrow, hs, rfl⟩) ((r.same row).id.trans (hk id row hrow))
      rw [Option.map_some, Revision.apply, if_neg hs]

theorem run_of_reported_nil (hk : table.Keyed) (h : c.reported table = []) : c.run table = table := by
  refine OrdMap.ext_get? fun id => get?_run_of_not_reported hk fun row hrow => ?_
  rw [h] at hrow
  cases hrow

/-- A row of the new table is an old one as it was, or a reported one. -/
theorem get?_run_eq_or_reported (hrow : (c.run table).get? id = some row) :
    table.get? id = some row ∨ row ∈ c.reported table := by
  cases c with
  | insert new =>
    rw [run, OrdMap.get?_insert] at hrow
    split at hrow
    · cases hrow; exact .inr (List.mem_singleton.2 rfl)
    · exact .inl hrow
  | revise r =>
    rw [run, Revision.get?_run] at hrow
    obtain ⟨old, hold, rfl⟩ := Option.map_eq_some_iff.1 hrow
    by_cases hs : r.selects old = true
    · rw [Revision.apply, if_pos hs]
      exact .inr (Revision.mem_changed.2 ⟨id, old, hold, hs, rfl⟩)
    · rw [Revision.apply, if_neg hs]
      exact .inl hold

/-- A reported row is the inserted one, or a later version of a row of the table. -/
theorem reported_cases (hrow : row ∈ c.reported table) :
    c = .insert row ∨ ∃ id old, table.get? id = some old ∧ old.SameRecord row := by
  cases c with
  | insert new => exact .inl (by rw [List.mem_singleton.1 hrow])
  | revise r =>
    obtain ⟨id, old, hold, -, rfl⟩ := Revision.mem_changed.1 hrow
    exact .inr ⟨id, old, hold, r.same old⟩

/-- A reported row is in the table afterwards. -/
theorem get?_run_of_reported (hk : table.Keyed) (h : row ∈ c.reported table) :
    (c.run table).get? row.id = some row := by
  cases c with
  | insert new =>
    obtain rfl := List.mem_singleton.1 h
    rw [run, OrdMap.get?_insert, if_pos rfl]
  | revise r =>
    obtain ⟨id, old, hold, hs, rfl⟩ := Revision.mem_changed.1 h
    rw [run, Revision.get?_run, (r.same old).id, hk id old hold, hold, Option.map_some,
      Revision.apply, if_pos hs]

end Change
end TemplateAxum
