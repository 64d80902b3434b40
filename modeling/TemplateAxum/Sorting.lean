import TemplateAxum.Memory
import TemplateAxum.SeaOrm

/-!
# Sort orders

`apply_sort` of the in-memory repository is one stable sort by the lexicographic comparison of its
clauses (`applySort_eq`), the `ORDER BY` of the other one lists the same keys. The keys themselves are
compared alike except where exactly one is NULL: Rust puts `None` first in ascending order, Postgres
puts NULL last, and both turn round for a descending clause. `puts_iff` says what this does to whole
sort lists.
-/

open Std StableSort Sql

namespace TemplateAxum

open HeroSeaOrm

namespace HeroMemory

instance fieldCmp.transCmp (field : String) : TransCmp fun a b => fieldCmp a b field := by
  unfold fieldCmp
  split
  · exact comap.transCmp compare Model.id
  · exact comap.transCmp compare Model.powerLevel
  · exact comap.transCmp compare Model.name
  · exact comap.transCmp compare Model.ownerId
  · exact comap.transCmp compare Model.createdAt
  · exact comap.transCmp compare Model.updatedAt
  · exact comap.transCmp compare Model.archivedAt
  · exact const.transCmp

instance clauseCmp.transCmp (clause : SortClause) : TransCmp (clauseCmp clause) := by
  unfold clauseCmp
  cases clause.descending
  · exact fieldCmp.transCmp clause.field
  · exact swap.transCmp fun a b => fieldCmp a b clause.field

/-- The reversed passes sort by the clauses in the order given. -/
theorem applySort_eq (items : List Model) (sort : List SortClause) :
    applySort items sort = sortBy (lexCmp clauseCmp sort) items :=
  foldl_sortBy clauseCmp sort items

end HeroMemory

namespace HeroSeaOrm

instance orderCmp.transCmp (key : Column × Order) : TransCmp (orderCmp key) := by
  obtain ⟨column, order⟩ := key
  have : TransCmp fun a b => (cell column a).ascCmp (cell column b) := by
    cases column
    · exact comap.transCmp (asc compare) fun row : Model => some row.id
    · exact comap.transCmp (asc compare) Model.name
    · exact comap.transCmp (asc compare) Model.powerLevel
    · exact comap.transCmp (asc compare) fun row : Model => some row.ownerId
    · exact comap.transCmp (asc compare) Model.archivedAt
    · exact comap.transCmp (asc compare) fun row : Model => some row.createdAt
    · exact comap.transCmp (asc compare) fun row : Model => some row.updatedAt
  cases order
  · exact this
  · exact swap.transCmp fun a b => (cell column a).ascCmp (cell column b)

end HeroSeaOrm

open HeroMemory

/-! ### One key -/

/-- The field of the row is NULL. -/
def Model.isNullAt (row : Model) (field : String) : Bool :=
  (columnFor field).any fun column => (cell column row).isNull

variable {a b : Model} {field : String} {column : Column} {sort : List SortClause}

/-- Rust and Postgres order optional values alike unless exactly one is missing. -/
theorem asc_compare {α : Type} [Ord α] (x y : Option α) :
    asc compare x y = if x.isNone = y.isNone then compare x y else (compare x y).swap := by
  rcases x with _ | x <;> rcases y with _ | y <;> rfl

theorem ascCmp_cell (h : columnFor field = some column) :
    (cell column a).ascCmp (cell column b) =
      if a.isNullAt field = b.isNullAt field then fieldCmp a b field else (fieldCmp a b field).swap := by
  unfold Model.isNullAt
  rw [h]
  unfold columnFor at h
  split at h <;> cases h <;> first | rfl | exact asc_compare ..

theorem fieldCmp_of_columnFor_none (h : columnFor field = none) : fieldCmp a b field = .eq := by
  unfold columnFor at h
  split at h <;> try cases h
  unfold fieldCmp
  split <;> first | rfl | contradiction

theorem cell_eq_of_fieldCmp (h : columnFor field = some column) (heq : fieldCmp a b field = .eq) :
    cell column a = cell column b := by
  unfold columnFor at h
  split at h <;> cases h <;> simpa [cell, fieldCmp] using heq

theorem isNullAt_eq_of_fieldCmp (heq : fieldCmp a b field = .eq) : a.isNullAt field = b.isNullAt field := by
  unfold Model.isNullAt
  cases h : columnFor field with
  | none => rfl
  | some column => rw [Option.any_some, Option.any_some, cell_eq_of_fieldCmp h heq]

/-! ### Whole sort lists -/

/-- The first clause on which two rows differ compares two values, not a value with NULL. -/
def NullFree (a b : Model) : List SortClause → Prop
  | [] => True
  | clause :: sort =>
    if fieldCmp a b clause.field = .eq then NullFree a b sort
    else a.isNullAt clause.field = b.isNullAt clause.field

theorem applySort_cons_of_none {clause : SortClause} (h : columnFor clause.field = none) :
    HeroSeaOrm.applySort (clause :: sort) = HeroSeaOrm.applySort sort := by
  simp [HeroSeaOrm.applySort, h]

theorem applySort_cons_of_some {clause : SortClause} (h : columnFor clause.field = some column) :
    HeroSeaOrm.applySort (clause :: sort) =
      (column, if clause.descending then .desc else .asc) :: HeroSeaOrm.applySort sort := by
  simp [HeroSeaOrm.applySort, h]

/-- The two comparisons of one clause. -/
theorem orderCmp_eq {clause : SortClause} (h : columnFor clause.field = some column) :
    orderCmp (column, if clause.descending then .desc else .asc) a b =
      if a.isNullAt clause.field = b.isNullAt clause.field then clauseCmp clause a b
      else (clauseCmp clause a b).swap := by
  cases hd : clause.descending with
  | false => simp only [orderCmp, clauseCmp, hd, ascCmp_cell h, Bool.false_eq_true, if_false]
  | true =>
    simp only [orderCmp, clauseCmp, hd, ascCmp_cell h, if_true]
    split <;> simp

theorem clauseCmp_eq_eq {clause : SortClause} : clauseCmp clause a b = .eq ↔ fieldCmp a b clause.field = .eq := by
  unfold clauseCmp
  cases clause.descending <;> simp

/-- The lexicographic orders of both repositories agree on two rows, or they are opposite. -/
theorem lexCmp_applySort (sort : List SortClause) (a b : Model) :
    (NullFree a b sort → lexCmp orderCmp (HeroSeaOrm.applySort sort) a b = lexCmp clauseCmp sort a b) ∧
      (¬ NullFree a b sort → lexCmp clauseCmp sort a b ≠ .eq ∧
        lexCmp orderCmp (HeroSeaOrm.applySort sort) a b = (lexCmp clauseCmp sort a b).swap) := by
  induction sort with
  | nil => exact ⟨fun _ => rfl, fun h => absurd trivial h⟩
  | cons clause sort ih =>
    cases h : columnFor clause.field with
    | none =>
      have heq : fieldCmp a b clause.field = .eq := fieldCmp_of_columnFor_none h
      rw [applySort_cons_of_none h, NullFree, if_pos heq, lexCmp, clauseCmp_eq_eq.2 heq]
      exact ih
    | some column =>
      rw [applySort_cons_of_some h, NullFree, lexCmp, lexCmp, orderCmp_eq h]
      by_cases heq : fieldCmp a b clause.field = .eq
      · rw [if_pos heq, if_pos (isNullAt_eq_of_fieldCmp heq), clauseCmp_eq_eq.2 heq]
        exact ih
      · -- this clause decides
        have hne : clauseCmp clause a b ≠ .eq := fun hc => heq (clauseCmp_eq_eq.1 hc)
        rw [if_neg heq]
        refine ⟨fun hnull => ?_, fun hnull => ?_⟩
        · rw [if_pos hnull]; revert hne; cases clauseCmp clause a b <;> simp
        · rw [if_neg hnull]; revert hne; cases clauseCmp clause a b <;> simp

/-- Two rows that no sort field tells apart. -/
def Tie (sort : List SortClause) (a b : Model) : Prop := ∀ clause ∈ sort, fieldCmp a b clause.field = .eq

theorem tie_iff : Tie sort a b ↔ lexCmp clauseCmp sort a b = .eq := by
  induction sort with
  | nil => simp [Tie, lexCmp]
  | cons clause sort ih =>
    rw [lexCmp, Ordering.then_eq_eq, clauseCmp_eq_eq, ← ih]
    simp [Tie]

/-- `apply_sort` of the in-memory repository puts `a` before `b`, and not by position alone. -/
def MemoryPuts (items : List Model) (sort : List SortClause) (a b : Model) : Prop :=
  [a, b].Sublist (HeroMemory.applySort items sort) ∧ ¬ Tie sort a b

/-- The `ORDER BY` puts `a` before `b`, in whatever order the database answers. -/
def SeaOrmPuts (items : List Model) (sort : List SortClause) (a b : Model) : Prop :=
  (∀ out, Arrangement (lexCmp orderCmp (HeroSeaOrm.applySort sort)) items out → [a, b].Sublist out) ∧
    ¬ Tie sort a b

/-- Lexicographically before: at the first clause that tells the rows apart. -/
def LexBefore (a b : Model) : List SortClause → Prop
  | [] => False
  | clause :: sort => clauseCmp clause a b = .lt ∨ clauseCmp clause a b = .eq ∧ LexBefore a b sort

theorem lexBefore_iff : LexBefore a b sort ↔ lexCmp clauseCmp sort a b = .lt := by
  induction sort with
  | nil => simp [LexBefore, lexCmp]
  | cons clause sort ih => rw [LexBefore, lexCmp, Ordering.then_eq_lt, ih]

variable {items : List Model}

theorem memoryPuts_iff (ha : a ∈ items) (hb : b ∈ items) : MemoryPuts items sort a b ↔ LexBefore a b sort := by
  have hsorted := sorted_sortBy (lexCmp clauseCmp sort) items
  rw [MemoryPuts, HeroMemory.applySort_eq, tie_iff, lexBefore_iff]
  refine ⟨fun ⟨hsub, htie⟩ => ?_, fun hlt => ⟨?_, by rw [hlt]; decide⟩⟩
  · have hle := hsorted.isLE_of_sublist hsub
    revert hle htie; cases lexCmp clauseCmp sort a b <;> simp
  · exact hsorted.sublist (mem_sortBy.2 ha) (mem_sortBy.2 hb) hlt

theorem seaOrmPuts_iff (ha : a ∈ items) (hb : b ∈ items) :
    SeaOrmPuts items sort a b ↔ lexCmp orderCmp (HeroSeaOrm.applySort sort) a b = .lt := by
  have htie : Tie sort a b ↔ lexCmp orderCmp (HeroSeaOrm.applySort sort) a b = .eq := by
    rw [tie_iff]
    by_cases hnull : NullFree a b sort
    · rw [(lexCmp_applySort sort a b).1 hnull]
    · rw [((lexCmp_applySort sort a b).2 hnull).2]
      cases lexCmp clauseCmp sort a b <;> simp
  rw [SeaOrmPuts, htie]
  refine ⟨fun ⟨hsub, htie⟩ => ?_, fun hlt => ⟨fun out hout => ?_, by rw [hlt]; decide⟩⟩
  · have hout := arrangement_sortBy (lexCmp orderCmp (HeroSeaOrm.applySort sort)) items
    have hle := hout.sorted.isLE_of_sublist (hsub _ hout)
    revert hle htie; cases lexCmp orderCmp (HeroSeaOrm.applySort sort) a b <;> simp
  · exact hout.sorted.sublist (hout.perm.mem_iff.2 ha) (hout.perm.mem_iff.2 hb) hlt

theorem puts_iff (items : List Model) (sort : List SortClause) :
    (∀ a ∈ items, ∀ b ∈ items, (MemoryPuts items sort a b ↔ SeaOrmPuts items sort a b) ∧
        (MemoryPuts items sort a b ↔ LexBefore a b sort) ∧ (SeaOrmPuts items sort a b ↔ LexBefore a b sort)) ↔
      ∀ a ∈ items, ∀ b ∈ items, NullFree a b sort := by
  refine forall₂_congr fun a ha => forall₂_congr fun b hb => ?_
  rw [memoryPuts_iff ha hb, seaOrmPuts_iff ha hb, lexBefore_iff]
  constructor
  · rintro ⟨h, -, -⟩
    by_contra hnull
    obtain ⟨hne, hswap⟩ := (lexCmp_applySort sort a b).2 hnull
    rw [hswap] at h
    revert h hne; cases lexCmp clauseCmp sort a b <;> simp
  · intro hnull
    rw [(lexCmp_applySort sort a b).1 hnull]
    exact ⟨Iff.rfl, Iff.rfl, Iff.rfl⟩

/-- A nameless hero stands first in one repository and last in the other. -/
theorem not_puts_null_name :
    let nameless : Model := ⟨1, none, none, none, "alice", none, 0, 0⟩
    let named : Model := ⟨2, some "Spectra", none, none, "alice", none, 0, 0⟩
    MemoryPuts [nameless, named] [⟨"name", false⟩] nameless named ∧
      ¬ SeaOrmPuts [nameless, named] [⟨"name", false⟩] nameless named ∧
      SeaOrmPuts [nameless, named] [⟨"name", false⟩] named nameless := by
  intro nameless named
  have h₁ : nameless ∈ [nameless, named] := by simp
  have h₂ : named ∈ [nameless, named] := by simp
  rw [memoryPuts_iff h₁ h₂, seaOrmPuts_iff h₁ h₂, seaOrmPuts_iff h₂ h₁]
  exact ⟨.inl rfl, by decide, rfl⟩

end TemplateAxum
