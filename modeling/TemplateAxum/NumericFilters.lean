import TemplateAxum.Agree

/-!
# Numeric and datetime filters

A clause over `id`, `power_level` or a datetime column says something about integers (`Holds`). The
in-memory interpreter selects exactly the rows of which it is true; the SQL condition compares with
the value cast into 32 bits (`scalar`), which is the same for every value the column can hold and for
a few beyond (`Exact`).
-/

open Std Sql

namespace TemplateAxum

open HeroMemory HeroSeaOrm

/-! ### Clauses over integers and instants -/

inductive IntField
  | id | powerLevel
deriving DecidableEq

inductive TimeField
  | createdAt | updatedAt | archivedAt
deriving DecidableEq

inductive Comparison
  | eq | ne | lt | lte | gt | gte
deriving DecidableEq

namespace IntField

def name : IntField → String
  | id => "id"
  | powerLevel => "power_level"

def value (row : Model) : IntField → Option Int32
  | id => some row.id
  | powerLevel => row.powerLevel

end IntField

namespace TimeField

def name : TimeField → String
  | createdAt => "created_at"
  | updatedAt => "updated_at"
  | archivedAt => "archived_at"

def value (row : Model) : TimeField → Option DateTime
  | createdAt => some row.createdAt
  | updatedAt => some row.updatedAt
  | archivedAt => row.archivedAt

end TimeField

namespace Comparison

def toOp : Comparison → FilterOp
  | eq => .eq
  | ne => .ne
  | lt => .lt
  | lte => .lte
  | gt => .gt
  | gte => .gte

/-- The comparison of mathematical integers. -/
def test (a b : Int) : Comparison → Bool
  | eq => a = b
  | ne => a ≠ b
  | lt => a < b
  | lte => a ≤ b
  | gt => a > b
  | gte => a ≥ b

end Comparison

/-- A clause of the numeric and datetime fields. -/
inductive NumericClause
  | int (field : IntField) (op : Comparison) (v : Int64)
  | intIn (field : IntField) (vs : List Int64)
  | time (field : TimeField) (op : Comparison) (v : DateTime)
  | timeIn (field : TimeField) (vs : List DateTime)

namespace NumericClause

def toClause : NumericClause → FilterClause
  | int field op v => ⟨field.name, op.toOp, .int v⟩
  | intIn field vs => ⟨field.name, .in, .list (vs.map .int)⟩
  | time field op v => ⟨field.name, op.toOp, .dateTime v⟩
  | timeIn field vs => ⟨field.name, .in, .list (vs.map .dateTime)⟩

/-- What a clause says about a row; nothing holds of a NULL. -/
def Holds (row : Model) : NumericClause → Prop
  | int field op v => ∃ a, field.value row = some a ∧ op.test a.toInt v.toInt = true
  | intIn field vs => ∃ a, field.value row = some a ∧ ∃ v ∈ vs, v.toInt = a.toInt
  | time field op v => ∃ a, field.value row = some a ∧ op.test a v = true
  | timeIn field vs => ∃ a, field.value row = some a ∧ a ∈ vs

def minI32 : Int := -2147483648
def maxI32 : Int := 2147483647

/-- A value of the `integer` columns. -/
def InRange (v : Int64) : Prop := minI32 ≤ v.toInt ∧ v.toInt ≤ maxI32

/-- The values for which the cast into 32 bits does not change what a clause says: those in range;
below the range for `<` and `>=` those that wrap to the least value, above it for `<=` and `>` those
that wrap to the greatest; in a list those that wrap to a value of the list. -/
def Exact : NumericClause → Prop
  | int _ op v =>
    InRange v ∨
      ((op = .lt ∨ op = .gte) ∧ v.toInt < minI32 ∧ v.toInt32.toInt = minI32) ∨
      ((op = .lte ∨ op = .gt) ∧ maxI32 < v.toInt ∧ v.toInt32.toInt = maxI32)
  | intIn _ vs => ∀ v ∈ vs, InRange v ∨ ∃ w ∈ vs, w.toInt = v.toInt32.toInt
  | time .. | timeIn .. => True

end NumericClause

/-! ### The in-memory interpreter -/

namespace Comparison

theorem compareOp_int (a b : Int64) (op : Comparison) : compareOp a op.toOp b = op.test a.toInt b.toInt := by
  cases op <;>
    simp [compareOp, toOp, test, Int64.lt_iff_toInt_lt, Int64.le_iff_toInt_le, Int64.toInt_inj]

theorem compareOp_time (a b : DateTime) (op : Comparison) : compareOp a op.toOp b = op.test a b := by
  cases op <;> rfl

theorem toOp_ne_in (op : Comparison) : op.toOp ≠ .in := by cases op <;> decide

end Comparison

namespace NumericClause
variable [Lowercase] {row : Model}

theorem matchesOne_int (field : IntField) (op : FilterOp) (v : FilterValue) :
    matchesOne row ⟨field.name, op, v⟩ = (field.value row).any fun a => matchesInt a.toInt64 ⟨field.name, op, v⟩ := by
  cases field <;> rfl

theorem matchesOne_time (field : TimeField) (op : FilterOp) (v : FilterValue) :
    matchesOne row ⟨field.name, op, v⟩ = (field.value row).any fun a => matchesDatetime a ⟨field.name, op, v⟩ := by
  cases field <;> rfl

/-- `matches_one` is what the clause says. -/
theorem matchesOne_iff (c : NumericClause) : matchesOne row c.toClause = true ↔ c.Holds row := by
  cases c with
  | int field op v =>
    rw [toClause, matchesOne_int]
    simp [Holds, matchesInt, op.toOp_ne_in, Comparison.compareOp_int, Option.any_eq_true]
  | intIn field vs =>
    rw [toClause, matchesOne_int]
    simp [Holds, matchesInt, Option.any_eq_true, ← Int64.toInt_inj]
  | time field op v =>
    rw [toClause, matchesOne_time]
    simp [Holds, matchesDatetime, op.toOp_ne_in, Comparison.compareOp_time, Option.any_eq_true]
  | timeIn field vs =>
    rw [toClause, matchesOne_time]
    simp [Holds, matchesDatetime, Option.any_eq_true]

end NumericClause

/-! ### The SQL condition -/

namespace IntField

def column : IntField → Column
  | id => .id
  | powerLevel => .powerLevel

theorem columnFor_name (field : IntField) : columnFor field.name = some field.column := by
  cases field <;> rfl

theorem cell_column (row : Model) (field : IntField) : cell field.column row = .int (field.value row) := by
  cases field <;> rfl

/-- A row whose field has a given value. -/
def row (a : Int32) : IntField → Model
  | id => ⟨a, none, none, none, "", none, 0, 0⟩
  | powerLevel => ⟨1, none, none, some a, "", none, 0, 0⟩

theorem value_row (a : Int32) (field : IntField) : field.value (field.row a) = some a := by
  cases field <;> rfl

end IntField

namespace TimeField

def column : TimeField → Column
  | createdAt => .createdAt
  | updatedAt => .updatedAt
  | archivedAt => .archivedAt

theorem columnFor_name (field : TimeField) : columnFor field.name = some field.column := by
  cases field <;> rfl

theorem cell_column (row : Model) (field : TimeField) :
    cell field.column row = .dateTime (field.value row) := by
  cases field <;> rfl

end TimeField

namespace Comparison

theorem binaryHolds_compare (a b : Int) (op : Comparison) :
    binaryHolds op.toOp (compare a b) = op.test a b := by
  rcases Int.lt_trichotomy a b with h | h | h
  · have hc : compare a b = .lt := by rw [compare_lt_iff_lt]; exact h
    cases op <;> simp [binaryHolds, toOp, test, hc] <;> omega
  · have hc : compare a b = .eq := by rw [h]; exact ReflCmp.compare_self
    cases op <;> simp [binaryHolds, toOp, test, h]
  · have hc : compare a b = .gt := by rw [compare_gt_iff_gt]; exact h
    cases op <;> simp [binaryHolds, toOp, test, hc] <;> omega

theorem conditionFor_toOp [Lowercase] {field : String} {column : Column} (h : columnFor field = some column)
    (op : Comparison) (v : FilterValue) :
    conditionFor ⟨field, op.toOp, v⟩ = .binary column op.toOp (scalar v) := by
  simp only [conditionFor, h]
  cases op <;> rfl

end Comparison

namespace NumericClause
variable [Lowercase] {row : Model}

/-- The SQL condition is what the clause says with the value cast into 32 bits. -/
theorem holds_conditionFor_iff (c : NumericClause) :
    ((conditionFor c.toClause).eval row).holds = true ↔
      match c with
      | int field op v => ∃ a, field.value row = some a ∧ op.test a.toInt v.toInt32.toInt = true
      | intIn field vs => ∃ a, field.value row = some a ∧ ∃ v ∈ vs, v.toInt32.toInt = a.toInt
      | c => c.Holds row := by
  cases c with
  | int field op v =>
    rw [toClause, Comparison.conditionFor_toOp field.columnFor_name, SimpleExpr.eval, field.cell_column]
    cases h : field.value row with
    | none => simp [Value.compare?, h]
    | some a => simp [scalar, Value.compare?, compare_int32, Comparison.binaryHolds_compare, h]
  | intIn field vs =>
    have hc : conditionFor (toClause (.intIn field vs)) = .isIn field.column ((vs.map FilterValue.int).map scalar) := by
      simp only [toClause, conditionFor, field.columnFor_name]
    rw [hc, SimpleExpr.eval, field.cell_column, Truth.holds_any]
    cases h : field.value row with
    | none => simp [Value.compare?, h]
    | some a =>
      simp [scalar, Value.compare?, compare_int32, h]
      exact exists_congr fun v => and_congr_right fun _ => eq_comm
  | time field op v =>
    rw [toClause, Comparison.conditionFor_toOp field.columnFor_name, SimpleExpr.eval, field.cell_column]
    cases h : field.value row with
    | none => simp [Value.compare?, Holds, h]
    | some a => simp [scalar, Value.compare?, Comparison.binaryHolds_compare, Holds, h]
  | timeIn field vs =>
    have hc : conditionFor (toClause (.timeIn field vs)) =
        .isIn field.column ((vs.map FilterValue.dateTime).map scalar) := by
      simp only [toClause, conditionFor, field.columnFor_name]
    rw [hc, SimpleExpr.eval, field.cell_column, Truth.holds_any]
    cases h : field.value row with
    | none => simp [Value.compare?, Holds, h]
    | some a => simp [scalar, Value.compare?, Holds, h]

/-! ### Where the cast changes nothing -/

omit [Lowercase] in
theorem inRange_toInt (a : Int32) : minI32 ≤ a.toInt ∧ a.toInt ≤ maxI32 := by
  have hlt := Int32.toInt_lt a
  have hge := Int32.le_toInt a
  unfold minI32 maxI32; omega

omit [Lowercase] in
theorem toInt_toInt32_of_inRange {v : Int64} (h : InRange v) : v.toInt32.toInt = v.toInt := by
  unfold InRange minI32 maxI32 at h
  rw [Int64.toInt_toInt32, Int.bmod_eq_of_le] <;> omega

omit [Lowercase] in
/-- A value out of range that the cast brings back in changes what a comparison says of the value it
becomes, of the least or of the greatest one. -/
theorem test_toInt32_iff (op : Comparison) (v : Int64) :
    (∀ a : Int32, op.test a.toInt v.toInt32.toInt = op.test a.toInt v.toInt) ↔ Exact (.int .id op v) := by
  have hw := inRange_toInt v.toInt32
  have hmin : Int32.minValue.toInt = minI32 := by decide
  have hmax : Int32.maxValue.toInt = maxI32 := by decide
  constructor
  · intro h
    have h₁ := h v.toInt32
    have h₂ := h Int32.minValue
    have h₃ := h Int32.maxValue
    rw [hmin] at h₂; rw [hmax] at h₃
    simp only [Exact, InRange]
    clear h hmin hmax
    generalize v.toInt32.toInt = w at h₁ h₂ h₃ hw ⊢
    cases op <;> simp [Comparison.test] at h₁ h₂ h₃ ⊢ <;> omega
  · rintro (h | ⟨hop, h⟩ | ⟨hop, h⟩) a
    · rw [toInt_toInt32_of_inRange h]
    all_goals
      have ha := inRange_toInt a
      rcases hop with rfl | rfl <;> simp only [Comparison.test, decide_eq_decide] <;> omega

/-- A single clause is read the same by SQL exactly when it is exact. -/
theorem exact_iff (c : NumericClause) :
    c.Exact ↔ ∀ row, ((conditionFor c.toClause).eval row).holds = true ↔ c.Holds row := by
  simp only [holds_conditionFor_iff]
  cases c with
  | int field op v =>
    rw [show Exact (.int field op v) ↔ Exact (.int .id op v) from Iff.rfl, ← test_toInt32_iff]
    refine ⟨fun h row => by simp only [Holds, h], fun h a => Bool.eq_iff_iff.2 ?_⟩
    simpa [Holds, field.value_row] using h (field.row a)
  | intIn field vs =>
    refine ⟨fun h row => exists_congr fun a => and_congr_right fun _ => ?_, fun h v hv => ?_⟩
    · constructor
      · rintro ⟨v, hv, hva⟩
        obtain hin | ⟨w, hw, hwv⟩ := h v hv
        · exact ⟨v, hv, (toInt_toInt32_of_inRange hin).symm.trans hva⟩
        · exact ⟨w, hw, hwv.trans hva⟩
      · rintro ⟨v, hv, hva⟩
        have hin : InRange v := by unfold InRange; rw [hva]; exact inRange_toInt a
        exact ⟨v, hv, (toInt_toInt32_of_inRange hin).trans hva⟩
    · obtain ⟨a, ha, w, hw, hwa⟩ := (h (field.row v.toInt32)).1 ⟨_, field.value_row _, v, hv, rfl⟩
      rw [field.value_row] at ha
      cases ha
      exact .inr ⟨w, hw, hwa⟩
  | time field op v => exact ⟨fun _ _ => Iff.rfl, fun _ => trivial⟩
  | timeIn field vs => exact ⟨fun _ _ => Iff.rfl, fun _ => trivial⟩

/-- A list of clauses selects, in either repository, the rows of which they all hold; a bulk write
leaves every other row alone. -/
structure Sound (cs : List NumericClause) : Prop where
  sql : ∀ row, whereHolds (applyFilters (cs.map toClause)) row = true ↔ ∀ c ∈ cs, c.Holds row
  memory : ∀ row, matchesAll row (cs.map toClause) = true ↔ ∀ c ∈ cs, c.Holds row
  updateMany : ∀ returning now data (db : Table) id row, db.get? id = some row → ¬ (∀ c ∈ cs, c.Holds row) →
    (HeroSeaOrmRepository.updateMany returning now (cs.map toClause) data db).2.get? id = some row
  deleteMany : ∀ returning now includeUnpublished (db : Table) id row, db.get? id = some row →
    ¬ (∀ c ∈ cs, c.Holds row) →
    (HeroSeaOrmRepository.deleteMany returning now (cs.map toClause) includeUnpublished db).2.get? id = some row

theorem sound_of_exact {cs : List NumericClause} (h : ∀ c ∈ cs, c.Exact) : Sound cs := by
  have sql : ∀ row, whereHolds (applyFilters (cs.map toClause)) row = true ↔ ∀ c ∈ cs, c.Holds row := fun row => by
    rw [whereHolds_applyFilters_iff, List.forall_mem_map]
    exact forall₂_congr fun c hc => (exact_iff c).1 (h c hc) row
  have unselected : ∀ row, ¬ (∀ c ∈ cs, c.Holds row) → ¬ whereHolds (applyFilters (cs.map toClause)) row = true :=
    fun row hno hw => hno ((sql row).1 hw)
  refine ⟨sql, fun row => ?_, fun returning now data db id row hrow hno => ?_,
    fun returning now _ db id row hrow hno => ?_⟩
  · rw [matchesAll, List.all_eq_true, List.forall_mem_map]
    exact forall₂_congr fun c _ => matchesOne_iff c
  all_goals
    refine (OrdMap.get?_map db _ id).trans ?_
    rw [hrow, Option.map_some, if_neg]
    simp [unselected row hno]

/-- Clauses mean the same in both repositories, whichever of them a request uses, exactly when each is
exact. -/
theorem sound_iff_exact (cs : List NumericClause) : (∀ ds, ds ⊆ cs → Sound ds) ↔ ∀ c ∈ cs, c.Exact := by
  refine ⟨fun h c hc => (exact_iff c).2 fun row => ?_, fun h ds hds => sound_of_exact fun c hc => h c (hds hc)⟩
  have hsql := (h [c] (List.cons_subset.2 ⟨hc, List.nil_subset _⟩)).sql row
  simpa [whereHolds_applyFilters_iff] using hsql

omit [Lowercase] in
/-- `id = 4294967297` selects the row with id 1. -/
theorem not_sound_wrapped : ¬ @Sound .ascii [.int .id .eq 4294967297] := fun h => by
  let _ := Lowercase.ascii
  obtain ⟨a, ha, heq⟩ := (h.sql (IntField.id.row 1)).1 (by decide) _ (List.mem_singleton.2 rfl)
  cases ha
  exact absurd heq (by decide)

theorem agrees_of_exact {c : NumericClause} (h : c.Exact) : c.toClause.Agrees := fun row =>
  Bool.eq_iff_iff.2 (((exact_iff c).1 h row).trans (matchesOne_iff c).symm)

end NumericClause
end TemplateAxum
