import TemplateAxum.Lib.OrdMap
import Mathlib.Data.List.Infix

/-!
# Heroes, payloads and filter clauses

The row of the `heroes` table (`models/hero.rs`), the write payloads the repositories take
(`views/hero.rs`), and the storage-agnostic vocabulary of the `Repository` trait: filter and sort
clauses, list options, the backend error.
-/

namespace TemplateAxum

/-- An instant of `chrono::NaiveDateTime`, in nanoseconds. -/
abbrev DateTime := Int

namespace DateTime

/-- What a `timestamp` column keeps of an instant, and a record tag tells of it: its microseconds (ADR 0023). -/
def micros (t : DateTime) : DateTime := t / 1000 * 1000

theorem micros_micros (t : DateTime) : micros (micros t) = micros t :=
  congrArg (· * 1000) (Int.mul_ediv_cancel (t / 1000) (by decide))

theorem micros_mono {t t' : DateTime} (h : t ≤ t') : micros t ≤ micros t' :=
  Int.mul_le_mul_of_nonneg_right (Int.ediv_le_ediv (by decide) h) (by decide)

end DateTime

/-- `hero::Model`. -/
structure Model where
  id : Int32
  name : Option String
  powers : Option (List String)
  powerLevel : Option Int32
  ownerId : String
  archivedAt : Option DateTime
  createdAt : DateTime
  updatedAt : DateTime
deriving DecidableEq, Repr

namespace Model

/-- Not soft-deleted. -/
def live (hero : Model) : Bool := hero.archivedAt.isNone

end Model

/-- The heroes by id, in the order of their ids. -/
abbrev Table := OrdMap Int32 Model

structure HeroCreate where
  name : String
  powers : List String
  powerLevel : Option Int32
deriving DecidableEq, Repr

/-- A partial update: an absent field is left unchanged. -/
structure HeroUpdate where
  name : Option String
  powers : Option (List String)
  powerLevel : Option Int32
deriving DecidableEq, Repr

inductive FilterOp
  | eq | ne | lt | lte | gt | gte | in | contains | icontains
deriving DecidableEq, Repr

/-- The value of a clause; a `float` is carried by its bits, which no repository looks at. -/
inductive FilterValue
  | str (v : String)
  | int (v : Int64)
  | dateTime (v : DateTime)
  | float (bits : UInt64)
  | bool (v : Bool)
  | list (values : List FilterValue)

structure FilterClause where
  field : String
  op : FilterOp
  value : FilterValue

structure SortClause where
  field : String
  descending : Bool
deriving DecidableEq, Repr

structure ListOptions where
  skip : Nat
  limit : Nat
  includeArchived : Bool
  onlyArchived : Bool
  filters : List FilterClause
  sort : List SortClause

/-- `RepoError::Backend`, the only variant. -/
structure RepoError where
  message : String
deriving DecidableEq, Repr

/-- `str::to_lowercase`: full Unicode lower-casing, which SQL `lower()` is taken to agree with. -/
class Lowercase where
  toLowercase : String → String

export Lowercase (toLowercase)

/-- Lower-casing of ASCII letters: what `to_lowercase` does to ASCII text. -/
@[reducible] def Lowercase.ascii : Lowercase := ⟨fun s => String.ofList (s.toList.map Char.toLower)⟩

/-- `str::contains`. -/
def containsStr (s target : String) : Bool := decide (target.toList <:+: s.toList)

end TemplateAxum
