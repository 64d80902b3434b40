import Mathlib.Data.Rat.Defs

/-!
# JSON values and JSON Schema

The values of a JSON text, numbers in the two forms they are written in, and the keywords of JSON Schema that
say which values are meant.
-/

/-- A number as it is written: digits only, behind a sign or none, or with a fraction or an exponent. -/
inductive JsonNumber
  | int (negative : Bool) (digits : Nat)
  | float (value : Rat)
deriving DecidableEq

namespace JsonNumber

def value : JsonNumber → Rat
  | int negative digits => if negative then -digits else digits
  | float value => value

/-- A number without a fractional part, however it is written. -/
def isInteger (n : JsonNumber) : Bool := n.value.den = 1

end JsonNumber

/-- The members of an object are listed as they are written. -/
inductive JsonValue
  | null
  | bool (b : Bool)
  | num (n : JsonNumber)
  | str (s : String)
  | arr (items : List JsonValue)
  | obj (members : List (String × JsonValue))

namespace JsonValue

def member (name : String) (members : List (String × JsonValue)) : Option JsonValue :=
  (members.find? fun m => m.1 = name).map Prod.snd

/-- The names of an object are distinct. -/
def Distinct : JsonValue → Prop
  | obj members => (members.map Prod.fst).Nodup
  | _ => True

theorem member_cons (name : String) (m : String × JsonValue) (members : List (String × JsonValue)) :
    member name (m :: members) = if m.1 = name then some m.2 else member name members := by
  unfold member
  by_cases h : m.1 = name <;> simp [h]

theorem member_eq_none {name : String} {members : List (String × JsonValue)} (h : name ∉ members.map Prod.fst) :
    member name members = none := by
  induction members with
  | nil => rfl
  | cons m members ih =>
    rw [List.map_cons, List.mem_cons, not_or] at h
    rw [member_cons, if_neg (Ne.symm h.1), ih h.2]

/-! ### The floats of a value -/

variable (f : Rat → Rat)

mutual

/-- With `f` applied to every number that is written with a fraction or an exponent. -/
def mapFloats : JsonValue → JsonValue
  | num (.float x) => num (.float (f x))
  | arr items => arr (mapFloatsItems items)
  | obj members => obj (mapFloatsMembers members)
  | v => v

def mapFloatsItems : List JsonValue → List JsonValue
  | [] => []
  | v :: items => v.mapFloats :: mapFloatsItems items

def mapFloatsMembers : List (String × JsonValue) → List (String × JsonValue)
  | [] => []
  | (name, v) :: members => (name, v.mapFloats) :: mapFloatsMembers members

end

mutual

def floats : JsonValue → List Rat
  | num (.float x) => [x]
  | arr items => floatsItems items
  | obj members => floatsMembers members
  | _ => []

def floatsItems : List JsonValue → List Rat
  | [] => []
  | v :: items => v.floats ++ floatsItems items

def floatsMembers : List (String × JsonValue) → List Rat
  | [] => []
  | (_, v) :: members => v.floats ++ floatsMembers members

end

mutual

theorem mapFloats_eq_self_iff : ∀ v : JsonValue, v.mapFloats f = v ↔ ∀ x ∈ v.floats, f x = x
  | null => by simp [mapFloats, floats]
  | bool b => by simp [mapFloats, floats]
  | str s => by simp [mapFloats, floats]
  | num (.int negative digits) => by simp [mapFloats, floats]
  | num (.float x) => by simp [mapFloats, floats]
  | arr items => by
    rw [mapFloats, floats, arr.injEq]
    exact mapFloatsItems_eq_self_iff items
  | obj members => by
    rw [mapFloats, floats, obj.injEq]
    exact mapFloatsMembers_eq_self_iff members

theorem mapFloatsItems_eq_self_iff : ∀ items : List JsonValue,
    mapFloatsItems f items = items ↔ ∀ x ∈ floatsItems items, f x = x
  | [] => by simp [mapFloatsItems, floatsItems]
  | v :: items => by
    rw [mapFloatsItems, floatsItems, List.cons.injEq, List.forall_mem_append, mapFloats_eq_self_iff v,
      mapFloatsItems_eq_self_iff items]

theorem mapFloatsMembers_eq_self_iff : ∀ members : List (String × JsonValue),
    mapFloatsMembers f members = members ↔ ∀ x ∈ floatsMembers members, f x = x
  | [] => by simp [mapFloatsMembers, floatsMembers]
  | (name, v) :: members => by
    rw [mapFloatsMembers, floatsMembers, List.cons.injEq, List.forall_mem_append, Prod.mk.injEq, eq_self_iff_true, true_and,
      mapFloats_eq_self_iff v, mapFloatsMembers_eq_self_iff members]

end

end JsonValue

inductive JsonType
  | object | array | string | integer | null
deriving DecidableEq

def JsonType.admits : JsonType → JsonValue → Bool
  | object, .obj _ | array, .arr _ | string, .str _ | null, .null => true
  | integer, .num n => n.isInteger
  | _, _ => false

/-- The keywords of a schema; `properties` and `required` are about objects, `items` and `minItems` about arrays,
`minLength` and `maxLength` about strings. -/
inductive Schema
  | mk (types : List JsonType) (minLength maxLength minItems : Option Nat) (items : Option Schema)
    (properties : List (String × Schema)) (required : List String)

namespace Schema

def lengthWithin (minLength maxLength : Option Nat) : JsonValue → Bool
  | .str s => minLength.all (· ≤ s.length) && maxLength.all (s.length ≤ ·)
  | _ => true

def itemsEnough (minItems : Option Nat) : JsonValue → Bool
  | .arr items => minItems.all (· ≤ items.length)
  | _ => true

def hasRequired (required : List String) : JsonValue → Bool
  | .obj members => required.all fun name => (JsonValue.member name members).isSome
  | _ => true

mutual

def accepts : Schema → JsonValue → Bool
  | ⟨types, minLength, maxLength, minItems, items, properties, required⟩, v =>
    types.any (fun t => t.admits v) && lengthWithin minLength maxLength v && itemsEnough minItems v &&
      acceptsItems items v && acceptsProperties properties v && hasRequired required v

def acceptsItems : Option Schema → JsonValue → Bool
  | some s, .arr items => items.all fun v => s.accepts v
  | _, _ => true

def acceptsProperties : List (String × Schema) → JsonValue → Bool
  | (name, s) :: properties, .obj members =>
    (match JsonValue.member name members with | some v => s.accepts v | none => true) &&
      acceptsProperties properties (.obj members)
  | _, _ => true

end

end Schema
