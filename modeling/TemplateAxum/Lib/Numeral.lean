import Mathlib.Data.List.TakeWhile

/-!
# Decimal numerals

Numerals of the decimal digits of any script, as Unicode 15, that of Python 3.12, has them (`\d` of a regular expression
over text, and the integer that is read from it).
-/

namespace Numeral

/-- The zeros of the scripts; the other digits follow each of them. -/
def zeros : List Nat :=
  [0x30, 0x660, 0x6f0, 0x7c0, 0x966, 0x9e6, 0xa66, 0xae6, 0xb66, 0xbe6, 0xc66, 0xce6, 0xd66, 0xde6, 0xe50, 0xed0,
    0xf20, 0x1040, 0x1090, 0x17e0, 0x1810, 0x1946, 0x19d0, 0x1a80, 0x1a90, 0x1b50, 0x1bb0, 0x1c40, 0x1c50, 0xa620,
    0xa8d0, 0xa900, 0xa9d0, 0xa9f0, 0xaa50, 0xabf0, 0xff10, 0x104a0, 0x10d30, 0x11066, 0x110f0, 0x11136, 0x111d0,
    0x112f0, 0x11450, 0x114d0, 0x11650, 0x116c0, 0x11730, 0x118e0, 0x11950, 0x11c50, 0x11d50, 0x11da0, 0x11f50,
    0x16a60, 0x16ac0, 0x16b50, 0x1d7ce, 0x1d7d8, 0x1d7e2, 0x1d7ec, 0x1d7f6, 0x1e140, 0x1e2f0, 0x1e4f0, 0x1e950, 0x1fbf0]

def digit? (c : Char) : Option Nat :=
  zeros.findSome? fun first => if first ≤ c.toNat ∧ c.toNat < first + 10 then some (c.toNat - first) else none

def isDecimal (c : Char) : Bool := (digit? c).isSome

def value (digits : List Char) : Nat := digits.foldl (fun n c => 10 * n + (digit? c).getD 0) 0

/-- A numeral at the front of a text, and what follows it. -/
def read? (text : List Char) : Option (Nat × List Char) :=
  if text.takeWhile isDecimal = [] then none
  else some (value (text.takeWhile isDecimal), text.dropWhile isDecimal)

theorem digit?_ascii {c : Char} (h : c.isDigit = true) : digit? c = some (c.toNat - '0'.toNat) := by
  have hc : 0x30 ≤ c.toNat ∧ c.toNat < 0x30 + 10 := by
    have : 48 ≤ c.toNat ∧ c.toNat ≤ 57 := Char.isDigit_iff_toNat.1 h
    omega
  rw [digit?, zeros, List.findSome?_cons, if_pos hc]
  rfl

theorem isDecimal_of_mem {n : Nat} {c : Char} (h : c ∈ Nat.toDigits 10 n) : isDecimal c = true := by
  rw [isDecimal, digit?_ascii (Nat.isDigit_of_mem_toDigits (by decide) (by decide) h)]
  rfl

theorem value_toDigits (n : Nat) : value (Nat.toDigits 10 n) = n := by
  have hfold : ∀ (digits : List Char) (start : Nat), (∀ c ∈ digits, c.isDigit = true) →
      digits.foldl (fun n c => 10 * n + (digit? c).getD 0) start = Nat.ofDigitChars 10 digits start := by
    intro digits
    induction digits with
    | nil => intro start _; rfl
    | cons c digits ih =>
      intro start h
      obtain ⟨hc, hdigits⟩ := List.forall_mem_cons.1 h
      rw [List.foldl_cons, Nat.ofDigitChars_cons, digit?_ascii hc]
      exact ih _ hdigits
  rw [value, hfold _ _ fun c hc => Nat.isDigit_of_mem_toDigits (by decide) (by decide) hc]
  exact Nat.ofDigitChars_toDigits (by decide) (by decide)

/-- A numeral is read as it is written, where no digit follows. -/
theorem read?_toDigits (n : Nat) {rest : List Char} (hrest : ∀ c ∈ rest.head?, isDecimal c = false) :
    read? (Nat.toDigits 10 n ++ rest) = some (n, rest) := by
  have hall : ∀ c ∈ Nat.toDigits 10 n, isDecimal c = true := fun c hc => isDecimal_of_mem hc
  have hstop : rest.takeWhile isDecimal = [] ∧ rest.dropWhile isDecimal = rest := by
    cases rest with
    | nil => exact ⟨rfl, rfl⟩
    | cons c rest => simp [hrest c rfl]
  rw [read?, List.takeWhile_append_of_pos hall, List.dropWhile_append_of_pos hall, hstop.1, hstop.2, List.append_nil,
    if_neg Nat.toDigits_ne_nil, value_toDigits]

end Numeral
