import Mathlib.Data.List.Basic
import Mathlib.Data.List.Infix

/-!
# Glob patterns

The patterns of Redis, on bytes: `*` is any bytes, `?` one byte, `[...]` a class of bytes with ranges and `^`, and a
backslash takes the next byte literally.
-/

namespace Glob

def star : UInt8 := 0x2a
def question : UInt8 := 0x3f
def opening : UInt8 := 0x5b
def closing : UInt8 := 0x5d
def backslash : UInt8 := 0x5c
def caret : UInt8 := 0x5e
def hyphen : UInt8 := 0x2d

/-- Any bytes, or one byte within the ranges, or outside them. -/
inductive Item
  | any
  | byte (negated : Bool) (ranges : List (UInt8 × UInt8))

def literal (b : UInt8) : Item := .byte false [(b, b)]

/-! ### Parsing -/

/-- The rest of a class, and the pattern behind it. A class that is not closed ends with the pattern. -/
def ranges : List UInt8 → List (UInt8 × UInt8) × List UInt8
  | [] => ([], [])
  | p :: pattern =>
    if p = closing then ([], pattern)
    else
      match pattern with
      | [] => ([(p, p)], [])
      | q :: pattern =>
        if p = backslash then ((q, q) :: (ranges pattern).1, (ranges pattern).2)
        else
          match pattern with
          | [] => ((p, p) :: (ranges [q]).1, (ranges [q]).2)
          | r :: rest =>
            if q = hyphen then ((min p r, max p r) :: (ranges rest).1, (ranges rest).2)
            else ((p, p) :: (ranges (q :: r :: rest)).1, (ranges (q :: r :: rest)).2)
termination_by pattern => pattern.length

theorem ranges_length (pattern : List UInt8) : (ranges pattern).2.length ≤ pattern.length := by
  fun_induction ranges pattern <;> simp_all <;> omega

def charClass : List UInt8 → Item × List UInt8
  | [] => (.byte false [], [])
  | p :: pattern =>
    if p = caret then (.byte true (ranges pattern).1, (ranges pattern).2)
    else (.byte false (ranges (p :: pattern)).1, (ranges (p :: pattern)).2)

theorem charClass_length (pattern : List UInt8) : (charClass pattern).2.length ≤ pattern.length := by
  cases pattern with
  | nil => exact Nat.le_refl 0
  | cons p pattern =>
    rw [charClass]
    split
    · exact Nat.le_succ_of_le (ranges_length pattern)
    · exact ranges_length (p :: pattern)

/-- A backslash that ends the pattern is literal. -/
def parse : List UInt8 → List Item
  | [] => []
  | p :: pattern =>
    if p = star then .any :: parse pattern
    else if p = question then .byte true [] :: parse pattern
    else if p = opening then
      have := charClass_length pattern
      (charClass pattern).1 :: parse (charClass pattern).2
    else if p = backslash then
      match pattern with
      | [] => [literal backslash]
      | q :: pattern => literal q :: parse pattern
    else literal p :: parse pattern
termination_by pattern => pattern.length

/-! ### Matching -/

def Item.admits (negated : Bool) (ranges : List (UInt8 × UInt8)) (b : UInt8) : Bool :=
  negated != ranges.any fun range => range.1 ≤ b && b ≤ range.2

def accepts : List Item → List UInt8 → Bool
  | [], text => text.isEmpty
  | .any :: items, text => text.tails.any (accepts items)
  | .byte .. :: _, [] => false
  | .byte negated ranges :: items, b :: text => Item.admits negated ranges b && accepts items text

def glob (pattern text : List UInt8) : Bool := accepts (parse pattern) text

/-! ### Escaping -/

def isMeta (b : UInt8) : Bool := b = star || b = question || b = opening || b = closing || b = backslash

/-- A byte that means itself in a pattern. -/
def escape (b : UInt8) : List UInt8 := if isMeta b then [backslash, b] else [b]

theorem parse_escape (b : UInt8) (pattern : List UInt8) : parse (escape b ++ pattern) = literal b :: parse pattern := by
  by_cases h : isMeta b = true
  · rw [escape, if_pos h]
    rw [List.cons_append, List.singleton_append, parse.eq_def]
    dsimp only
    rw [if_neg (by decide), if_neg (by decide), if_neg (by decide), if_pos rfl]
  · rw [escape, if_neg h]
    simp only [isMeta, Bool.or_eq_true, decide_eq_true_eq, not_or] at h
    obtain ⟨⟨⟨⟨hstar, hquestion⟩, hopening⟩, -⟩, hbackslash⟩ := h
    rw [List.singleton_append, parse.eq_def]
    dsimp only
    rw [if_neg hstar, if_neg hquestion, if_neg hopening, if_neg hbackslash]

theorem parse_escapes (bytes pattern : List UInt8) :
    parse (bytes.flatMap escape ++ pattern) = bytes.map literal ++ parse pattern := by
  induction bytes with
  | nil => rfl
  | cons b bytes ih => rw [List.flatMap_cons, List.append_assoc, parse_escape, ih, List.map_cons, List.cons_append]

theorem parse_star (pattern : List UInt8) : parse (star :: pattern) = .any :: parse pattern := by
  rw [parse.eq_def]
  exact if_pos rfl

theorem parse_nil : parse [] = [] := by
  rw [parse.eq_def]

theorem accepts_literals (bytes text : List UInt8) (items : List Item) :
    accepts (bytes.map literal ++ items) (bytes ++ text) = accepts items text := by
  induction bytes with
  | nil => rfl
  | cons b bytes ih =>
    have hadmits : Item.admits false [(b, b)] b = true := by simp [Item.admits]
    rw [List.map_cons, List.cons_append, List.cons_append, literal, accepts, hadmits, Bool.true_and, ih]

theorem accepts_any {items : List Item} {text : List UInt8} (h : accepts items text = true) (skipped : List UInt8) :
    accepts (.any :: items) (skipped ++ text) = true := by
  rw [accepts, List.any_eq_true]
  exact ⟨text, (List.mem_tails _ _).2 (List.suffix_append ..), h⟩

/-- A pattern of two stars and escaped bytes matches what it is meant to. -/
theorem glob_escaped (start middle skipped rest : List UInt8) :
    glob (start.flatMap escape ++ star :: (middle.flatMap escape ++ [star])) (start ++ (skipped ++ (middle ++ rest))) = true := by
  rw [glob, parse_escapes, parse_star, parse_escapes, parse_star, parse_nil, accepts_literals]
  refine accepts_any ?_ skipped
  rw [accepts_literals, ← List.append_nil rest]
  exact accepts_any rfl rest

end Glob
