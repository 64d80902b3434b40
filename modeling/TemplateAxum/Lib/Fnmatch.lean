import Mathlib.Data.List.Basic
import Mathlib.Data.List.Infix

/-!
# `fnmatch`

The shell patterns of Python, matched against a whole text: `*` is any characters, the slash among them, `?` one
character and `[...]` one of a set of characters, or with `!` one outside it. A bracket that is not closed is a
character like any other.
-/

namespace Fnmatch

inductive Item
  | any
  | set (negated : Bool) (ranges : List (Char × Char))

def literal (c : Char) : Item := .set false [(c, c)]

/-- The characters between a bracket and the one that closes it, and what comes behind. A closing bracket that comes
first is one of the characters. -/
def bracket (pattern : List Char) : Option (List Char × List Char) :=
  let bang := if pattern.head? = some '!' then ['!'] else []
  let pattern := pattern.drop bang.length
  let first := if pattern.head? = some ']' then [']'] else []
  let pattern := pattern.drop first.length
  match pattern.dropWhile (· ≠ ']') with
  | [] => none
  | _ :: rest => some (bang ++ first ++ pattern.takeWhile (· ≠ ']'), rest)

/-- A hyphen between two characters makes a range of them. -/
def ranges : List Char → List (Char × Char)
  | c :: '-' :: d :: chars => (c, d) :: ranges chars
  | c :: chars => (c, c) :: ranges chars
  | [] => []

def charSet : List Char → Item
  | '!' :: chars => .set true (ranges chars)
  | chars => .set false (ranges chars)

theorem length_bracket {pattern chars rest : List Char} (h : bracket pattern = some (chars, rest)) :
    rest.length < pattern.length := by
  simp only [bracket] at h
  split at h
  · cases h
  · rename_i c behind hdrop
    obtain ⟨-, rfl⟩ := Prod.mk.inj (Option.some.inj h)
    have hle := (List.dropWhile_suffix (fun c => decide (c ≠ ']')) (l := (pattern.drop
      (if pattern.head? = some '!' then ['!'] else []).length).drop (if (pattern.drop
      (if pattern.head? = some '!' then ['!'] else []).length).head? = some ']' then [']'] else []).length)).length_le
    rw [hdrop, List.length_cons, List.length_drop, List.length_drop] at hle
    omega

def parse : List Char → List Item
  | [] => []
  | '*' :: pattern => .any :: parse pattern
  | '?' :: pattern => .set true [] :: parse pattern
  | '[' :: pattern =>
    match h : bracket pattern with
    | none => literal '[' :: parse pattern
    | some (chars, rest) =>
      have := length_bracket h
      charSet chars :: parse rest
  | c :: pattern => literal c :: parse pattern
termination_by pattern => pattern.length

def admits (negated : Bool) (ranges : List (Char × Char)) (c : Char) : Bool :=
  negated != ranges.any fun range => range.1 ≤ c && c ≤ range.2

def accepts : List Item → List Char → Bool
  | [], text => text.isEmpty
  | .any :: items, text => text.tails.any (accepts items)
  | .set .. :: _, [] => false
  | .set negated ranges :: items, c :: text => admits negated ranges c && accepts items text

def fnmatch (text pattern : String) : Bool := accepts (parse pattern.toList) text.toList

end Fnmatch
