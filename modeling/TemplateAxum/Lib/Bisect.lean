import Mathlib.Data.List.Basic
import Mathlib.Data.List.TakeWhile

/-!
# Searching by halves

`partition_point` of a slice: the number of leading elements that satisfy a predicate which, once it fails, fails
for the rest. The search looks at one element a round.
-/

namespace Bisect

variable {α : Type} (p : α → Bool) (xs : List α)

def holds (i : Nat) : Bool := xs[i]?.any p

/-- The last of the `size` places from `base` where the predicate holds, or `base`; `rounds` bounds the search. -/
def search : (rounds base size : Nat) → Nat
  | 0, base, _ => base
  | rounds + 1, base, size =>
    if size ≤ 1 then base
    else
      let half := size / 2
      let mid := base + half
      search rounds (if holds p xs mid then mid else base) (size - half)

def partitionPoint : Nat :=
  if xs.isEmpty then 0
  else
    let base := search p xs xs.length 0 xs.length
    if holds p xs base then base + 1 else base

variable {p xs} {front back : List α}

theorem holds_append (hfront : ∀ x ∈ front, p x = true) (hback : ∀ x ∈ back, p x = false) (i : Nat) :
    holds p (front ++ back) i = decide (i < front.length) := by
  by_cases h : i < front.length
  · rw [holds, List.getElem?_append_left h, List.getElem?_eq_getElem h]
    simp [h, hfront _ (List.getElem_mem h)]
  · rw [holds, List.getElem?_append_right (Nat.le_of_not_lt h)]
    cases hx : back[i - front.length]? with
    | none => simp [h]
    | some x => simp [h, hback x (List.mem_of_getElem? hx)]

/-- The end of the front part stays within the places that are left. -/
theorem search_eq (hfront : ∀ x ∈ front, p x = true) (hback : ∀ x ∈ back, p x = false) :
    ∀ {rounds base size : Nat}, 1 ≤ size → size ≤ rounds + 1 → base = 0 ∨ base < front.length → front.length ≤ base + size →
      search p (front ++ back) rounds base size = front.length - 1
  | 0, base, size, hpos, hrounds, hbase, hend => by
    rw [search]
    omega
  | rounds + 1, base, size, hpos, hrounds, hbase, hend => by
    rw [search]
    split
    · omega
    · dsimp only
      rw [holds_append hfront hback]
      by_cases hmid : base + size / 2 < front.length
      · simp only [hmid, decide_true, if_true]
        exact search_eq hfront hback (by omega) (by omega) (.inr hmid) (by omega)
      · simp only [hmid, decide_false, Bool.false_eq_true, if_false]
        exact search_eq hfront hback (by omega) (by omega) hbase (by omega)

theorem partitionPoint_eq (hfront : ∀ x ∈ front, p x = true) (hback : ∀ x ∈ back, p x = false) :
    partitionPoint p (front ++ back) = front.length := by
  rw [partitionPoint]
  split
  · rename_i hempty
    rw [List.isEmpty_iff, List.append_eq_nil_iff] at hempty
    rw [hempty.1]
    rfl
  · rename_i hne
    have hpos : 1 ≤ (front ++ back).length := List.length_pos_iff.2 fun h => hne (by rw [h]; rfl)
    have hlen : front.length ≤ 0 + (front ++ back).length := by simp
    simp only [search_eq hfront hback hpos (Nat.le_succ _) (.inl rfl) hlen, holds_append hfront hback, decide_eq_true_eq]
    split <;> omega

end Bisect
