import TemplateAxum.Lib.OrdMap
import Mathlib.Algebra.BigOperators.Group.List.Basic
import Mathlib.Data.List.Induction

/-!
# Totals by key

The loop that adds up weights under the keys of the items, in a map that is ordered by key.
-/

open Std

namespace OrdMap

variable {α κ ν : Type} [Ord κ] [TransOrd κ] [DecidableEq κ]

/-- `entry(key).or_insert(0) += weight`. -/
def addAt [Add ν] [Zero ν] (m : OrdMap κ ν) (k : κ) (weight : ν) : OrdMap κ ν := m.insert k ((m.get? k).getD 0 + weight)

def gather [Add ν] [Zero ν] (key : α → κ) (weight : α → ν) (items : List α) : OrdMap κ ν :=
  items.foldl (fun m x => m.addAt (key x) (weight x)) .empty

theorem gather_concat [Add ν] [Zero ν] (key : α → κ) (weight : α → ν) (items : List α) (x : α) :
    gather key weight (items ++ [x]) = (gather key weight items).addAt (key x) (weight x) := by
  rw [gather, List.foldl_append]
  rfl

variable [LawfulEqOrd κ]

/-- The keys are those of the items. -/
theorem isSome_get?_gather [Add ν] [Zero ν] (key : α → κ) (weight : α → ν) (items : List α) (k : κ) :
    ((gather key weight items).get? k).isSome = true ↔ ∃ x ∈ items, key x = k := by
  induction items using List.reverseRecOn with
  | nil => simp [gather]
  | append_singleton items x ih =>
    rw [gather_concat, addAt, get?_insert]
    by_cases hk : k = key x
    · simp [hk]
    · rw [if_neg hk, ih]
      simp [Ne.symm hk]

/-- Under a key stands the weight of its items. -/
theorem getD_get?_gather [AddMonoid ν] (key : α → κ) (weight : α → ν) (items : List α) (k : κ) :
    ((gather key weight items).get? k).getD 0 = ((items.filter fun x => key x = k).map weight).sum := by
  induction items using List.reverseRecOn with
  | nil => simp [gather]
  | append_singleton items x ih =>
    rw [gather_concat, addAt, get?_insert, List.filter_append, List.map_append, List.sum_append, ← ih]
    by_cases hk : k = key x
    · simp [hk]
    · simp [hk, Ne.symm hk]

theorem get?_gather [AddMonoid ν] (key : α → κ) (weight : α → ν) (items : List α) {k : κ} (h : ∃ x ∈ items, key x = k) :
    (gather key weight items).get? k = some ((items.filter fun x => key x = k).map weight).sum := by
  obtain ⟨total, htotal⟩ := Option.isSome_iff_exists.1 ((isSome_get?_gather key weight items k).2 h)
  rw [← getD_get?_gather, htotal]
  rfl

theorem sum_insertList [AddCommMonoid ν] (k : κ) (weight : ν) {entries : List (κ × ν)}
    (hsorted : entries.Pairwise fun a b => compare a.1 b.1 = .lt) :
    ((insertList k ((lookup k entries).getD 0 + weight) entries).map Prod.snd).sum = (entries.map Prod.snd).sum + weight := by
  induction entries with
  | nil => simp [insertList, lookup]
  | cons e rest ih =>
    obtain ⟨hfirst, hrest⟩ := List.pairwise_cons.1 hsorted
    rw [insertList]
    split
    · rename_i hlt
      have hnone : lookup k (e :: rest) = none := by
        refine lookup_eq_none fun e' he' heq => ?_
        have hless : compare k e'.1 = .lt := by
          rcases List.mem_cons.1 he' with rfl | he'
          · exact hlt
          · exact TransCmp.lt_trans hlt (hfirst e' he')
        have hself : compare k k = .eq := ReflCmp.compare_self
        rw [heq, hself] at hless
        cases hless
      rw [hnone]
      simp [add_comm]
    · rename_i heq
      rw [lookup, if_pos (LawfulEqCmp.eq_of_compare heq)]
      simp only [Option.getD_some, List.map_cons, List.sum_cons]
      rw [add_assoc, add_comm weight, ← add_assoc]
    · rename_i hgt
      have hne : k ≠ e.1 := fun heq => by
        have hself : compare e.1 e.1 = .eq := ReflCmp.compare_self
        rw [heq, hself] at hgt
        cases hgt
      rw [lookup, if_neg hne, List.map_cons, List.sum_cons, ih hrest, List.map_cons, List.sum_cons, add_assoc]

/-- The order of the items is not seen in the totals. -/
theorem gather_perm [AddCommMonoid ν] (key : α → κ) (weight : α → ν) {items items' : List α} (h : items.Perm items') :
    gather key weight items = gather key weight items' := by
  refine ext_get? fun k => ?_
  by_cases hk : ∃ x ∈ items, key x = k
  · have hk' : ∃ x ∈ items', key x = k := hk.imp fun x hx => ⟨h.mem_iff.1 hx.1, hx.2⟩
    rw [get?_gather key weight items hk, get?_gather key weight items' hk', ((h.filter _).map weight).sum_eq]
  · have hk' : ¬ ∃ x ∈ items', key x = k := fun ⟨x, hx, heq⟩ => hk ⟨x, h.mem_iff.2 hx, heq⟩
    rw [← isSome_get?_gather key weight, Bool.not_eq_true, Option.isSome_eq_false_iff, Option.isNone_iff_eq_none] at hk hk'
    rw [hk, hk']

/-- Nothing is lost and nothing added twice. -/
theorem sum_values_gather [AddCommMonoid ν] (key : α → κ) (weight : α → ν) (items : List α) :
    (gather key weight items).values.sum = (items.map weight).sum := by
  induction items using List.reverseRecOn with
  | nil => rfl
  | append_singleton items x ih =>
    rw [gather_concat, List.map_append, List.sum_append, ← ih]
    exact (sum_insertList (key x) (weight x) (gather key weight items).sorted).trans (by simp [values])

omit [TransOrd κ] in
/-- A key stands in one entry at most. -/
theorem sum_filter_entries [AddMonoid ν] (m : OrdMap κ ν) (k : κ) :
    ((m.entries.filter fun e => e.1 = k).map Prod.snd).sum = (m.get? k).getD 0 := by
  obtain ⟨entries, hsorted⟩ := m
  unfold get?
  induction entries with
  | nil => rfl
  | cons e rest ih =>
    obtain ⟨hfirst, hrest⟩ := List.pairwise_cons.1 hsorted
    by_cases hk : e.1 = k
    · have hnone : rest.filter (fun e' => e'.1 = k) = [] := by
        refine List.filter_eq_nil_iff.2 fun e' he' hkey => ?_
        have hlt := hfirst e' he'
        rw [of_decide_eq_true hkey, hk] at hlt
        simp at hlt
      rw [List.filter_cons_of_pos (by simp [hk]), hnone, lookup, if_pos hk.symm]
      simp
    · rw [List.filter_cons_of_neg (by simp [hk]), lookup, if_neg (Ne.symm hk)]
      exact ih hrest

end OrdMap
