import Mathlib.Data.List.Basic

/-!
# One machine for each key

A store that gives each key an entry, and calls that each look at the entry of their own key and put
another in its place. What the calls of one key are answered depends on these calls alone.
-/

namespace Keyed

variable {κ σ α β : Type} [DecidableEq κ] (key : α → κ) (step : α → σ → β × σ)

/-- The answers of calls in order, each to its call. -/
def run : List α → (κ → σ) → List (α × β)
  | [], _ => []
  | a :: as, store =>
    let (b, entry) := step a (store (key a))
    (a, b) :: run as fun k => if k = key a then entry else store k

/-- The same for one entry. -/
def single : List α → σ → List (α × β)
  | [], _ => []
  | a :: as, entry => (a, (step a entry).1) :: single as (step a entry).2

variable {key step} {k : κ} {as : List α}

theorem map_fst_run (store : κ → σ) : (run key step as store).map Prod.fst = as := by
  induction as generalizing store with
  | nil => rfl
  | cons a as ih => rw [run, List.map_cons, ih]

theorem filter_run (store : κ → σ) :
    (run key step as store).filter (fun answered => key answered.1 = k) =
      single step (as.filter fun a => key a = k) (store k) := by
  induction as generalizing store with
  | nil => rfl
  | cons a as ih =>
    rw [run, List.filter_cons, List.filter_cons, ih]
    by_cases hk : key a = k
    · subst hk
      simp [single]
    · simp [hk, Ne.symm hk]

/-- Two lists of answers to the same calls are one if they are one at each key. -/
theorem ext (key : α → κ) {l l' : List (α × β)} (hfst : l.map Prod.fst = l'.map Prod.fst)
    (h : ∀ k, l.filter (fun answered => key answered.1 = k) = l'.filter fun answered => key answered.1 = k) : l = l' := by
  induction l generalizing l' with
  | nil => exact (List.map_eq_nil_iff.1 hfst.symm).symm
  | cons x l ih =>
    cases l' with
    | nil => cases hfst
    | cons x' l' =>
      obtain ⟨hx, hrest⟩ := List.cons.inj hfst
      have hself := h (key x.1)
      rw [List.filter_cons, List.filter_cons, if_pos (by simp), if_pos (by simp [← hx])] at hself
      obtain ⟨rfl, -⟩ := List.cons.inj hself
      congr 1
      refine ih hrest fun k => ?_
      have hk := h k
      rw [List.filter_cons, List.filter_cons] at hk
      by_cases hx : key x.1 = k
      · rw [if_pos (by simpa using hx), if_pos (by simpa using hx)] at hk
        exact (List.cons.inj hk).2
      · rwa [if_neg (by simpa using hx), if_neg (by simpa using hx)] at hk

end Keyed
