import Mathlib.Data.List.Basic
import Mathlib.Data.List.TakeWhile
import Mathlib.Data.List.Flatten

/-!
# Fixed windows

Instants in ascending order split into windows: each starts at an instant and takes in the ones less
than `w` after its start. A counter that is reset by the first hit at least `w` after the reset before
it counts each window from 1; admitting the first `limit` hits of each window admits at most twice as
many in any interval of length `w`.
-/

namespace Window

/-! ### Windows -/

def windows (w : Nat) : List Nat → List (List Nat)
  | [] => []
  | t :: ts => (t :: ts.takeWhile (· < t + w)) :: windows w (ts.dropWhile (· < t + w))
termination_by ts => ts.length
decreasing_by
  simp only [List.length_cons]
  exact Nat.lt_succ_of_le (List.length_dropWhile_le _ _)

/-- Consecutive windows of `ts`. -/
structure Splits (w : Nat) (ts : List Nat) (wins : List (List Nat)) : Prop where
  flatten : wins.flatten = ts
  starts : [] ∉ wins
  within : ∀ before start rest after, wins = before ++ (start :: rest) :: after →
    (∀ t ∈ rest, t < start + w) ∧ ∀ t ∈ after.flatten, start + w ≤ t

variable {w : Nat} {ts : List Nat}

theorem flatten_windows (w : Nat) (ts : List Nat) : (windows w ts).flatten = ts := by
  fun_induction windows w ts with
  | case1 => rfl
  | case2 t ts ih => rw [List.flatten_cons, ih, List.cons_append, List.takeWhile_append_dropWhile]

theorem length_le_of_mem_windows {win : List Nat} (h : win ∈ windows w ts) : win.length ≤ ts.length := by
  rw [← flatten_windows w ts]
  exact (List.sublist_flatten_of_mem h).length_le

/-- What comes after a window is late enough. -/
theorem le_of_mem_dropWhile {t u : Nat} (h : ts.Pairwise (· ≤ ·)) (hu : u ∈ ts.dropWhile (· < t + w)) : t + w ≤ u := by
  induction ts with
  | nil => cases hu
  | cons x ts ih =>
    rw [List.dropWhile_cons] at hu
    split at hu
    · exact ih (List.pairwise_cons.1 h).2 hu
    · rename_i hx
      have hx : t + w ≤ x := by simpa using hx
      rcases List.mem_cons.1 hu with rfl | hu
      · exact hx
      · exact hx.trans ((List.pairwise_cons.1 h).1 u hu)

theorem splits_windows (h : ts.Pairwise (· ≤ ·)) : Splits w ts (windows w ts) := by
  refine ⟨flatten_windows w ts, ?_, ?_⟩
  · fun_induction windows w ts with
    | case1 => exact List.not_mem_nil
    | case2 t ts ih =>
      intro hmem
      rcases List.mem_cons.1 hmem with hnil | hmem
      · cases hnil
      · exact ih ((List.pairwise_cons.1 h).2.sublist (List.dropWhile_sublist _)) hmem
  · fun_induction windows w ts with
    | case1 => intro before start rest after heq; simp at heq
    | case2 t ts ih =>
      intro before start rest after heq
      have hts := (List.pairwise_cons.1 h).2
      cases before with
      | nil =>
        obtain ⟨hhead, rfl⟩ := List.cons.inj heq
        obtain ⟨rfl, rfl⟩ := List.cons.inj hhead
        refine ⟨fun u hu => by simpa using List.mem_takeWhile_imp hu, fun u hu => ?_⟩
        rw [flatten_windows] at hu
        exact le_of_mem_dropWhile hts hu
      | cons first before =>
        obtain ⟨-, htail⟩ := List.cons.inj heq
        exact ih (hts.sublist (List.dropWhile_sublist _)) before start rest after htail

/-! ### Counting -/

/-- One more hit of a counter: its count, and the start of its window. -/
def hit (w : Nat) (entry : Option (Nat × Nat)) (now : Nat) : Nat × Nat :=
  match entry with
  | none => (1, now)
  | some (count, start) => if now < start + w then (count + 1, start) else (1, now)

theorem hit_start_le {entry : Option (Nat × Nat)} {now : Nat} (h : ∀ e, entry = some e → e.2 ≤ now) :
    (hit w entry now).2 ≤ now := by
  cases entry with
  | none => exact Nat.le_refl now
  | some e =>
    show (if now < e.2 + w then (e.1 + 1, e.2) else (1, now)).2 ≤ now
    split
    · exact h e rfl
    · exact Nat.le_refl now

/-- The counts that hits at `ts` give. -/
def counts (w : Nat) : Option (Nat × Nat) → List Nat → List Nat
  | _, [] => []
  | entry, t :: ts => (hit w entry t).1 :: counts w (some (hit w entry t)) ts

/-- What is left of a window is counted on, then the counter starts afresh. -/
theorem counts_some (count start : Nat) : counts w (some (count, start)) ts =
    List.range' (count + 1) (ts.takeWhile (· < start + w)).length ++ counts w none (ts.dropWhile (· < start + w)) := by
  induction ts generalizing count with
  | nil => rfl
  | cons t ts ih =>
    by_cases h : t < start + w
    · have hhit : hit w (some (count, start)) t = (count + 1, start) := if_pos h
      simp only [counts, hhit, ih, List.takeWhile_cons, List.dropWhile_cons, h, decide_true, if_true,
        List.length_cons, List.range'_succ, List.cons_append]
    · have hhit : hit w (some (count, start)) t = hit w none t := if_neg h
      simp only [counts, hhit, List.takeWhile_cons, List.dropWhile_cons, h, decide_false, Bool.false_eq_true, if_false,
        List.length_nil, List.range'_zero, List.nil_append]

theorem counts_eq : counts w none ts = (windows w ts).flatMap fun win => List.range' 1 win.length := by
  fun_induction windows w ts with
  | case1 => rfl
  | case2 t ts ih =>
    rw [List.flatMap_cons, ← ih, counts, List.length_cons, List.range'_succ, List.cons_append]
    exact congrArg _ (counts_some 1 t)

/-- A count is at most the length of its window. -/
theorem le_of_mem_counts {bound count : Nat} (hbound : ∀ win ∈ windows w ts, win.length ≤ bound)
    (h : count ∈ counts w none ts) : 1 ≤ count ∧ count ≤ bound := by
  rw [counts_eq, List.mem_flatMap] at h
  obtain ⟨win, hwin, hcount⟩ := h
  have := hbound win hwin
  rw [List.mem_range'_1] at hcount
  omega

/-! ### Admitting -/

/-- The first `limit` hits of each window. -/
def admitted (limit w : Nat) (ts : List Nat) : List Nat := (windows w ts).flatMap (List.take limit)

variable {limit lo hi : Nat}

theorem admitted_cons (limit t : Nat) : admitted limit w (t :: ts) =
    (t :: ts.takeWhile (· < t + w)).take limit ++ admitted limit w (ts.dropWhile (· < t + w)) := by
  rw [admitted, windows, List.flatMap_cons]
  rfl

theorem filter_zip_range' (first : Nat) (win : List Nat) :
    ((win.zip (List.range' (first + 1) win.length)).filter fun hit => hit.2 ≤ limit).map Prod.fst = win.take (limit - first) := by
  induction win generalizing first with
  | nil => simp
  | cons t win ih =>
    rw [List.length_cons, List.range'_succ, List.zip_cons_cons, List.filter_cons]
    by_cases h : first + 1 ≤ limit
    · obtain ⟨k, hk⟩ : ∃ k, limit - first = k + 1 := ⟨limit - first - 1, by omega⟩
      rw [if_pos (by simpa using h), List.map_cons, ih, hk, List.take_succ_cons, show limit - (first + 1) = k by omega]
    · rw [if_neg (by simpa using h), ih, show limit - (first + 1) = 0 by omega, show limit - first = 0 by omega]
      rfl

/-- They are the hits whose count is within the limit. -/
theorem admitted_eq : ((ts.zip (counts w none ts)).filter fun hit => hit.2 ≤ limit).map Prod.fst = admitted limit w ts := by
  fun_induction windows w ts with
  | case1 => simp [admitted, windows]
  | case2 t ts ih =>
    have hcounts : counts w none (t :: ts) =
        List.range' (0 + 1) (t :: ts.takeWhile (· < t + w)).length ++ counts w none (ts.dropWhile (· < t + w)) := by
      rw [counts_eq, windows, List.flatMap_cons, ← counts_eq]
    have hts : t :: ts = (t :: ts.takeWhile (· < t + w)) ++ ts.dropWhile (· < t + w) := by
      rw [List.cons_append, List.takeWhile_append_dropWhile]
    rw [hcounts, admitted_cons, ← ih]
    conv_lhs => rw [hts]
    rw [List.zip_append (by rw [List.length_range']), List.filter_append, List.map_append, filter_zip_range', Nat.sub_zero]

theorem map_counts_le : (counts w none ts).map (fun count => decide (count ≤ limit)) =
    (windows w ts).flatMap fun win => (List.range win.length).map fun i => decide (i < limit) := by
  rw [counts_eq, List.map_flatMap]
  refine List.flatMap_congr fun win _ => ?_
  rw [List.range'_eq_map_range, List.map_map]
  refine List.map_congr_left fun i _ => decide_eq_decide.2 ?_
  dsimp only [Function.comp_apply]
  omega

theorem mem_of_mem_admitted {t : Nat} (h : t ∈ admitted limit w ts) : t ∈ ts := by
  obtain ⟨win, hwin, ht⟩ := List.mem_flatMap.1 h
  rw [← flatten_windows w ts]
  exact List.mem_flatten.2 ⟨win, hwin, List.mem_of_mem_take ht⟩

theorem countP_admitted_of_late (h : ∀ t ∈ ts, hi < t) :
    (admitted limit w ts).countP (fun t => lo ≤ t && t ≤ hi) = 0 := by
  refine List.countP_eq_zero.2 fun t ht => ?_
  have := h t (mem_of_mem_admitted ht)
  simp only [Bool.and_eq_true, decide_eq_true_eq]
  omega

theorem countP_take_le (limit : Nat) (p : Nat → Bool) (win : List Nat) : (win.take limit).countP p ≤ limit :=
  List.countP_le_length.trans (List.length_take_le limit win)

/-- An interval that only the first window meets. -/
theorem countP_admitted_le_one (hs : ts.Pairwise (· ≤ ·)) (h : ∀ t ∈ ts, hi < t + w) :
    (admitted limit w ts).countP (fun t => lo ≤ t && t ≤ hi) ≤ limit := by
  cases ts with
  | nil => simp [admitted, windows]
  | cons t ts =>
    rw [admitted_cons, List.countP_append, countP_admitted_of_late]
    · exact countP_take_le limit _ _
    · intro u hu
      have hlate := le_of_mem_dropWhile (List.pairwise_cons.1 hs).2 hu
      have := h t (List.mem_cons_self ..)
      omega

/-- An interval of length `w` meets no more than two windows. -/
theorem countP_admitted_le (hw : 0 < w) (hs : ts.Pairwise (· ≤ ·)) (lo : Nat) :
    (admitted limit w ts).countP (fun t => lo ≤ t && t ≤ lo + w) ≤ 2 * limit := by
  fun_induction windows w ts with
  | case1 => simp [admitted, windows]
  | case2 t ts ih =>
    have hts := (List.pairwise_cons.1 hs).2
    have hrest := hts.sublist (List.dropWhile_sublist (· < t + w))
    rw [admitted_cons, List.countP_append]
    by_cases hlo : lo < t + w
    · have hfirst := countP_take_le limit (fun u => lo ≤ u && u ≤ lo + w) (t :: ts.takeWhile (· < t + w))
      have hsecond : (admitted limit w (ts.dropWhile (· < t + w))).countP (fun u => lo ≤ u && u ≤ lo + w) ≤ limit := by
        refine countP_admitted_le_one hrest fun u hu => ?_
        have := le_of_mem_dropWhile hts hu
        omega
      omega
    · have hfirst : ((t :: ts.takeWhile (· < t + w)).take limit).countP (fun u => lo ≤ u && u ≤ lo + w) = 0 := by
        refine List.countP_eq_zero.2 fun u hu => ?_
        have hu : u < t + w := by
          rcases List.mem_cons.1 (List.mem_of_mem_take hu) with rfl | hu
          · omega
          · simpa using List.mem_takeWhile_imp hu
        simp only [Bool.and_eq_true, decide_eq_true_eq]
        omega
      rw [hfirst, Nat.zero_add]
      exact ih hrest

end Window
