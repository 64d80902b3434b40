import TemplateAxum.Lib.Sql
import Mathlib.Data.List.Nodup

/-!
# Paging through sorted answers

Page `i` of size `n` is the window `[i * n, i * n + n)` of an order of the rows. When each page is cut
from an order of its own, all of them allowed by the same `ORDER BY`, the pages together are the rows
for every choice of orders exactly when no group of tying rows reaches over a page boundary
(`pages_perm_iff`).
-/

open Std StableSort Sql

namespace Paging

variable {α : Type} {cmp : α → α → Ordering}

/-- Page `i` of size `n`. -/
def page (n i : Nat) (items : List α) : List α := (items.drop (i * n)).take n

/-- The first `k` pages, page `i` cut from `outs i`. -/
def pages (n k : Nat) (outs : Nat → List α) : List α := (List.range k).flatMap fun i => page n i (outs i)

theorem pages_const (n k : Nat) (items : List α) : pages n k (fun _ => items) = items.take (k * n) := by
  unfold pages
  induction k with
  | zero => simp
  | succ k ih => rw [List.range_succ, List.flatMap_append, ih, Nat.succ_mul, List.take_add]; simp [page]

theorem mem_page {n i : Nat} (hn : 0 < n) {items : List α} {x : α} :
    x ∈ page n i items ↔ ∃ p, p / n = i ∧ items[p]? = some x := by
  simp only [page, List.mem_take_iff_getElem, List.length_drop, List.getElem_drop]
  constructor
  · rintro ⟨j, hj, rfl⟩
    refine ⟨i * n + j, ?_, List.getElem?_eq_getElem (by omega)⟩
    rw [Nat.mul_comm, Nat.mul_add_div hn, Nat.div_eq_of_lt (by omega)]; rfl
  · rintro ⟨p, rfl, hp⟩
    obtain ⟨hlt, rfl⟩ := List.getElem?_eq_some_iff.1 hp
    have hdiv := Nat.div_add_mod' p n
    have hmod := Nat.mod_lt p hn
    exact ⟨p % n, by omega, by simp only [hdiv]⟩

/-! ### Where a row can stand -/

/-- The number of rows before `a` in every allowed order. -/
def before (cmp : α → α → Ordering) (rows : List α) (a : α) : Nat := rows.countP fun b => (cmp b a).isLT

/-- The number of rows before `a`, or tying with it. -/
def upTo (cmp : α → α → Ordering) (rows : List α) (a : α) : Nat := rows.countP fun b => (cmp b a).isLE

/-- A property that passes to earlier elements holds up to an index. -/
theorem getElem?_iff_lt_countP {p : α → Bool} {items : List α}
    (h : items.Pairwise fun a b => p b = true → p a = true) {i : Nat} {x : α} (hx : items[i]? = some x) :
    p x = true ↔ i < items.countP p := by
  induction items generalizing i with
  | nil => simp at hx
  | cons a items ih =>
    obtain ⟨ha, hitems⟩ := List.pairwise_cons.1 h
    have hnone : ¬ p a = true → items.countP p = 0 := fun hpa =>
      List.countP_eq_zero.2 fun b hb hpb => hpa (ha b hb hpb)
    cases i with
    | zero =>
      obtain rfl : a = x := by simpa using hx
      by_cases hpa : p a = true
      · simp [hpa]
      · simp [hpa, hnone hpa]
    | succ i =>
      rw [List.getElem?_cons_succ] at hx
      by_cases hpa : p a = true
      · rw [ih hitems hx, List.countP_cons_of_pos hpa]; omega
      · have hpx : ¬ p x = true := fun hpx => hpa (ha x (List.mem_of_getElem? hx) hpx)
        simp [hpx, List.countP_cons_of_neg hpa, hnone hpa]

variable [TransCmp cmp]

/-- In an allowed order a row stands inside its group of tying rows. -/
theorem Arrangement.position {rows out : List α} (h : Arrangement cmp rows out) {p : Nat} {x a : α}
    (hx : out[p]? = some x) :
    ((cmp x a).isLT ↔ p < before cmp rows a) ∧ ((cmp x a).isLE ↔ p < upTo cmp rows a) := by
  constructor
  · rw [before, ← h.perm.countP_eq]
    refine getElem?_iff_lt_countP (p := fun b => (cmp b a).isLT) (h.sorted.imp fun {b c} hbc hca => ?_) hx
    rw [Ordering.isLT_iff_eq_lt] at hca ⊢
    exact TransCmp.lt_of_isLE_of_lt hbc hca
  · rw [upTo, ← h.perm.countP_eq]
    exact getElem?_iff_lt_countP (p := fun b => (cmp b a).isLE) (h.sorted.imp fun {b c} hbc hca => TransCmp.isLE_trans hbc hca) hx

theorem Arrangement.position_self {rows out : List α} (h : Arrangement cmp rows out) {p : Nat} {x : α}
    (hx : out[p]? = some x) : before cmp rows x ≤ p ∧ p < upTo cmp rows x := by
  have hself : cmp x x = .eq := ReflCmp.compare_self
  obtain ⟨hlt, hle⟩ := Arrangement.position h (a := x) hx
  rw [hself] at hlt hle
  exact ⟨Nat.le_of_not_lt fun hp => by simpa using hlt.2 hp, hle.1 rfl⟩

theorem Arrangement.tie {rows out : List α} (h : Arrangement cmp rows out) {p : Nat} {x a : α}
    (hx : out[p]? = some x) (hge : before cmp rows a ≤ p) (hlt : p < upTo cmp rows a) : cmp x a = .eq := by
  obtain ⟨hbefore, hupTo⟩ := Arrangement.position h (a := a) hx
  have hnot : ¬ (cmp x a).isLT = true := fun hxa => Nat.not_lt.2 hge (hbefore.1 hxa)
  have hle := hupTo.2 hlt
  revert hnot hle; cases cmp x a <;> simp

/-- No group of tying rows reaches over a page boundary. -/
def TiesFit (cmp : α → α → Ordering) (n : Nat) (rows : List α) : Prop :=
  ∀ a ∈ rows, before cmp rows a / n = (upTo cmp rows a - 1) / n

variable {rows : List α} {n : Nat}

/-- Then the page of a row is the same in every allowed order. -/
theorem mem_page_iff (hn : 0 < n) (hfit : TiesFit cmp n rows) {out : List α} (h : Arrangement cmp rows out)
    {i : Nat} {x : α} : x ∈ page n i out ↔ x ∈ rows ∧ before cmp rows x / n = i := by
  have key : ∀ p, out[p]? = some x → before cmp rows x / n = p / n := fun p hp => by
    obtain ⟨hge, hlt⟩ := Arrangement.position_self h hp
    have hx : x ∈ rows := h.perm.mem_iff.1 (List.mem_of_getElem? hp)
    have h₁ : before cmp rows x / n ≤ p / n := Nat.div_le_div_right hge
    have h₂ : p / n ≤ (upTo cmp rows x - 1) / n := Nat.div_le_div_right (by omega)
    rw [← hfit x hx] at h₂
    exact Nat.le_antisymm h₁ h₂
  rw [mem_page hn]
  constructor
  · rintro ⟨p, rfl, hp⟩
    exact ⟨h.perm.mem_iff.1 (List.mem_of_getElem? hp), key p hp⟩
  · rintro ⟨hx, rfl⟩
    obtain ⟨p, hp⟩ := List.mem_iff_getElem?.1 (h.perm.mem_iff.2 hx)
    exact ⟨p, (key p hp).symm, hp⟩

theorem pages_perm_of_tiesFit (hn : 0 < n) (hnodup : rows.Nodup) (hfit : TiesFit cmp n rows)
    {outs : Nat → List α} (h : ∀ i, Arrangement cmp rows (outs i)) {k : Nat} (hk : rows.length ≤ k * n) :
    (pages n k outs).Perm rows := by
  have hpages : (pages n k outs).Nodup := by
    refine List.nodup_flatMap.2 ⟨fun i _ => ?_, ?_⟩
    · exact (((h i).perm.nodup_iff.2 hnodup).sublist (List.drop_sublist ..)).sublist (List.take_sublist ..)
    · refine List.nodup_range.imp fun {i j} hij x hi hj => hij ?_
      rw [mem_page_iff hn hfit (h i)] at hi
      rw [mem_page_iff hn hfit (h j)] at hj
      exact hi.2.symm.trans hj.2
  refine (List.perm_ext_iff_of_nodup hpages hnodup).2 fun x => ?_
  simp only [pages, List.mem_flatMap, List.mem_range, mem_page_iff hn hfit (h _)]
  constructor
  · rintro ⟨i, -, hx, -⟩; exact hx
  · intro hx
    refine ⟨_, ?_, hx, rfl⟩
    obtain ⟨p, hp⟩ := List.mem_iff_getElem?.1 ((h 0).perm.mem_iff.2 hx)
    have hge := (Arrangement.position_self (h 0) hp).1
    have hlt := (List.getElem?_eq_some_iff.1 hp).1
    rw [(h 0).perm.length_eq] at hlt
    exact (Nat.div_lt_iff_lt_mul hn).2 (by omega)

/-- Rows of which no two tie fit pages of any size. -/
theorem tiesFit_of_strict (hnodup : rows.Nodup) (h : ∀ a ∈ rows, ∀ b ∈ rows, cmp a b = .eq → a = b) :
    TiesFit cmp n rows := by
  intro a ha
  have harr := arrangement_sortBy cmp rows
  generalize sortBy cmp rows = out at harr
  obtain ⟨p, hp⟩ := List.mem_iff_getElem?.1 (harr.perm.mem_iff.2 ha)
  obtain ⟨hge, hlt⟩ := Arrangement.position_self harr hp
  have hupTo : upTo cmp rows a ≤ out.length := harr.perm.length_eq ▸ List.countP_le_length
  -- every place of the group of `a` holds `a`
  have hself : ∀ q, before cmp rows a ≤ q → q < upTo cmp rows a → out[q]? = some a := fun q hq hq' => by
    obtain ⟨x, hx⟩ : ∃ x, out[q]? = some x := ⟨_, List.getElem?_eq_getElem (by omega)⟩
    rw [hx, h x (harr.perm.mem_iff.1 (List.mem_of_getElem? hx)) a ha (Arrangement.tie harr hx hq hq')]
  have hone : upTo cmp rows a = before cmp rows a + 1 := by
    by_contra hne
    have h₁ := hself (before cmp rows a) (Nat.le_refl _) (by omega)
    have h₂ := hself (before cmp rows a + 1) (by omega) (by omega)
    have := (List.getElem?_inj (List.getElem?_eq_some_iff.1 h₁).1 (harr.perm.nodup_iff.2 hnodup)).1
      (h₁.trans h₂.symm)
    omega
  rw [hone]; rfl

/-- Two neighbours that tie may change places. -/
theorem Arrangement.swap {front back : List α} {x y : α} (htie : cmp x y = .eq)
    (h : Arrangement cmp rows (front ++ x :: y :: back)) : Arrangement cmp rows (front ++ y :: x :: back) := by
  refine ⟨((List.Perm.swap x y back).append_left front).trans h.perm, ?_⟩
  obtain ⟨hfront, hrest, hcross⟩ := List.pairwise_append.1 h.sorted
  obtain ⟨hx, hyback⟩ := List.pairwise_cons.1 hrest
  obtain ⟨hy, hback⟩ := List.pairwise_cons.1 hyback
  refine List.pairwise_append.2 ⟨hfront, List.pairwise_cons.2 ⟨fun z hz => ?_, List.pairwise_cons.2
    ⟨fun z hz => hx z (List.mem_cons_of_mem _ hz), hback⟩⟩, fun a ha z hz => hcross a ha z ?_⟩
  · rcases List.mem_cons.1 hz with rfl | hz
    · rw [OrientedCmp.eq_symm htie]; rfl
    · exact hy z hz
  · simp only [List.mem_cons] at hz ⊢; tauto

omit [TransCmp cmp] in
theorem eq_take_append_drop {items : List α} {b : Nat} {x y : α} (hx : items[b]? = some x)
    (hy : items[b + 1]? = some y) : items = items.take b ++ x :: y :: items.drop (b + 2) := by
  obtain ⟨hb, rfl⟩ := List.getElem?_eq_some_iff.1 hx
  obtain ⟨hb₁, rfl⟩ := List.getElem?_eq_some_iff.1 hy
  rw [← List.drop_eq_getElem_cons, ← List.drop_eq_getElem_cons, List.take_append_drop]

/-- Tying rows on both sides of a boundary can be made to appear on both pages. -/
theorem tiesFit_of_pages_perm (hn : 0 < n) (hnodup : rows.Nodup)
    (h : ∀ outs : Nat → List α, (∀ i, Arrangement cmp rows (outs i)) → ∀ k, rows.length ≤ k * n →
      (pages n k outs).Perm rows) : TiesFit cmp n rows := by
  intro a ha
  by_contra hne
  have harr := arrangement_sortBy cmp rows
  generalize sortBy cmp rows = out at harr
  have hlen := harr.perm.length_eq
  -- the boundary that the group of `a` reaches over
  obtain ⟨p, hp⟩ := List.mem_iff_getElem?.1 (harr.perm.mem_iff.2 ha)
  obtain ⟨hge, hlt⟩ := Arrangement.position_self harr hp
  have hpage : before cmp rows a / n < (upTo cmp rows a - 1) / n :=
    Nat.lt_of_le_of_ne (Nat.div_le_div_right (by omega)) hne
  generalize hi : before cmp rows a / n = i at hpage
  have hupTo : upTo cmp rows a ≤ rows.length := List.countP_le_length
  have hlow : before cmp rows a < (i + 1) * n := (Nat.div_lt_iff_lt_mul hn).1 (by omega)
  have hhigh : (i + 1) * n ≤ upTo cmp rows a - 1 := (Nat.le_div_iff_mul_le hn).1 hpage
  obtain ⟨b, hb⟩ : ∃ b, (i + 1) * n = b + 1 := ⟨(i + 1) * n - 1, by omega⟩
  rw [hb] at hlow hhigh
  obtain ⟨x, hx⟩ : ∃ x, out[b]? = some x := ⟨_, List.getElem?_eq_getElem (by omega)⟩
  obtain ⟨y, hy⟩ : ∃ y, out[b + 1]? = some y := ⟨_, List.getElem?_eq_getElem (by omega)⟩
  have hsplit := eq_take_append_drop hx hy
  have htie : cmp x y = .eq :=
    TransCmp.eq_trans (Arrangement.tie harr (a := a) hx (by omega) (by omega))
      (OrientedCmp.eq_symm (Arrangement.tie harr (a := a) hy (by omega) (by omega)))
  have harr' := Arrangement.swap htie (hsplit ▸ harr)
  have hx' : (out.take b ++ y :: x :: out.drop (b + 2))[b + 1]? = some x := by
    rw [List.getElem?_append_right (by simp), List.length_take_of_le (by omega)]; simp
  -- page `i` from the first order, all others from the second one
  have houts : ∀ j, Arrangement cmp rows (if j = i then out else out.take b ++ y :: x :: out.drop (b + 2)) :=
    fun j => by split; exacts [harr, harr']
  have hnd := (h _ houts rows.length (Nat.le_mul_of_pos_right _ hn)).nodup_iff.2 hnodup
  have hi₁ : i + 1 < rows.length := by
    have : i + 1 ≤ (i + 1) * n := Nat.le_mul_of_pos_right _ hn
    omega
  have hdisj := List.pairwise_iff_getElem.1 (List.nodup_flatMap.1 hnd).2 i (i + 1)
    (by rw [List.length_range]; omega) (by rw [List.length_range]; omega) (Nat.lt_succ_self i)
  simp only [Function.onFun, List.getElem_range, if_true, Nat.succ_ne_self, if_false] at hdisj
  have hbi : b / n = i := by
    refine Nat.div_eq_of_lt_le ?_ ?_ <;> rw [Nat.succ_mul] at * <;> omega
  have hbi₁ : (b + 1) / n = i + 1 := by rw [← hb, Nat.mul_div_cancel _ hn]
  exact hdisj ((mem_page hn).2 ⟨b, hbi, hx⟩) ((mem_page hn).2 ⟨b + 1, hbi₁, hx'⟩)

theorem pages_perm_iff (hn : 0 < n) (hnodup : rows.Nodup) :
    (∀ outs : Nat → List α, (∀ i, Arrangement cmp rows (outs i)) → ∀ k, rows.length ≤ k * n →
      (pages n k outs).Perm rows) ↔ TiesFit cmp n rows :=
  ⟨tiesFit_of_pages_perm hn hnodup, fun hfit _ h _ hk => pages_perm_of_tiesFit hn hnodup hfit h hk⟩

end Paging
