import Mathlib.Data.List.Sort
import Mathlib.Data.List.Perm.Basic

/-!
# Stable sorting by comparators

`sortBy cmp` is the stable sort of a comparator that answers an `Ordering`. The sorted list is
determined by the order of each tie class (`eq_of_tieClasses`), so sorting by the less significant
key first and by the more significant one after it is sorting by both (`sortBy_sortBy`), and a
whole cascade of passes is one sort by the lexicographic comparator (`foldl_sortBy`).
-/

open Std

namespace StableSort

variable {α β : Type}

/-- The stable sort by a comparator. -/
def sortBy (cmp : α → α → Ordering) (items : List α) : List α :=
  items.mergeSort fun a b => (cmp a b).isLE

/-- Lexicographic comparison by a list of comparators, the first one deciding first. -/
def lexCmp (cmp : β → α → α → Ordering) (keys : List β) (a b : α) : Ordering :=
  match keys with
  | [] => .eq
  | key :: keys => (cmp key a b).then (lexCmp cmp keys a b)

/-- No later element comes before an earlier one. -/
def Sorted (cmp : α → α → Ordering) (items : List α) : Prop :=
  items.Pairwise fun a b => (cmp a b).isLE

instance lexCmp.transCmp (cmp : β → α → α → Ordering) [∀ key, TransCmp (cmp key)] (keys : List β) :
    TransCmp (lexCmp cmp keys) := by
  induction keys with
  | nil => exact { eq_swap := rfl, isLE_trans := fun _ _ => rfl }
  | cons key keys ih => exact inferInstanceAs (TransCmp (compareLex (cmp key) (lexCmp cmp keys)))

instance swap.transCmp (cmp : α → α → Ordering) [TransCmp cmp] : TransCmp fun a b => (cmp a b).swap where
  eq_swap := congrArg Ordering.swap OrientedCmp.eq_swap
  isLE_trans {a b c} hab hbc := by
    rw [← OrientedCmp.eq_swap] at hab hbc ⊢
    exact TransCmp.isLE_trans hbc hab

instance comap.transCmp (cmp : α → α → Ordering) [TransCmp cmp] (f : β → α) :
    TransCmp fun a b => cmp (f a) (f b) where
  eq_swap := OrientedCmp.eq_swap
  isLE_trans := TransCmp.isLE_trans

instance const.transCmp : TransCmp fun _ _ : α => Ordering.eq where
  eq_swap := rfl
  isLE_trans _ _ := rfl

/-! ### The sort is a sorted, stable rearrangement -/

theorem sortBy_perm (cmp : α → α → Ordering) (items : List α) : (sortBy cmp items).Perm items :=
  List.mergeSort_perm ..

@[simp] theorem mem_sortBy {cmp : α → α → Ordering} {items : List α} {a : α} :
    a ∈ sortBy cmp items ↔ a ∈ items :=
  (sortBy_perm cmp items).mem_iff

@[simp] theorem length_sortBy (cmp : α → α → Ordering) (items : List α) :
    (sortBy cmp items).length = items.length :=
  (sortBy_perm cmp items).length_eq

section TransCmp

variable {cmp : α → α → Ordering} [TransCmp cmp]

theorem isLE_trans : ∀ a b c : α, (cmp a b).isLE → (cmp b c).isLE → (cmp a c).isLE :=
  fun _ _ _ hab hbc => TransCmp.isLE_trans hab hbc

theorem isLE_total (a b : α) : ((cmp a b).isLE || (cmp b a).isLE) = true := by
  rw [@OrientedCmp.eq_swap _ cmp _ b a]
  cases cmp a b <;> rfl

theorem sorted_sortBy (cmp : α → α → Ordering) [TransCmp cmp] (items : List α) : Sorted cmp (sortBy cmp items) :=
  List.pairwise_mergeSort isLE_trans isLE_total items

/-- In a sorted list the smaller of two elements stands first. -/
theorem Sorted.sublist {out : List α} (h : Sorted cmp out) {a b : α} (ha : a ∈ out) (hb : b ∈ out)
    (hab : cmp a b = .lt) : [a, b].Sublist out := by
  obtain ⟨front, back, rfl⟩ := List.append_of_mem ha
  have hback : b ∈ back := by
    rcases List.mem_append.1 hb with hb | hb
    · -- an earlier `b` would have to be at most `a`
      have := (List.pairwise_append.1 h).2.2 b hb a (List.mem_cons_self ..)
      rw [OrientedCmp.gt_of_lt hab] at this; cases this
    · rcases List.mem_cons.1 hb with rfl | hb
      · rw [@ReflCmp.compare_self _ cmp _ b] at hab; cases hab
      · exact hb
  exact ((List.singleton_sublist.2 hback).cons_cons a).trans (List.sublist_append_right ..)

omit [TransCmp cmp] in
theorem Sorted.isLE_of_sublist {out : List α} (h : Sorted cmp out) {a b : α} (hab : [a, b].Sublist out) :
    (cmp a b).isLE :=
  List.rel_of_pairwise_cons (List.Pairwise.sublist hab h) (List.mem_singleton.2 rfl)

/-- Stability: elements that tie with one another keep their order. -/
theorem filter_sortBy {p : α → Bool} (hp : ∀ a b, p a → p b → cmp a b = .eq) (items : List α) :
    (sortBy cmp items).filter p = items.filter p := by
  have hsorted : (items.filter p).Pairwise fun a b => (cmp a b).isLE :=
    List.Pairwise.imp_of_mem (R := fun _ _ => True)
      (fun ha hb _ => by rw [hp _ _ (List.mem_filter.1 ha).2 (List.mem_filter.1 hb).2]; rfl)
      (List.pairwise_of_forall fun _ _ => trivial)
  have hsub := (List.sublist_mergeSort isLE_trans isLE_total hsorted List.filter_sublist).filter p
  rw [List.filter_filter] at hsub
  simp only [Bool.and_self] at hsub
  exact (hsub.eq_of_length ((sortBy_perm cmp items).symm.filter p).length_eq).symm

/-- A sorted list is determined by the order of each of its tie classes. -/
theorem eq_of_tieClasses (cmp : α → α → Ordering) [TransCmp cmp] {l₁ l₂ : List α} (h₁ : Sorted cmp l₁) (h₂ : Sorted cmp l₂)
    (h : ∀ a, l₁.filter (cmp a · == .eq) = l₂.filter (cmp a · == .eq)) : l₁ = l₂ := by
  have self : ∀ a (l : List α), (a :: l).filter (cmp a · == .eq) = a :: l.filter (cmp a · == .eq) :=
    fun a l => List.filter_cons_of_pos (by simp [ReflCmp.compare_self])
  induction l₁ generalizing l₂ with
  | nil =>
    cases l₂ with
    | nil => rfl
    | cons y t₂ => simpa [self] using h y
  | cons x t₁ ih =>
    cases l₂ with
    | nil => simpa [self] using h x
    | cons y t₂ =>
      obtain ⟨hx, ht₁⟩ := List.pairwise_cons.1 h₁
      obtain ⟨hy, ht₂⟩ := List.pairwise_cons.1 h₂
      -- each head is in the other list, so neither is before the other
      have mem : ∀ {a : α} {l l' : List α}, (a :: l).filter (cmp a · == .eq) = l'.filter (cmp a · == .eq) →
          a ∈ l' := fun {a l l'} he =>
        (List.mem_filter.1 (he ▸ self a l ▸ List.mem_cons_self ..)).1
      have hxy : (cmp x y).isLE := by
        rcases List.mem_cons.1 (mem (h y).symm) with rfl | hm
        · simp [ReflCmp.compare_self]
        · exact hx _ hm
      have hyx : (cmp y x).isLE := by
        rcases List.mem_cons.1 (mem (h x)) with rfl | hm
        · simp [ReflCmp.compare_self]
        · exact hy _ hm
      have heq : cmp x y = .eq := by
        rw [@OrientedCmp.eq_swap _ cmp _ y x] at hyx
        revert hxy hyx; cases cmp x y <;> simp
      have hhead := h x
      rw [self, List.filter_cons_of_pos (by simp [heq])] at hhead
      obtain rfl := (List.cons.inj hhead).1
      refine congrArg (x :: ·) (ih ht₁ ht₂ fun a => ?_)
      have ha := h a
      simp only [List.filter_cons] at ha
      split at ha
      · exact (List.cons.inj ha).2
      · exact ha

/-- A strictly sorted list is the only sorted rearrangement of itself. -/
theorem eq_of_perm_of_strict {l₁ l₂ : List α} (hp : l₁.Perm l₂) (h₁ : Sorted cmp l₁)
    (h₂ : l₂.Pairwise fun a b => cmp a b = .lt) : l₁ = l₂ := by
  have tie : ∀ ⦃a⦄, a ∈ l₂ → ∀ ⦃b⦄, b ∈ l₂ → a = b ∨ cmp a b ≠ .eq :=
    List.Pairwise.forall_of_forall_of_flip (fun _ _ => .inl rfl) (h₂.imp fun hab => .inr (by rw [hab]; decide))
      (h₂.imp fun hab => .inr (by rw [OrientedCmp.gt_of_lt hab]; decide))
  refine hp.eq_of_pairwise (fun a b ha hb hab hba => ?_) h₁ (h₂.imp fun hab => by simp [hab])
  refine (tie (hp.mem_iff.1 ha) hb).resolve_right fun hne => hne ?_
  rw [@OrientedCmp.eq_swap _ cmp _ b a] at hba
  revert hab hba; cases cmp a b <;> simp

end TransCmp

/-! ### Cascaded passes -/

section Lex

variable {c₁ c₂ : α → α → Ordering} [TransCmp c₁] [TransCmp c₂]

omit [TransCmp c₁] [TransCmp c₂] in
theorem isLE_of_isLE_compareLex {a b : α} (h : (compareLex c₁ c₂ a b).isLE) : (c₁ a b).isLE := by
  revert h; unfold compareLex; cases c₁ a b <;> simp [Ordering.then]

omit [TransCmp c₁] [TransCmp c₂] in
theorem compareLex_of_eq {a b : α} (h : c₁ a b = .eq) : compareLex c₁ c₂ a b = c₂ a b := by
  simp [compareLex, h]

/-- Sorting by the minor key and then, stably, by the major one is sorting by both. -/
theorem sortBy_sortBy (items : List α) :
    sortBy c₁ (sortBy c₂ items) = sortBy (compareLex c₁ c₂) items := by
  have hlex := sorted_sortBy (compareLex c₁ c₂) items
  refine eq_of_tieClasses c₁ (sorted_sortBy c₁ _) (hlex.imp isLE_of_isLE_compareLex) fun a => ?_
  have tie : ∀ x y, (c₁ a x == .eq) → (c₁ a y == .eq) → c₁ x y = .eq := fun x y hx hy =>
    TransCmp.eq_trans (OrientedCmp.eq_symm (eq_of_beq hx)) (eq_of_beq hy)
  rw [filter_sortBy tie]
  -- inside one class of the major key both sides are sorted by the minor key
  refine eq_of_tieClasses c₂ ((sorted_sortBy c₂ items).filter _) ?_ fun b => ?_
  · refine (hlex.filter _).imp_of_mem fun {x y} hx hy hxy => ?_
    rwa [compareLex_of_eq (tie x y (List.mem_filter.1 hx).2 (List.mem_filter.1 hy).2)] at hxy
  · have both : ∀ x y, (c₂ b x == .eq && c₁ a x == .eq) → (c₂ b y == .eq && c₁ a y == .eq) →
        c₁ x y = .eq ∧ c₂ x y = .eq := fun x y hx hy => by
      simp only [Bool.and_eq_true] at hx hy
      exact ⟨tie x y hx.2 hy.2, TransCmp.eq_trans (OrientedCmp.eq_symm (eq_of_beq hx.1)) (eq_of_beq hy.1)⟩
    rw [List.filter_filter, List.filter_filter, filter_sortBy fun x y hx hy => (both x y hx hy).2,
      filter_sortBy fun x y hx hy => ?_]
    rw [compareLex_of_eq (both x y hx hy).1, (both x y hx hy).2]

/-- Reversed passes, one for each key, are one sort by the lexicographic comparison. -/
theorem foldl_sortBy (cmp : β → α → α → Ordering) [∀ key, TransCmp (cmp key)] (keys : List β)
    (items : List α) :
    keys.reverse.foldl (fun items key => sortBy (cmp key) items) items = sortBy (lexCmp cmp keys) items := by
  rw [List.foldl_reverse]
  induction keys with
  | nil => exact (List.mergeSort_of_pairwise (List.pairwise_of_forall fun _ _ => rfl)).symm
  | cons key keys ih =>
    have := lexCmp.transCmp cmp keys
    rw [List.foldr_cons, ih, sortBy_sortBy]
    rfl

end Lex

end StableSort
