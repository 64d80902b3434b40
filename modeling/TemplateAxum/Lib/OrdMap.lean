import Mathlib.Data.List.Basic
import Mathlib.Data.List.Pairwise
import Mathlib.Tactic.SplitIfs

/-!
# Ordered maps walked in place

`OrdMap κ α` is a map kept as the list of its entries in ascending key order: the reading order of
a `BTreeMap`, and the canonical listing of a table by its primary key. Besides the usual lookups it
has the two in-place writers a store needs: `adjust` (one entry) and `walk` (a loop over all
values that may rewrite each one and carries an accumulator).
-/

open Std

/-- A finite map, listed in strictly ascending key order. -/
structure OrdMap (κ α : Type) [Ord κ] where
  entries : List (κ × α)
  sorted : entries.Pairwise fun a b => compare a.1 b.1 = .lt

namespace OrdMap

variable {κ α σ : Type}

/-! ### Lists of entries -/

/-- The value at `k` in a list of entries. -/
def lookup [DecidableEq κ] (k : κ) : List (κ × α) → Option α
  | [] => none
  | e :: rest => if k = e.1 then some e.2 else lookup k rest

/-- Single-pass insertion, replacing the entry at `k` if there is one. -/
def insertList [Ord κ] (k : κ) (v : α) : List (κ × α) → List (κ × α)
  | [] => [(k, v)]
  | e :: rest =>
    match compare k e.1 with
    | .lt => (k, v) :: e :: rest
    | .eq => (k, v) :: rest
    | .gt => e :: insertList k v rest

/-- The loop of `walk`: `f` sees the accumulator and the value, and gives both back. -/
def walkList (f : σ → α → σ × α) : σ → List (κ × α) → σ × List (κ × α)
  | s, [] => (s, [])
  | s, e :: rest =>
    ((walkList f (f s e.2).1 rest).1, (e.1, (f s e.2).2) :: (walkList f (f s e.2).1 rest).2)

theorem map_fst_walkList (f : σ → α → σ × α) (s : σ) (l : List (κ × α)) :
    (walkList f s l).2.map Prod.fst = l.map Prod.fst := by
  induction l generalizing s with
  | nil => rfl
  | cons e rest ih => simp only [walkList, List.map_cons, ih]

theorem le_length_insertList [Ord κ] (k : κ) (v : α) (l : List (κ × α)) : l.length ≤ (insertList k v l).length := by
  induction l with
  | nil => simp
  | cons e rest ih =>
    unfold insertList
    split <;> simp only [List.length_cons] <;> omega

theorem mem_insertList [Ord κ] {k : κ} {v : α} {e : κ × α} {l : List (κ × α)}
    (h : e ∈ insertList k v l) : e = (k, v) ∨ e ∈ l := by
  induction l with
  | nil => simpa [insertList] using h
  | cons e' rest ih =>
    unfold insertList at h
    split at h
    · simpa using h
    · rcases List.mem_cons.1 h with rfl | h
      · exact .inl rfl
      · exact .inr (List.mem_cons_of_mem _ h)
    · rcases List.mem_cons.1 h with rfl | h
      · exact .inr (List.mem_cons_self ..)
      · exact (ih h).imp id (List.mem_cons_of_mem _)

theorem sorted_of_map_fst [Ord κ] {l l' : List (κ × α)} (hl : l'.map Prod.fst = l.map Prod.fst)
    (h : l.Pairwise fun a b => compare a.1 b.1 = .lt) :
    l'.Pairwise fun a b => compare a.1 b.1 = .lt := by
  have h' : (l.map Prod.fst).Pairwise fun a b => compare a b = .lt := List.pairwise_map.2 h
  rw [← hl] at h'
  exact List.pairwise_map.1 h'

theorem sorted_insertList [Ord κ] [TransOrd κ] (k : κ) (v : α) {l : List (κ × α)}
    (h : l.Pairwise fun a b => compare a.1 b.1 = .lt) :
    (insertList k v l).Pairwise fun a b => compare a.1 b.1 = .lt := by
  induction l with
  | nil => simp [insertList]
  | cons e rest ih =>
    obtain ⟨he, hrest⟩ := List.pairwise_cons.1 h
    unfold insertList
    split
    · rename_i hlt
      refine List.pairwise_cons.2 ⟨fun e' he' => ?_, h⟩
      rcases List.mem_cons.1 he' with rfl | he'
      · exact hlt
      · exact TransCmp.lt_trans hlt (he e' he')
    · rename_i heq
      exact List.pairwise_cons.2 ⟨fun e' he' => TransCmp.lt_of_eq_of_lt heq (he e' he'), hrest⟩
    · rename_i hgt
      refine List.pairwise_cons.2 ⟨fun e' he' => ?_, ih hrest⟩
      rcases mem_insertList he' with rfl | he'
      · exact OrientedCmp.lt_of_gt hgt
      · exact he e' he'

section Lookup

variable [DecidableEq κ]

theorem lookup_eq_none {k : κ} {l : List (κ × α)} (h : ∀ e ∈ l, e.1 ≠ k) : lookup k l = none := by
  induction l with
  | nil => rfl
  | cons e rest ih =>
    have he := (h e (List.mem_cons_self ..)).symm
    rw [lookup, if_neg he, ih fun e' he' => h e' (List.mem_cons_of_mem _ he')]

theorem mem_of_lookup {k : κ} {v : α} {l : List (κ × α)} (h : lookup k l = some v) : (k, v) ∈ l := by
  induction l with
  | nil => cases h
  | cons e rest ih =>
    unfold lookup at h
    split at h
    · rename_i hk
      cases h; subst hk; exact List.mem_cons_self ..
    · exact List.mem_cons_of_mem _ (ih h)

variable [Ord κ] [LawfulEqOrd κ]

theorem lookup_insertList (k k' : κ) (v : α) (l : List (κ × α)) :
    lookup k' (insertList k v l) = if k' = k then some v else lookup k' l := by
  induction l with
  | nil => simp [insertList, lookup]
  | cons e rest ih =>
    unfold insertList
    split
    · simp [lookup]
    · rename_i heq
      obtain rfl := LawfulEqCmp.compare_eq_iff_eq.1 heq
      by_cases hk : k' = e.1 <;> simp [lookup, hk]
    · rename_i hgt
      have hne : e.1 ≠ k := fun h => by simp [h] at hgt
      by_cases hk : k' = e.1
      · simp [lookup, hk, hne]
      · simp [lookup, hk, ih]

theorem lookup_eq_some_iff {k : κ} {v : α} {l : List (κ × α)}
    (h : l.Pairwise fun a b => compare a.1 b.1 = .lt) : lookup k l = some v ↔ (k, v) ∈ l := by
  refine ⟨mem_of_lookup, fun hm => ?_⟩
  induction l with
  | nil => cases hm
  | cons e rest ih =>
    obtain ⟨he, hrest⟩ := List.pairwise_cons.1 h
    rcases List.mem_cons.1 hm with rfl | hm
    · rw [lookup, if_pos rfl]
    · have hne : k ≠ e.1 := fun hk => by simpa [hk] using he _ hm
      rw [lookup, if_neg hne, ih hrest hm]

end Lookup

/-! ### Maps -/

variable [Ord κ]

def empty : OrdMap κ α := ⟨[], .nil⟩

/-- The values in ascending key order. -/
def values (m : OrdMap κ α) : List α := m.entries.map Prod.snd

def insert [TransOrd κ] (m : OrdMap κ α) (k : κ) (v : α) : OrdMap κ α :=
  ⟨insertList k v m.entries, sorted_insertList k v m.sorted⟩

/-- Visit all values in ascending key order, rewriting each and threading an accumulator. -/
def walk (f : σ → α → σ × α) (s : σ) (m : OrdMap κ α) : σ × OrdMap κ α :=
  ((walkList f s m.entries).1,
    ⟨(walkList f s m.entries).2, sorted_of_map_fst (map_fst_walkList f s m.entries) m.sorted⟩)

/-- Rewrite every value. -/
def map (m : OrdMap κ α) (f : α → α) : OrdMap κ α :=
  ⟨m.entries.map fun e => (e.1, f e.2), sorted_of_map_fst (by simp [Function.comp_def]) m.sorted⟩

variable [DecidableEq κ]

def get? (m : OrdMap κ α) (k : κ) : Option α := lookup k m.entries

/-- Rewrite the value at `k`, if there is one. -/
def adjust (m : OrdMap κ α) (k : κ) (f : α → α) : OrdMap κ α :=
  ⟨m.entries.map fun e => (e.1, if e.1 = k then f e.2 else e.2),
    sorted_of_map_fst (by simp [Function.comp_def]) m.sorted⟩

@[simp] theorem get?_empty (k : κ) : (empty : OrdMap κ α).get? k = none := rfl

theorem get?_adjust (m : OrdMap κ α) (k k' : κ) (f : α → α) :
    (m.adjust k f).get? k' = (m.get? k').map fun v => if k' = k then f v else v := by
  simp only [get?, adjust]
  induction m.entries with
  | nil => rfl
  | cons e rest ih =>
    by_cases hk : k' = e.1
    · simp [lookup, hk]
    · simp [lookup, hk, ih]

theorem get?_map (m : OrdMap κ α) (f : α → α) (k : κ) : (m.map f).get? k = (m.get? k).map f := by
  simp only [get?, map]
  induction m.entries with
  | nil => rfl
  | cons e rest ih => by_cases hk : k = e.1 <;> simp [lookup, hk, ih]

variable [LawfulEqOrd κ]

theorem get?_eq_some_iff {m : OrdMap κ α} {k : κ} {v : α} : m.get? k = some v ↔ (k, v) ∈ m.entries :=
  lookup_eq_some_iff m.sorted

theorem mem_values {m : OrdMap κ α} {v : α} : v ∈ m.values ↔ ∃ k, m.get? k = some v := by
  simp only [values, List.mem_map, get?_eq_some_iff]
  exact ⟨fun ⟨e, he, hv⟩ => ⟨e.1, hv ▸ he⟩, fun ⟨k, hk⟩ => ⟨_, hk, rfl⟩⟩

theorem get?_insert [TransOrd κ] (m : OrdMap κ α) (k k' : κ) (v : α) :
    (m.insert k v).get? k' = if k' = k then some v else m.get? k' :=
  lookup_insertList k k' v m.entries

/-- Two maps with the same lookups are the same map. -/
theorem ext_get? [TransOrd κ] {m m' : OrdMap κ α} (h : ∀ k, m.get? k = m'.get? k) : m = m' := by
  have hmem : ∀ e, e ∈ m.entries ↔ e ∈ m'.entries := fun e => by
    rw [← get?_eq_some_iff, ← get?_eq_some_iff, h]
  have nodup : ∀ m : OrdMap κ α, m.entries.Nodup := fun m =>
    m.sorted.imp fun {a b} hab heq => by subst heq; simp at hab
  have hp : m.entries.Perm m'.entries := (List.perm_ext_iff_of_nodup (nodup m) (nodup m')).2 hmem
  have asymm : ∀ a b : κ × α, compare a.1 b.1 = .lt → compare b.1 a.1 = .lt → a = b :=
    fun _ _ hab hba => (OrientedCmp.not_lt_of_lt hab hba).elim
  have heq : m.entries = m'.entries :=
    hp.eq_of_pairwise (fun a b _ _ => asymm a b) m.sorted m'.sorted
  cases m; cases m'; cases heq; rfl

/-! ### What a walk leaves behind -/

/-- The accumulator `walk` has when it reaches key `k`. -/
def accAt (f : σ → α → σ × α) (k : κ) : σ → List (κ × α) → σ
  | s, [] => s
  | s, e :: rest => if k = e.1 then s else accAt f k (f s e.2).1 rest

/-- The loop body that rewrites the values `p` selects and collects them as rewritten. -/
def collect (p : α → Bool) (g : List α → α → α) (acc : List α) (v : α) : List α × α :=
  if p v then (acc ++ [g acc v], g acc v) else (acc, v)

omit [Ord κ] [LawfulEqOrd κ] in
theorem lookup_walkList (f : σ → α → σ × α) (k : κ) (s : σ) (l : List (κ × α)) :
    lookup k (walkList f s l).2 = (lookup k l).map fun v => (f (accAt f k s l) v).2 := by
  induction l generalizing s with
  | nil => rfl
  | cons e rest ih =>
    by_cases hk : k = e.1
    · simp [walkList, lookup, accAt, hk]
    · simp [walkList, lookup, accAt, hk, ih]

omit [LawfulEqOrd κ] in
theorem get?_walk (f : σ → α → σ × α) (s : σ) (m : OrdMap κ α) (k : κ) :
    (m.walk f s).2.get? k = (m.get? k).map fun v => (f (accAt f k s m.entries) v).2 :=
  lookup_walkList f k s m.entries

omit [LawfulEqOrd κ] in
theorem walkList_collect [ReflOrd κ] (p : α → Bool) (g : List α → α → α) (acc : List α)
    {l : List (κ × α)} (h : l.Pairwise fun a b => compare a.1 b.1 = .lt) :
    (walkList (collect p g) acc l).1 =
      acc ++ (l.filter fun e => p e.2).map fun e => g (accAt (collect p g) e.1 acc l) e.2 := by
  induction l generalizing acc with
  | nil => simp [walkList]
  | cons e rest ih =>
    obtain ⟨he, hrest⟩ := List.pairwise_cons.1 h
    -- keys are distinct, so the rest of the walk is the walk of the rest
    have hacc : ∀ e' ∈ rest, accAt (collect p g) e'.1 acc (e :: rest) =
        accAt (collect p g) e'.1 (collect p g acc e.2).1 rest := fun e' he' => by
      have hne : e'.1 ≠ e.1 := fun hk => by simpa [hk] using he e' he'
      rw [accAt, if_neg hne]
    have hmap := List.map_congr_left (l := rest.filter fun e => p e.2) fun e' he' =>
      congrArg (g · e'.2) (hacc e' (List.mem_filter.1 he').1)
    rw [walkList, ih _ hrest]
    have hself : accAt (collect p g) e.1 acc (e :: rest) = acc := if_pos rfl
    cases hp : p e.2 with
    | true => simp only [List.filter_cons, hp, if_true, List.map_cons, hmap, hself]; simp [collect, hp]
    | false =>
      simp only [List.filter_cons, hp, Bool.false_eq_true, if_false, hmap]; simp [collect, hp]

omit [Ord κ] [DecidableEq κ] [LawfulEqOrd κ] in
/-- What is collected is appended, and written from what was collected before it. -/
theorem getElem?_walkList_collect (p : α → Bool) (g : List α → α → α) (acc : List α) (l : List (κ × α)) :
    (walkList (collect p g) acc l).1.take acc.length = acc ∧
      ∀ n w, acc.length ≤ n → (walkList (collect p g) acc l).1[n]? = some w →
        ∃ v, w = g ((walkList (collect p g) acc l).1.take n) v := by
  induction l generalizing acc with
  | nil =>
    refine ⟨List.take_length, fun n w hn hw => ?_⟩
    have hnone : acc[n]? = none := List.getElem?_eq_none hn
    cases hnone.symm.trans hw
  | cons e rest ih =>
    cases hp : p e.2 with
    | false =>
      have hstep : walkList (collect p g) acc (e :: rest) =
          ((walkList (collect p g) acc rest).1, (e.1, e.2) :: (walkList (collect p g) acc rest).2) := by
        simp [walkList, collect, hp]
      rw [hstep]
      exact ih acc
    | true =>
      have hfst : (walkList (collect p g) acc (e :: rest)).1 = (walkList (collect p g) (acc ++ [g acc e.2]) rest).1 := by
        simp [walkList, collect, hp]
      obtain ⟨htake, hrest⟩ := ih (acc ++ [g acc e.2])
      rw [List.length_append, List.length_singleton] at htake hrest
      have hacc : (walkList (collect p g) (acc ++ [g acc e.2]) rest).1.take acc.length = acc := by
        have := congrArg (List.take acc.length) htake
        rwa [List.take_take, Nat.min_eq_left (Nat.le_succ _), List.take_left] at this
      rw [hfst]
      refine ⟨hacc, fun n w hn hw => ?_⟩
      rcases Nat.lt_or_eq_of_le hn with hlt | rfl
      · exact hrest n w hlt hw
      · refine ⟨e.2, ?_⟩
        have hlast := congrArg (fun l => l[acc.length]?) htake
        simp only [List.getElem?_take_of_lt (Nat.lt_succ_self _), List.getElem?_concat_length] at hlast
        rw [hacc]
        exact Option.some.inj (hw.symm.trans hlast)

/-- A collecting walk, when what it writes for a value is the function `f` of the value. -/
theorem walk_collect [TransOrd κ] {p : α → Bool} {g : List α → α → α} {f : α → α} {m : OrdMap κ α}
    (hf : ∀ e ∈ m.entries, g (accAt (collect p g) e.1 [] m.entries) e.2 = f e.2) :
    m.walk (collect p g) [] = ((m.values.filter p).map f, m.map fun v => if p v then f v else v) := by
  refine Prod.ext ?_ (ext_get? fun k => ?_)
  · simp only [walk, walkList_collect p g [] m.sorted, List.nil_append, values, List.filter_map, List.map_map]
    exact List.map_congr_left fun e he => hf e (List.mem_filter.1 he).1
  · rw [get?_walk, get?_map]
    refine Option.map_congr fun v hv => ?_
    have hkv := hf (k, v) (get?_eq_some_iff.1 hv)
    unfold collect; split
    · exact hkv
    · rfl

/-- Values that can only stand at one key are looked up there. -/
theorem filter_values_of_key {p : α → Bool} {k : κ} {m : OrdMap κ α}
    (h : ∀ e ∈ m.entries, p e.2 = true → e.1 = k) : m.values.filter p = ((m.get? k).filter p).toList := by
  have key : ∀ l : List (κ × α), (l.Pairwise fun a b => compare a.1 b.1 = .lt) →
      (∀ e ∈ l, p e.2 = true → e.1 = k) → (l.map Prod.snd).filter p = ((lookup k l).filter p).toList := by
    intro l hl h
    induction l with
    | nil => rfl
    | cons e rest ih =>
      obtain ⟨he, hrest⟩ := List.pairwise_cons.1 hl
      by_cases hk : k = e.1
      · have hnone : (rest.map Prod.snd).filter p = [] := by
          refine List.filter_eq_nil_iff.2 fun v hv hp => ?_
          obtain ⟨e', he', rfl⟩ := List.mem_map.1 hv
          simpa [h e' (List.mem_cons_of_mem _ he') hp, hk] using he e' he'
        rw [List.map_cons, List.filter_cons, hnone, lookup, if_pos hk]
        cases hp : p e.2 <;> simp [hp, Option.filter]
      · have hp : ¬ p e.2 = true := fun hp => hk (h e (List.mem_cons_self ..) hp).symm
        rw [List.map_cons, List.filter_cons_of_neg hp, lookup, if_neg hk,
          ih hrest fun e' he' => h e' (List.mem_cons_of_mem _ he')]
  exact key m.entries m.sorted h

end OrdMap
