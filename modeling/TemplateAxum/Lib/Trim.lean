import Mathlib.Data.List.DropRight

/-!
# Trimming

A list without the elements at its two ends that a predicate holds of. A list is trimmed in one way only:
whatever precedes and follows a trimmed part and is trimmed away, what is left is that part.
-/

namespace Trim

variable {α : Type} {p : α → Bool} {x a m b : List α} {c : α}

def trim (p : α → Bool) (x : List α) : List α := (x.dropWhile p).rdropWhile p

/-- Nothing is trimmed off. -/
structure Trimmed (p : α → Bool) (x : List α) : Prop where
  head : ∀ c ∈ x.head?, p c = false
  last : ∀ c ∈ x.getLast?, p c = false

theorem trimmed_nil : Trimmed p [] where
  head _ h := by cases h
  last _ h := by cases h

theorem trim_eq_of_trimmed (ha : ∀ c ∈ a, p c = true) (hm : Trimmed p m) (hb : ∀ c ∈ b, p c = true) :
    trim p (a ++ (m ++ b)) = m := by
  rw [trim, List.dropWhile_append_of_pos ha]
  cases m with
  | nil =>
    rw [List.nil_append, List.dropWhile_eq_nil_iff.2 hb]
    rfl
  | cons c m =>
    have hc : p c = false := hm.head c rfl
    have hend : (c :: m).rdropWhile p = c :: m := by
      refine List.rdropWhile_eq_self_iff.2 fun hne => ?_
      rw [hm.last _ (List.getLast?_eq_getLast_of_ne_nil hne)]
      decide
    rw [List.cons_append, List.dropWhile_cons_of_neg (by simp [hc]), ← List.cons_append, List.rdropWhile,
      List.reverse_append, List.dropWhile_append_of_pos fun c hc => hb c (List.mem_reverse.1 hc)]
    exact hend

theorem trimmed_trim (p : α → Bool) (x : List α) : Trimmed p (trim p x) where
  head c hc := by
    have hprefix : trim p x <+: x.dropWhile p := List.rdropWhile_prefix _ _
    obtain ⟨rest, hrest⟩ := hprefix
    cases htrim : trim p x with
    | nil => rw [htrim] at hc; cases hc
    | cons d front =>
      rw [htrim] at hc hrest
      cases hc
      have := List.head?_dropWhile_not p x
      rw [← hrest] at this
      simpa using this
  last c hc := by
    have := List.head?_dropWhile_not p (x.dropWhile p).reverse
    rw [trim, List.rdropWhile, List.getLast?_reverse] at hc
    rw [Option.mem_def.1 hc] at this
    simpa using this

/-- What is trimmed off. -/
theorem exists_eq (p : α → Bool) (x : List α) :
    ∃ a b, x = a ++ (trim p x ++ b) ∧ (∀ c ∈ a, p c = true) ∧ ∀ c ∈ b, p c = true := by
  refine ⟨x.takeWhile p, (x.dropWhile p).rtakeWhile p, ?_, fun c hc => List.mem_takeWhile_imp hc, fun c hc => ?_⟩
  · rw [trim, List.rdropWhile_append_rtakeWhile, List.takeWhile_append_dropWhile]
  · exact List.mem_rtakeWhile_imp hc

theorem mem_of_mem_trim (h : c ∈ trim p x) : c ∈ x := by
  obtain ⟨a, b, hx, -, -⟩ := exists_eq p x
  rw [hx]
  exact List.mem_append_right _ (List.mem_append_left _ h)

theorem trim_eq_self : Trimmed p x → trim p x = x := fun h => by
  have := trim_eq_of_trimmed (p := p) (a := []) (b := []) (by simp) h (by simp)
  simpa using this

theorem trim_trim : trim p (trim p x) = trim p x := trim_eq_self (trimmed_trim p x)

/-- What precedes and is trimmed away does not matter. -/
theorem trim_append (ha : ∀ c ∈ a, p c = true) (x : List α) : trim p (a ++ x) = trim p x := by
  rw [trim, trim, List.dropWhile_append_of_pos ha]

/-- What stays of a text is trimmed for `q` too just when trimming by both leaves the same. -/
theorem trim_or {q : α → Bool} (h : Trimmed q (trim p x)) : trim (fun c => p c || q c) x = trim p x := by
  obtain ⟨a, b, hx, ha, hb⟩ := exists_eq p x
  have htrimmed : Trimmed (fun c => p c || q c) (trim p x) :=
    ⟨fun c hc => by rw [(trimmed_trim p x).head c hc, h.head c hc]; rfl,
      fun c hc => by rw [(trimmed_trim p x).last c hc, h.last c hc]; rfl⟩
  have hsplit := trim_eq_of_trimmed (fun c hc => by rw [ha c hc]; rfl) htrimmed (fun c hc => by rw [hb c hc]; rfl)
  rwa [← hx] at hsplit

/-- A text trimmed in two ways to texts that each way leaves alone. -/
theorem trim_eq_trim {q : α → Bool} (hq : Trimmed q (trim p x)) (hp : Trimmed p (trim q x)) : trim p x = trim q x := by
  have hunion : (fun c => p c || q c) = fun c => q c || p c := funext fun c => Bool.or_comm _ _
  calc trim p x = trim (fun c => p c || q c) x := (trim_or hq).symm
    _ = trim (fun c => q c || p c) x := by rw [hunion]
    _ = trim q x := trim_or hp

/-! ### Trimmed parts -/

/-- The parts that are not blank, trimmed. -/
def kept (p : α → Bool) (parts : List (List α)) : List (List α) := (parts.map (trim p)).filter fun part => !part.isEmpty

theorem trimmed_of_kept {q : α → Bool} {parts : List (List α)} (h : kept p parts = kept q parts) (hx : x ∈ parts) :
    Trimmed q (trim p x) := by
  by_cases hne : trim p x = []
  · rw [hne]
    exact trimmed_nil
  · have hmem : trim p x ∈ kept p parts := List.mem_filter.2 ⟨List.mem_map_of_mem hx, by simpa using hne⟩
    rw [h] at hmem
    obtain ⟨other, -, hother⟩ := List.mem_map.1 (List.mem_of_mem_filter hmem)
    rw [← hother]
    exact trimmed_trim _ _

/-- Two ways to trim keep the same of a list of parts just when they trim every part alike. -/
theorem kept_eq_iff {q : α → Bool} {parts : List (List α)} : kept p parts = kept q parts ↔ ∀ x ∈ parts, trim p x = trim q x := by
  constructor
  · exact fun h x hx => trim_eq_trim (trimmed_of_kept h hx) (trimmed_of_kept h.symm hx)
  · intro h
    rw [kept, kept, List.map_congr_left h]

theorem trim_eq_nil_iff : trim p x = [] ↔ ∀ c ∈ x, p c = true := by
  constructor
  · intro h
    obtain ⟨a, b, hx, ha, hb⟩ := exists_eq p x
    rw [h, List.nil_append] at hx
    intro c hc
    rw [hx] at hc
    exact (List.mem_append.1 hc).elim (ha c) (hb c)
  · intro h
    rw [trim, List.dropWhile_eq_nil_iff.2 h]
    rfl

end Trim
