import TemplateAxum.Lib.StableSort
import Mathlib.Data.List.Infix

/-!
# The SQL a store relies on

Three-valued truth with its `WHERE` reading, `LIKE` patterns, the two directions of `ORDER BY` with
the default placement of `NULL`, and the answers a sorted and paged `SELECT` is allowed to give.
-/

open Std StableSort

namespace Sql

/-! ### Three-valued truth -/

/-- A truth value; `none` is UNKNOWN. -/
abbrev Truth := Option Bool

namespace Truth

def and : Truth → Truth → Truth
  | some false, _ => some false
  | _, some false => some false
  | some true, some true => some true
  | _, _ => none

def or : Truth → Truth → Truth
  | some true, _ => some true
  | _, some true => some true
  | some false, some false => some false
  | _, _ => none

def all (truths : List Truth) : Truth := truths.foldr and (some true)

def any (truths : List Truth) : Truth := truths.foldr or (some false)

/-- A `WHERE` clause keeps a row only when it is TRUE. -/
def holds (t : Truth) : Bool := t == some true

@[simp] theorem holds_some (b : Bool) : holds (some b) = b := by cases b <;> rfl

@[simp] theorem holds_none : holds none = false := rfl

theorem holds_and (s t : Truth) : (and s t).holds = (s.holds && t.holds) := by
  rcases s with _ | _ | _ <;> rcases t with _ | _ | _ <;> rfl

theorem holds_or (s t : Truth) : (or s t).holds = (s.holds || t.holds) := by
  rcases s with _ | _ | _ <;> rcases t with _ | _ | _ <;> rfl

theorem holds_all (truths : List Truth) : (all truths).holds = truths.all holds := by
  induction truths with
  | nil => rfl
  | cons t rest ih => rw [List.all_cons, ← ih, ← holds_and]; rfl

theorem holds_any (truths : List Truth) : (any truths).holds = truths.any holds := by
  induction truths with
  | nil => rfl
  | cons t rest ih => rw [List.any_cons, ← ih, ← holds_or]; rfl

end Truth

/-! ### LIKE -/

/-- A piece of a `LIKE` pattern: `%`, `_`, or one literal character. -/
inductive Token
  | any
  | one
  | lit (c : Char)
deriving DecidableEq

/-- Reads a pattern, with the default escape character. A pattern may not end in that character;
this one takes such an ending literally. -/
def tokens : List Char → List Token
  | [] => []
  | ['\\'] => [.lit '\\']
  | '\\' :: c :: rest => .lit c :: tokens rest
  | c :: rest => (if c = '%' then .any else if c = '_' then .one else .lit c) :: tokens rest

def matchTokens : List Token → List Char → Bool
  | [], text => text.isEmpty
  | .any :: rest, text => text.tails.any (matchTokens rest)
  | .one :: rest, text =>
    match text with
    | [] => false
    | _ :: text => matchTokens rest text
  | .lit c :: rest, text =>
    match text with
    | [] => false
    | d :: text => c == d && matchTokens rest text

/-- `text LIKE pattern`. -/
def like (pattern text : String) : Bool := matchTokens (tokens pattern.toList) text.toList

/-- The characters a pattern does not read literally. -/
def isMeta (c : Char) : Bool := c == '%' || c == '_' || c == '\\'

theorem tokens_cons_of_ne {c : Char} (hc : c ≠ '\\') (rest : List Char) :
    tokens (c :: rest) =
      (if c = '%' then .any else if c = '_' then .one else .lit c) :: tokens rest := by
  rw [tokens]
  · rintro rfl; exact absurd rfl hc
  · rintro d rest' rfl; exact absurd rfl hc

theorem tokens_append_of_literal {literal : List Char} (h : ∀ c ∈ literal, isMeta c = false)
    (rest : List Char) : tokens (literal ++ rest) = literal.map .lit ++ tokens rest := by
  induction literal with
  | nil => rfl
  | cons c literal ih =>
    have hc := h c (List.mem_cons_self ..)
    simp only [isMeta, Bool.or_eq_false_iff, beq_eq_false_iff_ne] at hc
    rw [List.cons_append, tokens_cons_of_ne hc.2, if_neg hc.1.1, if_neg hc.1.2,
      ih fun d hd => h d (List.mem_cons_of_mem _ hd)]
    rfl

theorem matchTokens_any {rest : List Token} {text : List Char} :
    matchTokens (.any :: rest) text = true ↔ ∃ suffix, suffix <:+ text ∧ matchTokens rest suffix = true := by
  simp [matchTokens]

theorem matchTokens_literal {literal : List Char} {rest : List Token} {text : List Char} :
    matchTokens (literal.map .lit ++ rest) text = true ↔
      ∃ tail, text = literal ++ tail ∧ matchTokens rest tail = true := by
  induction literal generalizing text with
  | nil => simp
  | cons c literal ih =>
    cases text with
    | nil => simp [matchTokens]
    | cons d text =>
      simp only [List.map_cons, List.cons_append, matchTokens, Bool.and_eq_true, beq_iff_eq, ih,
        List.cons.injEq]
      exact ⟨fun ⟨hcd, tail, ht, hm⟩ => ⟨tail, ⟨hcd.symm, ht⟩, hm⟩,
        fun ⟨tail, ⟨hcd, ht⟩, hm⟩ => ⟨hcd.symm, tail, ht, hm⟩⟩

/-- A pattern `%s%` of a literal `s` is the substring test. -/
theorem matchTokens_contains {literal : List Char} (h : ∀ c ∈ literal, isMeta c = false) (text : List Char) :
    matchTokens (tokens ('%' :: (literal ++ ['%']))) text = true ↔ literal <:+: text := by
  have htokens : tokens ('%' :: (literal ++ ['%'])) = .any :: (literal.map .lit ++ [.any]) := by
    rw [tokens_cons_of_ne (by decide), tokens_append_of_literal h]; rfl
  rw [htokens, matchTokens_any]
  simp only [matchTokens_literal]
  constructor
  · rintro ⟨suffix, ⟨front, rfl⟩, tail, rfl, -⟩
    exact ⟨front, tail, by simp⟩
  · rintro ⟨front, tail, rfl⟩
    exact ⟨literal ++ tail, ⟨front, by simp⟩, tail, rfl, matchTokens_any.2 ⟨[], List.nil_suffix, rfl⟩⟩

/-! The least text a pattern matches. -/

/-- A text for a sequence of tokens: nothing for `%`, an `a` for `_`. -/
def leastText : List Token → List Char
  | [] => []
  | .any :: rest => leastText rest
  | .one :: rest => 'a' :: leastText rest
  | .lit c :: rest => c :: leastText rest

theorem matchTokens_leastText (pattern : List Token) : matchTokens pattern (leastText pattern) = true := by
  induction pattern with
  | nil => rfl
  | cons t rest ih =>
    cases t with
    | any => exact matchTokens_any.2 ⟨_, List.suffix_refl _, ih⟩
    | one => exact ih
    | lit c => simp [leastText, matchTokens, ih]

/-- The least text of `s%` is no longer than `s`, and it is `s` only when `s` is literal. -/
theorem leastText_append_percent (s : List Char) :
    (leastText (tokens (s ++ ['%']))).length ≤ s.length ∧
      (leastText (tokens (s ++ ['%'])) = s → ∀ c ∈ s, isMeta c = false) := by
  induction s using tokens.induct with
  | case1 => simp [tokens, leastText]
  | case2 => exact ⟨by decide, fun h => absurd h (by decide)⟩
  | case3 c rest ih =>
    have heq : leastText (tokens ('\\' :: c :: rest ++ ['%'])) = c :: leastText (tokens (rest ++ ['%'])) := by
      simp [tokens, leastText]
    rw [heq]
    refine ⟨by simp only [List.length_cons]; omega, fun h => ?_⟩
    have := congrArg List.length h
    simp only [List.length_cons] at this
    omega
  | case4 c rest h₁ h₂ ih =>
    have hc : c ≠ '\\' := by
      rintro rfl
      cases rest with
      | nil => exact h₁ rfl rfl
      | cons d rest => exact h₂ d rest rfl rfl
    rw [List.cons_append, tokens_cons_of_ne hc]
    split
    · refine ⟨by simp only [leastText, List.length_cons]; omega, fun h => ?_⟩
      have := congrArg List.length h
      simp only [leastText, List.length_cons] at this
      omega
    · split
      · rename_i hc'
        refine ⟨by simp only [leastText, List.length_cons]; omega, fun h => ?_⟩
        have := (List.cons.inj h).1
        rw [hc'] at this
        exact absurd this (by decide)
      · rename_i hp hu
        refine ⟨by simp only [leastText, List.length_cons]; omega, fun h => ?_⟩
        have hrest := ih.2 (List.cons.inj h).2
        intro d hd
        rcases List.mem_cons.1 hd with rfl | hd
        · simp [isMeta, hp, hu, hc]
        · exact hrest d hd

/-! ### ORDER BY -/

/-- `ORDER BY key ASC`: NULLS LAST. -/
def asc {α : Type} (cmp : α → α → Ordering) : Option α → Option α → Ordering
  | none, none => .eq
  | none, some _ => .gt
  | some _, none => .lt
  | some a, some b => cmp a b

/-- `ORDER BY key DESC`: NULLS FIRST. -/
def desc {α : Type} (cmp : α → α → Ordering) (a b : Option α) : Ordering := (asc cmp a b).swap

instance asc.transCmp {α : Type} (cmp : α → α → Ordering) [TransCmp cmp] : TransCmp (asc cmp) where
  eq_swap {a b} := by
    rcases a with _ | a <;> rcases b with _ | b <;> try rfl
    exact @OrientedCmp.eq_swap _ cmp _ a b
  isLE_trans {a b c} hab hbc := by
    rcases a with _ | a <;> rcases b with _ | b <;> rcases c with _ | c <;> try simp_all [asc]
    exact @TransCmp.isLE_trans _ cmp _ a b c hab hbc

variable {α : Type}

/-- An order of all rows that the `ORDER BY` allows: rows that tie may stand in any order. -/
structure Arrangement (cmp : α → α → Ordering) (rows out : List α) : Prop where
  perm : out.Perm rows
  sorted : Sorted cmp out

/-- An answer of `SELECT … ORDER BY … OFFSET … LIMIT …`: a window of some allowed order. -/
def Answer (cmp : α → α → Ordering) (offset limit : Nat) (rows answer : List α) : Prop :=
  ∃ out, Arrangement cmp rows out ∧ answer = (out.drop offset).take limit

theorem arrangement_sortBy (cmp : α → α → Ordering) [TransCmp cmp] (rows : List α) :
    Arrangement cmp rows (sortBy cmp rows) :=
  ⟨sortBy_perm cmp rows, sorted_sortBy cmp rows⟩

end Sql
