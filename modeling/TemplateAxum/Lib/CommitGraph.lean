import Mathlib.Logic.Relation

/-!
# Commits

A graph of commits, each with its parents and its tree. `Within` relates two commits whose trees differ only as a
condition on paths and entries has it, `MergeBase` is a best common ancestor.
-/

open Relation

/-- Commits of type `γ`, whose trees hold an entry at some of the paths. -/
structure CommitGraph (γ π ε : Type) where
  parents : γ → List γ
  tree : γ → π → Option ε

namespace CommitGraph

variable {γ π ε : Type} (g : CommitGraph γ π ε) {a b c d m t h : γ} {ok ok' : π → Option ε → Prop}

def Ancestor : γ → γ → Prop := ReflTransGen fun a b => a ∈ g.parents b

/-- Commits one on another, each with the one before as its only parent. -/
def Linear : γ → γ → Prop := ReflTransGen fun a b => g.parents b = [a]

/-- What differs is as `ok` has it in the later commit. -/
def Within (ok : π → Option ε → Prop) (a b : γ) : Prop := ∀ p, g.tree a p ≠ g.tree b p → ok p (g.tree b p)

structure MergeBase (m a b : γ) : Prop where
  left : g.Ancestor m a
  right : g.Ancestor m b
  best : ∀ c, g.Ancestor c a → g.Ancestor c b → g.Ancestor m c → c = m

variable {g}

theorem Ancestor.refl (a : γ) : g.Ancestor a a := ReflTransGen.refl

theorem Ancestor.trans (hab : g.Ancestor a b) (hbc : g.Ancestor b c) : g.Ancestor a c := ReflTransGen.trans hab hbc

theorem Linear.refl (a : γ) : g.Linear a a := ReflTransGen.refl

theorem Linear.trans (hab : g.Linear a b) (hbc : g.Linear b c) : g.Linear a c := ReflTransGen.trans hab hbc

theorem Linear.ancestor (hab : g.Linear a b) : g.Ancestor a b :=
  ReflTransGen.mono (fun a b h => by rw [h]; exact List.mem_singleton_self a) a b hab

theorem Within.refl (a : γ) : g.Within ok a a := fun _ h => absurd rfl h

theorem Within.trans (hab : g.Within ok a b) (hbc : g.Within ok b c) : g.Within ok a c := by
  intro p hp
  by_cases hsame : g.tree b p = g.tree c p
  · rw [← hsame] at hp ⊢
    exact hab p hp
  · exact hbc p hsame

theorem Within.mono (hab : g.Within ok a b) (h : ∀ p e, ok p e → ok' p e) : g.Within ok' a b :=
  fun p hp => h _ _ (hab p hp)

/-- What comes before a commit on a line comes before its foot or lies on the line. -/
theorem Linear.ancestor_cases (hline : g.Linear d t) (hc : g.Ancestor c t) :
    g.Ancestor c d ∨ g.Ancestor d c ∧ c ≠ d := by
  induction hline with
  | refl => exact .inl hc
  | @tail b t hdb hbt ih =>
    rcases ReflTransGen.cases_tail hc with rfl | ⟨b', hcb', hmem⟩
    · by_cases h : t = d
      · subst h
        exact .inl (.refl _)
      · exact .inr ⟨(Linear.ancestor hdb).trans (Linear.ancestor (.single hbt)), h⟩
    · rw [hbt] at hmem
      rw [List.mem_singleton.1 hmem] at hcb'
      exact ih hcb'

/-- A line that stands on another branch meets it at its foot, or above it, where a commit of the line has been merged. -/
theorem MergeBase.foot_or (hm : g.MergeBase m t h) (hline : g.Linear d t) (hd : g.Ancestor d h) :
    m = d ∨ m ≠ d ∧ g.Ancestor d m := by
  rcases hline.ancestor_cases hm.left with hmd | ⟨hdm, hne⟩
  · exact .inl (hm.best d hline.ancestor hd hmd).symm
  · exact .inr ⟨hne, hdm⟩

end CommitGraph
