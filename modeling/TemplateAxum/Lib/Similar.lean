import TemplateAxum.Lib.Pool
import Mathlib.Data.List.Forall2

/-!
# Programs that make the same calls

`Similar R E p p'`: given the same answers, `p` and `p'` make the same calls and end alike, up to `R`
on values and `E` on early stops. In a pool a program can be replaced by a similar one: the run is
mirrored step by step, over the same shared states.
-/

open Prog

variable {Op : Type} {Ans : Op → Type} {ε ε' ε₁ ε₁' α α' β β' : Type}

namespace Prog

inductive Similar (R : α → α' → Prop) (E : ε → ε' → Prop) : Prog Op Ans ε α → Prog Op Ans ε' α' → Prop
  | ret {a : α} {a' : α'} : R a a' → Similar R E (.ret a) (.ret a')
  | raise {e : ε} {e' : ε'} : E e e' → Similar R E (.raise e) (.raise e')
  | call {op : Op} {k : Ans op → Prog Op Ans ε α} {k' : Ans op → Prog Op Ans ε' α'} :
      (∀ answer, Similar R E (k answer) (k' answer)) → Similar R E (.call op k) (.call op k')

inductive EndsAlike (R : α → α' → Prop) (E : ε → ε' → Prop) : Except ε α → Except ε' α' → Prop
  | ok {a : α} {a' : α'} : R a a' → EndsAlike R E (.ok a) (.ok a')
  | error {e : ε} {e' : ε'} : E e e' → EndsAlike R E (.error e) (.error e')

namespace Similar

variable {R : α → α' → Prop} {E : ε → ε' → Prop} {p : Prog Op Ans ε α} {p' : Prog Op Ans ε' α'}

theorem refl {R : α → α → Prop} {E : ε → ε → Prop} (hR : ∀ a, R a a) (hE : ∀ e, E e e) (p : Prog Op Ans ε α) :
    Similar R E p p := by
  induction p with
  | ret a => exact .ret (hR a)
  | raise e => exact .raise (hE e)
  | call op k ih => exact .call ih

theorem bind {S : β → β' → Prop} {f : α → Prog Op Ans ε β} {f' : α' → Prog Op Ans ε' β'} (h : Similar R E p p')
    (hf : ∀ a a', R a a' → Similar S E (f a) (f' a')) : Similar S E (p >>= f) (p' >>= f') := by
  induction h with
  | ret hR => exact hf _ _ hR
  | raise hE => exact .raise hE
  | call _ ih => exact .call ih

/-- After the same program. -/
theorem bind_same {S : β → β' → Prop} (p : Prog Op Ans ε α) {f : α → Prog Op Ans ε β} {f' : α → Prog Op Ans ε β'}
    (hf : ∀ a, Similar S Eq (f a) (f' a)) : Similar S Eq (p >>= f) (p >>= f') :=
  (refl (R := Eq) (fun _ => rfl) (fun _ => rfl) p).bind fun a _ haa' => haa' ▸ hf a

theorem mapError {E₁ : ε₁ → ε₁' → Prop} {f : ε → ε₁} {f' : ε' → ε₁'} (h : Similar R E p p')
    (hf : ∀ e e', E e e' → E₁ (f e) (f' e')) : Similar R E₁ (p.mapError f) (p'.mapError f') := by
  induction h with
  | ret hR => exact .ret hR
  | raise hE => exact .raise (hf _ _ hE)
  | call _ ih => exact .call ih

/-- Both endings become values. -/
theorem attempt {E₁ : ε₁ → ε₁' → Prop} (h : Similar R E p p') : Similar (EndsAlike R E) E₁ p.attempt p'.attempt := by
  induction h with
  | ret hR => exact .ret (.ok hR)
  | raise hE => exact .ret (.error hE)
  | call _ ih => exact .call ih

theorem symm {S : α' → α → Prop} {F : ε' → ε → Prop} (h : Similar R E p p') (hS : ∀ a a', R a a' → S a' a)
    (hF : ∀ e e', E e e' → F e' e) : Similar S F p' p := by
  induction h with
  | ret hR => exact .ret (hS _ _ hR)
  | raise hE => exact .raise (hF _ _ hE)
  | call _ ih => exact .call ih

/-- The same calls with the same answers lead to like endings. -/
theorem returns (h : Similar R E p p') {seg : History Op Ans} {r : Except ε α} (hr : p.Returns seg r) :
    ∃ r', p'.Returns seg r' ∧ EndsAlike R E r r' := by
  induction h generalizing seg with
  | ret hR =>
    cases hr
    exact ⟨_, .ret _, .ok hR⟩
  | raise hE =>
    cases hr
    exact ⟨_, .raise _, .error hE⟩
  | call _ ih =>
    cases hr with
    | call hr =>
      rcases ih _ hr with ⟨r', hr', hends⟩
      exact ⟨r', .call hr', hends⟩

end Similar
end Prog

/-! ### Pools -/

namespace Pool

variable {σ ρ : Type} {answers : σ → (op : Op) → Ans op → σ → Prop} {handle : ρ → Prog Op Ans ε α}

/-- A job and its replacement, at its place in the order of arrival. -/
structure JobMirrors (swap : Nat → ρ → ρ) (R : α → α → Prop) (E : ε → ε → Prop) (i : Nat) (job job' : Job ρ Op Ans ε α) :
    Prop where
  request : job'.request = swap i job.request
  history : job'.history = job.history
  prog : Similar R E job.prog job'.prog

/-- The same shared state, and at each place a replacement. -/
structure Mirrors (swap : Nat → ρ → ρ) (R : α → α → Prop) (E : ε → ε → Prop) (s s' : Pool σ ρ Op Ans ε α) : Prop where
  shared : s'.shared = s.shared
  length : s'.jobs.length = s.jobs.length
  jobs : ∀ (i : Nat) (job job' : Job ρ Op Ans ε α), s.jobs[i]? = some job → s'.jobs[i]? = some job' →
    JobMirrors swap R E i job job'

variable {swap : Nat → ρ → ρ} {R : α → α → Prop} {E : ε → ε → Prop} {s s' t : Pool σ ρ Op Ans ε α}

theorem Mirrors.step (hswap : ∀ i request, Similar R E (handle request) (handle (swap i request)))
    (h : Mirrors swap R E s s') (hstep : Step answers handle s t) :
    ∃ t', Step answers handle s' t' ∧ Mirrors swap R E t t' := by
  cases hstep with
  | arrive request =>
    refine ⟨_, .arrive s' (swap s.jobs.length request), h.shared, by simp [h.length], fun i job job' hjob hjob' => ?_⟩
    rw [List.getElem?_append] at hjob hjob'
    by_cases hi : i < s.jobs.length
    · rw [if_pos hi] at hjob
      rw [if_pos (h.length ▸ hi)] at hjob'
      exact h.jobs i job job' hjob hjob'
    · rw [if_neg hi, List.getElem?_singleton] at hjob
      rw [if_neg (h.length ▸ hi), List.getElem?_singleton] at hjob'
      split at hjob
      · rename_i hzero
        obtain rfl : i = s.jobs.length := by omega
        rw [h.length, if_pos hzero] at hjob'
        cases hjob
        cases hjob'
        exact ⟨rfl, rfl, hswap _ _⟩
      · cases hjob
  | @call i job op k answer shared hjob hprog hans =>
    have hlt := (List.getElem?_eq_some_iff.1 hjob).1
    obtain ⟨job', hjob'⟩ : ∃ job', s'.jobs[i]? = some job' := ⟨_, List.getElem?_eq_getElem (h.length ▸ hlt)⟩
    obtain ⟨hrequest, hhistory, hsimilar⟩ := h.jobs i job job' hjob hjob'
    rw [hprog] at hsimilar
    obtain ⟨request', history', prog'⟩ := job'
    cases hsimilar with
    | @call op k k' hk =>
      refine ⟨_, .call hjob' rfl (h.shared ▸ hans), rfl, by simp [h.length], fun j next next' hnext hnext' => ?_⟩
      by_cases hij : i = j
      · subst hij
        rw [List.getElem?_set_self hlt] at hnext
        rw [List.getElem?_set_self (h.length ▸ hlt)] at hnext'
        cases hnext
        cases hnext'
        exact ⟨hrequest, congrArg (· ++ [⟨op, answer⟩]) hhistory, hk answer⟩
      · rw [List.getElem?_set_ne hij] at hnext hnext'
        exact h.jobs j next next' hnext hnext'

/-- Any run is mirrored, state by state. -/
theorem mirrored {init : Pool σ ρ Op Ans ε α → Prop}
    (hswap : ∀ i request, Similar R E (handle request) (handle (swap i request))) (h0 : ∀ s, init s → s.jobs = [])
    {trace : List (Pool σ ρ Op Ans ε α)} (h : Trace init (Step answers handle) trace) :
    ∃ trace', Trace init (Step answers handle) trace' ∧ List.Forall₂ (Mirrors swap R E) trace trace' := by
  induction h with
  | @start s hinit =>
    refine ⟨[s], .start hinit, .cons ⟨rfl, rfl, fun i job job' hjob => ?_⟩ .nil⟩
    rw [h0 s hinit] at hjob
    cases hjob
  | next _ hstep ih =>
    rcases ih with ⟨trace', htrace', hmirrors⟩
    cases hmirrors with
    | cons hhead htail =>
      rcases hhead.step hswap hstep with ⟨t', hstep', hmirror⟩
      exact ⟨_, htrace'.next hstep', .cons hmirror (.cons hhead htail)⟩

end Pool
