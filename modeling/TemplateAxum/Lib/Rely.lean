import TemplateAxum.Lib.Pool
import Mathlib.Logic.Function.Basic

/-!
# One program among others

A program that works on a shared state while others do. `Guards` says of it that every call is a step of its
guarantee, however the others step within what it relies on. In a `Crew` each key has at most one program running, a
later one in place of an earlier; `Crew.guarded` carries the guarantees to all interleavings.
-/

open Prog

variable {σ ρ κ Op ε ε' α β : Type} {Ans : Op → Type}

namespace Prog

section

variable (answers : σ → (op : Op) → Ans op → σ → Prop) (R G : σ → σ → Prop)

/-- While others step as `R`, every call of the program steps as `G`, and it ends as `Q` and `E` say. -/
def Guards (Q : σ → α → Prop) (E : σ → ε → Prop) : σ → Prog Op Ans ε α → Prop
  | s, .ret a => ∀ s', R s s' → Q s' a
  | s, .raise e => ∀ s', R s s' → E s' e
  | s, .call op k => ∀ s', R s s' → ∀ answer s'', answers s' op answer s'' → G s' s'' ∧ Guards Q E s'' (k answer)

end

variable {answers : σ → (op : Op) → Ans op → σ → Prop} {R G G' : σ → σ → Prop} {Q Q' : σ → α → Prop} {E E' : σ → ε → Prop}
  {s s' : σ} {p : Prog Op Ans ε α}

theorem Guards.rely (hp : p.Guards answers R G Q E s) (htrans : ∀ s s' s'', R s s' → R s' s'' → R s s'') (hs : R s s') :
    p.Guards answers R G Q E s' := by
  cases p with
  | ret a => exact fun _ h => hp _ (htrans _ _ _ hs h)
  | raise e => exact fun _ h => hp _ (htrans _ _ _ hs h)
  | call op k => exact fun _ h => hp _ (htrans _ _ _ hs h)

theorem Guards.bind {f : α → Prog Op Ans ε β} {Q' : σ → β → Prop} (hp : p.Guards answers R G Q E s) (hrefl : ∀ s, R s s)
    (hf : ∀ s a, Q s a → (f a).Guards answers R G Q' E s) : (p >>= f).Guards answers R G Q' E s := by
  show (p.bind f).Guards answers R G Q' E s
  induction p generalizing s with
  | ret a => exact hf s a (hp s (hrefl s))
  | raise e => exact hp
  | call op k ih => exact fun s' h answer s'' hans => ⟨(hp s' h answer s'' hans).1, ih answer (hp s' h answer s'' hans).2⟩

theorem Guards.mono (hp : p.Guards answers R G Q E s) (hG : ∀ s s', G s s' → G' s s') (hQ : ∀ s a, Q s a → Q' s a)
    (hE : ∀ s e, E s e → E' s e) : p.Guards answers R G' Q' E' s := by
  induction p generalizing s with
  | ret a => exact fun s' h => hQ _ _ (hp s' h)
  | raise e => exact fun s' h => hE _ _ (hp s' h)
  | call op k ih =>
    exact fun s' h answer s'' hans => ⟨hG _ _ (hp s' h answer s'' hans).1, ih answer (hp s' h answer s'' hans).2⟩

theorem Guards.attempt {Q : σ → Except ε α → Prop} {E' : σ → ε' → Prop}
    (hp : p.Guards answers R G (fun s a => Q s (.ok a)) (fun s e => Q s (.error e)) s) :
    (p.attempt : Prog Op Ans ε' _).Guards answers R G Q E' s := by
  induction p generalizing s with
  | ret a => exact hp
  | raise e => exact hp
  | call op k ih => exact fun s' h answer s'' hans => ⟨(hp s' h answer s'' hans).1, ih answer (hp s' h answer s'' hans).2⟩

/-- One call, from what holds of the state and stays so whatever the others do. -/
theorem Guards.call {P : σ → Prop} {op : Op} {k : Ans op → Prog Op Ans ε α} (hs : P s)
    (hP : ∀ s s', R s s' → P s → P s')
    (hk : ∀ s answer s', P s → answers s op answer s' → G s s' ∧ (k answer).Guards answers R G Q E s') :
    (Prog.call op k).Guards answers R G Q E s := by
  intro s' h answer s'' hans
  exact hk s' answer s'' (hP s s' h hs) hans

/-- A program that makes only calls of one kind has the guarantee of these. -/
theorem Guards.of_calls {C : Op → Prop} (hp : p.Calls C)
    (hG : ∀ s op answer s', C op → answers s op answer s' → G s s') :
    p.Guards answers R G (fun _ _ => True) (fun _ _ => True) s := by
  replace hp := hp.sat []
  generalize ([] : History Op Ans) = h at hp
  induction p generalizing s h with
  | ret a => exact fun _ _ => trivial
  | raise e => exact fun _ _ => trivial
  | call op k ih => exact fun s' _ answer s'' hans => ⟨hG _ _ _ _ hp.1 hans, ih answer _ (hp.2 answer)⟩

/-! ### Coming further -/

/-- With some answers, the program comes from a state to another, where `p'` is left of it. -/
inductive Leads (answers : σ → (op : Op) → Ans op → σ → Prop) : σ → Prog Op Ans ε α → σ → Prog Op Ans ε α → Prop
  | refl (s : σ) (p : Prog Op Ans ε α) : Leads answers s p s p
  | call {s s' s'' : σ} {op : Op} {k : Ans op → Prog Op Ans ε α} {answer : Ans op} {p' : Prog Op Ans ε α}
      (hans : answers s op answer s') (hk : Leads answers s' (k answer) s'' p') : Leads answers s (.call op k) s'' p'

theorem Leads.trans {s'' : σ} {p' p'' : Prog Op Ans ε α} (hp : Leads answers s p s' p') (hp' : Leads answers s' p' s'' p'') :
    Leads answers s p s'' p'' := by
  induction hp with
  | refl => exact hp'
  | call hans _ ih => exact .call hans (ih hp')

theorem Leads.bind {p' : Prog Op Ans ε α} (hp : Leads answers s p s' p') (f : α → Prog Op Ans ε β) :
    Leads answers s (p >>= f) s' (p' >>= f) := by
  induction hp with
  | refl => exact .refl ..
  | call hans _ ih => exact .call hans ih

/-- A program that comes to its end, and the one after it. -/
theorem Leads.andThen {s'' : σ} {a : α} {f : α → Prog Op Ans ε β} {q : Prog Op Ans ε β} (hp : Leads answers s p s' (.ret a))
    (hf : Leads answers s' (f a) s'' q) : Leads answers s (p >>= f) s'' q :=
  (hp.bind f).trans hf

theorem Leads.attempt {p' : Prog Op Ans ε α} (hp : Leads answers s p s' p') :
    Leads answers s (p.attempt : Prog Op Ans ε' _) s' p'.attempt := by
  induction hp with
  | refl => exact .refl ..
  | call hans _ ih => exact .call hans ih

end Prog

/-! ### One program a key -/

/-- A program on its way: what it is for, the state it was started in, and what is left of it. -/
structure Run (σ ρ Op : Type) (Ans : Op → Type) (ε α : Type) where
  request : ρ
  start : σ
  left : Prog Op Ans ε α

structure Crew (κ σ ρ Op : Type) (Ans : Op → Type) (ε α : Type) where
  shared : σ
  running : κ → Option (Run σ ρ Op Ans ε α)

namespace Crew

variable (answers : κ → σ → (op : Op) → Ans op → σ → Prop) (handle : ρ → Prog Op Ans ε α) (key : ρ → κ)
  (admits : σ → ρ → Prop) (outside : σ → σ → Prop)

/-- A request is taken up, and what ran under its key before has come to its end or is broken off; a program makes its
next call; or the state changes from outside. -/
inductive Step [DecidableEq κ] : Crew κ σ ρ Op Ans ε α → Crew κ σ ρ Op Ans ε α → Prop
  | start {s : Crew κ σ ρ Op Ans ε α} {r : ρ} (hr : admits s.shared r) :
      Step s { s with running := Function.update s.running (key r) (some ⟨r, s.shared, handle r⟩) }
  | call {s : Crew κ σ ρ Op Ans ε α} {k : κ} {r : ρ} {start : σ} {op : Op} {cont : Ans op → Prog Op Ans ε α}
      {answer : Ans op} {shared : σ} (hk : s.running k = some ⟨r, start, .call op cont⟩)
      (hans : answers k s.shared op answer shared) :
      Step s ⟨shared, Function.update s.running k (some ⟨r, start, cont answer⟩)⟩
  | outside {s : Crew κ σ ρ Op Ans ε α} {shared : σ} (h : outside s.shared shared) : Step s { s with shared := shared }

variable {answers handle key admits outside} {R : κ → σ → σ → Prop} {G : ρ → σ → σ → σ → Prop} {Q : ρ → σ → σ → α → Prop}
  {E : ρ → σ → σ → ε → Prop} {I : σ → Prop} {s s' : Crew κ σ ρ Op Ans ε α} {past : List (Crew κ σ ρ Op Ans ε α)}
  {init : Crew κ σ ρ Op Ans ε α → Prop}

variable (answers key R G Q E I) in
/-- The shared state is as `I` says, and every program on its way guards what is left of it. -/
structure Guarded (s : Crew κ σ ρ Op Ans ε α) : Prop where
  shared : I s.shared
  key : ∀ k run, s.running k = some run → key run.request = k
  running : ∀ k run, s.running k = some run →
    run.left.Guards (answers k) (R k) (G run.request run.start) (Q run.request run.start) (E run.request run.start) s.shared

/-- A call of the crew is one that its program guarantees. -/
theorem Guarded.call (hs : Guarded answers key R G Q E I s) (hrefl : ∀ k s, R k s s) {k : κ} {r : ρ} {start shared : σ} {op : Op}
    {cont : Ans op → Prog Op Ans ε α} {answer : Ans op} (hk : s.running k = some ⟨r, start, .call op cont⟩)
    (hans : answers k s.shared op answer shared) :
    key r = k ∧ G r start s.shared shared ∧
      (cont answer).Guards (answers k) (R k) (G r start) (Q r start) (E r start) shared :=
  ⟨hs.key k _ hk, hs.running k _ hk s.shared (hrefl k _) answer shared hans⟩

variable [DecidableEq κ]

theorem update_cases {f : κ → Option β} {a k : κ} {x y : β} (h : Function.update f a (some x) k = some y) :
    k = a ∧ y = x ∨ k ≠ a ∧ f k = some y := by
  by_cases hk : k = a
  · subst hk
    rw [Function.update_self] at h
    exact .inl ⟨rfl, (Option.some.inj h).symm⟩
  · rw [Function.update_of_ne hk] at h
    exact .inr ⟨hk, h⟩

variable (answers handle key admits outside R G Q E I) in
/-- What is needed of the guarantees: each is within what the others rely on, and they keep the invariant. -/
structure Fits : Prop where
  refl : ∀ k s, R k s s
  trans : ∀ k s s' s'', R k s s' → R k s' s'' → R k s s''
  started : ∀ s r, I s → admits s r → (handle r).Guards (answers (key r)) (R (key r)) (G r s) (Q r s) (E r s) s
  others : ∀ r start s s' k, k ≠ key r → G r start s s' → R k s s'
  beside : ∀ s s' k, outside s s' → R k s s'
  keeps : ∀ r start s s', I s → G r start s s' → I s'
  stays : ∀ s s', I s → outside s s' → I s'

theorem Fits.step (hfit : Fits answers handle key admits outside R G Q E I) (hs : Guarded answers key R G Q E I s)
    (hstep : Step answers handle key admits outside s s') : Guarded answers key R G Q E I s' := by
  cases hstep with
  | @start r hr =>
    refine ⟨hs.shared, fun k run hrun => ?_, fun k run hrun => ?_⟩
    · rcases update_cases hrun with ⟨rfl, rfl⟩ | ⟨-, hrun⟩
      · rfl
      · exact hs.key k run hrun
    · rcases update_cases hrun with ⟨rfl, rfl⟩ | ⟨-, hrun⟩
      · exact hfit.started _ _ hs.shared hr
      · exact hs.running k run hrun
  | @call k r start op cont answer shared hrun hans =>
    obtain ⟨rfl, hguarantee, hleft⟩ := hs.call hfit.refl hrun hans
    refine ⟨hfit.keeps _ _ _ _ hs.shared hguarantee, fun k run hrun' => ?_, fun k run hrun' => ?_⟩
    · rcases update_cases hrun' with ⟨rfl, rfl⟩ | ⟨-, hrun'⟩
      · rfl
      · exact hs.key k run hrun'
    · rcases update_cases hrun' with ⟨rfl, rfl⟩ | ⟨hk, hrun'⟩
      · exact hleft
      · exact (hs.running k run hrun').rely (hfit.trans k) (hfit.others _ _ _ _ k hk hguarantee)
  | outside h =>
    exact ⟨hfit.stays _ _ hs.shared h, hs.key,
      fun k run hrun => (hs.running k run hrun).rely (hfit.trans k) (hfit.beside _ _ k h)⟩

/-- In every interleaving the programs guard what is left of them. -/
theorem Fits.guarded (hfit : Fits answers handle key admits outside R G Q E I)
    (h0 : ∀ s, init s → I s.shared ∧ ∀ k, s.running k = none)
    (h : Trace init (Step answers handle key admits outside) (s :: past)) : Guarded answers key R G Q E I s := by
  refine h.invariant (fun s hs => ?_) fun s s' => hfit.step
  obtain ⟨hI, hnone⟩ := h0 s hs
  refine ⟨hI, fun k run hrun => ?_, fun k run hrun => ?_⟩
  · rw [hnone k] at hrun
    cases hrun
  · rw [hnone k] at hrun
    cases hrun

/-- A run goes on with one program alone. -/
theorem exists_run {k : κ} {r : ρ} {start shared : σ} {p p' : Prog Op Ans ε α}
    (h : Trace init (Step answers handle key admits outside) (s :: past)) (hk : s.running k = some ⟨r, start, p⟩)
    (hp : Leads (answers k) s.shared p shared p') :
    ∃ s' past', Trace init (Step answers handle key admits outside) (s' :: past') ∧ s :: past <:+ s' :: past' ∧
      s'.shared = shared ∧ s'.running k = some ⟨r, start, p'⟩ := by
  generalize hshared : s.shared = first at hp
  induction hp generalizing s past with
  | refl => exact ⟨s, past, h, List.suffix_rfl, hshared, hk⟩
  | call hans _ ih =>
    subst hshared
    obtain ⟨s', past', hrun, hsuffix, heq⟩ := ih (h.next (.call hk hans)) (Function.update_self ..) rfl
    exact ⟨s', past', hrun, (List.suffix_cons ..).trans hsuffix, heq⟩

/-- A program is taken up and goes on. -/
theorem exists_start {r : ρ} {shared : σ} {p : Prog Op Ans ε α}
    (h : Trace init (Step answers handle key admits outside) (s :: past)) (hr : admits s.shared r)
    (hp : Leads (answers (key r)) s.shared (handle r) shared p) :
    ∃ s' past', Trace init (Step answers handle key admits outside) (s' :: past') ∧ s :: past <:+ s' :: past' ∧
      s'.shared = shared ∧ s'.running (key r) = some ⟨r, s.shared, p⟩ := by
  obtain ⟨s', past', hrun, hsuffix, hs'⟩ := exists_run (h.next (.start hr)) (Function.update_self ..) hp
  exact ⟨s', past', hrun, (List.suffix_cons ..).trans hsuffix, hs'⟩

end Crew
