import Mathlib.Data.List.Infix
import Mathlib.Data.List.Basic

/-!
# Programs that call out

A `Prog Op Ans ε α` is a finite computation that ends with an `α` or stops early with an `ε`, and on
its way calls operations of some environment: an operation `op` is answered by an `Ans op`, which the
rest of the program may depend on. Nothing is said about the environment; what a program has seen of
it is its `History`. `Sat` is the logic: what must hold of the history at each call, at a return and
at an early stop, whatever the answers are.
-/

/-- A finite program over operations `Op`, answered in `Ans`. -/
inductive Prog (Op : Type) (Ans : Op → Type) (ε α : Type) : Type
  | ret (a : α)
  | raise (e : ε)
  | call (op : Op) (k : Ans op → Prog Op Ans ε α)

namespace Prog

variable {Op Op' : Type} {Ans : Op → Type} {ε ε' α β : Type}

/-! ### Combinators -/

def bind : Prog Op Ans ε α → (α → Prog Op Ans ε β) → Prog Op Ans ε β
  | ret a, f => f a
  | raise e, _ => raise e
  | call op k, f => call op fun answer => (k answer).bind f

instance : Monad (Prog Op Ans ε) where
  pure := ret
  bind := bind

def ofExcept : Except ε α → Prog Op Ans ε α
  | .ok a => ret a
  | .error e => raise e

/-- One call, returning its answer. -/
def perform (op : Op) : Prog Op Ans ε (Ans op) := call op ret

def mapError (f : ε → ε') : Prog Op Ans ε α → Prog Op Ans ε' α
  | ret a => ret a
  | raise e => raise (f e)
  | call op k => call op fun answer => (k answer).mapError f

/-- Both endings become a value. -/
def attempt : Prog Op Ans ε α → Prog Op Ans ε' (Except ε α)
  | ret a => ret (.ok a)
  | raise e => ret (.error e)
  | call op k => call op fun answer => (k answer).attempt

/-- A program over some of the operations. -/
def embed (op : Op' → Op) : Prog Op' (fun o => Ans (op o)) ε α → Prog Op Ans ε α
  | ret a => ret a
  | raise e => raise e
  | call o k => call (op o) fun answer => (k answer).embed op

/-- A program whose operations are asked as `op`, and their answers read with `value`. -/
def via {Ans' : Op' → Type} (op : Op' → Op) (value : ∀ o, Ans (op o) → Ans' o) : Prog Op' Ans' ε α → Prog Op Ans ε α
  | ret a => ret a
  | raise e => raise e
  | call o k => call (op o) fun answer => (k (value o answer)).via op value

section Equations

variable {a : α} {e : ε} {op : Op} {k : Ans op → Prog Op Ans ε α} {f : α → Prog Op Ans ε β} {g : ε → ε'}

@[simp] theorem ret_bind : (ret a : Prog Op Ans ε α) >>= f = f a := rfl
@[simp] theorem pure_bind : (pure a : Prog Op Ans ε α) >>= f = f a := rfl
@[simp] theorem raise_bind : (raise e : Prog Op Ans ε α) >>= f = raise e := rfl
@[simp] theorem call_bind : call op k >>= f = call op fun answer => k answer >>= f := rfl
@[simp] theorem ofExcept_ok : (ofExcept (.ok a) : Prog Op Ans ε α) = ret a := rfl
@[simp] theorem ofExcept_error : (ofExcept (.error e) : Prog Op Ans ε α) = raise e := rfl
@[simp] theorem mapError_ret : (ret a : Prog Op Ans ε α).mapError g = ret a := rfl
@[simp] theorem mapError_pure : (pure a : Prog Op Ans ε α).mapError g = ret a := rfl
@[simp] theorem mapError_raise : (raise e : Prog Op Ans ε α).mapError g = raise (g e) := rfl
@[simp] theorem mapError_call : (call op k).mapError g = call op fun answer => (k answer).mapError g := rfl
@[simp] theorem attempt_ret : ((ret a : Prog Op Ans ε α).attempt : Prog Op Ans ε' _) = ret (.ok a) := rfl
@[simp] theorem attempt_raise : ((raise e : Prog Op Ans ε α).attempt : Prog Op Ans ε' _) = ret (.error e) := rfl
@[simp] theorem attempt_call :
    ((call op k).attempt : Prog Op Ans ε' _) = call op fun answer => (k answer).attempt := rfl

end Equations

/-! ### Histories -/

/-- A call with its answer. -/
abbrev Answered (Op : Type) (Ans : Op → Type) := (op : Op) × Ans op

abbrev History (Op : Type) (Ans : Op → Type) := List (Answered Op Ans)

/-- An answered call of some of the operations. -/
def lift (op : Op' → Op) (c : Answered Op' fun o => Ans (op o)) : Answered Op Ans := ⟨op c.1, c.2⟩

/-- Given the answers of `h`, the program makes the calls of `h` and ends with `r`. -/
inductive Returns : Prog Op Ans ε α → History Op Ans → Except ε α → Prop
  | ret (a : α) : Returns (ret a) [] (.ok a)
  | raise (e : ε) : Returns (raise e) [] (.error e)
  | call {op : Op} {k : Ans op → Prog Op Ans ε α} {answer : Ans op} {h : History Op Ans} {r : Except ε α} :
      Returns (k answer) h r → Returns (call op k) (⟨op, answer⟩ :: h) r

theorem Returns.eq_ret {p : Prog Op Ans ε α} {a : α} (h : p.Returns [] (.ok a)) : p = .ret a := by
  cases h
  rfl

/-- A program ends in one way on what it sees. -/
theorem Returns.unique {p : Prog Op Ans ε α} {seg seg' h : History Op Ans} {r r' : Except ε α} (hr : p.Returns seg r)
    (hr' : p.Returns seg' r') (hseg : seg <+: h) (hseg' : seg' <+: h) : r = r' := by
  induction hr generalizing seg' h with
  | ret a =>
    cases hr'
    rfl
  | raise e =>
    cases hr'
    rfl
  | call _ ih =>
    cases hr' with
    | call hr' =>
      obtain ⟨rest, rfl⟩ := hseg
      obtain ⟨heq, htail⟩ := List.cons_prefix_cons.1 hseg'
      cases heq
      exact ih hr' (List.prefix_append ..) htail

theorem Returns.of_bind {p : Prog Op Ans ε α} {f : α → Prog Op Ans ε β} {h : History Op Ans} {b : β}
    (hr : (p >>= f).Returns h (.ok b)) : ∃ seg rest a, h = seg ++ rest ∧ p.Returns seg (.ok a) ∧ (f a).Returns rest (.ok b) := by
  induction p generalizing h with
  | ret a => exact ⟨[], h, a, rfl, .ret a, hr⟩
  | raise e => cases hr
  | call op k ih =>
    cases hr with
    | call hr =>
      obtain ⟨seg, rest, a, rfl, hp, hf⟩ := ih _ hr
      exact ⟨_ :: seg, rest, a, rfl, .call hp, hf⟩

theorem Returns.bind {p : Prog Op Ans ε α} {f : α → Prog Op Ans ε β} {h h' : History Op Ans} {a : α} {r : Except ε β}
    (hp : p.Returns h (.ok a)) (hf : (f a).Returns h' r) : (p >>= f).Returns (h ++ h') r := by
  induction p generalizing h with
  | ret a' =>
    cases hp
    exact hf
  | raise e => cases hp
  | call op k ih =>
    cases hp with
    | call hp => exact .call (ih _ hp)

theorem Returns.bind_ret {p : Prog Op Ans ε α} {f : α → β} {h : History Op Ans} {a : α} (hp : p.Returns h (.ok a)) :
    (p >>= fun a => (.ret (f a) : Prog Op Ans ε β)).Returns h (.ok (f a)) := by
  rw [← List.append_nil h]
  exact hp.bind (.ret (f a))

theorem Returns.of_attempt {p : Prog Op Ans ε α} {h : History Op Ans} {r : Except ε α}
    (hr : (p.attempt : Prog Op Ans ε' _).Returns h (.ok r)) : p.Returns h r := by
  induction p generalizing h with
  | ret a =>
    cases hr
    exact .ret a
  | raise e =>
    cases hr
    exact .raise e
  | call op k ih =>
    cases hr with
    | call hr => exact .call (ih _ hr)

/-! ### The logic -/

/-- Started after `h`, the program calls only what `Φ` admits at that point, returns only what `Q`
admits and stops early only as `E` admits. -/
def Sat (Φ : History Op Ans → Op → Prop) (Q : History Op Ans → α → Prop) (E : History Op Ans → ε → Prop) :
    History Op Ans → Prog Op Ans ε α → Prop
  | h, ret a => Q h a
  | h, raise e => E h e
  | h, call op k => Φ h op ∧ ∀ answer, Sat Φ Q E (h ++ [⟨op, answer⟩]) (k answer)

section Sat

variable {Φ Φ' : History Op Ans → Op → Prop} {Q Q' : History Op Ans → α → Prop}
  {E E' : History Op Ans → ε → Prop} {h : History Op Ans}

@[simp] theorem sat_ret {a : α} : Sat Φ Q E h (ret a) ↔ Q h a := Iff.rfl

@[simp] theorem sat_pure {a : α} : Sat Φ Q E h (pure a) ↔ Q h a := Iff.rfl

@[simp] theorem sat_raise {e : ε} : Sat Φ Q E h (raise e) ↔ E h e := Iff.rfl

theorem sat_call {op : Op} {k : Ans op → Prog Op Ans ε α} :
    Sat Φ Q E h (call op k) ↔ Φ h op ∧ ∀ answer, Sat Φ Q E (h ++ [⟨op, answer⟩]) (k answer) := Iff.rfl

@[simp] theorem sat_perform {op : Op} {Q : History Op Ans → Ans op → Prop} :
    Sat Φ Q E h (perform op) ↔ Φ h op ∧ ∀ answer, Q (h ++ [⟨op, answer⟩]) answer := Iff.rfl

@[simp] theorem sat_ofExcept {r : Except ε α} :
    Sat Φ Q E h (ofExcept r) ↔ (∀ a, r = .ok a → Q h a) ∧ ∀ e, r = .error e → E h e := by
  cases r with
  | ok a => simp [ofExcept]
  | error e => simp [ofExcept]

@[simp] theorem sat_bind {p : Prog Op Ans ε α} {f : α → Prog Op Ans ε β} {Q : History Op Ans → β → Prop} :
    Sat Φ Q E h (p >>= f) ↔ Sat Φ (fun h a => Sat Φ Q E h (f a)) E h p := by
  show Sat Φ Q E h (p.bind f) ↔ _
  induction p generalizing h with
  | ret a => rfl
  | raise e => rfl
  | call op k ih => exact and_congr_right fun _ => forall_congr' fun answer => ih answer

@[simp] theorem sat_mapError {p : Prog Op Ans ε α} {f : ε → ε'} {E : History Op Ans → ε' → Prop} :
    Sat Φ Q E h (p.mapError f) ↔ Sat Φ Q (fun h e => E h (f e)) h p := by
  induction p generalizing h with
  | ret a => rfl
  | raise e => rfl
  | call op k ih => exact and_congr_right fun _ => forall_congr' fun answer => ih answer

@[simp] theorem sat_attempt {p : Prog Op Ans ε α} {Q : History Op Ans → Except ε α → Prop}
    {E : History Op Ans → ε' → Prop} :
    Sat Φ Q E h (p.attempt) ↔ Sat Φ (fun h a => Q h (.ok a)) (fun h e => Q h (.error e)) h p := by
  induction p generalizing h with
  | ret a => rfl
  | raise e => rfl
  | call op k ih => exact and_congr_right fun _ => forall_congr' fun answer => ih answer

theorem Sat.mono {p : Prog Op Ans ε α} (hp : Sat Φ Q E h p) (hΦ : ∀ h op, Φ h op → Φ' h op)
    (hQ : ∀ h a, Q h a → Q' h a) (hE : ∀ h e, E h e → E' h e) : Sat Φ' Q' E' h p := by
  induction p generalizing h with
  | ret a => exact hQ h a hp
  | raise e => exact hE h e hp
  | call op k ih => exact ⟨hΦ h op hp.1, fun answer => ih answer (hp.2 answer)⟩

theorem Sat.and {p : Prog Op Ans ε α} (hp : Sat Φ Q E h p) (hp' : Sat Φ' Q' E' h p) :
    Sat (fun h op => Φ h op ∧ Φ' h op) (fun h a => Q h a ∧ Q' h a) (fun h e => E h e ∧ E' h e) h p := by
  induction p generalizing h with
  | ret a => exact ⟨hp, hp'⟩
  | raise e => exact ⟨hp, hp'⟩
  | call op k ih => exact ⟨⟨hp.1, hp'.1⟩, fun answer => ih answer (hp.2 answer) (hp'.2 answer)⟩

theorem Sat.bind {p : Prog Op Ans ε α} {f : α → Prog Op Ans ε β} {Q : History Op Ans → α → Prop}
    {Q' : History Op Ans → β → Prop} (hp : Sat Φ Q E h p) (hf : ∀ h a, Q h a → Sat Φ Q' E h (f a)) :
    Sat Φ Q' E h (p >>= f) := by
  rw [sat_bind]
  exact hp.mono (fun _ _ hop => hop) hf fun _ _ he => he

theorem Sat.ofExcept_bind {r : Except ε α} {f : α → Prog Op Ans ε β} {Q : History Op Ans → β → Prop}
    (herr : ∀ e, r = .error e → E h e) (hok : ∀ a, r = .ok a → Sat Φ Q E h (f a)) :
    Sat Φ Q E h (ofExcept r >>= f) := by
  rw [sat_bind, sat_ofExcept]
  exact ⟨hok, herr⟩

/-- The program returns only what the logic admits. -/
theorem Sat.of_returns {p : Prog Op Ans ε α} {seg : History Op Ans} {a : α} (hp : Sat Φ Q E h p)
    (hr : p.Returns seg (.ok a)) : Q (h ++ seg) a := by
  generalize hres : (Except.ok a : Except ε α) = r at hr
  induction hr generalizing h with
  | ret b =>
    cases hres
    rw [List.append_nil]
    exact hp
  | raise e => cases hres
  | call _ ih =>
    have := ih (hp.2 _) hres
    rwa [List.append_assoc] at this

/-- What was seen before a program is seen after it. -/
theorem sat_along (p : Prog Op Ans ε α) (h : History Op Ans) :
    Sat (fun _ _ => True) (fun h' _ => h <+: h') (fun _ _ => True) h p := by
  induction p generalizing h with
  | ret a => exact List.prefix_rfl
  | raise e => trivial
  | call op k ih =>
    refine ⟨trivial, fun answer => (ih answer _).mono (fun _ _ hop => hop) (fun h' _ hpre => ?_) fun _ _ he => he⟩
    exact (List.prefix_append _ _).trans hpre

/-- Every call is one that `C` admits. -/
def Calls (C : Op → Prop) (p : Prog Op Ans ε α) : Prop :=
  Sat (fun _ op => C op) (fun _ _ => True) (fun _ _ => True) [] p

theorem Calls.sat {C : Op → Prop} {p : Prog Op Ans ε α} (hp : p.Calls C) (h : History Op Ans) :
    Sat (fun _ op => C op) (fun _ _ => True) (fun _ _ => True) h p := by
  unfold Calls at hp
  generalize [] = h₀ at hp
  induction p generalizing h h₀ with
  | ret a => trivial
  | raise e => trivial
  | call op k ih => exact ⟨hp.1, fun answer => ih answer _ _ (hp.2 answer)⟩

/-- So a run of the program makes no other calls. -/
theorem Calls.of_returns {C : Op → Prop} {p : Prog Op Ans ε α} (hp : p.Calls C) {seg : History Op Ans}
    {r : Except ε α} (hr : p.Returns seg r) : ∀ c ∈ seg, C c.1 := by
  replace hp := hp.sat []
  generalize ([] : History Op Ans) = h at hp
  induction hr generalizing h with
  | ret a => simp
  | raise e => simp
  | call _ ih => exact List.forall_mem_cons.2 ⟨hp.1, ih _ (hp.2 _)⟩

theorem Calls.imp {C C' : Op → Prop} {p : Prog Op Ans ε α} (hp : p.Calls C) (hC : ∀ op, C op → C' op) : p.Calls C' :=
  Sat.mono hp (fun _ op hop => hC op hop) (fun _ _ h => h) fun _ _ h => h

section Calls

variable {C : Op → Prop}

theorem calls_ret (a : α) : (ret a : Prog Op Ans ε α).Calls C := trivial

theorem calls_raise (e : ε) : (raise e : Prog Op Ans ε α).Calls C := trivial

theorem calls_ofExcept (r : Except ε α) : (ofExcept r : Prog Op Ans ε α).Calls C := by
  cases r <;> trivial

theorem calls_perform (op : Op) (hop : C op) : (perform op : Prog Op Ans ε (Ans op)).Calls C :=
  ⟨hop, fun _ => trivial⟩

theorem Calls.bind {p : Prog Op Ans ε α} {f : α → Prog Op Ans ε β} (hp : p.Calls C) (hf : ∀ a, (f a).Calls C) :
    (p >>= f).Calls C := by
  unfold Calls
  rw [sat_bind]
  exact hp.mono (fun _ _ hop => hop) (fun h a _ => (hf a).sat h) fun _ _ _ => trivial

theorem Calls.mapError {p : Prog Op Ans ε α} (hp : p.Calls C) (f : ε → ε') : (p.mapError f).Calls C := by
  unfold Calls
  rw [sat_mapError]
  exact hp

theorem Calls.attempt {p : Prog Op Ans ε α} (hp : p.Calls C) : (p.attempt : Prog Op Ans ε' _).Calls C := by
  unfold Calls
  rw [sat_attempt]
  exact hp

end Calls

/-- What has been seen between the start of a program and its end is a run of the program. -/
theorem Calls.sat_returns {C : Op → Prop} {p : Prog Op Ans ε α} (hp : p.Calls C) (h : History Op Ans) :
    Sat (fun _ op => C op)
      (fun h' a => ∃ seg, h' = h ++ seg ∧ p.Returns seg (.ok a) ∧ ∀ c ∈ seg, C c.1)
      (fun h' e => ∃ seg, h' = h ++ seg ∧ p.Returns seg (.error e) ∧ ∀ c ∈ seg, C c.1) h p := by
  replace hp := hp.sat h
  induction p generalizing h with
  | ret a => exact ⟨[], by simp, .ret a, by simp⟩
  | raise e => exact ⟨[], by simp, .raise e, by simp⟩
  | call op k ih =>
    refine ⟨hp.1, fun answer => (ih answer _ (hp.2 answer)).mono (fun _ _ h => h) ?_ ?_⟩
    · rintro h' a ⟨seg, rfl, hseg, hC⟩
      exact ⟨⟨op, answer⟩ :: seg, by simp, .call hseg, by simpa using ⟨hp.1, hC⟩⟩
    · rintro h' e ⟨seg, rfl, hseg, hC⟩
      exact ⟨⟨op, answer⟩ :: seg, by simp, .call hseg, by simpa using ⟨hp.1, hC⟩⟩

/-- What a program over some of the operations does, seen among all of them. -/
theorem Sat.embed {op : Op' → Op} {p : Prog Op' (fun o => Ans (op o)) ε α}
    {Φ : History Op' (fun o => Ans (op o)) → Op' → Prop} {Q : History Op' (fun o => Ans (op o)) → α → Prop}
    {E : History Op' (fun o => Ans (op o)) → ε → Prop} {h : History Op' (fun o => Ans (op o))}
    (hp : Sat Φ Q E h p) (h₀ : History Op Ans) :
    Sat (fun h' c => ∃ h o, h' = h₀ ++ h.map (lift op) ∧ c = op o ∧ Φ h o)
      (fun h' a => ∃ h, h' = h₀ ++ h.map (lift op) ∧ Q h a)
      (fun h' e => ∃ h, h' = h₀ ++ h.map (lift op) ∧ E h e) (h₀ ++ h.map (lift op)) (p.embed op) := by
  induction p generalizing h with
  | ret a => exact ⟨h, rfl, hp⟩
  | raise e => exact ⟨h, rfl, hp⟩
  | call o k ih =>
    refine ⟨⟨h, o, rfl, rfl, hp.1⟩, fun answer => ?_⟩
    have := ih answer (hp.2 answer)
    rwa [List.map_append, ← List.append_assoc] at this

/-- What has been seen while a program ran `via` other operations, read back. -/
theorem sat_via {Ans' : Op' → Type} {op : Op' → Op} {value : ∀ o, Ans (op o) → Ans' o} (p : Prog Op' Ans' ε α)
    (h₀ : History Op Ans) :
    Sat (fun _ c => ∃ o, c = op o)
      (fun h a => ∃ seg : History Op' fun o => Ans (op o), h = h₀ ++ seg.map (lift op) ∧
        p.Returns (seg.map fun c => ⟨c.1, value c.1 c.2⟩) (.ok a))
      (fun _ _ => True) h₀ (p.via op value) := by
  induction p generalizing h₀ with
  | ret a => exact ⟨[], by simp, .ret a⟩
  | raise e => trivial
  | call o k ih =>
    refine ⟨⟨o, rfl⟩, fun answer => (ih (value o answer) _).mono (fun _ _ hop => hop) ?_ fun _ _ he => he⟩
    rintro h a ⟨seg, rfl, hseg⟩
    exact ⟨⟨o, answer⟩ :: seg, by simp [lift], .call hseg⟩

end Sat
end Prog
