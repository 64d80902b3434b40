import TemplateAxum.Lib.Prog
import Mathlib.Data.List.Basic

/-!
# Programs side by side

Jobs that each run a program against one shared state. A step lets a new request arrive, or answers
the pending call of one job; nothing else is said about the order, so a statement about all traces
is one about all interleavings. `Trace.sat` carries what `Prog.Sat` says of the programs to the jobs
of a trace, `Trace.answered` finds the step of the trace that answered a call, and `Ends` is total
correctness of one program that runs alone.
-/

open Prog

variable {σ τ ρ Op ε α β : Type} {Ans : Op → Type}

/-! ### Traces -/

/-- The states a system has been through, the latest first. -/
inductive Trace (init : τ → Prop) (step : τ → τ → Prop) : List τ → Prop
  | start {s : τ} : init s → Trace init step [s]
  | next {s s' : τ} {past : List τ} : Trace init step (s :: past) → step s s' → Trace init step (s' :: s :: past)

namespace Trace

variable {init init' : τ → Prop} {step step' : τ → τ → Prop} {s : τ} {past : List τ}

theorem mono (h : Trace init step past) (hi : ∀ s, init s → init' s) (hs : ∀ s s', step s s' → step' s s') :
    Trace init' step' past := by
  induction h with
  | start h0 => exact .start (hi _ h0)
  | next _ hstep ih => exact .next ih (hs _ _ hstep)

/-- What holds at the start and is kept by every step of a trace holds in its latest state. -/
theorem along {I : τ → Prop} (h0 : ∀ s, init s → I s)
    (hs : ∀ s s' past, Trace init step (s :: past) → I s → step s s' → I s') (h : Trace init step (s :: past)) : I s := by
  generalize htrace : s :: past = trace at h
  induction h generalizing s past with
  | start hinit => cases htrace; exact h0 _ hinit
  | next hpast hstep ih => cases htrace; exact hs _ _ _ hpast (ih rfl) hstep

theorem invariant {I : τ → Prop} (h0 : ∀ s, init s → I s) (hs : ∀ s s', I s → step s s' → I s')
    (h : Trace init step (s :: past)) : I s :=
  h.along h0 fun s s' _ _ => hs s s'

theorem of_mem {trace : List τ} (h : Trace init step trace) {a : τ} (ha : a ∈ trace) :
    ∃ past, Trace init step (a :: past) := by
  induction h with
  | start hinit =>
    cases List.mem_singleton.1 ha
    exact ⟨[], .start hinit⟩
  | next hpast hstep ih =>
    rcases List.mem_cons.1 ha with rfl | ha
    · exact ⟨_, .next hpast hstep⟩
    · exact ih ha

/-- What a trace has been through is a trace. -/
theorem of_suffix {trace : List τ} (h : Trace init step trace) {a : τ} {past : List τ} (ha : a :: past <:+ trace) :
    Trace init step (a :: past) := by
  induction h with
  | start hinit =>
    rcases List.suffix_cons_iff.1 ha with heq | hnil
    · rw [heq]
      exact .start hinit
    · exact absurd (List.suffix_nil.1 hnil) (List.cons_ne_nil _ _)
  | next hpast hstep ih =>
    rcases List.suffix_cons_iff.1 ha with heq | htail
    · rw [heq]
      exact hpast.next hstep
    · exact ih htail

/-- Two neighbours of a trace are a step, from the end of a trace. -/
theorem of_infix {trace : List τ} (h : Trace init step trace) {a b : τ} (hab : [b, a] <:+: trace) :
    ∃ past, Trace init step (a :: past) ∧ step a b := by
  induction h with
  | start hinit =>
    have := hab.length_le
    simp at this
  | @next s s' past hpast hstep ih =>
    rcases List.infix_cons_iff.1 hab with hhead | htail
    · have hb := List.cons_prefix_cons.1 hhead
      have ha := List.cons_prefix_cons.1 hb.2
      rw [hb.1, ha.1]
      exact ⟨past, hpast, hstep⟩
    · exact ih htail

end Trace

/-! ### Systems -/

/-- One request being served: what it has seen so far and what is left to do. -/
structure Job (ρ Op : Type) (Ans : Op → Type) (ε α : Type) where
  request : ρ
  history : History Op Ans
  prog : Prog Op Ans ε α

structure Pool (σ ρ Op : Type) (Ans : Op → Type) (ε α : Type) where
  shared : σ
  jobs : List (Job ρ Op Ans ε α)

namespace Pool

variable (answers : σ → (op : Op) → Ans op → σ → Prop) (handle : ρ → Prog Op Ans ε α)

inductive Step : Pool σ ρ Op Ans ε α → Pool σ ρ Op Ans ε α → Prop
  | arrive (s : Pool σ ρ Op Ans ε α) (request : ρ) :
      Step s { s with jobs := s.jobs ++ [⟨request, [], handle request⟩] }
  | call {s : Pool σ ρ Op Ans ε α} {i : Nat} {job : Job ρ Op Ans ε α} {op : Op}
      {k : Ans op → Prog Op Ans ε α} {answer : Ans op} {shared : σ} (hjob : s.jobs[i]? = some job)
      (hprog : job.prog = .call op k) (hans : answers s.shared op answer shared) :
      Step s ⟨shared, s.jobs.set i ⟨job.request, job.history ++ [⟨op, answer⟩], k answer⟩⟩

variable {answers handle} {s s' : Pool σ ρ Op Ans ε α} {init : Pool σ ρ Op Ans ε α → Prop}
  {past : List (Pool σ ρ Op Ans ε α)}

/-- The jobs after a step: a new one, one that got an answer, or one that was there. -/
theorem Step.job_cases (h : Step answers handle s s') {j : Nat} {job' : Job ρ Op Ans ε α}
    (hjob' : s'.jobs[j]? = some job') :
    s.jobs[j]? = some job' ∨ (∃ request, job' = ⟨request, [], handle request⟩) ∨
      ∃ job op k answer, s.jobs[j]? = some job ∧ job.prog = .call op k ∧
        answers s.shared op answer s'.shared ∧
        job' = ⟨job.request, job.history ++ [⟨op, answer⟩], k answer⟩ := by
  cases h with
  | arrive request =>
    rw [List.getElem?_append] at hjob'
    split at hjob'
    · exact .inl hjob'
    · rw [List.getElem?_singleton] at hjob'
      split at hjob'
      · cases hjob'; exact .inr (.inl ⟨request, rfl⟩)
      · cases hjob'
  | @call i job op k answer shared hjob hprog hans =>
    rw [List.getElem?_set] at hjob'
    split at hjob'
    · rename_i hij
      split at hjob'
      · cases hjob'; exact .inr (.inr ⟨job, op, k, answer, hij ▸ hjob, hprog, hans, rfl⟩)
      · cases hjob'
    · exact .inl hjob'

theorem Step.shared_cases (h : Step answers handle s s') :
    s'.shared = s.shared ∨ ∃ (i : Nat) (job : Job ρ Op Ans ε α) (op : Op) (k : Ans op → Prog Op Ans ε α)
      (answer : Ans op), s.jobs[i]? = some job ∧ job.prog = .call op k ∧ answers s.shared op answer s'.shared ∧
      s'.jobs[i]? = some ⟨job.request, job.history ++ [⟨op, answer⟩], k answer⟩ := by
  cases h with
  | arrive request => exact .inl rfl
  | call hjob hprog hans =>
    refine .inr ⟨_, _, _, _, _, hjob, hprog, hans, ?_⟩
    exact List.getElem?_set_self (List.getElem?_eq_some_iff.1 hjob).1

/-- A job stays, and sees more. -/
theorem Step.job_grows (h : Step answers handle s s') {j : Nat} {job : Job ρ Op Ans ε α} (hjob : s.jobs[j]? = some job) :
    ∃ job' seg, s'.jobs[j]? = some job' ∧ job'.request = job.request ∧ job'.history = job.history ++ seg := by
  have hj := (List.getElem?_eq_some_iff.1 hjob).1
  cases h with
  | arrive request =>
    refine ⟨job, [], ?_, rfl, (List.append_nil _).symm⟩
    rw [List.getElem?_append_left hj]
    exact hjob
  | @call i _ op k answer shared hjob' hprog hans =>
    by_cases hij : i = j
    · subst hij
      cases hjob.symm.trans hjob'
      exact ⟨_, [⟨op, answer⟩], List.getElem?_set_self hj, rfl, rfl⟩
    · refine ⟨job, [], ?_, rfl, (List.append_nil _).symm⟩
      rw [List.getElem?_set_ne hij]
      exact hjob

/-- A step in which a job comes or sees something is its own, or leaves the shared state alone. -/
theorem Step.of_history_ne (h : Step answers handle s s') {j : Nat} {job' : Job ρ Op Ans ε α}
    (hjob' : s'.jobs[j]? = some job') (hne : (s.jobs[j]?).map Job.history ≠ some job'.history) :
    s'.shared = s.shared ∨ ∃ job op k answer, s.jobs[j]? = some job ∧ job.prog = .call op k ∧
      answers s.shared op answer s'.shared ∧ job'.request = job.request ∧ job'.history = job.history ++ [⟨op, answer⟩] := by
  cases h with
  | arrive request => exact .inl rfl
  | @call i job op k answer shared hjob hprog hans =>
    by_cases hij : i = j
    · subst hij
      rw [List.getElem?_set_self (List.getElem?_eq_some_iff.1 hjob).1] at hjob'
      cases hjob'
      exact .inr ⟨job, op, k, answer, hjob, hprog, hans, rfl, rfl⟩
    · rw [List.getElem?_set_ne hij] at hjob'
      rw [hjob'] at hne
      exact absurd rfl hne

/-- Over a whole run a job sees more and more. -/
theorem history_grows (h : Trace init (Step answers handle) (s :: past)) {s₁ : Pool σ ρ Op Ans ε α}
    (hs₁ : s₁ ∈ s :: past) {j : Nat} {job₁ : Job ρ Op Ans ε α} (hjob₁ : s₁.jobs[j]? = some job₁) :
    ∃ job seg, s.jobs[j]? = some job ∧ job.request = job₁.request ∧ job.history = job₁.history ++ seg := by
  generalize htrace : s :: past = trace at h
  induction h generalizing s past with
  | start hinit =>
    cases htrace
    cases List.mem_singleton.1 hs₁
    exact ⟨job₁, [], hjob₁, rfl, (List.append_nil _).symm⟩
  | @next s' s past' hpast hstep ih =>
    obtain ⟨rfl, rfl⟩ := List.cons.inj htrace
    rcases List.mem_cons.1 hs₁ with rfl | hs₁
    · exact ⟨job₁, [], hjob₁, rfl, (List.append_nil _).symm⟩
    · rcases ih hs₁ rfl with ⟨job, seg, hjob, hreq, hhist⟩
      rcases hstep.job_grows hjob with ⟨job', seg', hjob', hreq', hhist'⟩
      exact ⟨job', seg ++ seg', hjob', hreq'.trans hreq, by rw [hhist', hhist, List.append_assoc]⟩

/-- The shared state answers the calls of a history. -/
inductive Plays (answers : σ → (op : Op) → Ans op → σ → Prop) : σ → History Op Ans → σ → Prop
  | nil (shared : σ) : Plays answers shared [] shared
  | cons {shared shared₁ shared₂ : σ} {op : Op} {answer : Ans op} {seg : History Op Ans} :
      answers shared op answer shared₁ → Plays answers shared₁ seg shared₂ →
      Plays answers shared (⟨op, answer⟩ :: seg) shared₂

theorem Plays.append {answers : σ → (op : Op) → Ans op → σ → Prop} {s s₁ s₂ : σ} {g g' : History Op Ans}
    (h : Plays answers s g s₁) (h' : Plays answers s₁ g' s₂) : Plays answers s (g ++ g') s₂ := by
  induction h with
  | nil => exact h'
  | cons ha _ ih => exact .cons ha (ih h')

/-- A run goes on with the next call of one job. -/
theorem exists_step (h : Trace init (Step answers handle) (s :: past)) {i : Nat} {job : Job ρ Op Ans ε α}
    (hjob : s.jobs[i]? = some job) {op : Op} {answer : Ans op} {rest : History Op Ans} {r : Except ε α}
    (hret : job.prog.Returns (⟨op, answer⟩ :: rest) r) {shared : σ} (hans : answers s.shared op answer shared) :
    ∃ s', Step answers handle s s' ∧ Trace init (Step answers handle) (s' :: s :: past) ∧ s'.shared = shared := by
  obtain ⟨request, history, prog⟩ := job
  cases hret with
  | call hret =>
    have hstep : Step answers handle s _ := .call hjob rfl hans
    exact ⟨_, hstep, h.next hstep, rfl⟩

/-- A run goes on with the calls of one job. -/
theorem exists_run_on (h : Trace init (Step answers handle) (s :: past)) {i : Nat} {job : Job ρ Op Ans ε α}
    (hjob : s.jobs[i]? = some job) {g rest : History Op Ans} {r : Except ε α}
    (hret : job.prog.Returns (g ++ rest) r) {shared : σ} (hplays : Plays answers s.shared g shared) :
    ∃ past' q, Trace init (Step answers handle)
        (⟨shared, s.jobs.set i ⟨job.request, job.history ++ g, q⟩⟩ :: past') ∧ q.Returns rest r ∧
      s :: past <:+ ⟨shared, s.jobs.set i ⟨job.request, job.history ++ g, q⟩⟩ :: past' := by
  induction g generalizing s past job with
  | nil =>
    cases hplays
    refine ⟨past, job.prog, ?_⟩
    rw [List.append_nil]
    have hsame : s.jobs.set i job = s.jobs := by
      refine List.ext_getElem? fun j => ?_
      rw [List.getElem?_set]
      split
      · rename_i hij; rw [if_pos (List.getElem?_eq_some_iff.1 hjob).1, ← hij, hjob]
      · rfl
    rw [hsame]
    exact ⟨h, hret, List.suffix_rfl⟩
  | cons c g ih =>
    cases hplays with
    | cons hans hplays =>
      obtain ⟨request, history, prog⟩ := job
      cases hret with
      | call hret =>
        have hstep : Step answers handle s _ := .call hjob rfl hans
        have hlt := (List.getElem?_eq_some_iff.1 hjob).1
        rcases ih (h.next hstep) (List.getElem?_set_self hlt) hret hplays with ⟨past', q, hrun, hq, hsuf⟩
        rw [List.set_set, List.append_assoc] at hrun hsuf
        exact ⟨past', q, hrun, hq, (List.suffix_cons _ _).trans hsuf⟩

theorem exists_run (h : Trace init (Step answers handle) (s :: past)) {i : Nat} {job : Job ρ Op Ans ε α}
    (hjob : s.jobs[i]? = some job) {g rest : History Op Ans} {r : Except ε α}
    (hret : job.prog.Returns (g ++ rest) r) {shared : σ} (hplays : Plays answers s.shared g shared) :
    ∃ past' q, Trace init (Step answers handle)
      (⟨shared, s.jobs.set i ⟨job.request, job.history ++ g, q⟩⟩ :: past') ∧ q.Returns rest r := by
  rcases exists_run_on h hjob hret hplays with ⟨past', q, hrun, hq, -⟩
  exact ⟨past', q, hrun, hq⟩

/-- An invariant of the shared state. -/
theorem shared_invariant {I : σ → Prop} (h0 : ∀ s, init s → I s.shared)
    (hs : ∀ shared op answer shared', I shared → answers shared op answer shared' → I shared')
    (h : Trace init (Step answers handle) (s :: past)) : I s.shared := by
  refine h.invariant (I := fun s => I s.shared) h0 fun s s' hI hstep => ?_
  rcases hstep.shared_cases with heq | ⟨i, job, op, k, answer, -, -, hans, -⟩
  · rw [heq]; exact hI
  · exact hs _ _ _ _ hI hans

/-- What the logic says of every program holds of every job, of what is left of it. -/
theorem sat {Φ : ρ → History Op Ans → Op → Prop} {Q : ρ → History Op Ans → α → Prop}
    {E : ρ → History Op Ans → ε → Prop} (hsat : ∀ r, Sat (Φ r) (Q r) (E r) [] (handle r))
    (h0 : ∀ s, init s → s.jobs = []) (h : Trace init (Step answers handle) (s :: past))
    {i : Nat} {job : Job ρ Op Ans ε α} (hjob : s.jobs[i]? = some job) :
    Sat (Φ job.request) (Q job.request) (E job.request) job.history job.prog := by
  refine h.invariant (I := fun s => ∀ i job, s.jobs[i]? = some job →
    Sat (Φ job.request) (Q job.request) (E job.request) job.history job.prog) ?_ ?_ i job hjob
  · intro s hs i job hjob
    rw [h0 s hs] at hjob
    cases hjob
  · intro s s' hI hstep i job' hjob'
    rcases hstep.job_cases hjob' with hjob | ⟨r, rfl⟩ | ⟨job, op, k, answer, hjob, hprog, -, rfl⟩
    · exact hI i job' hjob
    · exact hsat r
    · have := hI i job hjob
      rw [hprog] at this
      exact this.2 answer

/-- The step of the trace that answered a call of a job. -/
theorem answered_step (h0 : ∀ s, init s → s.jobs = []) (h : Trace init (Step answers handle) (s :: past))
    {i : Nat} {job : Job ρ Op Ans ε α} (hjob : s.jobs[i]? = some job) {h₁ h₂ : History Op Ans}
    {op : Op} {answer : Ans op} (hhist : job.history = h₁ ++ ⟨op, answer⟩ :: h₂) :
    ∃ s₁ s₂ past₁ k, s₂ :: s₁ :: past₁ <:+ s :: past ∧ s₁.jobs[i]? = some ⟨job.request, h₁, .call op k⟩ ∧
      answers s₁.shared op answer s₂.shared ∧ s₂.jobs[i]? = some ⟨job.request, h₁ ++ [⟨op, answer⟩], k answer⟩ := by
  generalize htrace : s :: past = trace at h
  induction h generalizing s past job h₂ with
  | start hinit => cases htrace; rw [h0 _ hinit] at hjob; cases hjob
  | @next s₁ s' past' hpast hstep ih =>
    obtain ⟨rfl, rfl⟩ := List.cons.inj htrace
    rcases hstep.job_cases hjob with hold | ⟨r, rfl⟩ | ⟨old, op', k, answer', hold, hprog, hans, rfl⟩
    · rcases ih hold hhist rfl with ⟨a, b, past₁, k, hsuf, hk⟩
      exact ⟨a, b, past₁, k, hsuf.trans (List.suffix_cons _ _), hk⟩
    · simp at hhist
    · -- the call is the one this step answers, or one before it
      rcases List.eq_nil_or_concat h₂ with rfl | ⟨h₂, last, rfl⟩
      · obtain ⟨rfl, hcall⟩ := List.append_inj' hhist rfl
        cases hcall
        exact ⟨s₁, s, past', k, List.suffix_rfl, by rw [← hprog]; exact hold, hans, hjob⟩
      · rw [List.concat_eq_append, ← List.cons_append, ← List.append_assoc] at hhist
        obtain ⟨hhist, -⟩ := List.append_inj' hhist rfl
        rcases ih hold hhist rfl with ⟨a, b, past₁, k, hsuf, hk⟩
        exact ⟨a, b, past₁, k, hsuf.trans (List.suffix_cons _ _), hk⟩

theorem answered (h0 : ∀ s, init s → s.jobs = []) (h : Trace init (Step answers handle) (s :: past))
    {i : Nat} {job : Job ρ Op Ans ε α} (hjob : s.jobs[i]? = some job) {h₁ h₂ : History Op Ans}
    {op : Op} {answer : Ans op} (hhist : job.history = h₁ ++ ⟨op, answer⟩ :: h₂) :
    ∃ s₁ ∈ past, ∃ s₂ ∈ s :: past, ∃ k, s₁.jobs[i]? = some ⟨job.request, h₁, .call op k⟩ ∧
      answers s₁.shared op answer s₂.shared := by
  rcases answered_step h0 h hjob hhist with ⟨s₁, s₂, past₁, k, hsuf, hk, hans, -⟩
  have hpast : s₁ :: past₁ <:+ past := by
    rcases List.suffix_cons_iff.1 hsuf with heq | htail
    · rw [← (List.cons.inj heq).2]
    · exact (List.suffix_cons _ _).trans htail
  exact ⟨s₁, hpast.subset (List.mem_cons_self ..), s₂, hsuf.subset (List.mem_cons_self ..), k, hk, hans⟩

/-- So every call a job has made was one the logic admits there. -/
theorem admitted {Φ : ρ → History Op Ans → Op → Prop} {Q : ρ → History Op Ans → α → Prop}
    {E : ρ → History Op Ans → ε → Prop} (hsat : ∀ r, Sat (Φ r) (Q r) (E r) [] (handle r))
    (h0 : ∀ s, init s → s.jobs = []) (h : Trace init (Step answers handle) (s :: past))
    {i : Nat} {job : Job ρ Op Ans ε α} (hjob : s.jobs[i]? = some job) {h₁ h₂ : History Op Ans}
    {op : Op} {answer : Ans op} (hhist : job.history = h₁ ++ ⟨op, answer⟩ :: h₂) : Φ job.request h₁ op := by
  rcases answered h0 h hjob hhist with ⟨s₁, hs₁, -, -, k, hk, -⟩
  rcases h.of_mem (List.mem_cons_of_mem _ hs₁) with ⟨past₁, h₁⟩
  exact (sat hsat h0 h₁ hk).1

/-- What every call may only add to has grown since any moment of the run. -/
theorem shared_grows {R : σ → σ → Prop} (hrefl : ∀ w, R w w) (htrans : ∀ u v w, R u v → R v w → R u w)
    (hans : ∀ w op answer w', answers w op answer w' → R w w') (h : Trace init (Step answers handle) (s :: past))
    {s₁ : Pool σ ρ Op Ans ε α} (hs₁ : s₁ ∈ s :: past) : R s₁.shared s.shared := by
  generalize htrace : s :: past = trace at h
  induction h generalizing s past with
  | start hinit =>
    cases htrace
    cases List.mem_singleton.1 hs₁
    exact hrefl _
  | @next s' s past' hpast hstep ih =>
    obtain ⟨rfl, rfl⟩ := List.cons.inj htrace
    rcases List.mem_cons.1 hs₁ with rfl | hs₁
    · exact hrefl _
    · refine htrans _ _ _ (ih hs₁ rfl) ?_
      rcases hstep.shared_cases with heq | ⟨_, _, _, _, _, -, -, h', -⟩
      · rw [heq]
        exact hrefl _
      · exact hans _ _ _ _ h'

end Pool

/-! ### A program alone -/

section Ends

variable (answers : σ → (op : Op) → Ans op → σ → Prop)

/-- Whatever the answers are, there is always one, and the program ends with `P`. -/
def Ends (P : σ → History Op Ans → Except ε α → Prop) : σ → History Op Ans → Prog Op Ans ε α → Prop
  | s, h, .ret a => P s h (.ok a)
  | s, h, .raise e => P s h (.error e)
  | s, h, .call op k =>
    (∃ answer s', answers s op answer s') ∧
      ∀ answer s', answers s op answer s' → Ends P s' (h ++ [⟨op, answer⟩]) (k answer)

variable {answers} {P P' : σ → History Op Ans → Except ε α → Prop} {s : σ} {h : History Op Ans}

theorem Ends.mono {p : Prog Op Ans ε α} (hp : Ends answers P s h p) (hP : ∀ s h r, P s h r → P' s h r) :
    Ends answers P' s h p := by
  induction p generalizing s h with
  | ret a => exact hP _ _ _ hp
  | raise e => exact hP _ _ _ hp
  | call op k ih => exact ⟨hp.1, fun answer s' hans => ih answer (hp.2 answer s' hans)⟩

@[simp] theorem ends_ofExcept {r : Except ε α} : Ends answers P s h (ofExcept r) ↔ P s h r := by
  cases r <;> rfl

@[simp] theorem ends_bind {p : Prog Op Ans ε α} {f : α → Prog Op Ans ε β}
    {P : σ → History Op Ans → Except ε β → Prop} :
    Ends answers P s h (p >>= f) ↔
      Ends answers (fun s h r => match r with
        | .ok a => Ends answers P s h (f a)
        | .error e => P s h (.error e)) s h p := by
  show Ends answers P s h (p.bind f) ↔ _
  induction p generalizing s h with
  | ret a => rfl
  | raise e => rfl
  | call op k ih =>
    exact and_congr_right fun _ => forall_congr' fun answer => forall_congr' fun s' => imp_congr_right fun _ =>
      ih answer

@[simp] theorem ends_attempt {ε' : Type} {p : Prog Op Ans ε α} {P : σ → History Op Ans → Except ε' (Except ε α) → Prop} :
    Ends answers P s h p.attempt ↔ Ends answers (fun s h r => P s h (.ok r)) s h p := by
  induction p generalizing s h with
  | ret a => rfl
  | raise e => rfl
  | call op k ih =>
    exact and_congr_right fun _ => forall_congr' fun answer => forall_congr' fun s' => imp_congr_right fun _ =>
      ih answer

/-! One ending of the program, followed call by call. -/

theorem Ends.exists_answer {p : Prog Op Ans ε α} {op : Op} {a : Ans op} {seg : History Op Ans} {r : Except ε α}
    (hp : Ends answers P s h p) (hr : p.Returns (⟨op, a⟩ :: seg) r) : ∃ answer s', answers s op answer s' := by
  cases hr with
  | call _ => exact hp.1

theorem Ends.step {p : Prog Op Ans ε α} {op : Op} {a : Ans op} {seg : History Op Ans} {r : Except ε α} {s' : σ}
    (hp : Ends answers P s h p) (hr : p.Returns (⟨op, a⟩ :: seg) r) (ha : answers s op a s') :
    ∃ q : Prog Op Ans ε α, Ends answers P s' (h ++ [⟨op, a⟩]) q ∧ q.Returns seg r := by
  cases hr with
  | call hr => exact ⟨_, hp.2 a s' ha, hr⟩

theorem Ends.end {p : Prog Op Ans ε α} {r : Except ε α} (hp : Ends answers P s h p) (hr : p.Returns [] r) : P s h r := by
  cases hr with
  | ret a => exact hp
  | raise e => exact hp

/-- From partial to total: where the logic admits a call, the environment answers it. -/
theorem Prog.Sat.ends {Φ : History Op Ans → Op → Prop} {Q : History Op Ans → α → Prop}
    {E : History Op Ans → ε → Prop} {J : σ → History Op Ans → Prop} {p : Prog Op Ans ε α}
    (hp : Sat Φ Q E h p) (hans : ∀ s h op, J s h → Φ h op → ∃ answer s', answers s op answer s')
    (hJ : ∀ s h op answer s', J s h → Φ h op → answers s op answer s' → J s' (h ++ [⟨op, answer⟩])) (hs : J s h) :
    Ends answers (fun s h r => J s h ∧ match r with | .ok a => Q h a | .error e => E h e) s h p := by
  induction p generalizing s h with
  | ret a => exact ⟨hs, hp⟩
  | raise e => exact ⟨hs, hp⟩
  | call op k ih =>
    exact ⟨hans s h op hs hp.1, fun answer s' h' => ih answer (hp.2 answer) (hJ s h op answer s' hs hp.1 h')⟩

end Ends
