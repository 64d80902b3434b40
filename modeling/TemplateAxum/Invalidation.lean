import TemplateAxum.Lib.Pool

/-!
# The invalidation task

`run_invalidation` of `cache.rs` as a state machine, against an environment that publishes events,
establishes and ends subscriptions and cancels the shutdown token whenever it likes. While the task
waits for the next event, only events still to be delivered have come after the last `invalidate`.
-/

namespace TemplateAxum.Invalidation

variable {α : Type}

/-! ### The machine -/

/-- What happens, in order. -/
inductive Moment (α : Type)
  | published (event : α)
  | established
  | delivered (event : α)
  | invalidate

/-- Where the task stands. `invalidate` is before a call of `invalidate_logged`, `invalidating` in it;
the three other places but the last are the `select!` expressions, in order. -/
inductive Place
  | subscribe | invalidate | invalidating | next | sleep | returned
deriving DecidableEq

/-- The stream of a subscription: the events still to be delivered, and whether more may come. -/
structure Subscription (α : Type) where
  pending : List α
  live : Bool

structure State (α : Type) where
  place : Place
  stream : Option (Subscription α)
  /-- The shutdown token is cancelled. -/
  shutdown : Bool
  history : List (Moment α)

/-- A live subscription takes in what is published. -/
def Subscription.offer (event : α) (stream : Subscription α) : Subscription α :=
  if stream.live then { stream with pending := stream.pending ++ [event] } else stream

def State.add (moment : Moment α) (s : State α) : State α := { s with history := s.history ++ [moment] }

def Initial (s : State α) : Prop := s = ⟨.subscribe, none, false, []⟩

inductive Step : State α → State α → Prop
  -- the environment
  | publish (s : State α) (event : α) :
      Step s ({ s with stream := s.stream.map (Subscription.offer event) }.add (.published event))
  /-- The broker sets the subscription up, before `subscribe_transient` returns. -/
  | establish {s : State α} (hplace : s.place = .subscribe) (hstream : s.stream = none) :
      Step s ({ s with stream := some ⟨[], true⟩ }.add .established)
  /-- The stream ends, and may lose what it has not delivered. -/
  | disconnect {s : State α} {stream : Subscription α} {kept : List α} (hstream : s.stream = some stream)
      (hkept : kept <+: stream.pending) : Step s { s with stream := some ⟨kept, false⟩ }
  | cancel (s : State α) : Step s { s with shutdown := true }
  -- the task
  | subscribed {s : State α} (hplace : s.place = .subscribe) (hstream : s.stream.isSome = true) :
      Step s { s with place := .invalidate }
  | subscribeFailed {s : State α} (hplace : s.place = .subscribe) : Step s { s with place := .sleep, stream := none }
  | invalidate {s : State α} (hplace : s.place = .invalidate) : Step s ({ s with place := .invalidating }.add .invalidate)
  | invalidated {s : State α} (hplace : s.place = .invalidating) : Step s { s with place := .next }
  | deliver {s : State α} {event : α} {rest : List α} {live : Bool} (hplace : s.place = .next)
      (hstream : s.stream = some ⟨event :: rest, live⟩) :
      Step s ({ s with place := .invalidate, stream := some ⟨rest, live⟩ }.add (.delivered event))
  /-- `next_event` returns `None`. -/
  | ended {s : State α} (hplace : s.place = .next) (hstream : s.stream = some ⟨[], false⟩) :
      Step s { s with place := .sleep, stream := none }
  | wake {s : State α} (hplace : s.place = .sleep) : Step s { s with place := .subscribe }
  | stop {s : State α} (hplace : s.place = .subscribe ∨ s.place = .next ∨ s.place = .sleep) (hshutdown : s.shutdown = true) :
      Step s { s with place := .returned, stream := none }

/-! ### The invariant -/

/-- Since the last `invalidate` there have been publications only, of events that a live subscription
has still to deliver. -/
def Caught (s : State α) : Prop :=
  ∃ before after, s.history = before ++ .invalidate :: after ∧ ∀ moment ∈ after, ∃ event, moment = .published event ∧
    ∀ stream, s.stream = some stream → stream.live = true → event ∈ stream.pending

structure Inv (s : State α) : Prop where
  caught : s.place = .invalidating ∨ s.place = .next → Caught s
  stopped : s.place = .returned → s.shutdown = true

variable {s s' : State α}

/-- At the other places nothing is claimed. -/
theorem Inv.elsewhere (h : s.place ≠ .invalidating ∧ s.place ≠ .next ∧ s.place ≠ .returned) : Inv s :=
  ⟨fun hplace => hplace.elim (fun hp => absurd hp h.1) fun hp => absurd hp h.2.1, fun hp => absurd hp h.2.2⟩

theorem Inv.initial (h : Initial s) : Inv s := by
  subst h
  exact .elsewhere (by simp)

/-- The history stays, and a live stream loses nothing. -/
theorem Caught.of_stream (h : Caught s) (hhistory : s'.history = s.history)
    (hstream : ∀ stream', s'.stream = some stream' → stream'.live = true → s.stream = some stream') : Caught s' := by
  rcases h with ⟨before, after, heq, hafter⟩
  refine ⟨before, after, hhistory.trans heq, fun moment hmoment => ?_⟩
  rcases hafter moment hmoment with ⟨event, rfl, hpending⟩
  exact ⟨event, rfl, fun stream' hs hlive => hpending stream' (hstream stream' hs hlive) hlive⟩

theorem Caught.publish (h : Caught s) (event : α) :
    Caught ({ s with stream := s.stream.map (Subscription.offer event) }.add (.published event)) := by
  rcases h with ⟨before, after, heq, hafter⟩
  refine ⟨before, after ++ [.published event], by simp [State.add, heq], fun moment hmoment => ?_⟩
  have offered : ∀ stream', s.stream.map (Subscription.offer event) = some stream' → stream'.live = true →
      ∃ stream, s.stream = some stream ∧ stream.live = true ∧ stream'.pending = stream.pending ++ [event] := by
    intro stream' hs hlive
    rcases Option.map_eq_some_iff.1 hs with ⟨stream, hstream, rfl⟩
    unfold Subscription.offer at hlive ⊢
    split at hlive
    · rename_i hl
      exact ⟨stream, hstream, hl, by rw [if_pos hl]⟩
    · rename_i hl
      exact absurd hlive hl
  rcases List.mem_append.1 hmoment with hmoment | hmoment
  · rcases hafter moment hmoment with ⟨event', rfl, hpending⟩
    refine ⟨event', rfl, fun stream' hs hlive => ?_⟩
    rcases offered stream' hs hlive with ⟨stream, hstream, hl, hpend⟩
    rw [hpend]
    exact List.mem_append_left _ (hpending stream hstream hl)
  · refine ⟨event, List.mem_singleton.1 hmoment, fun stream' hs hlive => ?_⟩
    rcases offered stream' hs hlive with ⟨stream, -, -, hpend⟩
    rw [hpend]
    exact List.mem_append_right _ (List.mem_singleton.2 rfl)

theorem Inv.step (h : Inv s) (hstep : Step s s') : Inv s' := by
  cases hstep with
  | publish event => exact ⟨fun hplace => (h.caught hplace).publish event, h.stopped⟩
  | establish hplace => exact .elsewhere (by simp [State.add, hplace])
  | disconnect hstream hkept =>
    refine ⟨fun hplace => (h.caught hplace).of_stream rfl ?_, h.stopped⟩
    rintro stream' hs hlive
    cases hs
    cases hlive
  | cancel => exact ⟨fun hplace => (h.caught hplace).of_stream rfl fun _ hs _ => hs, fun _ => rfl⟩
  | subscribed => exact .elsewhere (by simp)
  | subscribeFailed => exact .elsewhere (by simp)
  | invalidate hplace =>
    exact ⟨fun _ => ⟨s.history, [], rfl, fun _ hmoment => by cases hmoment⟩, fun hret => by cases hret⟩
  | invalidated hplace => exact ⟨fun _ => (h.caught (.inl hplace)).of_stream rfl fun _ hs _ => hs, fun hret => by cases hret⟩
  | deliver => exact .elsewhere (by simp [State.add])
  | ended => exact .elsewhere (by simp)
  | wake => exact .elsewhere (by simp)
  | stop _ hshutdown =>
    refine ⟨fun hplace => ?_, fun _ => hshutdown⟩
    rcases hplace with hp | hp
    · cases hp
    · cases hp

/-! ### Over all runs -/

variable {past : List (State α)}

theorem Inv.of_run (h : Trace Initial Step (s :: past)) : Inv s :=
  h.invariant (fun _ hs => Inv.initial hs) fun _ _ hinv hstep => hinv.step hstep

/-- What is no publication has been followed by an `invalidate`. -/
theorem Caught.followed (h : Caught s) {before after : List (Moment α)} {moment : Moment α}
    (heq : s.history = before ++ moment :: after) (hnext : .invalidate ∉ after) :
    (∀ m ∈ after, ∃ event, m = .published event) ∧ (moment = .invalidate ∨ ∃ event, moment = .published event ∧
      ∀ stream, s.stream = some stream → stream.live = true → event ∈ stream.pending) := by
  rcases h with ⟨before', after', heq', hafter⟩
  rw [heq] at heq'
  rcases List.append_eq_append_iff.1 heq' with ⟨gap, rfl, hgap⟩ | ⟨gap, rfl, hgap⟩
  · cases gap with
    | nil =>
      obtain ⟨rfl, rfl⟩ := List.cons.inj hgap
      exact ⟨fun m hm => (hafter m hm).imp fun _ he => he.1, .inl rfl⟩
    | cons first gap =>
      obtain ⟨rfl, rfl⟩ := List.cons.inj hgap
      exact absurd (List.mem_append_right _ (List.mem_cons_self ..)) hnext
  · cases gap with
    | nil =>
      obtain ⟨rfl, rfl⟩ := List.cons.inj hgap
      exact ⟨fun m hm => (hafter m hm).imp fun _ he => he.1, .inl rfl⟩
    | cons first gap =>
      obtain ⟨-, rfl⟩ := List.cons.inj hgap
      exact ⟨fun m hm => (hafter m (List.mem_append_right _ (List.mem_cons_of_mem _ hm))).imp fun _ he => he.1,
        .inr (hafter moment (List.mem_append_right _ (List.mem_cons_self ..)))⟩

theorem no_event_escapes (h : Trace Initial Step (s :: past)) :
    (s.place = .next →
      (∀ before after event, s.history = before ++ .published event :: after → .established ∈ after → .invalidate ∈ after) ∧
      (∀ before after event, s.history = before ++ .delivered event :: after → .invalidate ∈ after) ∧
      ∀ before after event, s.history = before ++ .published event :: after → .invalidate ∉ after →
        ∀ stream, s.stream = some stream → stream.live = true → event ∈ stream.pending) ∧
    (s.place = .returned → s.shutdown = true) := by
  have hinv := Inv.of_run h
  refine ⟨fun hplace => ?_, hinv.stopped⟩
  have hcaught := hinv.caught (.inr hplace)
  refine ⟨fun before after event heq hestablished => ?_, fun before after event heq => ?_,
    fun before after event heq hnext => ?_⟩
  · by_contra hnext
    rcases (hcaught.followed heq hnext).1 _ hestablished with ⟨event', hevent⟩
    cases hevent
  · by_contra hnext
    rcases (hcaught.followed heq hnext).2 with hmoment | ⟨event', hmoment, -⟩
    · cases hmoment
    · cases hmoment
  · rcases (hcaught.followed heq hnext).2 with hmoment | ⟨event', hmoment, hpending⟩
    · cases hmoment
    · cases hmoment
      exact hpending

/-- An event published before the first subscription is up. -/
theorem no_event_escapes_first : ∃ (s : State Nat) (past : List (State Nat)), Trace Initial Step (s :: past) ∧
    s.place = .next ∧ s.history = [.published 7, .established, .invalidate] ∧
    .invalidate ∈ [Moment.established, Moment.invalidate (α := Nat)] := by
  have hrun := ((((show Trace Initial Step [(⟨.subscribe, none, false, []⟩ : State Nat)] from .start rfl).next
    (.publish _ 7)).next (.establish rfl rfl)).next (.subscribed rfl rfl)).next (.invalidate rfl)
  have hrun := hrun.next (.invalidated rfl)
  exact ⟨_, _, hrun, rfl, rfl, ((no_event_escapes hrun).1 rfl).1 [] _ 7 rfl (List.mem_cons_self ..)⟩

end TemplateAxum.Invalidation
