import TemplateAxum.Http

/-!
# The rate limiter

`rate_limit.rs`: fixed windows, counted in memory under `Mode::Mock` and by a Redis script otherwise.
-/

namespace TemplateAxum

/-- A reading of the monotonic clock, in nanoseconds. -/
abbrev Instant := Nat

/-- What `check` makes of the count of a window. -/
def RateLimiter.verdict (count limit windowSecs : Nat) : Except AppError Unit :=
  if limit < count then
    .error (.tooManyRequests s!"rate limit exceeded: more than {limit} requests per {windowSecs}s")
  else .ok ()

/-- The mock backend's map: the count of each key, here without a bound, and the start of its window. -/
abbrev Counters := String → Option (Nat × Instant)

/-- One more request under `key`. -/
def Counters.hit (key : String) (windowSecs : Nat) (now : Instant) (store : Counters) : Nat × Counters :=
  let entry := (store key).getD (0, now)
  let entry := if windowSecs * 1000000000 ≤ now - entry.2 then (0, now) else entry
  (entry.1 + 1, fun k => if k = key then some (entry.1 + 1, entry.2) else store k)

/-- The limiter by its `Backend`; what Redis counts is not kept here. -/
inductive RateLimiter
  | redis
  | mock (store : Counters)

namespace RateLimiter

def key (scope clientIp : String) : String := s!"ratelimit:{scope}:{clientIp}"

/-- The answers `check` may give. `INCR` gives at least 1, and a Redis command may fail. -/
def Checks (scope clientIp : String) (limit windowSecs : Nat) :
    RateLimiter → Except AppError Unit → RateLimiter → Prop
  | redis, answer, limiter' =>
    limiter' = redis ∧
      ((∃ err, answer = .error (.internal ("rate limiter: " ++ err))) ∨
        ∃ count, 1 ≤ count ∧ answer = verdict count limit windowSecs)
  | mock store, answer, limiter' =>
    ∃ now, answer = verdict (store.hit (key scope clientIp) windowSecs now).1 limit windowSecs ∧
      limiter' = mock (store.hit (key scope clientIp) windowSecs now).2

variable {scope clientIp : String} {limit windowSecs : Nat} {limiter limiter' : RateLimiter}

theorem verdict_eq_ok {count : Nat} : verdict count limit windowSecs = .ok () ↔ count ≤ limit := by
  unfold verdict
  split
  · rename_i h; simpa using h
  · rename_i h; simpa using h

/-- Some request gets through only under a limit that is not zero. -/
theorem Checks.limit_pos (h : limiter.Checks scope clientIp limit windowSecs (.ok ()) limiter') : 1 ≤ limit := by
  cases limiter with
  | redis =>
    rcases h with ⟨-, ⟨err, h⟩ | ⟨count, hcount, h⟩⟩
    · cases h
    · exact Nat.le_trans hcount (verdict_eq_ok.1 h.symm)
  | mock store =>
    rcases h with ⟨now, h, -⟩
    exact Nat.le_trans (Nat.le_add_left 1 _) (verdict_eq_ok.1 h.symm)

theorem Checks.total (limiter : RateLimiter) (scope clientIp : String) (limit windowSecs : Nat) :
    ∃ answer limiter', limiter.Checks scope clientIp limit windowSecs answer limiter' := by
  cases limiter with
  | redis => exact ⟨_, redis, rfl, .inr ⟨1, Nat.le_refl 1, rfl⟩⟩
  | mock store => exact ⟨_, _, 0, rfl, rfl⟩

/-- A request that comes late enough opens a window of its own. -/
theorem checks_ok (limiter : RateLimiter) (scope clientIp : String) (windowSecs : Nat) (h : 1 ≤ limit) :
    ∃ limiter', limiter.Checks scope clientIp limit windowSecs (.ok ()) limiter' := by
  cases limiter with
  | redis => exact ⟨redis, rfl, .inr ⟨1, Nat.le_refl 1, (verdict_eq_ok.2 h).symm⟩⟩
  | mock store =>
    let entry := (store (key scope clientIp)).getD (0, 0)
    refine ⟨_, entry.2 + windowSecs * 1000000000, (verdict_eq_ok.2 ?_).symm, rfl⟩
    unfold Counters.hit
    cases hentry : store (key scope clientIp) with
    | none => simpa [entry, hentry] using h
    | some e => simpa [entry, hentry] using h

end RateLimiter
end TemplateAxum
