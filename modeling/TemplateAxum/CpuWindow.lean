import TemplateAxum.Lib.Bisect
import Mathlib.Algebra.Order.Round
import Mathlib.Data.Rat.Floor
import Mathlib.Tactic.FieldSimp
import Mathlib.Tactic.Linarith
import Mathlib.Tactic.Positivity

/-!
# CPU over a window

`counter_at` and `window_usage` of the perf tests' `cpu.rs`, with `f64` as exact rationals. A counter is read
between two samples by linear interpolation; whatever could go wrong in a step (an index, a subtraction of
unsigned integers, a division) is a `Panic`.
-/

namespace TemplateAxum.Perf

structure CpuStat where
  usageUsec : Nat
  userUsec : Nat
  systemUsec : Nat
  nrThrottled : Nat
  throttledUsec : Nat
deriving DecidableEq

structure Sample where
  unixMs : Nat
  stat : CpuStat
deriving DecidableEq

structure CpuUsage where
  cpuS : ℚ
  userS : ℚ
  systemS : ℚ
  nrThrottled : Nat
  throttledS : ℚ
  samples : Nat
deriving DecidableEq

inductive Panic
  | indexOutOfRange | subtractWithOverflow | divideByZero
deriving DecidableEq

def index (samples : List Sample) (i : Nat) : Except Panic Sample :=
  match samples[i]? with
  | some s => .ok s
  | none => .error .indexOutOfRange

def sub (a b : Nat) : Except Panic Nat := if b ≤ a then .ok (a - b) else .error .subtractWithOverflow

def div (a b : ℚ) : Except Panic ℚ := if b = 0 then .error .divideByZero else .ok (a / b)

/-- Behind the check of the range. -/
def bracket (samples : List Sample) (atMs : Nat) (pick : CpuStat → Nat) : Except Panic (Option ℚ) := do
  let hiIdx := Bisect.partitionPoint (fun s => s.unixMs < atMs) samples
  let hi ← index samples hiIdx
  if hi.unixMs = atMs ∨ hiIdx = 0 then
    return some (pick hi.stat)
  let lo ← index samples (← sub hiIdx 1)
  let elapsed ← sub atMs lo.unixMs
  let span ← sub hi.unixMs lo.unixMs
  let fraction ← div elapsed span
  let a : ℚ := pick lo.stat
  let b : ℚ := pick hi.stat
  return some (a + (b - a) * fraction)

def counterAt (samples : List Sample) (atMs : Nat) (pick : CpuStat → Nat) : Except Panic (Option ℚ) :=
  match samples.head?, samples.getLast? with
  | some first, some last =>
    if atMs < first.unixMs ∨ atMs > last.unixMs then .ok none else bracket samples atMs pick
  | _, _ => .ok none

def delta (samples : List Sample) (startMs endMs : Nat) (pick : CpuStat → Nat) : Except Panic (Option ℚ) := do
  match ← counterAt samples startMs pick with
  | none => return none
  | some start =>
    match ← counterAt samples endMs pick with
    | none => return none
    | some stop => return some (max (stop - start) 0)

def windowUsage (samples : List Sample) (startMs endMs : Nat) : Except Panic (Option CpuUsage) := do
  if endMs < startMs then
    return none
  let some cpu ← delta samples startMs endMs CpuStat.usageUsec | return none
  let some user ← delta samples startMs endMs CpuStat.userUsec | return none
  let some system ← delta samples startMs endMs CpuStat.systemUsec | return none
  let some nrThrottled ← delta samples startMs endMs CpuStat.nrThrottled | return none
  let some throttled ← delta samples startMs endMs CpuStat.throttledUsec | return none
  return some ⟨cpu / 1000000, user / 1000000, system / 1000000, (round nrThrottled).toNat, throttled / 1000000, samples.length⟩

example : (windowUsage [⟨1000, 0, 0, 0, 0, 0⟩, ⟨2000, 1500000, 0, 0, 0, 0⟩] 1250 1750) =
    .ok (some ⟨3 / 4, 0, 0, 0, 0, 2⟩) := by decide +kernel

/-! ### The samples around an instant -/

/-- The instant is not before the first sample, nor after the last one. -/
def Covered (samples : List Sample) (atMs : Nat) : Prop :=
  (∃ s ∈ samples, s.unixMs ≤ atMs) ∧ ∃ s ∈ samples, atMs ≤ s.unixMs

def Sorted (samples : List Sample) : Prop := samples.Pairwise fun s t => s.unixMs ≤ t.unixMs

/-- The counter does not go backwards. -/
def Rising (pick : CpuStat → Nat) (samples : List Sample) : Prop := samples.Pairwise fun s t => pick s.stat ≤ pick t.stat

/-- `hi` is the first sample that is not before the instant. -/
structure Around (samples : List Sample) (atMs : Nat) (before : List Sample) (hi : Sample) (after : List Sample) : Prop where
  split : samples = before ++ hi :: after
  below : ∀ s ∈ before, s.unixMs < atMs
  above : atMs ≤ hi.unixMs

def interpolate (lo hi : Sample) (atMs : Nat) (pick : CpuStat → Nat) : ℚ :=
  pick lo.stat + ((pick hi.stat : ℚ) - pick lo.stat) * (((atMs : ℚ) - lo.unixMs) / ((hi.unixMs : ℚ) - lo.unixMs))

/-- The counter on a line from the last sample before the instant. -/
def value (before : List Sample) (hi : Sample) (atMs : Nat) (pick : CpuStat → Nat) : ℚ :=
  if hi.unixMs = atMs then pick hi.stat else before.getLast?.elim (pick hi.stat : ℚ) fun lo => interpolate lo hi atMs pick

variable {samples before before' after after' : List Sample} {lo hi hi' : Sample} {atMs atMs' : Nat} {pick : CpuStat → Nat}

theorem exists_around (h : ∃ s ∈ samples, atMs ≤ s.unixMs) : ∃ before hi after, Around samples atMs before hi after := by
  induction samples with
  | nil => simp at h
  | cons s samples ih =>
    by_cases hs : atMs ≤ s.unixMs
    · exact ⟨[], s, samples, rfl, by simp, hs⟩
    · obtain ⟨t, ht, hle⟩ := h
      rcases List.mem_cons.1 ht with rfl | ht
      · exact absurd hle hs
      · obtain ⟨before, hi, after, hsplit, hbelow, habove⟩ := ih ⟨t, ht, hle⟩
        refine ⟨s :: before, hi, after, by rw [hsplit]; rfl, ?_, habove⟩
        intro u hu
        rcases List.mem_cons.1 hu with rfl | hu
        · omega
        · exact hbelow u hu

theorem Around.le_of_mem_after (hsorted : Sorted samples) (h : Around samples atMs before hi after) {s : Sample}
    (hs : s ∈ after) : atMs ≤ s.unixMs := by
  have hrel := hsorted
  rw [h.split] at hrel
  exact h.above.trans ((List.pairwise_cons.1 (List.pairwise_append.1 hrel).2.1).1 s hs)

theorem Around.partitionPoint_eq (hsorted : Sorted samples) (h : Around samples atMs before hi after) :
    Bisect.partitionPoint (fun s => s.unixMs < atMs) samples = before.length := by
  rw [h.split]
  refine Bisect.partitionPoint_eq (fun s hs => by simpa using h.below s hs) fun s hs => ?_
  rcases List.mem_cons.1 hs with rfl | hs
  · simpa using h.above
  · simpa using h.le_of_mem_after hsorted hs

theorem ok_bind {α β : Type} (a : α) (f : α → Except Panic β) : (Except.ok a >>= f) = f a := rfl

/-- No step goes wrong. -/
theorem bracket_eq (hsorted : Sorted samples) (h : Around samples atMs before hi after) :
    bracket samples atMs pick = .ok (some (value before hi atMs pick)) := by
  have hhi : index samples before.length = .ok hi := by simp [index, h.split]
  unfold bracket
  simp only [h.partitionPoint_eq hsorted, hhi, value]
  rcases List.eq_nil_or_concat before with rfl | ⟨front, lo, rfl⟩
  · simp
  · have hlo : index samples front.length = .ok lo := by simp [index, h.split]
    have hlt : lo.unixMs < atMs := h.below lo (by simp)
    have habove := h.above
    have hsub : sub (front.length + 1) 1 = .ok front.length := by simp [sub]
    have helapsed : sub atMs lo.unixMs = .ok (atMs - lo.unixMs) := if_pos hlt.le
    have hspan : sub hi.unixMs lo.unixMs = .ok (hi.unixMs - lo.unixMs) := if_pos (by omega)
    have hne : ((hi.unixMs - lo.unixMs : Nat) : ℚ) ≠ 0 := by
      have : hi.unixMs - lo.unixMs ≠ 0 := by omega
      exact_mod_cast this
    have hdiv : div ((atMs - lo.unixMs : Nat) : ℚ) ((hi.unixMs - lo.unixMs : Nat) : ℚ) =
        .ok (((atMs : ℚ) - lo.unixMs) / ((hi.unixMs : ℚ) - lo.unixMs)) := by
      rw [div, if_neg hne, Nat.cast_sub hlt.le, Nat.cast_sub (by omega)]
    by_cases heq : hi.unixMs = atMs
    · simp [heq, ok_bind]
      rfl
    · simp [heq, ok_bind, hsub, hlo, helapsed, hspan, hdiv, interpolate]

theorem Sorted.head_le (hsorted : Sorted samples) {first : Sample} (hfirst : samples.head? = some first) {s : Sample}
    (hs : s ∈ samples) : first.unixMs ≤ s.unixMs := by
  obtain ⟨tail, rfl⟩ := List.head?_eq_some_iff.1 hfirst
  rcases List.mem_cons.1 hs with rfl | hs
  · exact le_rfl
  · exact (List.pairwise_cons.1 hsorted).1 s hs

theorem Sorted.le_getLast (hsorted : Sorted samples) {last : Sample} (hlast : samples.getLast? = some last) {s : Sample}
    (hs : s ∈ samples) : s.unixMs ≤ last.unixMs := by
  obtain ⟨front, rfl⟩ := List.getLast?_eq_some_iff.1 hlast
  rcases List.mem_append.1 hs with hs | hs
  · exact (List.pairwise_append.1 hsorted).2.2 s hs last (List.mem_singleton_self _)
  · rw [List.mem_singleton.1 hs]

theorem counterAt_of_not_covered (h : ¬ Covered samples atMs) :
    counterAt samples atMs pick = .ok none := by
  unfold counterAt
  cases hfirst : samples.head? with
  | none => rfl
  | some first =>
    cases hlast : samples.getLast? with
    | none => rfl
    | some last =>
      refine if_pos ?_
      by_contra hin
      push Not at hin
      exact h ⟨⟨first, List.mem_of_head? hfirst, hin.1⟩, ⟨last, List.mem_of_getLast? hlast, hin.2⟩⟩

theorem counterAt_of_covered (hsorted : Sorted samples) (h : Covered samples atMs) (haround : Around samples atMs before hi after) :
    counterAt samples atMs pick = .ok (some (value before hi atMs pick)) := by
  rw [← bracket_eq hsorted haround]
  obtain ⟨⟨s, hs, hle⟩, ⟨t, ht, hge⟩⟩ := h
  obtain ⟨first, hfirst⟩ : ∃ first, samples.head? = some first := by
    cases samples with
    | nil => cases hs
    | cons first tail => exact ⟨first, rfl⟩
  obtain ⟨last, hlast⟩ : ∃ last, samples.getLast? = some last := by
    cases hlast : samples.getLast? with
    | none => rw [List.getLast?_eq_none_iff.1 hlast] at hs; cases hs
    | some last => exact ⟨last, rfl⟩
  have hlow := hsorted.head_le hfirst hs
  have hhigh := hsorted.le_getLast hlast ht
  rw [counterAt, hfirst, hlast]
  refine if_neg ?_
  omega

/-! ### Between two samples -/

theorem interpolate_mono (hpick : pick lo.stat ≤ pick hi.stat) (hlt : lo.unixMs < hi.unixMs) (h : atMs ≤ atMs') :
    interpolate lo hi atMs pick ≤ interpolate lo hi atMs' pick := by
  have hpick : (0 : ℚ) ≤ (pick hi.stat : ℚ) - pick lo.stat := sub_nonneg.2 (by exact_mod_cast hpick)
  have hspan : (0 : ℚ) < (hi.unixMs : ℚ) - lo.unixMs := sub_pos.2 (by exact_mod_cast hlt)
  have hat : (atMs : ℚ) - lo.unixMs ≤ (atMs' : ℚ) - lo.unixMs := sub_le_sub_right (by exact_mod_cast h) _
  unfold interpolate
  gcongr

theorem interpolate_left : interpolate lo hi lo.unixMs pick = pick lo.stat := by simp [interpolate]

theorem interpolate_right (hlt : lo.unixMs < hi.unixMs) : interpolate lo hi hi.unixMs pick = pick hi.stat := by
  have hspan : (hi.unixMs : ℚ) - lo.unixMs ≠ 0 := sub_ne_zero.2 (by exact_mod_cast hlt.ne')
  rw [interpolate, div_self hspan]
  ring

/-- A reading lies between the counters before it and the next one. -/
theorem value_bounds (hrising : Rising pick samples) (h : Around samples atMs before hi after) :
    (∀ s ∈ before, (pick s.stat : ℚ) ≤ value before hi atMs pick) ∧ value before hi atMs pick ≤ pick hi.stat := by
  have hrel := hrising
  rw [h.split] at hrel
  obtain ⟨hfront, -, hcross⟩ := List.pairwise_append.1 hrel
  have hhi : ∀ s ∈ before, pick s.stat ≤ pick hi.stat := fun s hs => hcross s hs hi List.mem_cons_self
  unfold value
  split
  · exact ⟨fun s hs => by exact_mod_cast hhi s hs, le_rfl⟩
  · rcases List.eq_nil_or_concat before with rfl | ⟨front, lo, rfl⟩
    · simp
    · have hlt : lo.unixMs < atMs := h.below lo (by simp)
      have hspan : lo.unixMs < hi.unixMs := hlt.trans_le h.above
      have hpick : pick lo.stat ≤ pick hi.stat := hhi lo (by simp)
      have hlast : (front ++ [lo]).getLast? = some lo := by simp
      simp only [List.concat_eq_append, hlast, Option.elim_some]
      refine ⟨fun s hs => ?_, ?_⟩
      · have hs_le : pick s.stat ≤ pick lo.stat := by
          rcases List.mem_append.1 hs with hs | hs
          · rw [List.concat_eq_append] at hfront
            exact (List.pairwise_append.1 hfront).2.2 s hs lo (List.mem_singleton_self _)
          · rw [List.mem_singleton.1 hs]
        calc (pick s.stat : ℚ) ≤ pick lo.stat := by exact_mod_cast hs_le
          _ = interpolate lo hi lo.unixMs pick := interpolate_left.symm
          _ ≤ interpolate lo hi atMs pick := interpolate_mono hpick hspan hlt.le
      · calc interpolate lo hi atMs pick ≤ interpolate lo hi hi.unixMs pick := interpolate_mono hpick hspan h.above
          _ = pick hi.stat := interpolate_right hspan

theorem value_mono_of_same (hrising : Rising pick samples) (h : Around samples atMs before hi after)
    (h' : Around samples atMs' before hi after) (hle : atMs ≤ atMs') : value before hi atMs pick ≤ value before hi atMs' pick := by
  by_cases hat : hi.unixMs = atMs'
  · calc value before hi atMs pick ≤ pick hi.stat := (value_bounds hrising h).2
      _ = value before hi atMs' pick := (if_pos hat).symm
  · have habove := h'.above
    have hne : hi.unixMs ≠ atMs := by omega
    rw [value, value, if_neg hne, if_neg hat]
    rcases List.eq_nil_or_concat before with rfl | ⟨front, lo, rfl⟩
    · exact le_rfl
    · have hlt : lo.unixMs < atMs := h.below lo (by simp)
      have hlast : (front.concat lo).getLast? = some lo := by simp
      have hrel := hrising
      rw [h.split] at hrel
      have hpick : pick lo.stat ≤ pick hi.stat := (List.pairwise_append.1 hrel).2.2 lo (by simp) hi List.mem_cons_self
      rw [hlast]
      exact interpolate_mono hpick (hlt.trans_le h.above) hle

theorem value_mono (hrising : Rising pick samples) (h : Around samples atMs before hi after)
    (h' : Around samples atMs' before' hi' after') (hle : atMs ≤ atMs') :
    value before hi atMs pick ≤ value before' hi' atMs' pick := by
  obtain ⟨hlower', hupper'⟩ := value_bounds hrising h'
  obtain ⟨hlower, hupper⟩ := value_bounds hrising h
  have hsplit : before ++ hi :: after = before' ++ hi' :: after' := h.split.symm.trans h'.split
  rcases List.append_eq_append_iff.1 hsplit with ⟨middle, rfl, hmiddle⟩ | ⟨middle, rfl, hmiddle⟩
  · cases middle with
    | nil =>
      -- the same two samples
      simp only [List.nil_append, List.cons.injEq] at hmiddle
      obtain ⟨rfl, rfl⟩ := hmiddle
      rw [List.append_nil] at h' ⊢
      exact value_mono_of_same hrising h h' hle
    | cons s middle =>
      simp only [List.cons_append, List.cons.injEq] at hmiddle
      obtain ⟨rfl, -⟩ := hmiddle
      exact hupper.trans (hlower' hi (by simp))
  · cases middle with
    | nil =>
      simp only [List.nil_append, List.cons.injEq] at hmiddle
      obtain ⟨rfl, rfl⟩ := hmiddle
      rw [List.append_nil] at h ⊢
      exact value_mono_of_same hrising h h' hle
    | cons s middle =>
      simp only [List.cons_append, List.cons.injEq] at hmiddle
      obtain ⟨rfl, -⟩ := hmiddle
      have := h.below hi' (by simp)
      have := h'.above
      omega

/-! ### Windows -/

/-- What a covered instant reads. -/
def reading (samples : List Sample) (atMs : Nat) (pick : CpuStat → Nat) : ℚ :=
  ((counterAt samples atMs pick).toOption.bind id).getD 0

theorem reading_eq (hsorted : Sorted samples) (h : Covered samples atMs) (haround : Around samples atMs before hi after) :
    reading samples atMs pick = value before hi atMs pick := by
  rw [reading, counterAt_of_covered hsorted h haround]
  rfl

theorem counterAt_eq_reading (hsorted : Sorted samples) (h : Covered samples atMs) (pick : CpuStat → Nat) :
    counterAt samples atMs pick = .ok (some (reading samples atMs pick)) := by
  obtain ⟨before, hi, after, haround⟩ := exists_around h.2
  rw [reading_eq hsorted h haround, counterAt_of_covered hsorted h haround]

theorem reading_mono (hsorted : Sorted samples) (hrising : Rising pick samples) (h : Covered samples atMs)
    (h' : Covered samples atMs') (hle : atMs ≤ atMs') : reading samples atMs pick ≤ reading samples atMs' pick := by
  obtain ⟨before, hi, after, haround⟩ := exists_around h.2
  obtain ⟨before', hi', after', haround'⟩ := exists_around h'.2
  rw [reading_eq hsorted h haround, reading_eq hsorted h' haround']
  exact value_mono hrising haround haround' hle

theorem reading_first (hsorted : Sorted samples) {s : Sample} (hsplit : samples = before ++ s :: after)
    (hfirst : ∀ t ∈ before, t.unixMs ≠ s.unixMs) :
    Covered samples s.unixMs ∧ reading samples s.unixMs pick = pick s.stat := by
  have hmem : s ∈ samples := by simp [hsplit]
  have hcovered : Covered samples s.unixMs := ⟨⟨s, hmem, le_rfl⟩, ⟨s, hmem, le_rfl⟩⟩
  have hrel := hsorted
  rw [hsplit] at hrel
  have haround : Around samples s.unixMs before s after :=
    ⟨hsplit, fun t ht => lt_of_le_of_ne ((List.pairwise_append.1 hrel).2.2 t ht s List.mem_cons_self) (hfirst t ht), le_rfl⟩
  refine ⟨hcovered, ?_⟩
  rw [reading_eq hsorted hcovered haround]
  exact if_pos rfl

theorem reading_between (hsorted : Sorted samples) (hrising : Rising pick samples) (hsplit : samples = before ++ lo :: hi :: after)
    (hlo : lo.unixMs < atMs) (hhi : atMs < hi.unixMs) :
    Covered samples atMs ∧ reading samples atMs pick = interpolate lo hi atMs pick ∧
      (pick lo.stat : ℚ) ≤ reading samples atMs pick ∧ reading samples atMs pick ≤ pick hi.stat := by
  have hcovered : Covered samples atMs := ⟨⟨lo, by simp [hsplit], hlo.le⟩, ⟨hi, by simp [hsplit], hhi.le⟩⟩
  have hrel := hsorted
  rw [hsplit] at hrel
  have haround : Around samples atMs (before ++ [lo]) hi after := by
    refine ⟨by simp [hsplit], fun s hs => ?_, hhi.le⟩
    rcases List.mem_append.1 hs with hs | hs
    · exact ((List.pairwise_append.1 hrel).2.2 s hs lo List.mem_cons_self).trans_lt hlo
    · rwa [List.mem_singleton.1 hs]
  obtain ⟨hlower, hupper⟩ := value_bounds hrising haround
  rw [reading_eq hsorted hcovered haround]
  refine ⟨hcovered, ?_, hlower lo (by simp), hupper⟩
  rw [value, if_neg hhi.ne', List.getLast?_append, List.getLast?_singleton]
  rfl

theorem delta_eq (hsorted : Sorted samples) (hrising : Rising pick samples) (h : Covered samples atMs)
    (h' : Covered samples atMs') (hle : atMs ≤ atMs') :
    delta samples atMs atMs' pick = .ok (some (reading samples atMs' pick - reading samples atMs pick)) := by
  have hmono := reading_mono hsorted hrising h h' hle
  rw [delta, counterAt_eq_reading hsorted h, ok_bind]
  dsimp only
  rw [counterAt_eq_reading hsorted h', ok_bind]
  dsimp only
  rw [max_eq_left (sub_nonneg.2 hmono)]
  rfl

/-- No counter goes backwards. -/
structure Counting (samples : List Sample) : Prop where
  usage : Rising CpuStat.usageUsec samples
  user : Rising CpuStat.userUsec samples
  system : Rising CpuStat.systemUsec samples
  nrThrottled : Rising CpuStat.nrThrottled samples
  throttled : Rising CpuStat.throttledUsec samples

theorem windowUsage_eq (hsorted : Sorted samples) (hcounting : Counting samples) (h : Covered samples atMs)
    (h' : Covered samples atMs') (hle : atMs ≤ atMs') : windowUsage samples atMs atMs' = .ok (some
      { cpuS := (reading samples atMs' CpuStat.usageUsec - reading samples atMs CpuStat.usageUsec) / 1000000
        userS := (reading samples atMs' CpuStat.userUsec - reading samples atMs CpuStat.userUsec) / 1000000
        systemS := (reading samples atMs' CpuStat.systemUsec - reading samples atMs CpuStat.systemUsec) / 1000000
        nrThrottled := (round (reading samples atMs' CpuStat.nrThrottled - reading samples atMs CpuStat.nrThrottled)).toNat
        throttledS := (reading samples atMs' CpuStat.throttledUsec - reading samples atMs CpuStat.throttledUsec) / 1000000
        samples := samples.length }) := by
  rw [windowUsage, if_neg (Nat.not_lt.2 hle), delta_eq hsorted hcounting.usage h h' hle,
    delta_eq hsorted hcounting.user h h' hle, delta_eq hsorted hcounting.system h h' hle,
    delta_eq hsorted hcounting.nrThrottled h h' hle, delta_eq hsorted hcounting.throttled h h' hle]
  rfl

theorem Covered.between (h : Covered samples atMs) {mid stop : Nat} (hstop : Covered samples stop) (hle : atMs ≤ mid)
    (hle' : mid ≤ stop) : Covered samples mid :=
  ⟨h.1.imp fun _ hs => ⟨hs.1, hs.2.trans hle⟩, hstop.2.imp fun _ hs => ⟨hs.1, hle'.trans hs.2⟩⟩

/-- A counter is read without a panic, and so that windows that meet add up. -/
theorem counterAt_exact (hsorted : Sorted samples) :
    (∀ pick, Rising pick samples → ∀ atMs,
      (∃ r, counterAt samples atMs pick = .ok r ∧ (r = none ↔ ¬ Covered samples atMs)) ∧
      (∀ before s after, samples = before ++ s :: after → (∀ t ∈ before, t.unixMs ≠ s.unixMs) →
        counterAt samples s.unixMs pick = .ok (some (pick s.stat : ℚ))) ∧
      (∀ before lo hi after, samples = before ++ lo :: hi :: after → lo.unixMs < atMs → atMs < hi.unixMs →
        counterAt samples atMs pick = .ok (some (interpolate lo hi atMs pick)) ∧
          (pick lo.stat : ℚ) ≤ interpolate lo hi atMs pick ∧ interpolate lo hi atMs pick ≤ pick hi.stat) ∧
      ∀ atMs' v v', atMs ≤ atMs' → counterAt samples atMs pick = .ok (some v) →
        counterAt samples atMs' pick = .ok (some v') → v ≤ v') ∧
    (Counting samples → ∀ a b c, a ≤ b → b ≤ c → Covered samples a → Covered samples c →
      ∃ u u₁ u₂, windowUsage samples a c = .ok (some u) ∧ windowUsage samples a b = .ok (some u₁) ∧
        windowUsage samples b c = .ok (some u₂) ∧ u.cpuS = u₁.cpuS + u₂.cpuS ∧ u.userS = u₁.userS + u₂.userS ∧
        u.systemS = u₁.systemS + u₂.systemS ∧ u.throttledS = u₁.throttledS + u₂.throttledS) := by
  refine ⟨fun pick hrising atMs => ⟨?_, ?_, ?_, ?_⟩, ?_⟩
  · by_cases h : Covered samples atMs
    · exact ⟨_, counterAt_eq_reading hsorted h pick, by simp [h]⟩
    · exact ⟨_, counterAt_of_not_covered h, by simp [h]⟩
  · intro before s after hsplit hfirst
    obtain ⟨hcovered, hread⟩ : _ ∧ reading samples _ pick = _ := reading_first hsorted hsplit hfirst
    rw [counterAt_eq_reading hsorted hcovered, hread]
  · intro before lo hi after hsplit hlo hhi
    obtain ⟨hcovered, hread, hlower, hupper⟩ := reading_between hsorted hrising hsplit hlo hhi
    rw [hread] at hlower hupper
    rw [counterAt_eq_reading hsorted hcovered, hread]
    exact ⟨rfl, hlower, hupper⟩
  · intro atMs' v v' hle hv hv'
    have hcovered : ∀ {instant w}, counterAt samples instant pick = .ok (some w) →
        Covered samples instant ∧ w = reading samples instant pick := by
      intro instant w hw
      by_cases h : Covered samples instant
      · rw [counterAt_eq_reading hsorted h] at hw
        exact ⟨h, (Option.some.inj (Except.ok.inj hw)).symm⟩
      · rw [counterAt_of_not_covered h] at hw
        cases hw
    obtain ⟨h, rfl⟩ := hcovered hv
    obtain ⟨h', rfl⟩ := hcovered hv'
    exact reading_mono hsorted hrising h h' hle
  · intro hcounting a b c hab hbc ha hc
    have hb := ha.between hc hab hbc
    refine ⟨_, _, _, windowUsage_eq hsorted hcounting ha hc (hab.trans hbc), windowUsage_eq hsorted hcounting ha hb hab,
      windowUsage_eq hsorted hcounting hb hc hbc, ?_, ?_, ?_, ?_⟩ <;> ring

/-- Two samples of one instant, and windows that meet there. -/
theorem counterAt_exact_repeated :
    let samples : List Sample := [⟨0, 0, 0, 0, 0, 0⟩, ⟨2, 4, 2, 2, 0, 0⟩, ⟨2, 6, 3, 3, 0, 0⟩, ⟨4, 8, 4, 4, 0, 0⟩]
    ∃ u u₁ u₂, windowUsage samples 1 3 = .ok (some u) ∧ windowUsage samples 1 2 = .ok (some u₁) ∧
      windowUsage samples 2 3 = .ok (some u₂) ∧ u.cpuS = u₁.cpuS + u₂.cpuS := by
  intro samples
  have hsorted : Sorted samples := by simp [samples, Sorted]
  have hcounting : Counting samples := by constructor <;> simp [samples, Rising]
  have hone : Covered samples 1 := ⟨⟨_, List.mem_cons_self, by decide⟩, ⟨⟨2, 4, 2, 2, 0, 0⟩, by simp [samples], by decide⟩⟩
  have hthree : Covered samples 3 := ⟨⟨_, List.mem_cons_self, by decide⟩, ⟨⟨4, 8, 4, 4, 0, 0⟩, by simp [samples], by decide⟩⟩
  obtain ⟨u, u₁, u₂, h, h₁, h₂, hcpu, -⟩ :=
    (counterAt_exact hsorted).2 hcounting 1 2 3 (by decide) (by decide) hone hthree
  exact ⟨u, u₁, u₂, h, h₁, h₂, hcpu⟩

end TemplateAxum.Perf
