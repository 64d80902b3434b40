import Mathlib
import TemplateAxum.CpuWindow
import TemplateAxum.Lib.Double
import TemplateAxum.Lib.StableSort
import TemplateAxum.Lib.Tally

/-!
# The summary of a load test

`build_summary` of the perf tests' `summary.rs`, and the window and the latencies that go into it. Every operation of
`f64` rounds; what would be infinite is written as null. The percentiles of the document are those of all response
times together: for the numbers of requests a run can have, the rounding of the rank is never seen.

The source counts in `u64` and `usize`, the model without a bound. The two are the same as long as all requests of the run
together, and all their milliseconds, are less than `2 ^ 64`.
-/

open Std StableSort

namespace TemplateAxum.Perf

/-- The answer of an operation of `f64` whose exact value is `x`; none is an infinity. -/
def f64 (x : ℚ) : Option ℚ := Js.roundDouble x

/-! ### The window -/

inductive Phase
  | increasing | maintaining | other
deriving DecidableEq

/-- Only `from_history` makes one, and it ends no earlier than it starts. -/
structure Window where
  startMs : Nat
  endMs : Nat
  warmupMs : Nat
  start_le_end : startMs ≤ endMs

namespace Window

def durationS (window : Window) : Option ℚ := do
  let ms ← f64 (window.endMs - window.startMs : Nat)
  f64 (ms / 1000)

def fromHistory (history : List (Phase × Nat)) : Option Window :=
  match history.head?, history.getLast? with
  | some first, some last =>
    let start := ((history.find? fun step => step.1 = .maintaining).map Prod.snd).getD first.2
    some ⟨min start last.2, last.2, start - first.2, Nat.min_le_right start last.2⟩
  | _, _ => none

end Window

/-! ### Percentiles -/

structure EndpointStats where
  method : String
  path : String
  success : Nat
  failed : Nat
  /-- The number of requests that took so many milliseconds. -/
  times : OrdMap Nat Nat
  maxMs : Nat
  totalMs : Nat

def EndpointStats.requests (e : EndpointStats) : Nat := e.success + e.failed

structure RunInfo where
  scenario : String
  mode : String
  users : Nat
  gitSha : String
  imageTag : String
  cpuLimitCores : Option ℚ
  memoryLimitMib : Option ℚ
  cpuSampleIntervalMs : Nat

/-- `ceil() as u64` of what is not negative. -/
def ceilU64 : Option ℚ → Nat
  | none => 2 ^ 64 - 1
  | some x => min ⌈x⌉.toNat (2 ^ 64 - 1)

def percentileLoop (rank : Nat) : Nat → List (Nat × Nat) → Option Nat
  | _, [] => none
  | seen, (ms, count) :: times => if seen + count ≥ rank then some ms else percentileLoop rank (seen + count) times

def percentileMs (times : OrdMap Nat Nat) (q : ℚ) : Option Nat :=
  let total := times.values.sum
  if total = 0 then none
  else
    let rank := ceilU64 do f64 (q * (← f64 total))
    percentileLoop (min (max rank 1) total) 0 times.entries

/-- The literals `0.50`, `0.95` and `0.99` as `f64`. -/
def q50 : ℚ := 1 / 2

def q95 : ℚ := 8556839292003942 / 2 ^ 53

def q99 : ℚ := 8917127262193582 / 2 ^ 53

example : f64 (50 / 100) = some q50 ∧ f64 (95 / 100) = some q95 ∧ f64 (99 / 100) = some q99 := by decide +kernel

structure Latency where
  p50Ms : Option Nat
  p95Ms : Option Nat
  p99Ms : Option Nat
deriving DecidableEq

def latency (times : OrdMap Nat Nat) : Latency :=
  ⟨percentileMs times q50, percentileMs times q95, percentileMs times q99⟩

/-! ### The document -/

/-- Half away from zero. -/
def roundHalfAway (x : ℚ) : ℤ := if 0 ≤ x then ⌊x + 1 / 2⌋ else -⌊1 / 2 - x⌋

def round3 (value : ℚ) : Option ℚ := do
  let scaled ← f64 (value * 1000)
  f64 (roundHalfAway scaled / 1000)

structure CpuSummary where
  cpuS : Option ℚ
  userS : Option ℚ
  systemS : Option ℚ
  cpuMsPerRequest : Option ℚ
  avgCores : Option ℚ
  nrThrottled : Nat
  throttledS : Option ℚ
  samples : Nat
  sampleIntervalMs : Nat
deriving DecidableEq

structure EndpointSummary where
  method : String
  path : String
  requests : Nat
  failed : Nat
  latency : Latency
deriving DecidableEq

structure Summary where
  schemaVersion : Nat
  scenario : String
  mode : String
  gitSha : String
  imageTag : String
  users : Nat
  warmupS : Option ℚ
  durationS : Option ℚ
  requests : Nat
  requestsSuccess : Nat
  errors : Nat
  errorRate : Option ℚ
  rps : Option ℚ
  meanMs : Option ℚ
  maxMs : Nat
  cpu : Option CpuSummary
  cpuLimitCores : Option ℚ
  memoryLimitMib : Option ℚ
  endpoints : List EndpointSummary
  latency : Latency
deriving DecidableEq

def schemaVersion : Nat := 1

/-- The quotient of two numbers, null where nothing is divided by. -/
def ratio (a b : Option ℚ) : Option ℚ := do
  let a ← a
  let b ← b
  if 0 < b then f64 (a / b) else none

def mergeTimes (endpoints : List EndpointStats) : OrdMap Nat Nat :=
  endpoints.foldl (fun times e => e.times.entries.foldl (fun times entry => times.addAt entry.1 entry.2) times) .empty

def endpointCmp (a b : EndpointStats) : Ordering := (compare a.path b.path).then (compare a.method b.method)

def endpointJson (e : EndpointStats) : EndpointSummary := ⟨e.method, e.path, e.requests, e.failed, latency e.times⟩

def cpuJson (run : RunInfo) (durationS : Option ℚ) (success : Nat) (c : CpuUsage) : CpuSummary where
  cpuS := round3 c.cpuS
  userS := round3 c.userS
  systemS := round3 c.systemS
  cpuMsPerRequest := (ratio (f64 (c.cpuS * 1000)) (f64 success)).bind round3
  avgCores := (ratio (some c.cpuS) durationS).bind round3
  nrThrottled := c.nrThrottled
  throttledS := round3 c.throttledS
  samples := c.samples
  sampleIntervalMs := run.cpuSampleIntervalMs

def buildSummary (run : RunInfo) (window : Window) (endpoints : List EndpointStats) (cpu : Option CpuUsage) : Summary :=
  let success := (endpoints.map EndpointStats.success).sum
  let failed := (endpoints.map EndpointStats.failed).sum
  let total := success + failed
  let durationS := window.durationS
  let totalMs := (endpoints.map EndpointStats.totalMs).sum
  { schemaVersion := schemaVersion
    scenario := run.scenario
    mode := run.mode
    gitSha := run.gitSha
    imageTag := run.imageTag
    users := run.users
    warmupS := do round3 (← f64 ((← f64 window.warmupMs) / 1000))
    durationS := durationS.bind round3
    requests := total
    requestsSuccess := success
    errors := failed
    errorRate := ratio (f64 failed) (f64 total)
    rps := (ratio (f64 total) durationS).bind round3
    meanMs := (ratio (f64 totalMs) (f64 total)).bind round3
    maxMs := ((endpoints.map EndpointStats.maxMs).max?).getD 0
    cpu := cpu.map (cpuJson run durationS success)
    cpuLimitCores := run.cpuLimitCores
    memoryLimitMib := run.memoryLimitMib
    endpoints := (sortBy endpointCmp endpoints).map endpointJson
    latency := latency (mergeTimes endpoints) }

/-- What `write_summary` writes: nothing for a run without a history. -/
def document (run : RunInfo) (history : List (Phase × Nat)) (endpoints : List EndpointStats) (cpuSamples : List Sample) :
    Except Panic (Option Summary) :=
  match Window.fromHistory history with
  | none => .ok none
  | some window => do
    let cpu ← if cpuSamples.isEmpty then pure none else windowUsage cpuSamples window.startMs window.endMs
    return some (buildSummary run window endpoints cpu)

/-! ### The nearest rank -/

/-- The smallest of the items that at least `k` percent of them do not exceed. -/
def nearestRank (k : Nat) (items : List Nat) : Option Nat := items.mergeSort[(k * items.length + 99) / 100 - 1]?

/-- The response times that a histogram counts, in ascending order. -/
def expand (entries : List (Nat × Nat)) : List Nat := entries.flatMap fun entry => List.replicate entry.2 entry.1

/-- All response times of a run. -/
def responseTimes (endpoints : List EndpointStats) : List Nat := endpoints.flatMap fun e => expand e.times.entries

@[simp] theorem expand_nil : expand [] = [] := rfl

@[simp] theorem expand_cons (entry : Nat × Nat) (entries : List (Nat × Nat)) :
    expand (entry :: entries) = List.replicate entry.2 entry.1 ++ expand entries := rfl

theorem expand_flatMap {α : Type} (f : α → List (Nat × Nat)) (items : List α) :
    expand (items.flatMap f) = items.flatMap fun x => expand (f x) := by
  unfold expand
  exact List.flatMap_assoc ..

theorem length_expand (entries : List (Nat × Nat)) : (expand entries).length = (entries.map Prod.snd).sum := by
  induction entries with
  | nil => rfl
  | cons entry entries ih => rw [expand_cons, List.length_append, List.length_replicate, ih, List.map_cons, List.sum_cons]

theorem count_expand (entries : List (Nat × Nat)) (ms : Nat) :
    (expand entries).count ms = ((entries.filter fun entry => entry.1 = ms).map Prod.snd).sum := by
  induction entries with
  | nil => rfl
  | cons entry entries ih =>
    rw [expand_cons, List.count_append, List.count_replicate, ih, List.filter_cons]
    by_cases h : entry.1 = ms
    · simp [h]
    · simp [h]

theorem mem_expand {entries : List (Nat × Nat)} {ms : Nat} (h : ms ∈ expand entries) : ∃ count, (ms, count) ∈ entries := by
  obtain ⟨entry, hentry, hms⟩ := List.mem_flatMap.1 h
  obtain rfl := List.eq_of_mem_replicate hms
  exact ⟨entry.2, hentry⟩

theorem sorted_expand {entries : List (Nat × Nat)} (h : entries.Pairwise fun a b => compare a.1 b.1 = .lt) :
    (expand entries).Pairwise (· ≤ ·) := by
  induction entries with
  | nil => exact .nil
  | cons entry entries ih =>
    obtain ⟨hfirst, hrest⟩ := List.pairwise_cons.1 h
    refine List.pairwise_append.2 ⟨List.pairwise_replicate.2 (.inr (Nat.le_refl _)), ih hrest, fun a ha b hb => ?_⟩
    obtain rfl := List.eq_of_mem_replicate ha
    obtain ⟨count, hcount⟩ := mem_expand hb
    exact (Nat.compare_eq_lt.1 (hfirst _ hcount)).le

/-- The loop stops at the response time of the given rank. -/
theorem percentileLoop_eq {rank seen : Nat} (h : seen < rank) (entries : List (Nat × Nat)) :
    percentileLoop rank seen entries = (expand entries)[rank - seen - 1]? := by
  induction entries generalizing seen with
  | nil => simp [percentileLoop]
  | cons entry entries ih =>
    obtain ⟨ms, count⟩ := entry
    rw [percentileLoop, expand_cons]
    split
    · rename_i hreached
      have hlt : rank - seen - 1 < count := by omega
      rw [List.getElem?_append_left (by rwa [List.length_replicate]), List.getElem?_replicate, if_pos hlt]
    · rename_i hmore
      rw [ih (by omega), List.getElem?_append_right (by rw [List.length_replicate]; omega), List.length_replicate]
      congr 1
      omega

theorem mergeSort_eq_expand {times : OrdMap Nat Nat} {items : List Nat} (h : items.Perm (expand times.entries)) :
    items.mergeSort = expand times.entries := by
  have hsorted : items.mergeSort.Pairwise (· ≤ ·) := by
    have := @List.pairwise_mergeSort Nat (fun a b => decide (a ≤ b)) (by simp; omega) (by simp; omega) items
    exact this.imp fun hab => of_decide_eq_true hab
  exact ((List.mergeSort_perm ..).trans h).eq_of_pairwise (fun a b _ _ hab hba => Nat.le_antisymm hab hba) hsorted
    (sorted_expand times.sorted)

/-! ### The rounded rank -/

/-- A percentage as `f64`, not above its exact value. -/
structure Percentage (k : Nat) (q : ℚ) : Prop where
  pos : 0 < k
  le_hundred : k ≤ 100
  le : q ≤ k / 100
  near : (k : ℚ) / 100 - 1 / 2 ^ 54 ≤ q

theorem percentage_q50 : Percentage 50 q50 := ⟨by decide, by decide, by norm_num [q50], by norm_num [q50]⟩

theorem percentage_q95 : Percentage 95 q95 := ⟨by decide, by decide, by norm_num [q95], by norm_num [q95]⟩

theorem percentage_q99 : Percentage 99 q99 := ⟨by decide, by decide, by norm_num [q99], by norm_num [q99]⟩

theorem f64_natCast {n : Nat} (h : n < 2 ^ 53) : f64 n = some (n : ℚ) := by
  have hround := Js.roundDouble_intCast (n := n) (by rw [Nat.abs_cast]; exact_mod_cast h)
  rwa [Int.cast_natCast] at hround

/-- The rank that `percentile_ms` computes is the exact one. -/
theorem ceilU64_mul {k total : Nat} {q : ℚ} (hq : Percentage k q) (hpos : 0 < total) (htotal : total < 2 ^ 45) :
    ceilU64 (do f64 (q * (← f64 total))) = (k * total + 99) / 100 := by
  have hn : (1 : ℚ) ≤ total := by exact_mod_cast hpos
  have hlt : (total : ℚ) < 2 ^ 45 := by exact_mod_cast htotal
  have hk : (1 : ℚ) ≤ k := by exact_mod_cast hq.pos
  have hk' : (k : ℚ) ≤ 100 := by exact_mod_cast hq.le_hundred
  have hqpos : 0 < q := by
    have := hq.near
    norm_num at this
    linarith
  -- the exact rank, between whose bounds the product lies
  have hlow : 100 * ((k * total + 99) / 100) ≤ k * total + 99 := Nat.mul_div_le ..
  have hhigh : k * total ≤ 100 * ((k * total + 99) / 100) := by omega
  have hlowQ : (100 : ℚ) * ((k * total + 99) / 100 : Nat) ≤ k * total + 99 := by exact_mod_cast hlow
  have hhighQ : (k : ℚ) * total ≤ 100 * ((k * total + 99) / 100 : Nat) := by exact_mod_cast hhigh
  generalize (k * total + 99) / 100 = r at hlow hhigh hlowQ hhighQ ⊢
  have hmul : q * total ≤ k / 100 * total := mul_le_mul_of_nonneg_right hq.le (by linarith)
  have hmul' : ((k : ℚ) / 100 - 1 / 2 ^ 54) * total ≤ q * total := mul_le_mul_of_nonneg_right hq.near (by linarith)
  have herror : 1 / 2 ^ 54 * (total : ℚ) ≤ 1 / 2 ^ 9 := by
    calc 1 / 2 ^ 54 * (total : ℚ) ≤ 1 / 2 ^ 54 * 2 ^ 45 := mul_le_mul_of_nonneg_left hlt.le (by norm_num)
      _ = 1 / 2 ^ 9 := by norm_num
  have hx : |q * total| < (2 : ℚ) ^ (45 : ℤ) := by
    rw [abs_of_pos (mul_pos hqpos (by linarith))]
    have hone : (k : ℚ) / 100 * total ≤ 1 * total := mul_le_mul_of_nonneg_right (by linarith) (by linarith)
    have hpow : (2 : ℚ) ^ (45 : ℤ) = 2 ^ 45 := zpow_natCast 2 45
    rw [hpow]
    linarith
  have hle : q * total ≤ ((r : ℤ) : ℚ) := by
    push_cast
    linarith
  have hgt : ((r : ℤ) : ℚ) - 1 + 2 ^ ((45 : ℤ) - 53) ≤ q * total := by
    have hgap : (2 : ℚ) ^ ((45 : ℤ) - 53) = 1 / 2 ^ 8 := by norm_num
    rw [hgap]
    push_cast
    have hstep : (r : ℚ) - 1 + 1 / 100 ≤ k / 100 * total := by linarith
    have hsmall : (1 : ℚ) / 2 ^ 8 + 1 / 2 ^ 9 ≤ 1 / 100 := by norm_num
    linarith
  obtain ⟨y, hy, hceil⟩ := Js.ceil_roundDouble (by norm_num) (by norm_num) hx hle hgt
  have hr : r ≤ 2 ^ 64 - 1 := by
    have : k * total ≤ 100 * total := Nat.mul_le_mul_right _ hq.le_hundred
    omega
  rw [f64_natCast (htotal.trans (by norm_num)), Option.bind_eq_bind, Option.bind_some, f64, hy, ceilU64, hceil]
  omega

/-- The percentile of a histogram is the nearest rank among the response times that it counts. -/
theorem percentileMs_eq {k : Nat} {q : ℚ} (hq : Percentage k q) {times : OrdMap Nat Nat} {items : List Nat}
    (h : items.Perm (expand times.entries)) (hlen : items.length < 2 ^ 45) : percentileMs times q = nearestRank k items := by
  have htotal : times.values.sum = items.length := by rw [h.length_eq, length_expand]; rfl
  rw [percentileMs, nearestRank, mergeSort_eq_expand h, htotal]
  dsimp only
  split
  · rename_i hzero
    have hnil : expand times.entries = [] := List.eq_nil_of_length_eq_zero (by rw [← h.length_eq, hzero])
    rw [hnil]
    rfl
  · rename_i hpos
    rw [ceilU64_mul hq (by omega) hlen]
    have hk := Nat.mul_le_mul_right items.length hq.pos
    have hk' := Nat.mul_le_mul_right items.length hq.le_hundred
    have hclamp : min (max ((k * items.length + 99) / 100) 1) items.length = (k * items.length + 99) / 100 := by omega
    rw [hclamp, percentileLoop_eq (by omega), Nat.sub_zero]

/-! ### The merged histogram -/

theorem mergeTimes_eq (endpoints : List EndpointStats) :
    mergeTimes endpoints = OrdMap.gather Prod.fst Prod.snd (endpoints.flatMap fun e => e.times.entries) := by
  rw [OrdMap.gather, List.foldl_flatMap]
  rfl

/-- Merging the histograms loses no response time and makes up none. -/
theorem perm_expand_mergeTimes (endpoints : List EndpointStats) :
    (responseTimes endpoints).Perm (expand (mergeTimes endpoints).entries) := by
  refine List.perm_iff_count.2 fun ms => ?_
  rw [responseTimes, ← expand_flatMap, mergeTimes_eq, count_expand, count_expand, OrdMap.sum_filter_entries,
    OrdMap.getD_get?_gather]

theorem latency_eq {times : OrdMap Nat Nat} {items : List Nat} (h : items.Perm (expand times.entries))
    (hlen : items.length < 2 ^ 45) : latency times = ⟨nearestRank 50 items, nearestRank 95 items, nearestRank 99 items⟩ := by
  rw [latency, percentileMs_eq percentage_q50 h hlen, percentileMs_eq percentage_q95 h hlen,
    percentileMs_eq percentage_q99 h hlen]

theorem length_expand_le {endpoints : List EndpointStats} {e : EndpointStats} (h : e ∈ endpoints) :
    (expand e.times.entries).length ≤ (responseTimes endpoints).length := by
  rw [responseTimes, List.length_flatMap]
  exact List.single_le_sum (fun _ _ => Nat.zero_le _) _ (List.mem_map_of_mem (f := fun e => (expand e.times.entries).length) h)

/-- The document's percentiles are those of all response times of the run, and each endpoint's those of its own. -/
theorem percentiles_exact (run : RunInfo) (window : Window) (endpoints : List EndpointStats) (cpu : Option CpuUsage)
    (h : (responseTimes endpoints).length < 2 ^ 45) :
    (buildSummary run window endpoints cpu).latency = ⟨nearestRank 50 (responseTimes endpoints),
        nearestRank 95 (responseTimes endpoints), nearestRank 99 (responseTimes endpoints)⟩ ∧
      (buildSummary run window endpoints cpu).endpoints.Perm (endpoints.map fun e =>
        ⟨e.method, e.path, e.success + e.failed, e.failed, nearestRank 50 (expand e.times.entries),
          nearestRank 95 (expand e.times.entries), nearestRank 99 (expand e.times.entries)⟩) := by
  refine ⟨latency_eq (perm_expand_mergeTimes endpoints) h, ((sortBy_perm ..).map _).trans (.of_eq ?_)⟩
  refine List.map_congr_left fun e he => ?_
  rw [endpointJson, latency_eq (.refl _) ((length_expand_le he).trans_lt h)]
  rfl

def listHeroes : EndpointStats :=
  ⟨"GET", "/crud/v1/heroes/v2/json", 3, 1, (OrdMap.empty.insert 4 3).insert 90 1, 92, 104⟩

def healthLive : EndpointStats := ⟨"GET", "/health/live", 2, 0, OrdMap.empty.insert 1 2, 1, 2⟩

def mockRun : RunInfo := ⟨"HeroJourney", "mock", 5, "unknown", "unknown", none, none, 500⟩

theorem warm_le_end : 1000 ≤ 11000 := by decide

def tenSeconds : Window := ⟨1000, 11000, 500, warm_le_end⟩

theorem percentiles_exact_heroes :
    (buildSummary mockRun tenSeconds [listHeroes, healthLive] none).latency =
        ⟨nearestRank 50 [4, 4, 4, 90, 1, 1], nearestRank 95 [4, 4, 4, 90, 1, 1], nearestRank 99 [4, 4, 4, 90, 1, 1]⟩ ∧
      (buildSummary mockRun tenSeconds [listHeroes, healthLive] none).endpoints.Perm
        [⟨"GET", "/crud/v1/heroes/v2/json", 4, 1, nearestRank 50 [4, 4, 4, 90], nearestRank 95 [4, 4, 4, 90],
            nearestRank 99 [4, 4, 4, 90]⟩,
          ⟨"GET", "/health/live", 2, 0, nearestRank 50 [1, 1], nearestRank 95 [1, 1], nearestRank 99 [1, 1]⟩] :=
  percentiles_exact mockRun tenSeconds [listHeroes, healthLive] none (by decide)

/-! ### The order of the endpoints -/

instance endpointCmp.transCmp : TransCmp endpointCmp := by
  have : TransCmp fun a b : EndpointStats => compare a.path b.path := comap.transCmp compare EndpointStats.path
  have : TransCmp fun a b : EndpointStats => compare a.method b.method := comap.transCmp compare EndpointStats.method
  exact inferInstanceAs (TransCmp (compareLex (fun a b : EndpointStats => compare a.path b.path)
    fun a b => compare a.method b.method))

theorem endpointCmp_eq_eq {a b : EndpointStats} : endpointCmp a b = .eq ↔ a.path = b.path ∧ a.method = b.method := by
  rw [endpointCmp, Ordering.then_eq_eq, LawfulEqCmp.compare_eq_iff_eq, LawfulEqCmp.compare_eq_iff_eq]

theorem sortBy_endpoints_perm {endpoints endpoints' : List EndpointStats} (h : endpoints.Perm endpoints')
    (hdistinct : (endpoints.map fun e => (e.path, e.method)).Nodup) :
    sortBy endpointCmp endpoints = sortBy endpointCmp endpoints' := by
  have hperm := sortBy_perm endpointCmp endpoints'
  have hsorted := sorted_sortBy endpointCmp endpoints'
  refine eq_of_perm_of_strict ((sortBy_perm endpointCmp endpoints).trans (h.trans hperm.symm)) (sorted_sortBy ..) ?_
  have hnodup : ((sortBy endpointCmp endpoints').map fun e => (e.path, e.method)).Nodup :=
    ((hperm.trans h.symm).map _).nodup_iff.2 hdistinct
  refine (List.Pairwise.and hsorted (List.pairwise_map.1 hnodup)).imp fun {a b} hab => ?_
  have hne : endpointCmp a b ≠ .eq := fun heq => by
    obtain ⟨hpath, hmethod⟩ := endpointCmp_eq_eq.1 heq
    exact hab.2 (by rw [hpath, hmethod])
  have hle := hab.1
  revert hne hle
  cases endpointCmp a b <;> simp

theorem mergeTimes_perm {endpoints endpoints' : List EndpointStats} (h : endpoints.Perm endpoints') :
    mergeTimes endpoints = mergeTimes endpoints' := by
  rw [mergeTimes_eq, mergeTimes_eq, OrdMap.gather_perm _ _ (h.flatMap_right _)]

theorem max?_perm {items items' : List Nat} (h : items.Perm items') : items.max? = items'.max? := by
  refine Option.ext fun a => ?_
  rw [List.max?_eq_some_iff, List.max?_eq_some_iff, h.mem_iff]
  simp only [h.mem_iff]

theorem buildSummary_perm {endpoints endpoints' : List EndpointStats} (h : endpoints.Perm endpoints')
    (hdistinct : (endpoints.map fun e => (e.path, e.method)).Nodup) (run : RunInfo) (window : Window) (cpu : Option CpuUsage) :
    buildSummary run window endpoints cpu = buildSummary run window endpoints' cpu := by
  unfold buildSummary
  rw [(h.map EndpointStats.success).sum_eq, (h.map EndpointStats.failed).sum_eq, (h.map EndpointStats.totalMs).sum_eq,
    max?_perm (h.map EndpointStats.maxMs), sortBy_endpoints_perm h hdistinct, mergeTimes_perm h]

/-- The metrics come out of a hash map. Whatever order it has, the file written is the same. -/
theorem document_perm (run : RunInfo) (history : List (Phase × Nat)) {endpoints endpoints' : List EndpointStats}
    (h : endpoints.Perm endpoints') (hdistinct : (endpoints.map fun e => (e.path, e.method)).Nodup) (cpuSamples : List Sample) :
    document run history endpoints cpuSamples = document run history endpoints' cpuSamples := by
  unfold document
  simp only [buildSummary_perm h hdistinct]

theorem document_perm_heroes :
    document mockRun [(.increasing, 500), (.maintaining, 1000), (.other, 11000)] [listHeroes, healthLive] [] =
      document mockRun [(.increasing, 500), (.maintaining, 1000), (.other, 11000)] [healthLive, listHeroes] [] :=
  document_perm mockRun _ (.swap ..) (by decide) []

end TemplateAxum.Perf
