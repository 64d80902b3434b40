import TemplateAxum.Aggregates
import Mathlib.Data.List.MinMax
import Mathlib.Data.Rat.Cast.Order

/-!
# The forecast of `/predict`

The build of `get_prediction`. Its history is the list by id up to the cap of the crate (ADR 0015), so
the last bucket it knows is the last one of the heroes with the smallest ids. It is the last one of all
heroes exactly when those beyond the cap were all created in earlier buckets.
-/

open Prog

namespace TemplateAxum

structure BucketValue where
  bucketStart : DateTime
  value : Rat
deriving DecidableEq

structure InsufficientHistory where
  buckets : Nat

/-- Of `crud_stats`: what the forecast uses of the crate besides. -/
structure PredictCrate (Bucket Category : Type) extends StatsCrate Bucket Category where
  asStr : Bucket → String
  forecast : List BucketValue → Nat → Bucket → Except InsufficientHistory (List BucketValue)

variable {Bucket Category : Type}

structure PredictCrate.Documented (crate : PredictCrate Bucket Category) : Prop extends
    StatsCrate.Documented crate.toStatsCrate where
  bucketStart_mono : ∀ bucket, Monotone (crate.bucketStart bucket)
  /-- Fewer than two buckets are not enough. -/
  forecast_ok : ∀ series periods bucket predictions, crate.forecast series periods bucket = .ok predictions →
    2 ≤ series.length

structure Prediction where
  field : Option String
  bucket : String
  method : String
  lastKnown : BucketValue
  predictions : List BucketValue

namespace PredictCrate

variable (crate : PredictCrate Bucket Category)

/-- The sums of a numeric field under the buckets of the records that have it. -/
def sums (records : List Model) (fieldName : String) (bucket : Bucket) : OrdMap DateTime Rat :=
  OrdMap.gather Prod.fst Prod.snd <| records.filterMap fun record =>
    (numericValue record fieldName).map fun value => (crate.bucketStart bucket record.createdAt, value)

def series (records : List Model) (field : Option String) (bucket : Bucket) : List BucketValue :=
  match field with
  | none => (timeSeries (crate.bucketStart bucket) records).map fun point => ⟨point.bucketStart, point.count⟩
  | some fieldName => (crate.sums records fieldName bucket).entries.map fun e => ⟨e.1, e.2⟩

/-- The body over the listed records; `none` is an `expect` that fails. -/
def prediction (records : List Model) (field : Option String) (bucket : Bucket) (periods : Nat) :
    Except AppError (Option Prediction) :=
  let series := crate.series records field bucket
  match crate.forecast series periods bucket with
  | .error err =>
    .error (.unprocessableEntity [⟨"periods",
      s!"need at least 2 time buckets of history to forecast a trend, got {err.buckets}"⟩])
  | .ok predictions =>
    .ok <| series.getLast?.map fun lastKnown =>
      { field, bucket := crate.asStr bucket, method := "linear_regression", lastKnown, predictions }

/-- What `get_prediction` caches. -/
def getPrediction (field : Option String) (bucket : Bucket) (periods : Nat) : Crud AppError (Option Prediction) := do
  let records ← (crate.list ⟨0, crate.maxHistoryRecords, false, false, [], []⟩).mapError AppError.ofRepo
  ofExcept (crate.prediction records field bucket periods)

end PredictCrate

/-! ### The latest bucket -/

/-- `point` is the bucket of the most recently created of the heroes, with their number in it. -/
def Latest (bucketStart : DateTime → DateTime) (heroes : List Model) (point : BucketValue) : Prop :=
  ∃ newest ∈ heroes, (∀ row ∈ heroes, row.createdAt ≤ newest.createdAt) ∧
    point.bucketStart = bucketStart newest.createdAt ∧
    point.value = (heroes.filter fun row => bucketStart row.createdAt = point.bucketStart).length

section Latest

variable {bucketStart : DateTime → DateTime} {heroes : List Model} {point : BucketValue}

/-- In terms of the buckets alone. -/
theorem latest_iff (hmono : Monotone bucketStart) : Latest bucketStart heroes point ↔
    (∃ row ∈ heroes, bucketStart row.createdAt = point.bucketStart) ∧
      (∀ row ∈ heroes, bucketStart row.createdAt ≤ point.bucketStart) ∧
      point.value = (heroes.filter fun row => bucketStart row.createdAt = point.bucketStart).length := by
  constructor
  · rintro ⟨newest, hnewest, hlast, hstart, hvalue⟩
    exact ⟨⟨newest, hnewest, hstart.symm⟩, fun row hrow => hstart ▸ hmono (hlast row hrow), hvalue⟩
  · rintro ⟨⟨row, hrow, hstart⟩, hle, hvalue⟩
    obtain ⟨newest, hnewest⟩ : ∃ newest, newest ∈ heroes.argmax Model.createdAt := by
      cases hmax : heroes.argmax Model.createdAt with
      | none => exact absurd hrow (by simp [List.argmax_eq_none.1 hmax])
      | some newest => exact ⟨newest, rfl⟩
    have hlast : ∀ row ∈ heroes, row.createdAt ≤ newest.createdAt := fun row hrow => List.le_of_mem_argmax hrow hnewest
    have hmem : newest ∈ heroes := List.argmax_mem hnewest
    refine ⟨newest, hmem, hlast, ?_, hvalue⟩
    exact le_antisymm (hstart ▸ hmono (hlast row hrow)) (hle newest hmem)

/-- Further heroes leave it the latest exactly when they lie in earlier buckets. -/
theorem latest_append_iff (hmono : Monotone bucketStart) {beyond : List Model} (h : Latest bucketStart heroes point) :
    Latest bucketStart (heroes ++ beyond) point ↔
      ∀ row ∈ beyond, ∃ kept ∈ heroes, bucketStart row.createdAt < bucketStart kept.createdAt := by
  obtain ⟨⟨first, hfirst, hstart⟩, hle, hvalue⟩ := (latest_iff hmono).1 h
  have hbelow : ∀ row : Model, (∃ kept ∈ heroes, bucketStart row.createdAt < bucketStart kept.createdAt) ↔
      bucketStart row.createdAt < point.bucketStart := fun row =>
    ⟨fun hkept => let ⟨kept, hmem, hlt⟩ := hkept; hlt.trans_le (hle kept hmem), fun hlt => ⟨first, hfirst, hstart ▸ hlt⟩⟩
  simp only [hbelow]
  rw [latest_iff hmono, hvalue, List.filter_append, List.length_append]
  constructor
  · rintro ⟨-, hall, hcount⟩ row hrow
    have hnone : beyond.filter (fun row => decide (bucketStart row.createdAt = point.bucketStart)) = [] := by
      have hlength := Nat.cast_injective hcount
      exact List.length_eq_zero_iff.1 (by omega)
    refine lt_of_le_of_ne (hall row (List.mem_append_right _ hrow)) fun heq => ?_
    exact absurd (decide_eq_true heq) (List.filter_eq_nil_iff.1 hnone row hrow)
  · intro hlt
    have hnone : beyond.filter (fun row => decide (bucketStart row.createdAt = point.bucketStart)) = [] :=
      List.filter_eq_nil_iff.2 fun row hrow => by simp [(hlt row hrow).ne]
    refine ⟨⟨first, List.mem_append_left _ hfirst, hstart⟩, fun row hrow => ?_, by rw [hnone]; simp⟩
    rcases List.mem_append.1 hrow with hrow | hrow
    · exact hle row hrow
    · exact (hlt row hrow).le

end Latest

/-- The last point of the series is the latest of its records. -/
theorem latest_series {crate : PredictCrate Bucket Category} (hcrate : crate.Documented) {records : List Model}
    {bucket : Bucket} {point : BucketValue} (h : (crate.series records none bucket).getLast? = some point) :
    Latest (crate.bucketStart bucket) records point := by
  rw [PredictCrate.series, List.getLast?_map] at h
  obtain ⟨last, hlast, rfl⟩ := Option.map_eq_some_iff.1 h
  obtain ⟨front, hfront⟩ := List.getLast?_eq_some_iff.1 hlast
  have hmem : last ∈ timeSeries (crate.bucketStart bucket) records := by simp [hfront]
  obtain ⟨hrow, hcount⟩ := mem_timeSeries.1 hmem
  refine (latest_iff (hcrate.bucketStart_mono bucket)).2 ⟨hrow, fun row hrow => ?_, by rw [hcount]⟩
  let p : TimeBucketCount := ⟨crate.bucketStart bucket row.createdAt,
    (records.filter fun record => crate.bucketStart bucket record.createdAt = crate.bucketStart bucket row.createdAt).length⟩
  have hp : p ∈ timeSeries (crate.bucketStart bucket) records := mem_timeSeries.2 ⟨⟨row, hrow, rfl⟩, rfl⟩
  have hsorted := @pairwise_timeSeries (crate.bucketStart bucket) records
  rw [hfront] at hp hsorted
  show p.bucketStart ≤ last.bucketStart
  rcases List.mem_append.1 hp with hp | hp
  · exact ((List.pairwise_append.1 hsorted).2.2 p hp last (List.mem_singleton_self _)).le
  · rw [List.mem_singleton.1 hp]

/-- A forecast has a last bucket. -/
theorem prediction_of_forecast {crate : PredictCrate Bucket Category} (hcrate : crate.Documented) {records : List Model}
    {bucket : Bucket} {periods : Nat} {predictions : List BucketValue}
    (h : crate.forecast (crate.series records none bucket) periods bucket = .ok predictions) :
    ∃ body, crate.prediction records none bucket periods = .ok (some body) ∧
      Latest (crate.bucketStart bucket) records body.lastKnown := by
  have hlength := Nat.lt_of_lt_of_le Nat.two_pos (hcrate.forecast_ok _ _ _ _ h)
  have hpoint := List.getLast?_eq_some_getLast (List.ne_nil_of_length_pos hlength)
  refine ⟨⟨none, crate.asStr bucket, "linear_regression", _, predictions⟩, ?_, latest_series hcrate hpoint⟩
  simp only [PredictCrate.prediction, h, hpoint]
  rfl

/-! ### The answer -/

section Answer

variable [Lowercase]

/-- `get_prediction` of the record count, alone on the repository. -/
theorem ends_getPrediction {crate : PredictCrate Bucket Category} (hcrate : crate.Documented) {repo : Repo} (hinv : repo.Inv)
    (bucket : Bucket) (periods : Nat) :
    Ends Repo.Answers (fun repo' _ r => repo' = repo ∧ ((∃ err, r = .error err) ∨ ∃ body, r = .ok (some body) ∧
        Latest (crate.bucketStart bucket) ((repo.visible false).take crate.maxHistoryRecords) body.lastKnown))
      repo [] (crate.getPrediction none bucket periods) := by
  unfold PredictCrate.getPrediction
  rw [hcrate.list_eq, mapError_call, call_bind]
  refine ⟨Repo.exists_answers hinv _ (by rintro op ⟨⟩), fun answer repo' hanswer => ?_⟩
  obtain rfl := Repo.answers_read (by rintro op ⟨⟩) hanswer
  cases answer with
  | error err => exact ⟨rfl, .inl ⟨_, rfl⟩⟩
  | ok records =>
    obtain rfl := Repo.list_eq hinv hanswer
    refine ends_ofExcept.2 ⟨rfl, ?_⟩
    cases hforecast : crate.forecast (crate.series ((repo'.visible false).take crate.maxHistoryRecords) none bucket) periods bucket with
    | error err => exact .inl ⟨_, by simp only [PredictCrate.prediction, hforecast]; rfl⟩
    | ok predictions => exact .inr (prediction_of_forecast hcrate hforecast)

/-- Whatever the forecast of the record count answers, it starts from the latest of all visible heroes. -/
def StartsFromLatest (crate : PredictCrate Bucket Category) (repo : Repo) (bucket : Bucket) (periods : Nat) : Prop :=
  Ends Repo.Answers (fun _ _ r => ∀ body, r = .ok (some body) →
    Latest (crate.bucketStart bucket) (repo.visible false) body.lastKnown) repo [] (crate.getPrediction none bucket periods)

/-- The forecast starts from the latest of the visible heroes with the smallest ids, up to the cap, and of
all of them exactly when each hero beyond lies in an earlier bucket than some hero before. -/
theorem prediction_startsFrom {crate : PredictCrate Bucket Category} (hcrate : crate.Documented) {repo : Repo}
    (hinv : repo.Inv) (bucket : Bucket) (periods : Nat) :
    Ends Repo.Answers (fun repo' _ r => repo' = repo ∧ ((∃ err, r = .error err) ∨ ∃ body, r = .ok (some body) ∧
        Latest (crate.bucketStart bucket) ((repo.visible false).take crate.maxHistoryRecords) body.lastKnown ∧
        (Latest (crate.bucketStart bucket) (repo.visible false) body.lastKnown ↔
          ∀ row ∈ (repo.visible false).drop crate.maxHistoryRecords,
            ∃ kept ∈ (repo.visible false).take crate.maxHistoryRecords,
              crate.bucketStart bucket row.createdAt < crate.bucketStart bucket kept.createdAt)))
      repo [] (crate.getPrediction none bucket periods) := by
  refine (ends_getPrediction hcrate hinv bucket periods).mono fun repo' h r hend => ?_
  obtain ⟨rfl, herr | ⟨body, rfl, hlatest⟩⟩ := hend
  · exact ⟨rfl, .inl herr⟩
  · refine ⟨rfl, .inr ⟨body, rfl, hlatest, ?_⟩⟩
    have happend := @latest_append_iff _ _ _ (hcrate.bucketStart_mono bucket)
      ((repo'.visible false).drop crate.maxHistoryRecords) hlatest
    rwa [List.take_append_drop] at happend

end Answer

/-! ### More heroes than the cap -/

/-- Days of the nanosecond clock, and no forecast but the check of the history. -/
def PredictCrate.daily (cap : Nat) : PredictCrate Unit Unit where
  toStatsCrate := { StatsCrate.daily with maxHistoryRecords := cap }
  asStr _ := "day"
  forecast series _ _ := if 2 ≤ series.length then .ok [] else .error ⟨series.length⟩

theorem PredictCrate.documented_daily (cap : Nat) : (PredictCrate.daily cap).Documented where
  count_eq _ _ _ := rfl
  list_eq _ := rfl
  numericFields_eq _ := rfl
  bucketStart_mono _ _ _ hst := Int.mul_le_mul_of_nonneg_right (Int.ediv_le_ediv (by decide) hst) (by decide)
  forecast_ok series _ _ predictions h := by
    by_cases hle : 2 ≤ series.length
    · exact hle
    · simp only [PredictCrate.daily, if_neg hle] at h
      cases h

/-- The hero with the id `n + 1`, created on day `n`. -/
def dailyHero (n : Nat) : Model :=
  ⟨Int32.ofNat (n + 1), some "Nova", some [], none, "alice", none, n * 86400000000000, n * 86400000000000⟩

/-- One hero a day. -/
def dailyHeroes (days : Nat) (hdays : days < 2 ^ 31) : Table where
  entries := (List.range days).map fun n => (Int32.ofNat (n + 1), dailyHero n)
  sorted := by
    refine List.pairwise_map.2 (List.pairwise_lt_range.imp_of_mem fun {m n} hm hn hlt => ?_)
    rw [List.mem_range] at hm hn
    rw [compare_int32_lt, Int32.lt_iff_toInt_lt, Int32.toInt_ofNat_of_lt (by omega), Int32.toInt_ofNat_of_lt (by omega)]
    omega

variable {days : Nat} {hdays : days < 2 ^ 31}

theorem keyed_dailyHeroes : (dailyHeroes days hdays).Keyed := fun id row h => by
  obtain ⟨n, -, heq⟩ := List.mem_map.1 (OrdMap.get?_eq_some_iff.1 h)
  cases heq
  rfl

theorem visible_dailyHeroes : (Repo.seaOrm (dailyHeroes days hdays)).visible false = (List.range days).map dailyHero := by
  have hvalues : (dailyHeroes days hdays).values = (List.range days).map dailyHero := by
    rw [OrdMap.values, dailyHeroes, List.map_map]
    rfl
  show (dailyHeroes days hdays).values.filter _ = _
  rw [hvalues, List.filter_eq_self]
  intro row hrow
  obtain ⟨n, -, rfl⟩ := List.mem_map.1 hrow
  rfl

theorem prediction_startsFrom_dailyHeroes : let _ := Lowercase.ascii
    let repo := Repo.seaOrm (dailyHeroes 3 (by decide))
    Ends Repo.Answers (fun repo' _ r => repo' = repo ∧ ((∃ err, r = .error err) ∨ ∃ body, r = .ok (some body) ∧
        Latest ((PredictCrate.daily 2).bucketStart ()) ((repo.visible false).take 2) body.lastKnown ∧
        (Latest ((PredictCrate.daily 2).bucketStart ()) (repo.visible false) body.lastKnown ↔
          ∀ row ∈ (repo.visible false).drop 2, ∃ kept ∈ (repo.visible false).take 2,
            (PredictCrate.daily 2).bucketStart () row.createdAt < (PredictCrate.daily 2).bucketStart () kept.createdAt)))
      repo [] ((PredictCrate.daily 2).getPrediction none () 1) :=
  @prediction_startsFrom Unit Unit .ascii _ (PredictCrate.documented_daily 2) (.seaOrm (dailyHeroes 3 (by decide)))
    keyed_dailyHeroes () 1

theorem bucketStart_dailyHero (cap n : Nat) :
    (PredictCrate.daily cap).bucketStart () (dailyHero n).createdAt = n * 86400000000000 := by
  show (n : Int) * 86400000000000 / 86400000000000 * 86400000000000 = _
  rw [Int.mul_ediv_cancel _ (by decide)]

/-- Two days are two buckets. -/
theorem two_le_series {cap : Nat} {records : List Model} (hfirst : dailyHero 0 ∈ records) (hsecond : dailyHero 1 ∈ records) :
    2 ≤ ((PredictCrate.daily cap).series records none ()).length := by
  rw [PredictCrate.series, List.length_map]
  have hbucket : ∀ n, dailyHero n ∈ records →
      ∃ point ∈ timeSeries ((PredictCrate.daily cap).bucketStart ()) records, point.bucketStart = n * 86400000000000 :=
    fun n hn => ⟨⟨n * 86400000000000, (records.filter fun row =>
      (PredictCrate.daily cap).bucketStart () row.createdAt = n * 86400000000000).length⟩,
      mem_timeSeries.2 ⟨⟨_, hn, bucketStart_dailyHero cap n⟩, rfl⟩, rfl⟩
  obtain ⟨first, hfirst, hzero⟩ := hbucket 0 hfirst
  obtain ⟨second, hsecond, hone⟩ := hbucket 1 hsecond
  have hne : first ≠ second := fun heq => by
    rw [heq, hone] at hzero
    exact absurd hzero (by decide)
  match hseries : timeSeries ((PredictCrate.daily cap).bucketStart ()) records with
  | [] => simp [hseries] at hfirst
  | [point] =>
    rw [hseries, List.mem_singleton] at hfirst hsecond
    exact absurd (hfirst.trans hsecond.symm) hne
  | _ :: _ :: _ => simp

/-- With one hero a day and one more than the cap, the day of the last one is not the last known. -/
theorem not_startsFromLatest {cap : Nat} (hcap : 2 ≤ cap) (hdays : cap + 1 < 2 ^ 31) : let _ := Lowercase.ascii
    ¬ StartsFromLatest (.daily cap) (.seaOrm (dailyHeroes (cap + 1) hdays)) () 1 := by
  intro _ h
  have hinv : (Repo.seaOrm (dailyHeroes (cap + 1) hdays)).Inv := keyed_dailyHeroes
  let heroes := StableSort.sortBy
    (StableSort.lexCmp HeroSeaOrm.orderCmp (HeroSeaOrmRepository.list ⟨0, cap, false, false, [], []⟩).orderBy)
    ((HeroSeaOrmRepository.list ⟨0, cap, false, false, [], []⟩).rows (dailyHeroes (cap + 1) hdays))
  have hanswer : (Repo.seaOrm (dailyHeroes (cap + 1) hdays)).Answers (.list ⟨0, cap, false, false, [], []⟩)
      (.ok ((heroes.drop 0).take cap)) (.seaOrm (dailyHeroes (cap + 1) hdays)) :=
    ⟨rfl, .inr ⟨_, ⟨heroes, Sql.arrangement_sortBy _ _, rfl⟩, rfl⟩⟩
  have hlist := Repo.list_eq hinv hanswer
  have htake : (heroes.drop 0).take cap = (List.range cap).map dailyHero := by
    rw [hlist, visible_dailyHeroes, ← List.map_take, List.take_range, Nat.min_eq_left (Nat.le_succ cap)]
  have hbody := h.2 _ _ hanswer
  rw [htake] at hbody
  have htwo : 2 ≤ ((PredictCrate.daily cap).series ((List.range cap).map dailyHero) none ()).length :=
    two_le_series (List.mem_map_of_mem (List.mem_range.2 (by omega))) (List.mem_map_of_mem (List.mem_range.2 (by omega)))
  obtain ⟨body, hprediction, hlatest⟩ :=
    @prediction_of_forecast _ _ _ (PredictCrate.documented_daily cap) _ _ 1 [] (if_pos htwo)
  have hall := ends_ofExcept.1 hbody body hprediction
  rw [visible_dailyHeroes, List.range_succ, List.map_append] at hall
  obtain ⟨kept, hkept, hlt⟩ := (latest_append_iff ((PredictCrate.documented_daily cap).bucketStart_mono ()) hlatest).1 hall
    (dailyHero cap) (List.mem_singleton_self _)
  obtain ⟨n, hn, rfl⟩ := List.mem_map.1 hkept
  rw [bucketStart_dailyHero, bucketStart_dailyHero] at hlt
  have hday : (cap : Int) * 86400000000000 < n * 86400000000000 := hlt
  have hrange := List.mem_range.1 hn
  omega

/-- So it is under every cap. -/
theorem not_startsFromLatest_under_cap : let _ := Lowercase.ascii
    ¬ ∃ (cap : Nat) (_ : 2 ≤ cap) (hdays : cap + 1 < 2 ^ 31),
      StartsFromLatest (.daily cap) (.seaOrm (dailyHeroes (cap + 1) hdays)) () 1 := by
  intro _ h
  rcases h with ⟨cap, hcap, hdays, h⟩
  exact not_startsFromLatest hcap hdays h

end TemplateAxum
