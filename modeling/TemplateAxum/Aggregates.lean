import TemplateAxum.Controllers
import TemplateAxum.Pages
import TemplateAxum.Stats
import TemplateAxum.Lib.Tally
import Mathlib

/-!
# What `/stats` adds up

The aggregations of `heroes.rs` over the listed records, and the body that `get_stats` builds of them
beside its two counts. Alone on the repository, the counts and the list see the same rows, so the parts
of the body agree as long as the cap on the list does not cut.
-/

open Std Prog

namespace TemplateAxum

/-! ### The aggregations -/

structure NumericFieldStat where
  field : String
  count : Nat
  minimum : Option Rat
  maximum : Option Rat
  average : Option Rat
  total : Option Rat

/-- Over the exact values, where the code has `f64`. -/
def numericStat (field : String) (values : List Rat) : NumericFieldStat :=
  if values.isEmpty then { field, count := 0, minimum := none, maximum := none, average := none, total := none }
  else
    let count := values.length
    let total := values.sum
    { field, count, minimum := values.min?, maximum := values.max?, average := some (total / count), total := some total }

def numericValue (hero : Model) (field : String) : Option Rat :=
  match field with
  | "id" => some hero.id.toInt
  | "power_level" => hero.powerLevel.map fun v => v.toInt
  | _ => none

/-- A hero has no boolean field. -/
def booleanValue (_hero : Model) (_field : String) : Option Bool := none

structure TimeBucketCount where
  bucketStart : DateTime
  count : Nat
deriving DecidableEq

def timeSeries (bucketStart : DateTime → DateTime) (records : List Model) : List TimeBucketCount :=
  (OrdMap.gather (fun record => bucketStart record.createdAt) (fun _ => 1) records).entries.map fun e => ⟨e.1, e.2⟩

section TimeSeries

variable {bucketStart : DateTime → DateTime} {records : List Model}

theorem map_count_timeSeries : (timeSeries bucketStart records).map TimeBucketCount.count =
    (OrdMap.gather (fun record => bucketStart record.createdAt) (fun _ => 1) records).values := by
  rw [timeSeries, List.map_map]
  rfl

/-- A bucket of the series, by its start. -/
theorem mem_timeSeries {point : TimeBucketCount} : point ∈ timeSeries bucketStart records ↔
    (∃ record ∈ records, bucketStart record.createdAt = point.bucketStart) ∧
      point.count = (records.filter fun record => bucketStart record.createdAt = point.bucketStart).length := by
  let counts := OrdMap.gather (fun record : Model => bucketStart record.createdAt) (fun _ => 1) records
  have hentry : point ∈ timeSeries bucketStart records ↔ counts.get? point.bucketStart = some point.count := by
    rw [OrdMap.get?_eq_some_iff, timeSeries, List.mem_map]
    constructor
    · rintro ⟨e, he, rfl⟩
      exact he
    · exact fun he => ⟨_, he, rfl⟩
  rw [hentry]
  by_cases hsome : ∃ record ∈ records, bucketStart record.createdAt = point.bucketStart
  · rw [OrdMap.get?_gather _ _ _ hsome, List.map_const', List.sum_replicate, Option.some_inj, and_iff_right hsome]
    simp [eq_comm]
  · have hnone : counts.get? point.bucketStart = none :=
      Option.not_isSome_iff_eq_none.1 fun h => hsome ((OrdMap.isSome_get?_gather _ _ _ _).1 h)
    simp [hsome, hnone]

theorem pairwise_timeSeries : (timeSeries bucketStart records).Pairwise fun a b => a.bucketStart < b.bucketStart :=
  List.pairwise_map.2 ((OrdMap.gather _ _ records).sorted.imp fun h => Int.compare_eq_lt.1 h)

theorem count_pos {point : TimeBucketCount} (h : point ∈ timeSeries bucketStart records) : 0 < point.count := by
  obtain ⟨⟨record, hrecord, hstart⟩, hcount⟩ := mem_timeSeries.1 h
  rw [hcount]
  exact List.length_pos_of_mem (List.mem_filter.2 ⟨hrecord, decide_eq_true hstart⟩)

theorem sum_timeSeries : ((timeSeries bucketStart records).map TimeBucketCount.count).sum = records.length := by
  rw [map_count_timeSeries, OrdMap.sum_values_gather]
  simp

end TimeSeries

@[simp] theorem count_numericStat (field : String) (values : List Rat) :
    (numericStat field values).count = values.length := by
  unfold numericStat
  split
  · rename_i h
    rw [List.isEmpty_iff.1 h]
    rfl
  · rfl

@[simp] theorem field_numericStat (field : String) (values : List Rat) : (numericStat field values).field = field := by
  unfold numericStat
  split <;> rfl

/-! ### The body -/

/-- Of `crud_stats`: what the aggregations use of the crate. -/
structure StatsCrate (Bucket Category : Type) where
  maxHistoryRecords : Nat
  count : List FilterClause → Bool → Bool → Crud RepoError Nat
  list : ListOptions → Crud RepoError (List Model)
  bucketStart : Bucket → DateTime → DateTime
  numericFields : List FieldSpec → List String
  categoricalFields : List FieldSpec → List String
  categoricalCounts : List Model → List String → (Model → String → Option Bool) → List Category

variable {Bucket Category : Type}

structure StatsCrate.Documented (crate : StatsCrate Bucket Category) : Prop where
  count_eq : ∀ filters includeArchived onlyArchived,
    crate.count filters includeArchived onlyArchived = .call (.count filters includeArchived onlyArchived) ofExcept
  list_eq : ∀ opts, crate.list opts = .call (.list opts) ofExcept
  numericFields_eq : ∀ specs, crate.numericFields specs = (specs.filter fun spec => spec.kind = .number).map FieldSpec.name

structure FieldStats (Category : Type) where
  numeric : List NumericFieldStat
  categorical : List Category

namespace StatsCrate

variable (crate : StatsCrate Bucket Category)

def fieldStats (records : List Model) : FieldStats Category where
  numeric := (crate.numericFields heroFieldSpecs).map fun field =>
    numericStat field (records.filterMap fun record => numericValue record field)
  categorical := crate.categoricalCounts records (crate.categoricalFields heroFieldSpecs) booleanValue

/-- The crate with the closures of `get_stats`. -/
def crud : CrudStats Bucket (FieldStats Category) (List TimeBucketCount) where
  maxHistoryRecords := crate.maxHistoryRecords
  count := crate.count
  list := crate.list
  summary := crate.fieldStats
  timeSeries records bucket := timeSeries (crate.bucketStart bucket) records

end StatsCrate

/-! ### A list that is not cut -/

theorem HeroSeaOrmRepository.cmp_of_no_sort [Lowercase] {opts : ListOptions} (hsort : opts.sort = []) :
    StableSort.lexCmp HeroSeaOrm.orderCmp (list opts).orderBy = fun a b : Model => compare a.id b.id := by
  funext a b
  rw [list, hsort]
  show (compare a.id b.id).then .eq = _
  cases compare a.id b.id <;> rfl

namespace Repo

variable [Lowercase] {repo repo' : Repo}

/-- The rows that a list or a count with this scope is about, by id. -/
def visible (repo : Repo) (includeArchived : Bool) : List Model :=
  repo.rows.values.filter fun row => HeroMemory.visible row includeArchived false

/-- Without clauses the list is by id, in either repository. -/
theorem list_eq (hinv : repo.Inv) {limit : Nat} {includeArchived : Bool} {heroes : List Model}
    (ha : repo.Answers (.list ⟨0, limit, includeArchived, false, [], []⟩) (.ok heroes) repo') :
    heroes = (repo.visible includeArchived).take limit := by
  have hstrict := hinv.keyed.pairwise_values.filter fun row => HeroMemory.visible row includeArchived false
  cases repo with
  | memory repo =>
    rw [Except.ok.inj ha.1, HeroMemoryRepository.list_eq, List.drop_zero]
    refine congrArg (List.take limit) (StableSort.eq_of_perm_of_strict ?_ ?_ hstrict)
    · refine (HeroMemoryRepository.ordered_perm _ _).trans ?_
      simp [HeroMemoryRepository.matching, HeroMemory.matchesAll, visible, rows]
    · exact StableSort.sorted_sortBy _ _
  | seaOrm db =>
    obtain ⟨-, ⟨err, herr⟩ | ⟨answer, ⟨out, hout, rfl⟩, hok⟩⟩ := ha
    · cases herr
    · cases hok
      rw [HeroSeaOrmRepository.cmp_of_no_sort rfl] at hout
      refine congrArg (List.take limit) (StableSort.eq_of_perm_of_strict ?_ hout.sorted hstrict)
      refine hout.perm.trans ?_
      rw [rows_list]
      simp [HeroSeaOrmRepository.matching, HeroSeaOrm.whereHolds, HeroSeaOrm.applyFilters, Sql.Truth.all,
        Sql.Truth.holds, visible, rows]

omit [Lowercase] in
theorem length_visible_false (repo : Repo) : (repo.visible false).length + repo.rows.archived = repo.rows.size := by
  rw [visible, Table.archived, Table.size]
  induction repo.rows.values with
  | nil => rfl
  | cons row rows ih =>
    have hvisible : HeroMemory.visible row false false = row.archivedAt.isNone := by simp [HeroMemory.visible]
    cases harch : row.archivedAt <;> simp [hvisible, harch] <;> omega

omit [Lowercase] in
theorem length_visible_true (repo : Repo) : (repo.visible true).length = repo.rows.size := by
  simp [visible, HeroMemory.visible, Table.size]

end Repo

/-! ### A call that fails -/

/-- The repository has answered with an error. -/
def RepoCall.Fails : (c : RepoCall) → c.Ans → RepoError → Prop
  | .get .., answer, err => answer = .error err
  | .list .., answer, err => answer = .error err
  | .count .., answer, err => answer = .error err
  | .write _, answer, err => answer = .error err

/-- Only a database fails. -/
theorem Repo.isMemory_of_fails [Lowercase] {repo repo' : Repo} {c : RepoCall} {answer : c.Ans} {err : RepoError}
    (ha : repo.Answers c answer repo') (hfails : c.Fails answer err) : repo.isMemory = false := by
  cases repo with
  | seaOrm db => rfl
  | memory repo =>
    cases c with
    | get id includeArchived => cases hfails.symm.trans ha.1
    | list opts => cases hfails.symm.trans ha.1
    | count filters includeArchived onlyArchived => cases hfails.symm.trans ha.1
    | write op =>
      obtain ⟨now, r, next, -, hok, -⟩ := ha
      cases hfails.symm.trans hok

/-- The last call of a history failed. -/
def Failed (h : History RepoCall RepoCall.Ans) (err : RepoError) : Prop :=
  ∃ before c answer, h = before ++ [⟨c, answer⟩] ∧ c.Fails answer err

/-! ### The body adds up -/

/-- The parts of the body are about the same rows. -/
structure AddsUp (repo : Repo) (includeArchived : Bool)
    (body : ResourceStats (FieldStats Category) (List TimeBucketCount)) : Prop where
  total : body.total = (repo.visible includeArchived).length
  buckets : ∀ series, body.timeSeries = some series → (series.map TimeBucketCount.count).sum = body.total
  fields : body.summary.numeric.map NumericFieldStat.field = ["id", "power_level"]
  ids : ∀ stat ∈ body.summary.numeric, stat.field = "id" → stat.count = body.total
  powerLevels : ∀ stat ∈ body.summary.numeric, stat.field = "power_level" →
    stat.count = ((repo.visible includeArchived).filter fun row => row.powerLevel.isSome).length
  archived : body.archived = repo.rows.archived

theorem numeric_fieldStats {crate : StatsCrate Bucket Category} (hcrate : crate.Documented) (records : List Model) :
    (crate.fieldStats records).numeric = [numericStat "id" (records.map fun row => (row.id.toInt : Rat)),
      numericStat "power_level" (records.filterMap fun row => row.powerLevel.map fun v => (v.toInt : Rat))] := by
  have hfields : crate.numericFields heroFieldSpecs = ["id", "power_level"] := hcrate.numericFields_eq _
  simp only [StatsCrate.fieldStats, hfields, List.map_cons, List.map_nil, numericValue, ← List.filterMap_eq_map]
  rfl

/-- What two counts and an uncut list of the visible rows make. -/
theorem addsUp_of_visible {crate : StatsCrate Bucket Category} (hcrate : crate.Documented) (repo : Repo)
    (includeArchived : Bool) (bucket : Option Bucket) :
    AddsUp repo includeArchived
      { total := if includeArchived then (repo.visible true).length else (repo.visible false).length
        summary := crate.fieldStats (repo.visible includeArchived)
        timeSeries := bucket.map fun b => timeSeries (crate.bucketStart b) (repo.visible includeArchived)
        archived := (repo.visible true).length - (repo.visible false).length } where
  total := by cases includeArchived <;> rfl
  buckets series hseries := by
    obtain ⟨b, -, rfl⟩ := Option.map_eq_some_iff.1 hseries
    rw [sum_timeSeries]
    cases includeArchived <;> rfl
  fields := by simp [numeric_fieldStats hcrate]
  ids stat hstat hfield := by
    rw [numeric_fieldStats hcrate] at hstat
    rcases List.mem_pair.1 hstat with rfl | rfl
    · cases includeArchived <;> simp
    · simp at hfield
  powerLevels stat hstat hfield := by
    rw [numeric_fieldStats hcrate] at hstat
    rcases List.mem_pair.1 hstat with rfl | rfl
    · simp at hfield
    · rw [count_numericStat, List.length_filterMap_eq_countP, List.countP_eq_length_filter]
      simp
  archived := by
    have hlive := repo.length_visible_false
    have hall := repo.length_visible_true
    show (repo.visible true).length - (repo.visible false).length = _
    omega

/-- What `get_stats` comes to, alone on the repository: a body that adds up, or the error of the database call that failed. -/
def StatsEnd (repo : Repo) (includeArchived : Bool) (bucket : Option Bucket) (h : History RepoCall RepoCall.Ans) :
    Except AppError (Option (ResourceStats (FieldStats Category) (List TimeBucketCount))) → Prop
  | .ok found => ∃ body, found = some body ∧ AddsUp repo includeArchived body ∧ body.timeSeries.isSome = bucket.isSome
  | .error raised => repo.isMemory = false ∧ ∃ err, raised = .ofRepo err ∧ Failed h err

variable [Lowercase]

/-- `get_stats`, alone on the repository. -/
theorem ends_getStats {crate : StatsCrate Bucket Category} (hcrate : crate.Documented) {repo : Repo} (hinv : repo.Inv)
    {includeArchived : Bool} (hcap : (repo.visible includeArchived).length ≤ crate.maxHistoryRecords)
    (bucket : Option Bucket) :
    Ends Repo.Answers (fun repo' h r => repo' = repo ∧ StatsEnd repo includeArchived bucket h r) repo []
      (getStats crate.crud includeArchived bucket) := by
  have hreads : ∀ {c : RepoCall}, (∀ op, c ≠ .write op) → ∃ answer repo', repo.Answers c answer repo' := fun hc =>
    Repo.exists_answers hinv _ fun op hop => absurd hop (hc op)
  unfold getStats
  simp only [StatsCrate.crud, hcrate.count_eq, hcrate.list_eq, mapError_call, call_bind]
  refine ⟨hreads (by rintro op ⟨⟩), fun first repo₁ hfirst => ?_⟩
  obtain rfl := Repo.answers_read (by rintro op ⟨⟩) hfirst
  cases first with
  | error err => exact ⟨rfl, Repo.isMemory_of_fails hfirst rfl, err, rfl, _, _, _, rfl, rfl⟩
  | ok visible =>
    refine ⟨hreads (by rintro op ⟨⟩), fun second repo₂ hsecond => ?_⟩
    obtain rfl := Repo.answers_read (by rintro op ⟨⟩) hsecond
    cases second with
    | error err => exact ⟨rfl, Repo.isMemory_of_fails hsecond rfl, err, rfl, _, _, _, rfl, rfl⟩
    | ok all =>
      refine ⟨hreads (by rintro op ⟨⟩), fun third repo₃ hthird => ?_⟩
      obtain rfl := Repo.answers_read (by rintro op ⟨⟩) hthird
      cases third with
      | error err => exact ⟨rfl, Repo.isMemory_of_fails hthird rfl, err, rfl, _, _, _, rfl, rfl⟩
      | ok records =>
        have hrecords : records = repo₃.visible includeArchived := by
          rw [Repo.list_eq hinv hthird, List.take_of_length_le hcap]
        have hlive : visible = (repo₃.visible false).length := Repo.count_eq hfirst
        have hall : all = (repo₃.visible true).length := Repo.count_eq hsecond
        have hle : visible ≤ all := by
          have := repo₃.length_visible_false
          have := repo₃.length_visible_true
          omega
        refine ⟨rfl, _, by rw [checkedSub, if_pos hle]; rfl, ?_, by rw [Option.isSome_map]⟩
        subst hrecords hlive hall
        exact addsUp_of_visible hcrate repo₃ includeArchived bucket

/-- The series of any records counts each of them once, and the parts of a body of `/stats` agree with its
total and with the table. There is always a body unless a call to the database fails. -/
theorem stats_addUp {crate : StatsCrate Bucket Category} (hcrate : crate.Documented) :
    (∀ (bucketStart : DateTime → DateTime) (records : List Model),
      (timeSeries bucketStart records).Pairwise (fun a b => a.bucketStart < b.bucketStart) ∧
      (∀ point ∈ timeSeries bucketStart records, 0 < point.count ∧
        point.count = (records.filter fun record => bucketStart record.createdAt = point.bucketStart).length) ∧
      ((timeSeries bucketStart records).map TimeBucketCount.count).sum = records.length) ∧
    ∀ (repo : Repo) (includeArchived : Bool) (bucket : Option Bucket), repo.Inv →
      (repo.visible includeArchived).length ≤ crate.maxHistoryRecords →
      Ends Repo.Answers (fun repo' h r => repo' = repo ∧ StatsEnd repo includeArchived bucket h r) repo []
        (getStats crate.crud includeArchived bucket) :=
  ⟨fun _ _ => ⟨pairwise_timeSeries, fun _ hpoint => ⟨count_pos hpoint, (mem_timeSeries.1 hpoint).2⟩, sum_timeSeries⟩,
    fun _ _ bucket hinv hcap => ends_getStats hcrate hinv hcap bucket⟩

omit [Lowercase] in
/-- Days of the nanosecond clock. -/
def StatsCrate.daily : StatsCrate Unit Unit where
  maxHistoryRecords := 100
  count filters includeArchived onlyArchived := .call (.count filters includeArchived onlyArchived) ofExcept
  list opts := .call (.list opts) ofExcept
  bucketStart _ t := t / 86400000000000 * 86400000000000
  numericFields specs := (specs.filter fun spec => spec.kind = .number).map FieldSpec.name
  categoricalFields _ := []
  categoricalCounts _ _ _ := []

omit [Lowercase] in
theorem StatsCrate.documented_daily : StatsCrate.daily.Documented := ⟨fun _ _ _ => rfl, fun _ => rfl, fun _ => rfl⟩

omit [Lowercase] in
theorem stats_addUp_twins : let _ := Lowercase.ascii
    Ends Repo.Answers (fun repo' h r => repo' = .seaOrm twins ∧ StatsEnd (.seaOrm twins) true (some ()) h r)
      (.seaOrm twins) [] (getStats StatsCrate.daily.crud true (some ())) :=
  (@stats_addUp Unit Unit .ascii _ StatsCrate.documented_daily).2 (.seaOrm twins) true (some ()) keyed_twins (by decide)

end TemplateAxum
