import TemplateAxum.Lib.SerdeFloat
import TemplateAxum.Predict
import TemplateAxum.Staleness

/-!
# What a cache key says

`get_stats` and `get_prediction` of `heroes.rs` up to `cached_json`: what the key is made of, and what the body is
built with.
-/

open Prog

namespace TemplateAxum

open StatsCache

/-! ### The handlers -/

structure StatsQuery where
  bucket : Option String

structure PredictQuery where
  field : Option String
  periods : Option String
  bucket : Option String

/-- What the handlers use of the crate, and `serde_json::to_value` of the bodies. -/
structure StatsRoutes (Bucket Category : Type) extends PredictCrate Bucket Category where
  clientId : String
  rejectOnlyArchived : List (String × String) → Checked Unit
  parseIncludeArchived : List (String × String) → Checked Bool
  parseBucket : Option String → Except AppError (Option Bucket)
  parsePredictField : List FieldSpec → Option String → Except AppError (Option String)
  parsePeriods : Option String → Except AppError Nat
  day : Bucket
  statsValue : ResourceStats (FieldStats Category) (List TimeBucketCount) → Except String JsonValue
  predictionValue : Prediction → Except String JsonValue

variable {Bucket Category : Type}

structure StatsRoutes.Documented (routes : StatsRoutes Bucket Category) : Prop where
  crate : routes.toPredictCrate.Documented
  asStr_inj : Function.Injective routes.asStr

/-- The arguments of `cached_json`. -/
structure Cached where
  kind : String
  schema : String
  params : List (String × JsonValue)
  build : Crud AppError JsonValue

namespace StatsRoutes

variable (routes : StatsRoutes Bucket Category)

def toValue {α : Type} (value : α → Except String JsonValue) (body : α) : Crud AppError JsonValue :=
  ofExcept ((value body).mapError AppError.internal)

/-- The closure of `get_stats`; a subtraction that overflows panics. -/
def buildStats (includeArchived : Bool) (bucket : Option Bucket) : Crud AppError JsonValue := do
  match ← TemplateAxum.getStats routes.crud includeArchived bucket with
  | some stats => toValue routes.statsValue stats
  | none => .raise (.internal "attempt to subtract with overflow")

/-- The closure of `get_prediction`; `expect` panics. -/
def buildPrediction (field : Option String) (bucket : Bucket) (periods : Nat) : Crud AppError JsonValue := do
  match ← routes.toPredictCrate.getPrediction field bucket periods with
  | some prediction => toValue routes.predictionValue prediction
  | none => .raise (.internal "forecast() already rejects fewer than 2 buckets")

def bucketValue (bucket : Option Bucket) : JsonValue :=
  match bucket with
  | some bucket => .str (routes.asStr bucket)
  | none => .null

def getStats (claims : Claims) (query : StatsQuery) (rawParams : List (String × String)) : Except AppError Cached := do
  claims.requireAnyRole routes.clientId heroReadRoles
  (routes.rejectOnlyArchived rawParams).mapError AppError.unprocessableEntity
  let includeArchived ← (routes.parseIncludeArchived rawParams).mapError AppError.unprocessableEntity
  let bucket ← routes.parseBucket query.bucket
  pure
    { kind := "stats"
      schema := "ResourceStats"
      params := [("bucket", routes.bucketValue bucket), ("include_archived", .bool includeArchived)]
      build := routes.buildStats includeArchived bucket }

def getPrediction (claims : Claims) (query : PredictQuery) : Except AppError Cached := do
  claims.requireAnyRole routes.clientId heroReadRoles
  let bucket := (← routes.parseBucket query.bucket).getD routes.day
  let field ← routes.parsePredictField heroFieldSpecs query.field
  let periods ← routes.parsePeriods query.periods
  pure
    { kind := "predict"
      schema := "Prediction"
      params := [("bucket", .str (routes.asStr bucket)), ("field", match field with | some field => .str field | none => .null),
        ("periods", .num (.int false periods))]
      build := routes.buildPrediction field bucket periods }

end StatsRoutes

/-- A request to one of the two routes. -/
inductive ReadRequest
  | stats (claims : Claims) (query : StatsQuery) (rawParams : List (String × String))
  | predict (claims : Claims) (query : PredictQuery)

/-- The request is authorised and parsed. -/
def ReadRequest.parse (routes : StatsRoutes Bucket Category) : ReadRequest → Except AppError Cached
  | stats claims query rawParams => routes.getStats claims query rawParams
  | predict claims query => routes.getPrediction claims query

def Cached.key (env : StatsCache.Env JsonValue) (cached : Cached) : String := env.cacheKey cached.kind cached.schema cached.params

/-- Of the crate's `cache_key`, for what the handlers pass it: equal keys are made of equal arguments. -/
def KeysInjective (routes : StatsRoutes Bucket Category) (env : StatsCache.Env JsonValue) : Prop :=
  ∀ r r' cached cached', ReadRequest.parse routes r = .ok cached → ReadRequest.parse routes r' = .ok cached' →
    cached.key env = cached'.key env →
    cached.kind = cached'.kind ∧ cached.schema = cached'.schema ∧ cached.params = cached'.params

/-- Of `serde_json`: the text of a body is read back as the body, but for the floats in it, which the feature
`float_roundtrip` alone would keep. -/
def Rereads (env : StatsCache.Env JsonValue) (reread : Rat → Rat) (body : JsonValue) : Prop :=
  env.fromSlice (env.toString body) = some (body.mapFloats reread)

/-! ### The same key -/

theorem bind_eq_ok {ε α β : Type} {x : Except ε α} {f : α → Except ε β} {b : β} (h : x >>= f = .ok b) :
    ∃ a, x = .ok a ∧ f a = .ok b := by
  cases x with
  | error e => cases h
  | ok a => exact ⟨a, rfl, h⟩

theorem stats_of_parse {routes : StatsRoutes Bucket Category} {claims : Claims} {query : StatsQuery}
    {rawParams : List (String × String)} {cached : Cached} (h : routes.getStats claims query rawParams = .ok cached) :
    ∃ includeArchived bucket, cached = ⟨"stats", "ResourceStats",
      [("bucket", routes.bucketValue bucket), ("include_archived", .bool includeArchived)],
      routes.buildStats includeArchived bucket⟩ := by
  obtain ⟨_, -, h⟩ := bind_eq_ok h
  obtain ⟨_, -, h⟩ := bind_eq_ok h
  obtain ⟨includeArchived, -, h⟩ := bind_eq_ok h
  obtain ⟨bucket, -, h⟩ := bind_eq_ok h
  exact ⟨includeArchived, bucket, (Except.ok.inj h).symm⟩

theorem prediction_of_parse {routes : StatsRoutes Bucket Category} {claims : Claims} {query : PredictQuery} {cached : Cached}
    (h : routes.getPrediction claims query = .ok cached) :
    ∃ field bucket periods, routes.parsePredictField heroFieldSpecs query.field = .ok field ∧
      routes.parsePeriods query.periods = .ok periods ∧ cached = ⟨"predict", "Prediction",
      [("bucket", .str (routes.asStr bucket)), ("field", match field with | some field => .str field | none => .null),
        ("periods", .num (.int false periods))], routes.buildPrediction field bucket periods⟩ := by
  obtain ⟨_, -, h⟩ := bind_eq_ok h
  obtain ⟨bucket, -, h⟩ := bind_eq_ok h
  obtain ⟨field, hfield, h⟩ := bind_eq_ok h
  obtain ⟨periods, hperiods, h⟩ := bind_eq_ok h
  exact ⟨field, _, periods, hfield, hperiods, (Except.ok.inj h).symm⟩

/-- Who asks, and how, does not matter beyond what is in the key. -/
theorem cached_eq_of_key {routes : StatsRoutes Bucket Category} (hroutes : routes.Documented) {env : StatsCache.Env JsonValue}
    (hkeys : KeysInjective routes env) {r r' : ReadRequest} {cached cached' : Cached} (h : r.parse routes = .ok cached)
    (h' : r'.parse routes = .ok cached') (hkey : cached.key env = cached'.key env) : cached = cached' := by
  obtain ⟨hkind, -, hparams⟩ := hkeys _ _ _ _ h h' hkey
  cases r with
  | stats claims query rawParams =>
    obtain ⟨includeArchived, bucket, rfl⟩ := stats_of_parse h
    cases r' with
    | stats claims' query' rawParams' =>
      obtain ⟨includeArchived', bucket', rfl⟩ := stats_of_parse h'
      obtain ⟨hbucket, rfl⟩ : routes.bucketValue bucket = routes.bucketValue bucket' ∧ includeArchived = includeArchived' := by
        simpa using hparams
      obtain rfl : bucket = bucket' := by
        cases bucket <;> cases bucket' <;> simp [StatsRoutes.bucketValue] at hbucket
        · rfl
        · rw [hroutes.asStr_inj hbucket]
      rfl
    | predict claims' query' =>
      obtain ⟨_, _, _, -, -, rfl⟩ := prediction_of_parse h'
      simp at hkind
  | predict claims query =>
    obtain ⟨field, bucket, periods, -, -, rfl⟩ := prediction_of_parse h
    cases r' with
    | stats claims' query' rawParams' =>
      obtain ⟨_, _, rfl⟩ := stats_of_parse h'
      simp at hkind
    | predict claims' query' =>
      obtain ⟨field', bucket', periods', -, -, rfl⟩ := prediction_of_parse h'
      simp only [List.cons.injEq, Prod.mk.injEq, true_and, JsonValue.str.injEq, JsonValue.num.injEq, JsonNumber.int.injEq,
        and_true] at hparams
      obtain ⟨hbucket, hfield, rfl⟩ := hparams
      obtain rfl := hroutes.asStr_inj hbucket
      obtain rfl : field = field' := by
        cases field <;> cases field' <;> simp_all
      rfl

/-! ### The uncached body -/

section Uncached

variable [Lowercase]

/-- The build, alone on the repository, may answer with this body. -/
def Uncached (repo : Repo) (build : Crud AppError JsonValue) (body : JsonValue) : Prop :=
  ∃ seg repo', build.Returns seg (.ok body) ∧ Pool.Plays Repo.Answers repo seg repo'

/-- The build can answer with one body only. -/
def Settles (repo : Repo) (build : Crud AppError JsonValue) : Prop :=
  ∃ expected : Except String JsonValue, Ends Repo.Answers (fun _ _ r => ∀ body, r = .ok body → expected = .ok body) repo [] build

omit [Lowercase] in
theorem ends_of_plays {σ Op ε α : Type} {Ans : Op → Type} {answers : σ → (op : Op) → Ans op → σ → Prop}
    {P : σ → History Op Ans → Except ε α → Prop} {s s' : σ} {h seg : History Op Ans} {p : Prog Op Ans ε α} {r : Except ε α}
    (hends : Ends answers P s h p) (hreturns : p.Returns seg r) (hplays : Pool.Plays answers s seg s') : P s' (h ++ seg) r := by
  induction hplays generalizing h p with
  | nil =>
    rw [List.append_nil]
    exact hends.end hreturns
  | @cons _ _ _ op answer seg ha _ ih =>
    obtain ⟨q, hq, hreturns⟩ := hends.step hreturns ha
    have := ih hq hreturns
    rwa [List.append_assoc] at this

theorem Settles.unique {repo : Repo} {build : Crud AppError JsonValue} (h : Settles repo build) {body body' : JsonValue}
    (hbody : Uncached repo build body) (hbody' : Uncached repo build body') : body = body' := by
  obtain ⟨expected, hends⟩ := h
  obtain ⟨seg, _, hreturns, hplays⟩ := hbody
  obtain ⟨seg', _, hreturns', hplays'⟩ := hbody'
  have h₁ := ends_of_plays hends hreturns hplays body rfl
  have h₂ := ends_of_plays hends hreturns' hplays' body' rfl
  exact Except.ok.inj (h₁.symm.trans h₂)

variable {routes : StatsRoutes Bucket Category} {repo : Repo}

omit [Lowercase] in
theorem of_mapError {ε ε' α : Type} {f : ε → ε'} {x : Except ε α} {a : α} (h : x.mapError f = .ok a) : x = .ok a := by
  cases x with
  | error e => cases h
  | ok b => exact congrArg Except.ok (Except.ok.inj h)

/-- The statistics of what the repository holds. -/
def StatsRoutes.statsOf (routes : StatsRoutes Bucket Category) (repo : Repo) (includeArchived : Bool)
    (bucket : Option Bucket) : Option (ResourceStats (FieldStats Category) (List TimeBucketCount)) :=
  let records := (repo.visible includeArchived).take routes.maxHistoryRecords
  (checkedSub (repo.visible true).length (repo.visible false).length).map fun archived =>
    { total := if includeArchived then (repo.visible true).length else (repo.visible false).length
      summary := routes.fieldStats records
      timeSeries := bucket.map fun b => timeSeries (routes.bucketStart b) records
      archived }

/-- A build that ends with the body of what was found. -/
theorem settles_bind {α : Type} {found : Crud AppError (Option α)} {k : Option α → Crud AppError JsonValue}
    {value : α → Except String JsonValue} {err : AppError} (hsome : ∀ a, k (some a) = StatsRoutes.toValue value a)
    (hnone : k none = .raise err) {expected : Option α}
    (hfound : Ends Repo.Answers (fun _ _ r => ∀ a, r = .ok a → expected = a) repo [] found) : Settles repo (found >>= k) := by
  refine ⟨expected.elim (.error "") value, ends_bind.2 (hfound.mono fun _ h r hr => ?_)⟩
  cases r with
  | error err => exact fun body hbody => by cases hbody
  | ok a =>
    obtain rfl := hr a rfl
    cases expected with
    | none =>
      show Ends _ _ _ _ (k none)
      rw [hnone]
      exact fun body hbody => by cases hbody
    | some a =>
      show Ends _ _ _ _ (k (some a))
      rw [hsome]
      exact ends_ofExcept.2 fun body hbody => of_mapError hbody

theorem settles_stats (hroutes : routes.Documented) (hinv : repo.Inv) (includeArchived : Bool) (bucket : Option Bucket) :
    Settles repo (routes.buildStats includeArchived bucket) := by
  have hcrate := hroutes.crate.toDocumented
  have hreads : ∀ {c : RepoCall}, (∀ op, c ≠ .write op) → ∃ answer repo', repo.Answers c answer repo' := fun hc =>
    Repo.exists_answers hinv _ fun op hop => absurd hop (hc op)
  refine @settles_bind _ repo _ _ _ _ _ (fun _ => rfl) rfl (routes.statsOf repo includeArchived bucket) ?_
  unfold getStats
  simp only [StatsCrate.crud, hcrate.count_eq, hcrate.list_eq, mapError_call, call_bind]
  refine ⟨hreads (by rintro op ⟨⟩), fun first repo₁ hfirst => ?_⟩
  obtain rfl := Repo.answers_read (by rintro op ⟨⟩) hfirst
  cases first with
  | error err => exact fun found hfound => by cases hfound
  | ok visible =>
    refine ⟨hreads (by rintro op ⟨⟩), fun second repo₂ hsecond => ?_⟩
    obtain rfl := Repo.answers_read (by rintro op ⟨⟩) hsecond
    cases second with
    | error err => exact fun body hbody => by cases hbody
    | ok all =>
      refine ⟨hreads (by rintro op ⟨⟩), fun third repo₃ hthird => ?_⟩
      obtain rfl := Repo.answers_read (by rintro op ⟨⟩) hthird
      cases third with
      | error err => exact fun body hbody => by cases hbody
      | ok heroes =>
        obtain rfl := Repo.list_eq hinv hthird
        obtain rfl : visible = (repo₃.visible false).length := Repo.count_eq hfirst
        obtain rfl : all = (repo₃.visible true).length := Repo.count_eq hsecond
        exact fun found hfound => Except.ok.inj hfound

theorem settles_prediction (hroutes : routes.Documented) (hinv : repo.Inv) (field : Option String) (bucket : Bucket)
    (periods : Nat) : Settles repo (routes.buildPrediction field bucket periods) := by
  refine @settles_bind _ repo _ _ _ _ _ (fun _ => rfl) rfl
    ((routes.prediction ((repo.visible false).take routes.maxHistoryRecords) field bucket periods).toOption.getD none) ?_
  unfold PredictCrate.getPrediction
  rw [hroutes.crate.list_eq, mapError_call, call_bind]
  refine ⟨Repo.exists_answers hinv _ (by rintro op ⟨⟩), fun answer repo' hanswer => ?_⟩
  obtain rfl := Repo.answers_read (by rintro op ⟨⟩) hanswer
  cases answer with
  | error err => exact fun body hbody => by cases hbody
  | ok records =>
    obtain rfl := Repo.list_eq hinv hanswer
    exact ends_ofExcept.2 fun found hfound => by rw [hfound]; rfl

theorem settles_of_parse (hroutes : routes.Documented) (hinv : repo.Inv) {r : ReadRequest} {cached : Cached}
    (h : r.parse routes = .ok cached) : Settles repo cached.build := by
  cases r with
  | stats claims query rawParams =>
    obtain ⟨includeArchived, bucket, rfl⟩ := stats_of_parse h
    exact settles_stats hroutes hinv includeArchived bucket
  | predict claims query =>
    obtain ⟨field, bucket, periods, -, -, rfl⟩ := prediction_of_parse h
    exact settles_prediction hroutes hinv field bucket periods

end Uncached

/-! ### The served body -/

section Served

variable {Value : Type} {env : StatsCache.Env Value} {ttl : Nat} {request : StatsCache.Request Value}
  {version : String} {s : System Value} {past : List (System Value)}

/-- The build returned this body, in the calls of the repository that stand together in the history. -/
def Built (build : Crud AppError Value) (body : Value) (h : History CacheOp CacheOp.Ans) : Prop :=
  ∃ before reads after, h = before ++ reads.map (lift .repo) ++ after ∧ build.Returns (answersOf reads) (.ok body)

theorem Built.append {build : Crud AppError Value} {body : Value} {h seg : History CacheOp CacheOp.Ans}
    (hbuilt : Built build body h) : Built build body (h ++ seg) := by
  obtain ⟨before, reads, after, rfl, hreturns⟩ := hbuilt
  exact ⟨before, reads, after ++ seg, List.append_assoc .., hreturns⟩

theorem Built.of_stores {start : Nat} {reads : History RepoCall fun c => Timed c.Ans} {h : History CacheOp CacheOp.Ans}
    {c : SetCommand} (hstores : Stores env ttl request start reads h c) :
    ∃ version kind schema params build value, request = .read version kind schema params build ∧ Built build value h ∧
      c.value = env.toString value ∧
      c.key = (RedisStatsCache.connect ttl version).redisKey heroEventResource (env.cacheKey kind schema params) := by
  obtain ⟨⟨before, rfl⟩, ⟨version, kind, schema, params, build, value, hrequest, hreturns, hvalue, hkey⟩, -⟩ := hstores
  exact ⟨version, kind, schema, params, build, value, hrequest,
    ⟨before ++ [⟨.startBuild, ⟨c.ticket, start⟩⟩], reads, [], by simp, hreturns⟩, hvalue, hkey⟩

/-- A finished read has hit an entry, or built the body itself. -/
def Tells (env : StatsCache.Env Value) (ttl : Nat) (request : StatsCache.Request Value) (h : History CacheOp CacheOp.Ans)
    (reply : Option (Served Value)) : Prop :=
  ∀ version kind schema params build served, request = .read version kind schema params build → reply = some served →
    (served.statsCache = some "hit" ∧
      Hit env ((RedisStatsCache.connect ttl version).redisKey heroEventResource (env.cacheKey kind schema params)) served.body h) ∨
    (served.statsCache ≠ some "hit" ∧ Built build served.body h)

theorem sat_read (version kind schema : String) (params : List (String × Value)) (build : Crud AppError Value) :
    let cache := RedisStatsCache.connect ttl version
    let key := env.cacheKey kind schema params
    Sat (fun _ _ => True)
      (fun h served => (served.statsCache = some "hit" ∧ Hit env (cache.redisKey heroEventResource key) served.body h) ∨
        (served.statsCache ≠ some "hit" ∧ Built build served.body h))
      (fun _ _ => True) [] (cachedJson env ⟨some cache, heroEventResource⟩ kind schema params build) := by
  intro cache key
  have hstate : Sat (fun _ _ => True)
      (fun h (r : Value × CacheState) => (r.2 = .hit ∧ Hit env (cache.redisKey heroEventResource key) r.1 h) ∨
        (r.2 = .miss ∧ Built build r.1 h))
      (fun _ _ => True) [] (CachedStats.getOrBuild env ⟨some cache, heroEventResource⟩ key build) := by
    refine (sat_get cache heroEventResource key fun _ => trivial).bind fun h found hfound => ?_
    cases found with
    | some body => exact .inl ⟨rfl, hfound body rfl⟩
    | none =>
      refine ⟨trivial, fun ticket => ?_⟩
      refine ((sat_via build _).mono (fun _ _ _ => trivial) (fun _ _ hreturns => hreturns) fun _ _ he => he).bind ?_
      rintro h' value ⟨reads, rfl, hreturns⟩
      exact ⟨trivial, fun answer => .inr ⟨rfl, _, reads, [⟨_, answer⟩], rfl, hreturns⟩⟩
  refine hstate.bind fun h ⟨body, cacheState⟩ hbody => ?_
  rcases hbody with ⟨rfl, hhit⟩ | ⟨rfl, hbuilt⟩
  · exact .inl ⟨rfl, hhit⟩
  · exact .inr ⟨by simp [CacheState.asStr], hbuilt⟩

theorem sat_tells (request : StatsCache.Request Value) :
    Sat (fun _ _ => True) (Tells env ttl request) (fun _ _ => True) [] (request.handle env ttl) := by
  cases request with
  | read version kind schema params build =>
    refine (sat_read version kind schema params build).bind fun h served hserved => ?_
    rintro _ _ _ _ _ _ hrequest hreply
    cases hrequest
    cases hreply
    exact hserved
  | write op => exact ⟨trivial, fun _ => by rintro _ _ _ _ _ _ hrequest; cases hrequest⟩
  | invalidate version scans =>
    refine sat_bind.2 ((sat_along _ []).mono (fun _ _ hop => hop) (fun _ _ _ => ?_) fun _ _ he => he)
    rintro _ _ _ _ _ _ hrequest
    cases hrequest

/-- Every body that is served was returned by a build for the same entry. -/
theorem built_of_run (hversion : ∀ job ∈ s.jobs, ∀ version' kind schema params build,
      job.request = .read version' kind schema params build → version' = version)
    (h : Run env ttl (s :: past)) {job : CacheJob Value} (hjob : job ∈ s.jobs) {kind schema : String}
    {params : List (String × Value)} {build : Crud AppError Value}
    (hrequest : job.request = .read version kind schema params build) {served : Served Value}
    (hprog : job.prog = .ret (some served)) :
    ∃ builder ∈ s.jobs, ∃ kind' schema' params' build' value,
      builder.request = .read version kind' schema' params' build' ∧
      env.cacheKey kind' schema' params' = env.cacheKey kind schema params ∧ Built build' value builder.history ∧
      (served.statsCache ≠ some "hit" → served.body = value) ∧
      (served.statsCache = some "hit" → env.fromSlice (env.toString value) = some served.body) := by
  obtain ⟨i, hi⟩ := List.getElem?_of_mem hjob
  have htells := Pool.sat (fun request => @sat_tells _ env ttl request) (fun _ hs => hs.2) h hi
  rw [hprog] at htells
  rcases htells _ _ _ _ _ _ hrequest rfl with ⟨hhit, bytes, time, hhistory, hbody⟩ | ⟨hmiss, hbuilt⟩
  · -- the entry was stored by a job, after its build
    obtain ⟨stored, hstored, hkey, hvalue, -⟩ := stored_of_hit h hi hhistory
    obtain ⟨j, builder, h₁, h₂, answer, hbuilder, hsent, -⟩ := (Accounted.of_run h).stored stored hstored
    have hadmits := Pool.admitted (StatsCache.sat_handle env ttl) (fun _ hs => hs.2) h hbuilder hsent
    obtain ⟨start, reads, hstores⟩ := hadmits stored.value rfl
    obtain ⟨version', kind', schema', params', build', value, hrequest', hbuilt, htext, hkey'⟩ := Built.of_stores hstores
    have hmem := List.mem_of_getElem? hbuilder
    obtain rfl := hversion builder hmem _ _ _ _ _ hrequest'
    refine ⟨builder, hmem, kind', schema', params', build', value, hrequest', ?_, ?_, fun hmiss => absurd hhit hmiss, fun _ => ?_⟩
    · exact RedisStatsCache.key_of_redisKey (hkey'.symm.trans hkey)
    · rw [hsent]
      exact hbuilt.append
    · rw [← htext, hvalue]
      exact hbody
  · exact ⟨job, hjob, kind, schema, params, build, served.body, hrequest, rfl, hbuilt, fun _ => rfl, fun hhit => absurd hhit hmiss⟩

end Served

section Repository

variable [Lowercase] {routes : StatsRoutes Bucket Category} {env : StatsCache.Env JsonValue} {ttl : Nat} {version : String}
  {s : System JsonValue} {past : List (System JsonValue)}

/-- The job has read this state of the repository, and no other. -/
def Reads (repo : Repo) (job : CacheJob JsonValue) : Prop :=
  ∀ c answer, ⟨.repo c, answer⟩ ∈ job.history → repo.Answers c answer.value repo

/-- A read is a request to one of the two routes, on a replica of this version. -/
def Routed (routes : StatsRoutes Bucket Category) (version : String) (job : CacheJob JsonValue) : Prop :=
  ∀ version' kind schema params build, job.request = .read version' kind schema params build →
    version' = version ∧ ∃ r, ReadRequest.parse routes r = .ok ⟨kind, schema, params, build⟩

theorem uncached_of_built {repo : Repo} {job : CacheJob JsonValue} (hreads : Reads repo job)
    {build : Crud AppError JsonValue} {body : JsonValue} (hbuilt : Built build body job.history) : Uncached repo build body := by
  obtain ⟨before, reads, after, hhistory, hreturns⟩ := hbuilt
  refine ⟨_, repo, hreturns, ?_⟩
  have hanswers : ∀ read ∈ reads, repo.Answers read.1 read.2.value repo := fun read hread =>
    hreads read.1 read.2 (by
      rw [hhistory]
      exact List.mem_append_left _ (List.mem_append_right _ (List.mem_map_of_mem hread)))
  clear hhistory hreturns
  induction reads with
  | nil => exact .nil repo
  | cons read reads ih =>
    rw [List.forall_mem_cons] at hanswers
    exact .cons hanswers.1 (ih hanswers.2)

/-- Two requests with one key have one body, whoever asks. And what is served to a request is that body, of every
state of the repository that the build behind it has read: the request's own build, or the one that stored the entry. On
a hit its floats are those read back from its text. -/
theorem served_eq_uncached_iff (hroutes : routes.Documented) (hkeys : KeysInjective routes env) :
    (∀ r r' cached cached', ReadRequest.parse routes r = .ok cached → ReadRequest.parse routes r' = .ok cached' →
      cached.key env = cached'.key env → cached'.build = cached.build ∧ ∀ repo : Repo, repo.Inv → ∀ body body',
        Uncached repo cached.build body → Uncached repo cached'.build body' → body' = body) ∧
    ∀ (ttl : Nat) (version : String) (s : System JsonValue) (past : List (System JsonValue)), Run env ttl (s :: past) →
      (∀ job ∈ s.jobs, Routed routes version job) → ∀ job ∈ s.jobs, ∀ kind schema params build served,
        job.request = .read version kind schema params build → job.prog = .ret (some served) →
        ∃ builder ∈ s.jobs, ∃ body, Built build body builder.history ∧
          (∀ repo : Repo, repo.Inv → Reads repo builder →
            Uncached repo build body ∧ ∀ body', Uncached repo build body' → body' = body) ∧
          (served.statsCache ≠ some "hit" → served.body = body) ∧
          ∀ reread, Rereads env reread body → (served.statsCache = some "hit" → served.body = body.mapFloats reread) ∧
            (served.body = body ↔ (served.statsCache = some "hit" → ∀ x ∈ body.floats, reread x = x)) := by
  constructor
  · intro r r' cached cached' hr hr' hkey
    obtain rfl := cached_eq_of_key hroutes hkeys hr hr' hkey
    exact ⟨rfl, fun repo hinv body body' hbody hbody' => (settles_of_parse hroutes hinv hr).unique hbody' hbody⟩
  · intro ttl version s past h hrouted job hjob kind schema params build served hrequest hprog
    obtain ⟨builder, hbuilder, kind', schema', params', build', body, hrequest', hkey, hbuilt, hmiss, hhit⟩ :=
      built_of_run (fun job hjob _ _ _ _ _ hrequest => (hrouted job hjob _ _ _ _ _ hrequest).1) h hjob hrequest hprog
    obtain ⟨-, r, hr⟩ := hrouted job hjob _ _ _ _ _ hrequest
    obtain ⟨-, r', hr'⟩ := hrouted builder hbuilder _ _ _ _ _ hrequest'
    obtain rfl : build' = build := congrArg Cached.build (cached_eq_of_key hroutes hkeys hr' hr hkey)
    refine ⟨builder, hbuilder, body, hbuilt, fun repo hinv hreads => ?_, hmiss, fun reread hrereads => ?_⟩
    · have huncached := uncached_of_built hreads hbuilt
      exact ⟨huncached, fun body' hbody' => (settles_of_parse hroutes hinv hr).unique hbody' huncached⟩
    · have hread : served.statsCache = some "hit" → served.body = body.mapFloats reread := fun h =>
        Option.some.inj ((hhit h).symm.trans hrereads)
      refine ⟨hread, fun heq h => ?_, fun hfloats => ?_⟩
      · rw [← JsonValue.mapFloats_eq_self_iff, ← hread h, heq]
      · by_cases h : served.statsCache = some "hit"
        · rw [hread h, (JsonValue.mapFloats_eq_self_iff reread body).2 (hfloats h)]
        · exact hmiss h

end Repository

/-! ### A hit for somebody else -/

/-- Days only, one field, one period; a body says the average power level of the heroes, or how many there are. -/
def StatsRoutes.daily : StatsRoutes Unit Unit where
  toPredictCrate := .daily 3
  clientId := "hero-api"
  rejectOnlyArchived _ := .ok ()
  parseIncludeArchived rawParams := .ok (rawParams.contains ("include_archived", "true"))
  parseBucket bucket := .ok (bucket.map fun _ => ())
  parsePredictField _ _ := .ok none
  parsePeriods _ := .ok 1
  day := ()
  statsValue stats := .ok <|
    match (stats.summary.numeric.find? fun stat => stat.field = "power_level").bind NumericFieldStat.average with
    | some average => .num (.float ((Js.roundDouble average).getD 0))
    | none => .num (.int false stats.total)
  predictionValue _ := .ok (.num (.int false 0))

theorem StatsRoutes.documented_daily : StatsRoutes.daily.Documented := ⟨PredictCrate.documented_daily 3, fun _ _ _ => rfl⟩

theorem statsValue_daily {stats : ResourceStats (FieldStats Unit) (List TimeBucketCount)} {average : Rat}
    (h : (stats.summary.numeric.find? fun stat => stat.field = "power_level").bind NumericFieldStat.average = some average) :
    StatsRoutes.daily.statsValue stats = .ok (.num (.float ((Js.roundDouble average).getD 0))) := by
  simp only [StatsRoutes.daily, h]

/-- A key is its arguments one after the other, and numbers are written and read as `serde_json` does. -/
def StatsCache.Env.serde : StatsCache.Env JsonValue where
  cacheKey kind schema params := ":".intercalate (kind :: schema :: "shared" :: params.map fun p => p.1 ++ "=" ++ match p.2 with
    | .str text => text
    | .bool true => "true"
    | .bool false => "false"
    | _ => "null")
  toString body :=
    let text : List Char := match body with
      | .num (.int _ n) => Nat.toDigits 10 n
      | .num (.float x) => (SerdeFloat.shortest x).elim [] SerdeFloat.write
      | _ => []
    text.map fun c => UInt8.ofNat c.toNat
  fromSlice bytes :=
    let text := bytes.map fun byte => Char.ofNat byte.toNat
    if '.' ∈ text then (SerdeFloat.read text).map fun x => .num (.float x)
    else (Js.digits? 10 text).map fun n => .num (.int false n)

theorem keysInjective_serde : KeysInjective .daily .serde := by
  intro r r' cached cached' h h' hkey
  cases r with
  | stats claims query rawParams =>
    obtain ⟨includeArchived, bucket, rfl⟩ := stats_of_parse h
    cases r' with
    | stats claims' query' rawParams' =>
      obtain ⟨includeArchived', bucket', rfl⟩ := stats_of_parse h'
      revert hkey
      cases bucket <;> cases bucket' <;> cases includeArchived <;> cases includeArchived' <;>
        simp [Cached.key, StatsCache.Env.serde, StatsRoutes.bucketValue, StatsRoutes.daily, PredictCrate.daily]
    | predict claims' query' =>
      obtain ⟨_, _, _, hfield, hperiods, rfl⟩ := prediction_of_parse h'
      cases hfield
      cases hperiods
      revert hkey
      cases bucket <;> cases includeArchived <;>
        simp [Cached.key, StatsCache.Env.serde, StatsRoutes.bucketValue, StatsRoutes.daily, PredictCrate.daily]
  | predict claims query =>
    obtain ⟨_, _, _, hfield, hperiods, rfl⟩ := prediction_of_parse h
    cases hfield
    cases hperiods
    cases r' with
    | stats claims' query' rawParams' =>
      obtain ⟨includeArchived, bucket, rfl⟩ := stats_of_parse h'
      revert hkey
      cases bucket <;> cases includeArchived <;>
        simp [Cached.key, StatsCache.Env.serde, StatsRoutes.bucketValue, StatsRoutes.daily, PredictCrate.daily]
    | predict claims' query' =>
      obtain ⟨_, _, _, hfield, hperiods, rfl⟩ := prediction_of_parse h'
      cases hfield
      cases hperiods
      exact ⟨rfl, rfl, rfl⟩

def roleClaims (role : String) : Claims :=
  ⟨.object [("resource_access", .object [("hero-api", .object [("roles", .array [.string role])])])]⟩

theorem parse_roleClaims {role : String} (h : role ∈ heroReadRoles) :
    ReadRequest.parse .daily (.stats (roleClaims role) ⟨none⟩ []) = .ok ⟨"stats", "ResourceStats",
      [("bucket", .null), ("include_archived", .bool false)], StatsRoutes.daily.buildStats false none⟩ := by
  have hrole : (roleClaims role).requireAnyRole "hero-api" heroReadRoles = .ok () :=
    Claims.requireAnyRole_eq_ok.2 ⟨role, h, by simp [Claims.grantedRoles, roleClaims, Json.get, Json.asArray, Json.asStr]⟩
  show ((roleClaims role).requireAnyRole "hero-api" heroReadRoles >>= fun _ => _) = _
  rw [hrole]
  rfl

/-- The calls of a build of the statistics, and what this repository answers. -/
def statsReads (repo : Repo) (heroes : List Model) : History RepoCall fun c => Timed c.Ans :=
  [⟨.count [] false false, ⟨.ok (repo.visible false).length, 0⟩⟩, ⟨.count [] true false, ⟨.ok (repo.visible true).length, 0⟩⟩,
    ⟨.list ⟨0, 3, false, false, [], []⟩, ⟨.ok heroes, 0⟩⟩]

section

variable [Lowercase] {repo : HeroMemoryRepository}

/-- A repository that answers like that. -/
theorem answers_statsReads (repo : HeroMemoryRepository) :
    ∀ read ∈ statsReads (.memory repo) (repo.list ⟨0, 3, false, false, [], []⟩),
      (Repo.memory repo).Answers read.1 read.2.value (.memory repo) := by
  have hcount : ∀ includeArchived, repo.count [] includeArchived false = ((Repo.memory repo).visible includeArchived).length := by
    intro includeArchived
    simp [HeroMemoryRepository.count, HeroMemory.matchesAll, Repo.visible, Repo.rows]
  simp only [statsReads, List.forall_mem_cons]
  exact ⟨⟨by rw [hcount], rfl⟩, ⟨by rw [hcount], rfl⟩, ⟨rfl, rfl⟩, fun _ h => absurd h List.not_mem_nil⟩

/-- The statistics of what the repository shows. -/
def statsOf (repo : Repo) (heroes : List Model) : ResourceStats (FieldStats Unit) (List TimeBucketCount) where
  total := (repo.visible false).length
  summary := StatsRoutes.daily.fieldStats heroes
  timeSeries := none
  archived := (repo.visible true).length - (repo.visible false).length

omit [Lowercase] in
theorem returns_buildStats {repo : Repo} {heroes : List Model} {body : JsonValue}
    (hvalue : StatsRoutes.daily.statsValue (statsOf repo heroes) = .ok body) :
    (StatsRoutes.daily.buildStats false none).Returns (answersOf (statsReads repo heroes)) (.ok body) := by
  have hle : (repo.visible false).length ≤ (repo.visible true).length := by
    have := repo.length_visible_false
    have := repo.length_visible_true
    omega
  have hstats : (TemplateAxum.getStats StatsRoutes.daily.crud false none).Returns (answersOf (statsReads repo heroes))
      (.ok (some (statsOf repo heroes))) := by
    refine .call (.call (.call ?_))
    show Prog.Returns (.ret ((checkedSub _ _).map _)) [] _
    rw [checkedSub, if_pos hle]
    exact .ret _
  rw [← List.append_nil (answersOf _)]
  refine hstats.bind ?_
  show (StatsRoutes.toValue StatsRoutes.daily.statsValue (statsOf repo heroes)).Returns [] _
  rw [StatsRoutes.toValue, hvalue]
  exact .ret _

/-- What is asked of the cache for the statistics of the live heroes. -/
def liveStats : StatsCache.Request JsonValue :=
  .read "1" "stats" "ResourceStats" [("bucket", .null), ("include_archived", .bool false)] (StatsRoutes.daily.buildStats false none)

/-- It is asked twice, of an empty cache, and then before the time to live of the answer is over. -/
theorem exists_visits {repo : HeroMemoryRepository} {body body' : JsonValue}
    (hvalue : StatsRoutes.daily.statsValue (statsOf (.memory repo) (repo.list ⟨0, 3, false, false, [], []⟩)) = .ok body)
    (hjson : StatsCache.Env.serde.fromSlice (StatsCache.Env.serde.toString body) = some body') (set : Nat) {later : Nat}
    (hlater : later < 1000000000) :
    ∃ past w builder reader, Run .serde 1000000000 (⟨w, [builder, reader]⟩ :: past) ∧
      (∀ job ∈ [builder, reader], job.request = liveStats ∧ Reads (.memory repo) job) ∧
      Built (StatsRoutes.daily.buildStats false none) body builder.history ∧
      reader.prog = .ret (some ⟨body', some "hit"⟩) ∧ ∀ stored ∈ w.stored, stored.time = set := by
  have hreturns := returns_buildStats hvalue
  have hanswers := answers_statsReads repo
  obtain ⟨past, w, builder, reader, hrun, hbuilder, hreader, hstored⟩ := exists_hit "1" "stats" "ResourceStats"
    [("bucket", .null), ("include_archived", .bool false)] (by simp [statsReads]) hreturns hjson le_rfl set
    (show later < 1 * 1000000000 from hlater)
  refine ⟨past, w, builder, reader, hrun, fun job hjob => ?_, ?_, by rw [hreader], fun stored hmem => ?_⟩
  · rcases List.mem_pair.1 hjob with rfl | rfl
    · refine ⟨by rw [hbuilder]; rfl, fun c answer hread => ?_⟩
      rw [hbuilder] at hread
      simp only [List.mem_cons, List.mem_append, List.mem_map, List.not_mem_nil, or_false, Sigma.mk.injEq, reduceCtorEq,
        false_and, false_or] at hread
      obtain ⟨⟨c', answer'⟩, hread, heq⟩ := hread
      cases heq
      exact hanswers _ hread
    · refine ⟨by rw [hreader]; rfl, fun c answer hread => ?_⟩
      rw [hreader] at hread
      simp at hread
  · rw [hbuilder]
    exact ⟨[_, _], _, [_], rfl, hreturns⟩
  · rw [hstored] at hmem
    rw [List.mem_singleton.1 hmem]

/-- Two requests of which the second is served what was stored for the first. -/
theorem exists_served {repo : HeroMemoryRepository} {body body' : JsonValue}
    (hvalue : StatsRoutes.daily.statsValue (statsOf (.memory repo) (repo.list ⟨0, 3, false, false, [], []⟩)) = .ok body)
    (hjson : StatsCache.Env.serde.fromSlice (StatsCache.Env.serde.toString body) = some body') :
    ∃ s past reader, Run .serde 1000000000 (s :: past) ∧ reader ∈ s.jobs ∧ reader.request = liveStats ∧
      reader.prog = .ret (some ⟨body', some "hit"⟩) ∧
      (∀ job ∈ s.jobs, Routed .daily "1" job ∧ Reads (.memory repo) job) ∧
      Uncached (.memory repo) (StatsRoutes.daily.buildStats false none) body := by
  obtain ⟨past, w, builder, reader, hrun, hjobs, hbuilt, hprog, -⟩ := exists_visits hvalue hjson 0 (show 0 < 1000000000 by decide)
  refine ⟨_, past, reader, hrun, by simp, (hjobs reader (by simp)).1, hprog, fun job hjob => ⟨?_, (hjobs job hjob).2⟩,
    uncached_of_built (hjobs builder (by simp)).2 hbuilt⟩
  intro version kind schema params build hread
  obtain ⟨rfl, rfl, rfl, rfl, rfl⟩ := StatsCache.Request.read.inj ((hjobs job hjob).1.symm.trans hread)
  exact ⟨rfl, _, parse_roleClaims (show "viewer" ∈ heroReadRoles by decide)⟩

theorem statsValue_new : StatsRoutes.daily.statsValue
    (statsOf (.memory .new) (HeroMemoryRepository.list ⟨0, 3, false, false, [], []⟩ .new)) = .ok (.num (.int false 0)) := by
  have hlist : HeroMemoryRepository.list ⟨0, 3, false, false, [], []⟩ .new = [] := by
    have hvalues : HeroMemoryRepository.new.records.values = [] := rfl
    simp [HeroMemoryRepository.list, hvalues, StableSort.sortBy]
  rw [hlist]
  rfl

end

/-- A hit half a second after a `SET` for one second, two seconds after the build started; a viewer asks so. -/
theorem hit_bounded_slow_build :
    ReadRequest.parse .daily (.stats (roleClaims "viewer") ⟨none⟩ []) = .ok ⟨"stats", "ResourceStats",
        [("bucket", .null), ("include_archived", .bool false)], StatsRoutes.daily.buildStats false none⟩ ∧
      ∃ (s : System JsonValue) (past : List (System JsonValue)) (job : CacheJob JsonValue),
        Run .serde 1000000000 (s :: past) ∧ s.jobs[1]? = some job ∧ job.request = liveStats ∧
        job.prog = .ret (some ⟨.num (.int false 0), some "hit"⟩) ∧ ∃ stored ∈ s.shared.stored, stored.time = 2000000000 := by
  let _ := Lowercase.ascii
  refine ⟨parse_roleClaims (show "viewer" ∈ heroReadRoles by decide), ?_⟩
  have hjson : StatsCache.Env.serde.fromSlice (StatsCache.Env.serde.toString (.num (.int false 0))) =
      some (.num (.int false 0)) := rfl
  obtain ⟨past, w, builder, reader, hrun, hjobs, -, hprog, hset⟩ := exists_visits statsValue_new hjson 2000000000
    (show 500000000 < 1000000000 by decide)
  have hapart : KeysApart .serde ⟨w, [builder, reader]⟩ := by
    have hkey : heroEventResource.toList ∉ (StatsCache.Env.serde.cacheKey "stats" "ResourceStats"
        [("bucket", .null), ("include_archived", .bool false)]).toList.splitOn ':' := by decide
    intro job hjob version kind schema params build hread
    obtain ⟨-, rfl, rfl, rfl, -⟩ := StatsCache.Request.read.inj ((hjobs job hjob).1.symm.trans hread)
    exact hkey
  have hrequest := (hjobs reader (by simp)).1
  refine ⟨_, past, reader, hrun, rfl, hrequest, hprog, ?_⟩
  obtain ⟨bytes, time, -, -, j, _, -, -, -, -, -, stored, -, -, -, -, -, -, -, -, -, -, -, hs, -⟩ :=
    hit_bounded hapart (le_refl 1) rfl hrun (i := 1) rfl hrequest hprog rfl
  exact ⟨stored, hs, hset stored hs⟩

/-- A maintainer is served what was built for a viewer, on an empty repository. -/
theorem served_eq_uncached_iff_daily : let _ := Lowercase.ascii
    ∃ (s : System JsonValue) (past : List (System JsonValue)) (job : CacheJob JsonValue) (body : JsonValue),
      Run .serde 1000000000 (s :: past) ∧ job ∈ s.jobs ∧ job.prog = .ret (some ⟨body, some "hit"⟩) ∧
      ∀ body', Uncached (.memory .new) (StatsRoutes.daily.buildStats false none) body' → body' = body := by
  intro lowercase
  have hjson : StatsCache.Env.serde.fromSlice (StatsCache.Env.serde.toString (.num (.int false 0))) =
      some (.num (.int false 0)) := rfl
  obtain ⟨s, past, reader, hrun, hreader, hrequest, hprog, hjobs, huncached⟩ := exists_served statsValue_new hjson
  refine ⟨s, past, reader, _, hrun, hreader, hprog, fun body' hbody' => ?_⟩
  obtain ⟨builder, hbuilder, body, -, hbody, -, hhit⟩ := (served_eq_uncached_iff StatsRoutes.documented_daily
    keysInjective_serde).2 1000000000 "1" s past hrun (fun job hjob => (hjobs job hjob).1) reader hreader _ _ _ _ _ hrequest hprog
  have hunique := (hbody (.memory .new) .new (hjobs builder hbuilder).2).2
  obtain rfl := hunique _ huncached
  have heq := (hhit id hjson).2.2 fun _ => by simp [JsonValue.floats]
  exact (hunique body' hbody').trans heq.symm

/-- Three heroes, of which the average level is no short decimal. -/
def trio : HeroMemoryRepository where
  records := ((OrdMap.empty.insert 1 ⟨1, some "Nova", some [], some 90, "alice", none, 0, 0⟩).insert 2
    ⟨2, some "Rune", some [], some 90, "alice", none, 0, 0⟩).insert 3 ⟨3, some "Onyx", some [], some 91, "alice", none, 0, 0⟩
  nextId := 4

theorem inv_trio : trio.Inv := by
  have hrows : ∀ id row, trio.records.get? id = some row → id = row.id ∧ (id = 1 ∨ id = 2 ∨ id = 3) := by
    intro id row h
    simp only [trio, OrdMap.get?_insert] at h
    split_ifs at h with h₁ h₂ h₃
    · cases h; exact ⟨h₁, .inr (.inr h₁)⟩
    · cases h; exact ⟨h₂, .inr (.inl h₂)⟩
    · cases h; exact ⟨h₃, .inl h₃⟩
    · cases h
  refine ⟨fun id row h => (hrows id row h).1.symm, fun id row h => ?_, by decide⟩
  obtain ⟨-, rfl | rfl | rfl⟩ := hrows id row h <;> decide

/-- Of which the mean is read back as its neighbour. -/
theorem not_served_eq_uncached : let _ := Lowercase.ascii
    ¬ ∀ (s : System JsonValue) (past : List (System JsonValue)) (repo : Repo), Run .serde 1000000000 (s :: past) → repo.Inv →
      (∀ job ∈ s.jobs, Routed .daily "1" job ∧ Reads repo job) → ∀ job ∈ s.jobs, ∀ kind schema params build served body,
        job.request = .read "1" kind schema params build → job.prog = .ret (some served) → Uncached repo build body →
        served.body = body := by
  intro lowercase hall
  have hlist : trio.list ⟨0, 3, false, false, [], []⟩ = trio.records.values := by
    rw [Repo.list_eq (show (Repo.memory trio).Inv from inv_trio) ⟨rfl, rfl⟩]
    decide
  have hround : Js.roundDouble (271 / 3) = some (6356643224048981 / 70368744177664) := by decide +kernel
  have hvalue : StatsRoutes.daily.statsValue (statsOf (.memory trio) (trio.list ⟨0, 3, false, false, [], []⟩)) =
      .ok (.num (.float (6356643224048981 / 70368744177664))) := by
    have hlevels : trio.records.values.filterMap (fun row => row.powerLevel.map fun v => (v.toInt : Rat)) = [90, 90, 91] := by
      decide +kernel
    have haverage : (numericStat "power_level" [90, 90, 91]).average = some (271 / 3) := by norm_num [numericStat]
    have hnumeric := numeric_fieldStats StatsRoutes.documented_daily.crate.toDocumented trio.records.values
    rw [hlevels] at hnumeric
    have hfind : ((StatsRoutes.daily.fieldStats trio.records.values).numeric.find? fun stat => stat.field = "power_level") =
        some (numericStat "power_level" [90, 90, 91]) := by
      rw [hnumeric]
      simp
    rw [hlist]
    refine (@statsValue_daily _ (271 / 3) ?_).trans (by rw [hround]; rfl)
    show ((StatsRoutes.daily.fieldStats trio.records.values).numeric.find? _).bind _ = _
    rw [hfind, Option.bind_some, haverage]
  have hjson : StatsCache.Env.serde.fromSlice (StatsCache.Env.serde.toString (.num (.float (6356643224048981 / 70368744177664)))) =
      some (.num (.float (1589160806012245 / 17592186044416))) := by
    have hwrite : (SerdeFloat.shortest (6356643224048981 / 70368744177664)).elim [] SerdeFloat.write =
        "90.33333333333333".toList := by decide +kernel
    have hread : SerdeFloat.read "90.33333333333333".toList = some (1589160806012245 / 17592186044416) := by decide +kernel
    have htext : ("90.33333333333333".toList.map fun c => UInt8.ofNat c.toNat).map (fun byte => Char.ofNat byte.toNat) =
        "90.33333333333333".toList := by decide
    simp only [StatsCache.Env.serde, hwrite, htext, hread]
    rfl
  obtain ⟨s, past, reader, hrun, hreader, hrequest, hprog, hjobs, huncached⟩ := exists_served hvalue hjson
  have heq := hall s past (.memory trio) hrun inv_trio hjobs reader hreader _ _ _ _ _ _ hrequest hprog huncached
  simp only [JsonValue.num.injEq, JsonNumber.float.injEq] at heq
  norm_num at heq

end TemplateAxum
