import TemplateAxum.StatsCache

/-!
# How stale a hit can be

An entry is there because a `SET` was executed less than a time to live ago; the `SET` was sent by a
build, after the build's reads. Neither an invalidation that came too early nor a command that was
executed late changes that.
-/

namespace TemplateAxum

open Prog StatsCache

/-! ### Keys -/

/-- Two lists cut at the last `a`. -/
theorem append_cons_inj_of_last {α : Type} {a : α} {x y u v : List α} (hu : a ∉ u) (hv : a ∉ v)
    (h : x ++ a :: u = y ++ a :: v) : x = y ∧ u = v := by
  rcases List.append_eq_append_iff.1 h with ⟨gap, rfl, hgap⟩ | ⟨gap, rfl, hgap⟩
  · cases gap with
    | nil =>
      obtain ⟨-, rfl⟩ := List.cons.inj hgap
      exact ⟨(List.append_nil _).symm, rfl⟩
    | cons first gap =>
      obtain ⟨rfl, rfl⟩ := List.cons.inj hgap
      simp at hu
  · cases gap with
    | nil =>
      obtain ⟨-, rfl⟩ := List.cons.inj hgap
      exact ⟨List.append_nil _, rfl⟩
    | cons first gap =>
      obtain ⟨rfl, rfl⟩ := List.cons.inj hgap
      simp at hv

namespace RedisStatsCache

variable {ttl : Nat} {version version' resource key key' : String}

theorem redisKey_toList :
    ((connect ttl version).redisKey resource key).toList =
      "stats-cache:".toList ++ (version.toList ++ ':' :: (resource.toList ++ ':' :: key.toList)) := by
  simp [redisKey, connect]

/-- Of one version. -/
theorem key_of_redisKey (h : (connect ttl version).redisKey resource key = (connect ttl version).redisKey resource key') :
    key = key' := by
  have heq := congrArg String.toList h
  rw [redisKey_toList, redisKey_toList] at heq
  have hrest := List.append_cancel_left (List.append_cancel_left heq)
  exact String.toList_inj.1 (List.cons.inj (List.append_cancel_left (List.cons.inj hrest).2)).2

/-- A version may hold the separator; the resource does not, and is no segment of a key. -/
theorem redisKey_inj (hres : ':' ∉ resource.toList) (hkey : resource.toList ∉ key.toList.splitOn ':')
    (hkey' : resource.toList ∉ key'.toList.splitOn ':')
    (h : (connect ttl version).redisKey resource key = (connect ttl version').redisKey resource key') :
    version = version' ∧ key = key' := by
  have heq := congrArg String.toList h
  rw [redisKey_toList, redisKey_toList] at heq
  have hsplit := congrArg (List.splitOn ':') (List.append_cancel_left heq)
  simp only [List.splitOn_append_cons_self, List.splitOn_eq_singleton hres, List.singleton_append] at hsplit
  rcases append_cons_inj_of_last hkey hkey' hsplit with ⟨hversion, hk⟩
  have join : ∀ l l' : List Char, l.splitOn ':' = l'.splitOn ':' → l = l' := fun l l' hl => by
    have hjoin := congrArg [':'].intercalate hl
    rwa [List.intercalate_splitOn, List.intercalate_splitOn] at hjoin
  exact ⟨String.toList_inj.1 (join _ _ hversion), String.toList_inj.1 (join _ _ hk)⟩

end RedisStatsCache

namespace StatsCache

variable {Value : Type} {env : Env Value} {ttl : Nat}

/-! ### The programs -/

/-- The reads of a build with their answers, without the times. -/
abbrev answersOf (reads : History RepoCall fun c => Timed c.Ans) : History RepoCall RepoCall.Ans :=
  reads.map fun read => ⟨read.1, read.2.value⟩

/-- `c` stores what a build of `request` returned, which started at `start` and made `reads`. -/
structure Stores (env : Env Value) (ttl : Nat) (request : Request Value) (start : Nat)
    (reads : History RepoCall fun c => Timed c.Ans) (h : History CacheOp CacheOp.Ans) (c : SetCommand) : Prop where
  history : ∃ before, h = before ++ ⟨.startBuild, ⟨c.ticket, start⟩⟩ :: reads.map (lift .repo)
  request : ∃ version kind schema params build value, request = .read version kind schema params build ∧
    build.Returns (answersOf reads) (.ok value) ∧ c.value = env.toString value ∧
    c.key = (RedisStatsCache.connect ttl version).redisKey heroEventResource (env.cacheKey kind schema params)
  seconds : c.seconds = max (ttl / 1000000000) 1

/-- A `SET` is sent by a build that is over. -/
def Admits (env : Env Value) (ttl : Nat) (request : Request Value) (h : History CacheOp CacheOp.Ans) (op : CacheOp) :
    Prop :=
  ∀ c, op = .set c → ∃ start reads, Stores env ttl request start reads h c

/-- The history of a hit: one `GET`, answered with what `body` was read from. -/
def Hit (env : Env Value) (redisKey : String) (body : Value) (h : History CacheOp CacheOp.Ans) : Prop :=
  ∃ bytes time, h = [⟨.get redisKey, ⟨.ok (some bytes), time⟩⟩] ∧ env.fromSlice bytes = some body

theorem Admits.of_ne {request : Request Value} {h : History CacheOp CacheOp.Ans} {op : CacheOp}
    (hop : ∀ c, op ≠ .set c) : Admits env ttl request h op := fun c hc => absurd hc (hop c)

theorem sat_get {ε : Type} {Φ : History CacheOp CacheOp.Ans → CacheOp → Prop} {E : History CacheOp CacheOp.Ans → ε → Prop}
    (cache : RedisStatsCache) (resource key : String) (hop : ∀ redisKey, Φ [] (.get redisKey)) :
    Sat Φ (fun h found => ∀ body, found = some body → Hit env (cache.redisKey resource key) body h) E []
      (cache.get env resource key) := by
  refine ⟨hop _, fun ⟨answer, time⟩ => ?_⟩
  cases answer with
  | error err => exact fun body hbody => by cases hbody
  | ok raw =>
    cases raw with
    | none => exact fun body hbody => by cases hbody
    | some bytes => exact fun body hbody => ⟨bytes, time, rfl, hbody⟩

section Read

variable {version kind schema : String} {params : List (String × Value)} {build : Crud AppError Value}

variable (env ttl version kind schema params build)

/-- After a miss. -/
theorem sat_miss (h : History CacheOp CacheOp.Ans) :
    Sat (Admits env ttl (.read version kind schema params build)) (fun _ r => r.2 = .miss) (fun _ _ => True) h
      (do
        let ticket ← ask .startBuild
        let body ← runBuild build
        (RedisStatsCache.connect ttl version).set env heroEventResource (env.cacheKey kind schema params) ticket body
        pure (body, CacheState.miss)) := by
  refine ⟨.of_ne (by simp), fun ⟨ticket, start⟩ => ?_⟩
  refine ((sat_via build _).mono ?_ (fun _ _ hret => hret) fun _ _ he => he).bind ?_
  · rintro h' op ⟨c, rfl⟩
    exact .of_ne (by simp)
  · rintro h' value ⟨reads, rfl, hret⟩
    refine ⟨fun c hc => ?_, fun answer => rfl⟩
    obtain rfl := CacheOp.set.inj hc
    exact ⟨start, reads, ⟨h, by simp⟩, ⟨version, kind, schema, params, build, value, rfl, hret, rfl, rfl⟩, rfl⟩

theorem sat_getOrBuild :
    let cache := RedisStatsCache.connect ttl version
    let key := env.cacheKey kind schema params
    Sat (Admits env ttl (.read version kind schema params build))
      (fun h r => r.2 = .hit → Hit env (cache.redisKey heroEventResource key) r.1 h) (fun _ _ => True) []
      (CachedStats.getOrBuild env ⟨some cache, heroEventResource⟩ key build) := by
  intro cache key
  refine (sat_get cache heroEventResource key fun _ => .of_ne (by simp)).bind fun h found hfound => ?_
  cases found with
  | none =>
    refine (sat_miss env ttl version kind schema params build h).mono (fun _ _ hop => hop) ?_ fun _ _ he => he
    rintro h r hmiss hhit
    rw [hmiss] at hhit
    cases hhit
  | some body => exact fun _ => hfound body rfl

theorem sat_cachedJson :
    let cache := RedisStatsCache.connect ttl version
    let key := env.cacheKey kind schema params
    Sat (Admits env ttl (.read version kind schema params build))
      (fun h served => served.statsCache = some "hit" → Hit env (cache.redisKey heroEventResource key) served.body h)
      (fun _ _ => True) [] (cachedJson env ⟨some cache, heroEventResource⟩ kind schema params build) := by
  intro cache key
  refine (sat_getOrBuild env ttl version kind schema params build).bind fun h ⟨body, cacheState⟩ hhit => ?_
  cases cacheState with
  | hit => exact fun _ => hhit rfl
  | miss => exact fun h => by simp [CacheState.asStr] at h
  | bypass => exact fun h => by cases h

end Read

/-- What a finished request has to show for a hit. -/
def Concludes (env : Env Value) (ttl : Nat) (request : Request Value) (h : History CacheOp CacheOp.Ans)
    (reply : Option (Served Value)) : Prop :=
  ∀ version kind schema params build served, request = .read version kind schema params build → reply = some served →
    served.statsCache = some "hit" → Hit env
      ((RedisStatsCache.connect ttl version).redisKey heroEventResource (env.cacheKey kind schema params)) served.body h

theorem calls_tryInvalidate (cache : RedisStatsCache) (resource : String) (scans : Nat) (cursor : UInt64) :
    (cache.tryInvalidate resource scans cursor).Calls fun op => ∀ c, op ≠ .set c := by
  have asks : ∀ op : CacheOp, (∀ c, op ≠ .set c) → (ask op : CacheProg RedisError op.Value).Calls fun op => ∀ c, op ≠ .set c :=
    fun op hop => ⟨hop, fun _ => trivial⟩
  induction scans generalizing cursor with
  | zero => exact calls_ret ()
  | succ scans ih =>
    refine .bind (.bind (asks _ (by simp)) fun _ => calls_ofExcept _) fun ⟨next, keys⟩ => ?_
    have rest : (if next = 0 then pure () else cache.tryInvalidate resource scans next).Calls
        fun op => ∀ c, op ≠ .set c := by
      split
      · exact calls_ret ()
      · exact ih next
    dsimp only
    split
    · exact .bind (.bind (asks _ (by simp)) fun _ => calls_ofExcept _) fun _ => rest
    · exact rest

theorem sat_handle (env : Env Value) (ttl : Nat) (request : Request Value) :
    Sat (Admits env ttl request) (Concludes env ttl request) (fun _ _ => True) [] (request.handle env ttl) := by
  cases request with
  | read version kind schema params build =>
    refine (sat_cachedJson env ttl version kind schema params build).bind fun h served hhit => ?_
    rintro _ _ _ _ _ _ hreq hserved
    cases hreq
    cases hserved
    exact hhit
  | write op => exact ⟨.of_ne (by simp), fun _ => by rintro _ _ _ _ _ _ hreq; cases hreq⟩
  | invalidate version scans =>
    have hcalls : ((RedisStatsCache.connect ttl version).invalidate heroEventResource scans : CacheProg AppError Unit).Calls
        fun op => ∀ c, op ≠ .set c := by
      refine .bind (calls_tryInvalidate _ _ _ _).attempt fun r => ?_
      cases r <;> exact calls_ret ()
    refine ((hcalls.sat []).mono (fun _ _ hop => .of_ne hop) (fun _ _ _ => trivial) fun _ _ he => he).bind ?_
    rintro _ _ - _ _ _ _ _ _ hreq
    cases hreq

/-! ### The store -/

namespace Shared

variable {w w₁ w' : Shared}

/-- Every entry was left by a `SET`, and has its time to live. -/
def Sound (w : Shared) : Prop :=
  ∀ key entry, w.db key = some entry → ∃ stored ∈ w.stored, stored.value.key = key ∧ stored.value.value = entry.value ∧
    stored.time ≤ w.now ∧ entry.deadline = some (stored.time + stored.value.seconds * 1000000000)

/-- What a step can do to the store when it sends `sent`. -/
structure Evolves (sent : SetCommand → Prop) (w w' : Shared) : Prop where
  now : w.now ≤ w'.now
  stored : w.stored ⊆ w'.stored
  inFlight : ∀ c, Command.set c ∈ w'.inFlight → Command.set c ∈ w.inFlight ∨ sent c
  fresh : ∀ stored ∈ w'.stored, stored ∈ w.stored ∨
    w.now ≤ stored.time ∧ (Command.set stored.value ∈ w.inFlight ∨ sent stored.value)
  sound : w.Sound → w'.Sound

namespace Evolves

variable {sent : SetCommand → Prop}

theorem refl (w : Shared) : Evolves sent w w :=
  ⟨Nat.le_refl _, fun _ hc => hc, fun _ hc => .inl hc, fun _ hs => .inl hs, id⟩

theorem trans (h : Evolves sent w w₁) (h' : Evolves sent w₁ w') : Evolves sent w w' := by
  refine ⟨h.now.trans h'.now, fun _ hs => h'.stored (h.stored hs), fun c hc => ?_, fun stored hs => ?_, h'.sound ∘ h.sound⟩
  · rcases h'.inFlight c hc with hc | hc
    · exact h.inFlight c hc
    · exact .inr hc
  · rcases h'.fresh stored hs with hs | ⟨hnow, hs | hs⟩
    · exact h.fresh stored hs
    · exact .inr ⟨h.now.trans hnow, h.inFlight _ hs⟩
    · exact .inr ⟨h.now.trans hnow, .inr hs⟩

/-- Nothing is stored, nothing is sent, and the store only loses. -/
theorem of_loss (hnow : w.now ≤ w'.now) (hstored : w'.stored = w.stored) (hflight : w'.inFlight = w.inFlight)
    (hdb : ∀ key entry, w'.db key = some entry → w.db key = some entry) : Evolves sent w w' := by
  refine ⟨hnow, fun _ hs => hstored ▸ hs, fun c hc => .inl (hflight ▸ hc), fun _ hs => .inl (hstored ▸ hs), fun h key entry hkey => ?_⟩
  rcases h key entry (hdb key entry hkey) with ⟨stored, hs, hk, hv, htime, hdead⟩
  exact ⟨stored, hstored ▸ hs, hk, hv, htime.trans hnow, hdead⟩

theorem execute {c : Command} (hsent : ∀ set, c = .set set → Command.set set ∈ w.inFlight ∨ sent set)
    {flight : List Command} (hflight : flight ⊆ w.inFlight) : Evolves sent w ({ w with inFlight := flight }.execute c) := by
  cases c with
  | set c =>
    refine ⟨Nat.le_refl _, List.subset_append_left _ _, fun _ hc => .inl (hflight hc), fun stored hs => ?_, fun h key entry hkey => ?_⟩
    · rcases List.mem_append.1 hs with hs | hs
      · exact .inl hs
      · cases List.mem_singleton.1 hs
        exact .inr ⟨Nat.le_refl _, hsent c rfl⟩
    · by_cases hk : key = c.key
      · subst hk
        cases (Redis.put_self c.key _ w.db).symm.trans hkey
        exact ⟨⟨c, w.now⟩, by simp [Shared.execute], rfl, rfl, Nat.le_refl _, rfl⟩
      · rcases h key entry ((if_neg hk).symm.trans hkey) with ⟨stored, hs, hrest⟩
        exact ⟨stored, List.mem_append_left _ hs, hrest⟩
  | unlink keys =>
    have hloss : Evolves sent { w with inFlight := flight } ({ w with inFlight := flight }.execute (.unlink keys)) := by
      refine of_loss (Nat.le_refl _) rfl rfl fun key entry hkey => ?_
      by_cases hk : key ∈ keys
      · cases (if_pos hk).symm.trans hkey
      · exact (if_neg hk).symm.trans hkey
    exact ⟨hloss.now, hloss.stored, fun c hc => .inl (hflight hc), fun _ hs => .inl hs, fun h => hloss.sound h⟩

theorem of_passes (h : Passes w w') : Evolves sent w w' := by
  cases h with
  | tick elapsed => exact of_loss (Nat.le_add_right ..) rfl rfl fun _ _ h => h
  | @late before after c hflight =>
    refine execute (fun set hset => .inl ?_) ?_
    · rw [hflight, hset]
      simp
    · rw [hflight]
      exact fun _ hc => (List.mem_append.1 hc).elim (List.mem_append_left _) fun hc => by simp [hc]
  | evict key =>
    refine of_loss (Nat.le_refl _) rfl rfl fun k entry hk => ?_
    by_cases heq : k = key
    · cases (if_pos heq).symm.trans hk
    · exact (if_neg heq).symm.trans hk

theorem of_reflTransGen (h : Relation.ReflTransGen Passes w w') : Evolves sent w w' := by
  induction h with
  | refl => exact .refl w
  | tail _ hpass ih => exact ih.trans (of_passes hpass)

theorem of_sends {c : Command} {ok : Bool} (hsent : ∀ set, c = .set set → sent set) (h : w.Sends c ok w') :
    Evolves sent w w' := by
  rcases h with rfl | ⟨-, rfl⟩
  · exact execute (fun set hset => .inr (hsent set hset)) fun _ hc => hc
  · refine ⟨Nat.le_refl _, fun _ hs => hs, fun set hset => ?_, fun _ hs => .inl hs, id⟩
    rcases List.mem_cons.1 hset with heq | hset
    · exact .inr (hsent set heq.symm)
    · exact .inl hset

theorem of_performs {op : CacheOp} {answer : op.Value} (h : w.Performs op answer w') :
    Evolves (fun c => op = .set c) w w' := by
  cases op with
  | get key => rw [h.1]; exact refl w
  | startBuild => rw [h.2]; exact of_loss (Nat.le_refl _) rfl rfl fun _ _ h => h
  | repo c => rw [show w' = w from h]; exact refl w
  | set c => exact of_sends (fun set hset => by cases hset; rfl) h
  | scan cursor pattern count => rw [show w' = w from h]; exact refl w
  | unlink keys => exact of_sends (fun set hset => by cases hset) h

end Evolves

/-- The answer to a call: first what happens by itself, then what the call does, at the time of the answer. -/
theorem Answers.evolves {op : CacheOp} {answer : op.Ans} (h : w.Answers op answer w') :
    ∃ w₁, Evolves (fun _ => False) w w₁ ∧ answer.time = w₁.now ∧ Evolves (fun c => op = .set c) w₁ w' := by
  rcases h with ⟨w₁, hpasses, htime, hperforms⟩
  exact ⟨w₁, .of_reflTransGen hpasses, htime, .of_performs hperforms⟩

end Shared

/-! ### Runs -/

section Run

variable {s : System Value} {past : List (System Value)}

/-- A job has sent `c`, and was answered by `time`. -/
def Sent (jobs : List (CacheJob Value)) (c : SetCommand) (time : Nat) : Prop :=
  ∃ (i : Nat) (job : CacheJob Value) (h₁ h₂ : History CacheOp CacheOp.Ans) (answer : (CacheOp.set c).Ans),
    jobs[i]? = some job ∧ job.history = h₁ ++ ⟨.set c, answer⟩ :: h₂ ∧ answer.time ≤ time

/-- What may be executed or has been executed was sent before. -/
structure Accounted (jobs : List (CacheJob Value)) (w : Shared) : Prop where
  inFlight : ∀ c, Command.set c ∈ w.inFlight → Sent jobs c w.now
  stored : ∀ stored ∈ w.stored, Sent jobs stored.value stored.time

/-- The times of a history are in order, and none is to come. -/
def Timely (h : History CacheOp CacheOp.Ans) (now : Nat) : Prop :=
  h.Pairwise (fun x y => x.2.time ≤ y.2.time) ∧ ∀ x ∈ h, x.2.time ≤ now

theorem Timely.append {h : History CacheOp CacheOp.Ans} {now now' : Nat} (ht : Timely h now) {op : CacheOp}
    {answer : op.Ans} (hlow : now ≤ answer.time) (hup : answer.time ≤ now') : Timely (h ++ [⟨op, answer⟩]) now' := by
  refine ⟨List.pairwise_append.2 ⟨ht.1, List.pairwise_singleton .., fun x hx y hy => ?_⟩, fun x hx => ?_⟩
  · cases List.mem_singleton.1 hy
    exact (ht.2 x hx).trans hlow
  · rcases List.mem_append.1 hx with hx | hx
    · exact (ht.2 x hx).trans (hlow.trans hup)
    · cases List.mem_singleton.1 hx
      exact hup

theorem Accounted.evolves {jobs jobs' : List (CacheJob Value)} {w w' : Shared} {sent : SetCommand → Prop}
    (h : Accounted jobs w) (hjobs : ∀ c time, Sent jobs c time → Sent jobs' c time) (he : Shared.Evolves sent w w')
    (hsent : ∀ c, sent c → Sent jobs' c w.now) : Accounted jobs' w' := by
  have later : ∀ {c : SetCommand} {time time' : Nat}, Sent jobs' c time → time ≤ time' → Sent jobs' c time' :=
    fun ⟨i, job, h₁, h₂, answer, hjob, hhist, ht⟩ hle => ⟨i, job, h₁, h₂, answer, hjob, hhist, ht.trans hle⟩
  have flight : ∀ c, Command.set c ∈ w.inFlight ∨ sent c → Sent jobs' c w.now := by
    rintro c (hc | hc)
    · exact hjobs _ _ (h.inFlight c hc)
    · exact hsent c hc
  refine ⟨fun c hc => later (flight c (he.inFlight c hc)) he.now, fun stored hs => ?_⟩
  rcases he.fresh stored hs with hs | ⟨hnow, hs⟩
  · exact hjobs _ _ (h.stored stored hs)
  · exact later (flight _ hs) hnow

theorem Accounted.of_run (h : Run env ttl (s :: past)) : Accounted s.jobs s.shared := by
  refine h.invariant (I := fun s => Accounted s.jobs s.shared) ?_ fun s s' hinv hstep => ?_
  · rintro s ⟨⟨now, hshared⟩, -⟩
    rw [hshared]
    exact ⟨by simp, by simp⟩
  · have hjobs : ∀ c time, Sent s.jobs c time → Sent s'.jobs c time := by
      rintro c time ⟨i, job, h₁, h₂, answer, hjob, hhist, ht⟩
      rcases hstep.job_grows hjob with ⟨job', seg, hjob', -, hhist'⟩
      exact ⟨i, job', h₁, h₂ ++ seg, answer, hjob', by simp [hhist', hhist], ht⟩
    rcases hstep.shared_cases with heq | ⟨i, job, op, k, answer, hjob, -, hans, hjob'⟩
    · rw [heq]
      exact hinv.evolves hjobs (.refl s.shared) fun _ => False.elim
    · rcases hans.evolves with ⟨w₁, hpass, htime, hperf⟩
      have hmid := hinv.evolves (fun _ _ hsent => hsent) hpass fun _ => False.elim
      refine hmid.evolves hjobs hperf fun c hc => ?_
      subst hc
      exact ⟨i, _, job.history, [], answer, hjob', rfl, htime.le⟩

theorem timely_of_run (h : Run env ttl (s :: past)) {i : Nat} {job : CacheJob Value} (hjob : s.jobs[i]? = some job) :
    Timely job.history s.shared.now := by
  refine h.invariant (I := fun s => ∀ (i : Nat) (job : CacheJob Value), s.jobs[i]? = some job →
    Timely job.history s.shared.now) ?_ (fun s s' hinv hstep i job' hjob' => ?_) i job hjob
  · rintro s ⟨-, hjobs⟩ i job hjob
    rw [hjobs] at hjob
    cases hjob
  · have hnow : s.shared.now ≤ s'.shared.now := by
      rcases hstep.shared_cases with heq | ⟨_, _, _, _, _, -, -, hans, -⟩
      · rw [heq]
      · rcases hans.evolves with ⟨w₁, hpass, -, hperf⟩
        exact hpass.now.trans hperf.now
    rcases hstep.job_cases hjob' with hold | ⟨request, rfl⟩ | ⟨job, op, k, answer, hold, -, hans, rfl⟩
    · exact ⟨(hinv i job' hold).1, fun x hx => ((hinv i job' hold).2 x hx).trans hnow⟩
    · exact ⟨.nil, by simp⟩
    · rcases hans.evolves with ⟨w₁, hpass, htime, hperf⟩
      exact (hinv i job hold).append (htime ▸ hpass.now) (htime ▸ hperf.now)

theorem sound_of_run (h : Run env ttl (s :: past)) : s.shared.Sound := by
  refine Pool.shared_invariant (I := Shared.Sound) ?_ (fun w op answer w' hw hans => ?_) h
  · rintro s ⟨⟨now, hshared⟩, -⟩ key entry hkey
    rw [hshared] at hkey
    cases hkey
  · rcases hans.evolves with ⟨w₁, hpass, -, hperf⟩
    exact hperf.sound (hpass.sound hw)

/-- A served entry was stored less than its time to live ago, by a job of the run. -/
theorem stored_of_hit (h : Run env ttl (s :: past)) {i : Nat} {job : CacheJob Value} (hjob : s.jobs[i]? = some job)
    {redisKey : String} {bytes : Bytes} {time : Nat} (hhist : job.history = [⟨.get redisKey, ⟨.ok (some bytes), time⟩⟩]) :
    ∃ stored ∈ s.shared.stored, stored.value.key = redisKey ∧ stored.value.value = bytes ∧ stored.time ≤ time ∧
      time < stored.time + stored.value.seconds * 1000000000 := by
  rcases Pool.answered (fun _ hs => hs.2) h hjob (show job.history = [] ++ _ :: [] from hhist) with
    ⟨s₁, -, s₂, hs₂, k, -, w₁, -, htime, heq, hans⟩
  rcases hans with ⟨err, herr⟩ | hans
  · cases herr
  · rcases h.of_mem hs₂ with ⟨past₂, h₂⟩
    have hgrow : s₂.shared.stored ⊆ s.shared.stored :=
      Pool.shared_grows (R := fun w w' : Shared => w.stored ⊆ w'.stored) (fun _ _ hx => hx)
        (fun _ _ _ h h' _ hx => h' (h hx)) (fun w op answer w' hans => by
          rcases hans.evolves with ⟨w₁, hpass, -, hperf⟩
          exact fun _ hx => hperf.stored (hpass.stored hx)) h hs₂
    rw [← heq] at hans htime
    obtain ⟨entry, hlook, hbytes⟩ := Option.map_eq_some_iff.1 (Except.ok.inj hans).symm
    obtain ⟨found, hkey, hlive⟩ := Option.bind_eq_some_iff.1 hlook
    rcases sound_of_run h₂ redisKey found hkey with ⟨stored, hs, hk, hv, htle, hdead⟩
    have hlt : s₂.shared.now < stored.time + stored.value.seconds * 1000000000 ∧ found = entry := by
      simp only [Redis.Entry.live, hdead] at hlive
      split at hlive
      · exact ⟨by assumption, Option.some.inj hlive⟩
      · cases hlive
    refine ⟨stored, hgrow hs, hk, ?_, ?_, ?_⟩
    · rw [hv, hlt.2, hbytes]
    · exact htle.trans htime.ge
    · exact lt_of_eq_of_lt htime hlt.1

/-- The name of the resource is no segment of a key that a request of the run has. -/
def KeysApart (env : Env Value) (s : System Value) : Prop :=
  ∀ job ∈ s.jobs, ∀ version kind schema params build, job.request = .read version kind schema params build →
    heroEventResource.toList ∉ (env.cacheKey kind schema params).toList.splitOn ':'

/-- For every hit there is a build for the same version and key, by now `builder`, that stored the body;
its reads lie no further back than the time to live and the time from its start to its `SET`. -/
theorem hit_bounded (hkey : KeysApart env s)
    {seconds : Nat} (hseconds : 1 ≤ seconds) (httl : ttl = seconds * 1000000000) (h : Run env ttl (s :: past)) {i : Nat}
    {job : CacheJob Value} (hjob : s.jobs[i]? = some job) {version kind schema : String} {params : List (String × Value)}
    {build : Crud AppError Value} (hreq : job.request = .read version kind schema params build) {served : Served Value}
    (hprog : job.prog = .ret (some served)) (hhit : served.statsCache = some "hit") :
    ∃ bytes time, env.fromSlice bytes = some served.body ∧
      job.history = [⟨.get ((RedisStatsCache.connect ttl version).redisKey heroEventResource (env.cacheKey kind schema params)),
        ⟨.ok (some bytes), time⟩⟩] ∧
      ∃ (j : Nat) (builder : CacheJob Value) (kind' schema' : String) (params' : List (String × Value))
        (build' : Crud AppError Value) (value : Value) (stored : Timed SetCommand) (start : Nat)
        (reads : History RepoCall fun c => Timed c.Ans) (before after : History CacheOp CacheOp.Ans)
        (answer : (CacheOp.set stored.value).Ans),
        s.jobs[j]? = some builder ∧ builder.request = .read version kind' schema' params' build' ∧
        env.cacheKey kind' schema' params' = env.cacheKey kind schema params ∧
        build'.Returns (answersOf reads) (.ok value) ∧ env.toString value = bytes ∧
        builder.history = before ++ ⟨.startBuild, ⟨stored.value.ticket, start⟩⟩ :: (reads.map (lift .repo) ++
          ⟨.set stored.value, answer⟩ :: after) ∧
        stored ∈ s.shared.stored ∧ start ≤ stored.time ∧ stored.time ≤ time ∧ time < stored.time + ttl ∧
        ∀ read ∈ reads, time ≤ read.2.time + ttl + (stored.time - start) := by
  have hsat := Pool.sat (sat_handle env ttl) (fun _ hs => hs.2) h hjob
  rw [hprog] at hsat
  rcases hsat _ _ _ _ _ _ hreq rfl hhit with ⟨bytes, time, hhist, hbody⟩
  refine ⟨bytes, time, hbody, hhist, ?_⟩
  rcases stored_of_hit h hjob hhist with ⟨stored, hs, hk, hv, hle, hlt⟩
  rcases (Accounted.of_run h).stored stored hs with ⟨j, builder, h₁, after, answer, hbuilder, hhist', hsent⟩
  have hstores := Pool.admitted (sat_handle env ttl) (fun _ hs => hs.2) h hbuilder hhist'
  rcases hstores stored.value rfl with ⟨start, reads, ⟨before, rfl⟩,
    ⟨version', kind', schema', params', build', value, hreq', hret, hvalue, hkey'⟩, hsecs⟩
  -- the keys agree, so the versions do
  have hres : ':' ∉ heroEventResource.toList := by decide
  have happart := hkey job (List.mem_of_getElem? hjob) _ _ _ _ _ hreq
  have happart' := hkey builder (List.mem_of_getElem? hbuilder) _ _ _ _ _ hreq'
  rcases RedisStatsCache.redisKey_inj hres happart' happart (hkey'.symm.trans hk) with ⟨rfl, hsame⟩
  -- the build started before its reads and its `SET`
  have htimes := (timely_of_run h hbuilder).1
  rw [hhist', List.append_assoc, List.cons_append, List.pairwise_append, List.pairwise_cons] at htimes
  have hstart := htimes.2.1.1
  have hset : start ≤ stored.time :=
    (hstart ⟨.set stored.value, answer⟩ (List.mem_append_right _ (List.mem_cons_self ..))).trans hsent
  have httl' : stored.value.seconds * 1000000000 = ttl := by
    rw [hsecs, httl, Nat.mul_div_cancel _ (by decide), Nat.max_eq_left hseconds]
  rw [httl'] at hlt
  refine ⟨j, builder, kind', schema', params', build', value, stored, start, reads, before, after, answer, hbuilder, hreq',
    hsame, hret, hvalue.symm.trans hv, by rw [hhist', List.append_assoc, List.cons_append], hs, hset, hle, hlt,
    fun read hread => ?_⟩
  have hread' : start ≤ read.2.time := hstart (lift .repo read) (List.mem_append_left _ (List.mem_map_of_mem hread))
  omega

/-! ### A run with a hit -/

theorem returns_runBuild {build : Crud AppError Value} {reads : History RepoCall fun c => Timed c.Ans} {r : Except AppError Value}
    (h : build.Returns (answersOf reads) r) : (runBuild build).Returns (reads.map (lift .repo)) r := by
  induction build generalizing reads with
  | ret a =>
    cases reads with
    | nil => cases h; exact .ret a
    | cons read reads => cases h
  | raise e =>
    cases reads with
    | nil => cases h; exact .raise e
    | cons read reads => cases h
  | call c k ih =>
    cases reads with
    | nil => cases h
    | cons read reads =>
      obtain ⟨c, answer⟩ := read
      cases h with
      | call h => exact .call (ih answer.value h)

theorem plays_reads {reads : History RepoCall fun c => Timed c.Ans} {w : Shared} (h : ∀ read ∈ reads, read.2.time = w.now) :
    Pool.Plays Shared.Answers w (reads.map (lift .repo)) w := by
  induction reads with
  | nil => exact .nil w
  | cons read reads ih =>
    rw [List.forall_mem_cons] at h
    exact .cons ⟨w, .refl, h.1, rfl⟩ (ih h.2)

/-- A build that starts at `0` and reads at once is stored at `set`, and served until the time to live is over. -/
theorem exists_hit (version kind schema : String) (params : List (String × Value)) {build : Crud AppError Value}
    {reads : History RepoCall fun c => Timed c.Ans} {body body' : Value} (hreads : ∀ read ∈ reads, read.2.time = 0)
    (hret : build.Returns (answersOf reads) (.ok body)) (hjson : env.fromSlice (env.toString body) = some body')
    {seconds : Nat} (hseconds : 1 ≤ seconds) (set : Nat) {later : Nat} (hlater : later < seconds * 1000000000) :
    let ttl := seconds * 1000000000
    let key := (RedisStatsCache.connect ttl version).redisKey heroEventResource (env.cacheKey kind schema params)
    let c : SetCommand := ⟨0, key, env.toString body, seconds⟩
    ∃ past w builder reader, Run env ttl (⟨w, [builder, reader]⟩ :: past) ∧
      builder = ⟨.read version kind schema params build, ⟨.get key, ⟨.ok none, 0⟩⟩ :: ⟨.startBuild, ⟨0, 0⟩⟩ ::
        (reads.map (lift .repo) ++ [⟨.set c, ⟨.ok (), set⟩⟩]), builder.prog⟩ ∧
      reader = ⟨.read version kind schema params build, [⟨.get key, ⟨.ok (some (env.toString body)), set + later⟩⟩],
        .ret (some ⟨body', some "hit"⟩)⟩ ∧
      w.stored = [⟨c, set⟩] := by
  intro ttl key c
  let request := Request.read version kind schema params build
  let cache := RedisStatsCache.connect ttl version
  have hsecs : cache.seconds = seconds := by
    show max (seconds * 1000000000 / 1000000000) 1 = seconds
    rw [Nat.mul_div_cancel _ (by decide), Nat.max_eq_left hseconds]
  have hstart : Run env ttl [⟨⟨0, fun _ => none, [], 0, []⟩, []⟩] := .start ⟨⟨0, rfl⟩, rfl⟩
  have hrun := (hstart.next (.arrive _ request)).next (.arrive _ request)
  -- the build, after a miss
  let building : Shared := ⟨0, fun _ => none, [], 1, []⟩
  let built : Shared := { building with now := 0 + set }.execute (.set c)
  let g : History CacheOp CacheOp.Ans := ⟨.get key, ⟨.ok none, 0⟩⟩ :: ⟨.startBuild, ⟨0, 0⟩⟩ ::
    (reads.map (lift .repo) ++ [⟨.set c, ⟨.ok (), set⟩⟩])
  have hstores : (cache.set env heroEventResource (env.cacheKey kind schema params) 0 body : CacheProg AppError Unit).Returns
      [⟨.set c, ⟨.ok (), set⟩⟩] (.ok ()) := by
    unfold RedisStatsCache.set
    rw [hsecs]
    exact .call (.ret _)
  have hmiss : (request.handle env ttl).Returns (g ++ []) (.ok (some ⟨body, some "miss"⟩)) := by
    have hstate : (CachedStats.getOrBuild env ⟨some cache, heroEventResource⟩ (env.cacheKey kind schema params) build).Returns g
        (.ok (body, .miss)) :=
      .call (.call ((returns_runBuild hret).bind hstores.bind_ret))
    rw [← List.append_nil g]
    exact Returns.bind (a := (⟨body, some "miss"⟩ : Served Value)) (hstate.bind (.ret _)) (.ret _)
  have hplays : Pool.Plays Shared.Answers ⟨0, fun _ => none, [], 0, []⟩ g built :=
    .cons ⟨_, .refl, rfl, rfl, .inr rfl⟩ (.cons ⟨_, .refl, rfl, rfl, rfl⟩ ((plays_reads hreads).append
      (.cons ⟨_, .single (.tick building set), (Nat.zero_add set).symm, .inl rfl⟩ (.nil _))))
  rcases Pool.exists_run (i := 0) hrun rfl hmiss hplays with ⟨past, q, hrun, -⟩
  -- the hit
  have hlive : Redis.lookup (0 + set + later) key built.db = some ⟨env.toString body, some (0 + set + seconds * 1000000000)⟩ := by
    have hentry : built.db key = some ⟨env.toString body, some (0 + set + seconds * 1000000000)⟩ :=
      Redis.put_self key _ fun _ => none
    rw [Redis.lookup, hentry, Option.bind_some, Redis.Entry.live]
    simp only [if_pos (show 0 + set + later < 0 + set + seconds * 1000000000 by omega)]
  let read : History CacheOp CacheOp.Ans := [⟨.get key, ⟨.ok (some (env.toString body)), set + later⟩⟩]
  have hhit : (request.handle env ttl).Returns ((read ++ []) ++ []) (.ok (some ⟨body', some "hit"⟩)) := by
    have hget : (cache.get env heroEventResource (env.cacheKey kind schema params) : CacheProg AppError (Option Value)).Returns read
        (.ok (some body')) := by
      refine .call ?_
      show Returns (.ret (env.fromSlice (env.toString body))) [] _
      rw [hjson]
      exact .ret _
    have hstate : (CachedStats.getOrBuild env ⟨some cache, heroEventResource⟩ (env.cacheKey kind schema params) build).Returns
        (read ++ []) (.ok (body', .hit)) := hget.bind (.ret _)
    rw [← List.append_nil (read ++ [])]
    exact Returns.bind (a := (⟨body', some "hit"⟩ : Served Value)) (hstate.bind (.ret _)) (.ret _)
  have hplays' : Pool.Plays Shared.Answers built read { built with now := 0 + set + later } :=
    .cons ⟨_, .single (.tick built later), by simp [built, building, Shared.execute], rfl,
      .inr (congrArg (fun found => Except.ok (found.map Redis.Entry.value)) hlive.symm)⟩ (.nil _)
  rcases Pool.exists_run (i := 1) hrun rfl hhit hplays' with ⟨past', q', hrun', hend⟩
  obtain rfl := hend.eq_ret
  refine ⟨past', _, _, _, hrun', rfl, rfl, ?_⟩
  show [(⟨c, 0 + set⟩ : Timed SetCommand)] = _
  rw [Nat.zero_add]

end Run

end StatsCache
end TemplateAxum
