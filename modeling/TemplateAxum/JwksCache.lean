import TemplateAxum.Oidc
import Mathlib.Logic.Relation

/-!
# The key set cache

`OidcVerifier::jwks` by its lock acquisitions and fetches, and `decode_bearer_token` over it, in any
number of concurrent calls. The freshness check and the store are apart, so a caller may store what
it was given long ago.
-/

namespace TemplateAxum

open Prog

/-! ### The verifier -/

/-- `decode_bearer_token`, given its key set and its clock. -/
def OidcVerifier.decodeWith {Op : Type} {Ans : Op → Type} (oidc : OidcVerifier) (jwks : Prog Op Ans AppError JwkSet)
    (unixTime : Prog Op Ans AppError Nat) (token : String) : Prog Op Ans AppError Claims :=
  if oidc.mode = .mock then ofExcept ((OidcVerifier.invalid (oidc.decodeWithoutVerification token)).map Claims.mk)
  else do
    let header ← ofExcept (OidcVerifier.invalid (oidc.crates.decodeHeader token))
    let kid ← ofExcept (OidcVerifier.invalid header)
    let keys ← jwks
    let jwk ← ofExcept (OidcVerifier.invalid (JwkSet.find keys kid))
    let decodingKey ← ofExcept (OidcVerifier.invalid (oidc.crates.decodingKey jwk))
    let now ← unixTime
    let claims ← ofExcept (OidcVerifier.invalid (oidc.crates.decode token decodingKey oidc.validation now))
    pure ⟨claims⟩

/-- The handlers call the same function, with the key set as one call. -/
theorem OidcVerifier.decodeBearerToken_eq (oidc : OidcVerifier) (token : String) :
    oidc.decodeBearerToken token = oidc.decodeWith OidcVerifier.jwks OidcVerifier.unixTime token := rfl

namespace Jwks

/-- A set the provider has published, with its number among those. The program sees the keys only. -/
structure Snapshot where
  version : Nat
  keys : JwkSet

structure JwksCache where
  fetchedAt : Instant
  keys : Snapshot

inductive JwksOp
  | readCache
  /-- `Instant::now`. -/
  | now
  | getDiscovery
  | getJwks (jwksUri : String)
  | writeCache (cache : JwksCache)
  | unixTime

abbrev JwksOp.Ans : JwksOp → Type
  | readCache => Option JwksCache
  | now => Instant
  | getDiscovery => Option String
  | getJwks _ => Option Snapshot
  | writeCache _ => Unit
  | unixTime => Nat

def ask (op : JwksOp) : Prog JwksOp JwksOp.Ans AppError op.Ans := perform op

/-- `JWKS_CACHE_TTL`, in nanoseconds. -/
def jwksCacheTtl : Nat := 300 * 1000000000

def unavailable : AppError := .serviceUnavailable "Authentication service unavailable"

/-- What `jwks` does without a fresh set. -/
def fetch : Prog JwksOp JwksOp.Ans AppError Snapshot := do
  match ← ask .getDiscovery with
  | none => raise unavailable
  | some jwksUri =>
    match ← ask (.getJwks jwksUri) with
    | none => raise unavailable
    | some keys =>
      let fetchedAt ← ask .now
      ask (.writeCache ⟨fetchedAt, keys⟩)
      pure keys

def jwks : Prog JwksOp JwksOp.Ans AppError Snapshot := do
  match ← ask .readCache with
  | some cache =>
    let now ← ask .now
    if now - cache.fetchedAt < jwksCacheTtl then pure cache.keys else fetch
  | none => fetch

def decodeBearerToken (oidc : OidcVerifier) (token : String) : Prog JwksOp JwksOp.Ans AppError Claims :=
  oidc.decodeWith (do let keys ← jwks; pure keys.keys) (ask .unixTime) token

/-! ### The provider and the cache -/

structure Shared where
  now : Instant
  cache : Option JwksCache
  /-- The sets published so far, the current one last. -/
  published : List JwkSet

namespace Shared

inductive Passes : Shared → Shared → Prop
  | tick (w : Shared) (elapsed : Nat) : Passes w { w with now := w.now + elapsed }
  | publish (w : Shared) (keys : JwkSet) : Passes w { w with published := w.published ++ [keys] }

/-- Either fetch may fail; one that succeeds returns the current set. -/
def Performs (w : Shared) : (op : JwksOp) → op.Ans → Shared → Prop
  | .readCache, answer, w' => answer = w.cache ∧ w' = w
  | .now, answer, w' => answer = w.now ∧ w' = w
  | .getDiscovery, _, w' => w' = w
  | .getJwks _, answer, w' => w' = w ∧ ∀ keys, answer = some keys →
      w.published.length = keys.version + 1 ∧ w.published[keys.version]? = some keys.keys
  | .writeCache cache, _, w' => w' = { w with cache := some cache }
  | .unixTime, _, w' => w' = w

def Answers (w : Shared) (op : JwksOp) (answer : op.Ans) (w' : Shared) : Prop :=
  ∃ w₁, Relation.ReflTransGen Passes w w₁ ∧ w₁.Performs op answer w'

end Shared

abbrev Caller := Job String JwksOp JwksOp.Ans AppError Claims

/-- Calls of `decode_bearer_token`, each with its token. -/
abbrev System := Pool Shared String JwksOp JwksOp.Ans AppError Claims

def Initial (s : System) : Prop := s.shared.cache = none ∧ s.jobs = []

abbrev Step (oidc : OidcVerifier) : System → System → Prop := Pool.Step Shared.Answers (decodeBearerToken oidc)

/-- A run, the latest state first. -/
abbrev Run (oidc : OidcVerifier) : List System → Prop := Trace Initial (Step oidc)

/-! ### What is claimed -/

/-- The cache never goes back to a set published earlier. -/
def NeverRollsBack (run : List System) : Prop :=
  run.Pairwise fun later earlier => ∀ c c', earlier.shared.cache = some c → later.shared.cache = some c' →
    c.keys.version ≤ c'.keys.version

/-- The caller was given `c` by the cache, and did not fetch. -/
def ServedFromCache (job : Caller) (c : JwksCache) : Prop :=
  ∃ rest, job.history = ⟨.readCache, some c⟩ :: rest ∧ ∀ call ∈ rest, ∀ uri, call.1 ≠ .getJwks uri

/-- Once the cache has held a set without `jwk`, a later call that is served from the cache accepts no
token by `jwk`, unless a set with `jwk` has been published since. -/
def RemovedStaysOut (oidc : OidcVerifier) (run : List System) : Prop :=
  ∀ later past, later :: past <:+ run → ∀ earlier ∈ past, ∀ c jwk, earlier.shared.cache = some c → jwk ∉ c.keys.keys →
    ∀ (i : Nat) (job : Caller) (claims : Claims) (c' : JwksCache) (kid : String),
      (∀ job₁, earlier.jobs[i]? = some job₁ → job₁.history = []) → later.jobs[i]? = some job → job.prog = .ret claims →
      ServedFromCache job c' → oidc.crates.decodeHeader job.request = some (some kid) →
      JwkSet.find c'.keys.keys kid = some jwk →
      ∃ v keys, c.keys.version < v ∧ later.shared.published[v]? = some keys ∧ jwk ∈ keys

/-! ### When it holds -/

/-- A caller has stored `c`. -/
def Stored (s : System) (c : JwksCache) : Prop :=
  ∃ (i : Nat) (job : Caller), s.jobs[i]? = some job ∧ ⟨.writeCache c, ()⟩ ∈ job.history

/-- Another caller has already stored a set that was published after the one in `c`. -/
def Overtaken (s : System) (c : JwksCache) : Prop :=
  ∃ c', Stored s c' ∧ c.keys.version < c'.keys.version

/-- The step in which a caller stores `c`. -/
def Stores (s s' : System) (c : JwksCache) : Prop :=
  ∃ (i : Nat) (job : Caller) (k : Unit → Prog JwksOp JwksOp.Ans AppError Claims), s.jobs[i]? = some job ∧
    job.prog = .call (.writeCache c) k ∧ s.shared.Answers (.writeCache c) () s'.shared ∧
    s'.jobs[i]? = some ⟨job.request, job.history ++ [⟨.writeCache c, ()⟩], k ()⟩

/-- No caller stores after it has been overtaken. -/
def NoneOvertaken (run : List System) : Prop :=
  ∀ later earlier c, [later, earlier] <:+: run → Stores earlier later c → ¬ Overtaken earlier c

/-! ### The steps -/

namespace Shared

variable {w w₁ w' : Shared}

theorem passes (h : Relation.ReflTransGen Passes w w₁) : w₁.cache = w.cache ∧ w.published <+: w₁.published := by
  induction h with
  | refl => exact ⟨rfl, List.prefix_rfl⟩
  | tail _ hpass ih =>
    cases hpass with
    | tick elapsed => exact ih
    | publish keys => exact ⟨ih.1, ih.2.trans (List.prefix_append ..)⟩

/-- What a call can do to the cache, and that published sets stay. -/
theorem Answers.cases {op : JwksOp} {answer : op.Ans} (h : w.Answers op answer w') :
    w.published <+: w'.published ∧
      (w'.cache = w.cache ∧ (∀ c, op ≠ .writeCache c) ∨ ∃ c, op = .writeCache c ∧ w'.cache = some c) := by
  rcases h with ⟨w₁, hpass, hperf⟩
  have ⟨hcache, hpub⟩ := passes hpass
  cases op with
  | writeCache c => rw [show w' = _ from hperf]; exact ⟨hpub, .inr ⟨c, rfl, rfl⟩⟩
  | readCache => rw [hperf.2]; exact ⟨hpub, .inl ⟨hcache, by simp⟩⟩
  | now => rw [hperf.2]; exact ⟨hpub, .inl ⟨hcache, by simp⟩⟩
  | getDiscovery => rw [show w' = _ from hperf]; exact ⟨hpub, .inl ⟨hcache, by simp⟩⟩
  | getJwks uri => rw [hperf.1]; exact ⟨hpub, .inl ⟨hcache, by simp⟩⟩
  | unixTime => rw [show w' = _ from hperf]; exact ⟨hpub, .inl ⟨hcache, by simp⟩⟩

/-- A fetched set is a published one. -/
theorem Answers.fetched {uri : String} {keys : Snapshot} (h : w.Answers (.getJwks uri) (some keys) w') :
    w'.published[keys.version]? = some keys.keys := by
  rcases h with ⟨w₁, -, rfl, hkeys⟩
  exact (hkeys keys rfl).2

theorem Answers.read {c : Option JwksCache} (h : w.Answers .readCache c w') : w'.cache = c := by
  rcases h with ⟨w₁, -, rfl, rfl⟩
  rfl

end Shared

section Run

variable {oidc : OidcVerifier} {s s' : System} {past : List System}

theorem Stored.step (hstep : Step oidc s s') {c : JwksCache} (h : Stored s c) : Stored s' c := by
  rcases h with ⟨i, job, hjob, hmem⟩
  rcases hstep.job_grows hjob with ⟨job', seg, hjob', -, hhist⟩
  exact ⟨i, job', hjob', hhist ▸ List.mem_append_left _ hmem⟩

/-- A step leaves the cache alone, or is the one in which a caller stores what is then in it. -/
theorem step_cases (hstep : Step oidc s s') :
    (s'.shared.cache = s.shared.cache ∧ ∀ c, Stored s' c → Stored s c) ∨
      ∃ c, Stores s s' c ∧ s'.shared.cache = some c ∧ ∀ c', Stored s' c' → Stored s c' ∨ c' = c := by
  cases hstep with
  | arrive token =>
    refine .inl ⟨rfl, ?_⟩
    rintro c ⟨i, job, hjob, hmem⟩
    rw [List.getElem?_append] at hjob
    split at hjob
    · exact ⟨i, job, hjob, hmem⟩
    · rw [List.getElem?_singleton] at hjob
      split at hjob
      · cases hjob
        cases hmem
      · cases hjob
  | @call i job op k answer shared hjob hprog hans =>
    have hlt := (List.getElem?_eq_some_iff.1 hjob).1
    have hstored : ∀ c', Stored ⟨shared, s.jobs.set i ⟨job.request, job.history ++ [⟨op, answer⟩], k answer⟩⟩ c' →
        Stored s c' ∨ op = .writeCache c' := by
      rintro c' ⟨j, job', hjob', hmem⟩
      rw [List.getElem?_set] at hjob'
      split at hjob'
      · cases hjob'
        rcases List.mem_append.1 hmem with hmem | hmem
        · exact .inl ⟨i, job, hjob, hmem⟩
        · cases List.mem_singleton.1 hmem
          exact .inr rfl
      · exact .inl ⟨j, job', hjob', hmem⟩
    rcases hans.cases.2 with ⟨hcache, hop⟩ | ⟨c, rfl, hcache⟩
    · exact .inl ⟨hcache, fun c hc => (hstored c hc).resolve_right (hop c)⟩
    · refine .inr ⟨c, ⟨i, job, k, hjob, hprog, hans, List.getElem?_set_self hlt⟩, hcache, fun c' hc' => ?_⟩
      rcases hstored c' hc' with hc' | hc'
      · exact .inl hc'
      · exact .inr (JwksOp.writeCache.inj hc').symm

/-! ### The programs -/

/-- What is stored has been fetched. -/
def Admits (h : History JwksOp JwksOp.Ans) (op : JwksOp) : Prop :=
  ∀ c, op = .writeCache c → ∃ uri, ⟨.getJwks uri, some c.keys⟩ ∈ h

theorem sat_fetch (h : History JwksOp JwksOp.Ans) : Sat Admits (fun _ _ => True) (fun _ _ => True) h fetch := by
  refine ⟨by simp [Admits], fun discovery => ?_⟩
  cases discovery with
  | none => trivial
  | some uri =>
    refine ⟨by simp [Admits], fun answer => ?_⟩
    cases answer with
    | none => trivial
    | some keys =>
      refine ⟨by simp [Admits], fun fetchedAt => ⟨fun c hc => ⟨uri, ?_⟩, fun _ => trivial⟩⟩
      cases hc
      simp

theorem sat_jwks (h : History JwksOp JwksOp.Ans) : Sat Admits (fun _ _ => True) (fun _ _ => True) h jwks := by
  refine ⟨by simp [Admits], fun cached => ?_⟩
  cases cached with
  | none => exact sat_fetch _
  | some cache =>
    refine ⟨by simp [Admits], fun now => ?_⟩
    show Sat _ _ _ _ (if now - cache.fetchedAt < jwksCacheTtl then pure cache.keys else fetch)
    split
    · trivial
    · exact sat_fetch _

theorem sat_decode (oidc : OidcVerifier) (token : String) :
    Sat Admits (fun _ _ => True) (fun _ _ => True) [] (decodeBearerToken oidc token) := by
  unfold decodeBearerToken OidcVerifier.decodeWith
  split
  · simp
  · refine .ofExcept_bind (fun _ _ => trivial) fun header _ => .ofExcept_bind (fun _ _ => trivial) fun kid _ => ?_
    refine ((sat_jwks []).bind fun h keys _ => show Sat Admits (fun _ _ => True) (fun _ _ => True) h (pure keys.keys) from trivial).bind
      fun h keys _ => ?_
    refine .ofExcept_bind (fun _ _ => trivial) fun jwk _ => .ofExcept_bind (fun _ _ => trivial) fun key _ => ?_
    refine ⟨by simp [Admits], fun now => .ofExcept_bind (fun _ _ => trivial) fun claims _ => trivial⟩

/-! ### Runs -/

theorem fetched_published (h : Run oidc (s :: past)) {i : Nat} {job : Caller} (hjob : s.jobs[i]? = some job) {uri : String}
    {keys : Snapshot} (hmem : ⟨.getJwks uri, some keys⟩ ∈ job.history) :
    s.shared.published[keys.version]? = some keys.keys := by
  obtain ⟨h₁, h₂, hhist⟩ := List.append_of_mem hmem
  rcases Pool.answered (fun _ hs => hs.2) h hjob hhist with ⟨s₁, -, s₂, hs₂, k, -, hans⟩
  have hgrow := Pool.shared_grows (R := fun w w' : Shared => w.published <+: w'.published) (fun _ => List.prefix_rfl)
    (fun _ _ _ => List.IsPrefix.trans) (fun _ _ _ _ hans => hans.cases.1) h hs₂
  obtain ⟨rest, hrest⟩ := hgrow
  have hkeys := hans.fetched
  rw [← hrest, List.getElem?_append_left (List.getElem?_eq_some_iff.1 hkeys).1, hkeys]

theorem Stored.published (h : Run oidc (s :: past)) {c : JwksCache} (hc : Stored s c) :
    s.shared.published[c.keys.version]? = some c.keys.keys := by
  rcases hc with ⟨i, job, hjob, hmem⟩
  obtain ⟨h₁, h₂, hhist⟩ := List.append_of_mem hmem
  rcases Pool.admitted (Φ := fun _ => Admits) (sat_decode oidc) (fun _ hs => hs.2) h hjob hhist c rfl with ⟨uri, hfetch⟩
  exact fetched_published h hjob (hhist ▸ List.mem_append_left _ hfetch)

/-- What is in the cache was put there by a caller. -/
theorem stored_of_cache (h : Run oidc (s :: past)) {c : JwksCache} (hc : s.shared.cache = some c) : Stored s c := by
  refine h.invariant (I := fun s => ∀ c, s.shared.cache = some c → Stored s c) ?_ ?_ c hc
  · rintro s ⟨hcache, -⟩ c hc
    rw [hcache] at hc
    cases hc
  · intro s s' hinv hstep c hc
    rcases step_cases hstep with ⟨hcache, -⟩ | ⟨c', ⟨i, job, k, -, -, -, hjob'⟩, hcache, -⟩
    · exact (hinv c (hcache ▸ hc)).step hstep
    · cases hc.symm.trans hcache
      exact ⟨i, _, hjob', List.mem_append_right _ (List.mem_singleton.2 rfl)⟩

/-- What a caller has put into the cache has been in it. -/
theorem cache_of_stored (h : Run oidc (s :: past)) {c : JwksCache} (hc : Stored s c) :
    ∃ s₁ ∈ s :: past, s₁.shared.cache = some c := by
  rcases hc with ⟨i, job, hjob, hmem⟩
  obtain ⟨h₁, h₂, hhist⟩ := List.append_of_mem hmem
  rcases Pool.answered (fun _ hs => hs.2) h hjob hhist with ⟨s₁, -, s₂, hs₂, k, -, w₁, -, hperf⟩
  exact ⟨s₂, hs₂, by rw [show s₂.shared = _ from hperf]⟩

theorem Stored.mono (h : Run oidc (s :: past)) {s₁ : System} (hs₁ : s₁ ∈ s :: past) {c : JwksCache} (hc : Stored s₁ c) :
    Stored s c := by
  rcases hc with ⟨i, job, hjob, hmem⟩
  rcases Pool.history_grows h hs₁ hjob with ⟨job', seg, hjob', -, hhist⟩
  exact ⟨i, job', hjob', hhist ▸ List.mem_append_left _ hmem⟩

/-- While nobody is overtaken, the cache holds the latest of what has been stored. -/
theorem latest (h : Run oidc (s :: past)) (hnone : NoneOvertaken (s :: past)) {c : JwksCache} (hc : Stored s c) :
    ∃ c', s.shared.cache = some c' ∧ c.keys.version ≤ c'.keys.version := by
  generalize htrace : s :: past = trace at h hnone
  induction h generalizing s past c with
  | start hinit =>
    cases htrace
    rcases hc with ⟨i, job, hjob, -⟩
    rw [hinit.2] at hjob
    cases hjob
  | @next s₁ s' past' hpast hstep ih =>
    obtain ⟨rfl, rfl⟩ := List.cons.inj htrace
    have hnone' : NoneOvertaken (s₁ :: past') := fun later earlier c hab =>
      hnone later earlier c (hab.trans (List.suffix_cons _ _).isInfix)
    rcases step_cases hstep with ⟨hcache, hstored⟩ | ⟨c', hstores, hcache, hstored⟩
    · rw [hcache]
      exact ih (hstored c hc) rfl hnone'
    · refine ⟨c', hcache, ?_⟩
      rcases hstored c hc with hold | rfl
      · by_contra hlt
        have hwithin : [s, s₁] <:+: s :: s₁ :: past' := ⟨[], past', rfl⟩
        exact hnone s s₁ c' hwithin hstores ⟨c, hold, Nat.lt_of_not_le hlt⟩
      · exact Nat.le_refl _

theorem neverRollsBack (h : Run oidc (s :: past)) (hnone : NoneOvertaken (s :: past)) : NeverRollsBack (s :: past) := by
  generalize htrace : s :: past = trace at h hnone ⊢
  induction h generalizing s past with
  | start hinit => exact List.pairwise_singleton ..
  | @next s₁ s' past' hpast hstep ih =>
    have hnone' : NoneOvertaken (s₁ :: past') := fun later earlier c hab =>
      hnone later earlier c (hab.trans (List.suffix_cons _ _).isInfix)
    refine List.pairwise_cons.2 ⟨fun earlier hearlier c c' hc hc' => ?_, ih rfl hnone'⟩
    rcases hpast.of_mem hearlier with ⟨pastE, hE⟩
    have hstored : Stored s' c := ((stored_of_cache hE hc).mono hpast hearlier).step hstep
    rcases latest (hpast.next hstep) hnone hstored with ⟨c'', hc'', hle⟩
    cases hc'.symm.trans hc''
    exact hle

/-- A member of a list comes after a suffix's head, or has it behind it. -/
theorem mem_or_behind {α : Type} {l rest : List α} {a b : α} (hsuf : b :: rest <:+ l) (ha : a ∈ l) :
    a ∈ rest ∨ ∃ past, a :: past <:+ l ∧ b ∈ a :: past := by
  obtain ⟨before, rfl⟩ := hsuf
  rcases List.mem_append.1 ha with ha | ha
  · obtain ⟨first, last, rfl⟩ := List.append_of_mem ha
    exact .inr ⟨last ++ b :: rest, ⟨first, by simp⟩, by simp⟩
  · rcases List.mem_cons.1 ha with rfl | ha
    · exact .inr ⟨rest, ⟨before, rfl⟩, List.mem_cons_self ..⟩
    · exact .inl ha

theorem removedStaysOut (h : Run oidc (s :: past)) (hroll : NeverRollsBack (s :: past)) :
    RemovedStaysOut oidc (s :: past) := by
  rintro later pastL hsuf earlier hearlier c jwk hc hjwk i job claims c' kid hnot hjob - ⟨rest, hhist, -⟩ - hfind
  have hL := h.of_suffix hsuf
  rcases Pool.answered_step (fun _ hs => hs.2) hL hjob (show job.history = [] ++ _ :: rest from hhist) with
    ⟨s₁, s₂, past₁, k, hsuf₁, -, hans, hjob₂⟩
  have hc' : s₂.shared.cache = some c' := hans.read
  have h₂ := hL.of_suffix hsuf₁
  -- the cache is read after `earlier`, where the caller had not read it yet
  have horder : earlier ∈ s₁ :: past₁ := by
    rcases mem_or_behind hsuf₁ (List.mem_cons_of_mem _ hearlier) with hmem | ⟨pastE, hsufE, hbehind⟩
    · exact hmem
    · rcases Pool.history_grows (hL.of_suffix hsufE) hbehind hjob₂ with ⟨job₁, seg, hjob₁, -, hgrown⟩
      rw [hnot job₁ hjob₁] at hgrown
      cases hgrown
  have hpair := (hroll.sublist (hsuf₁.trans hsuf).sublist)
  have hle := List.rel_of_pairwise_cons hpair horder c c' hc hc'
  have hpub := Stored.published hL ((stored_of_cache h₂ hc').mono hL (hsuf₁.subset (List.mem_cons_self ..)))
  rcases hL.of_mem (List.mem_cons_of_mem _ hearlier) with ⟨pastE, hE⟩
  have hpub' := Stored.published hL ((stored_of_cache hE hc).mono hL (List.mem_cons_of_mem _ hearlier))
  have hmem : jwk ∈ c'.keys.keys := List.mem_of_find?_eq_some hfind
  refine ⟨c'.keys.version, c'.keys.keys, Nat.lt_of_le_of_ne hle fun heq => hjwk ?_, hpub, hmem⟩
  rw [heq, hpub] at hpub'
  rwa [← Option.some.inj hpub']

theorem noneOvertaken (h : Run oidc (s :: past)) (hroll : NeverRollsBack (s :: past)) : NoneOvertaken (s :: past) := by
  rintro later earlier c ⟨before, pastE, heq⟩ hstores ⟨c', hstored, hlt⟩
  have hsuf : later :: earlier :: pastE <:+ s :: past := ⟨before, by simpa using heq⟩
  have hE := h.of_suffix ((List.suffix_cons _ _).trans hsuf)
  rcases cache_of_stored hE hstored with ⟨s₁, hs₁, hc'⟩
  rcases hstores with ⟨i, job, k, -, -, ⟨w₁, -, hperf⟩, -⟩
  have hc : later.shared.cache = some c := by rw [show later.shared = _ from hperf]
  have hle := List.rel_of_pairwise_cons (hroll.sublist hsuf.sublist) hs₁ c' c hc' hc
  omega

/-- The cache never rolls back, and removed keys stay out, exactly in the runs in which no caller stores
after it has been overtaken. -/
theorem jwks_iff (h : Run oidc (s :: past)) :
    NeverRollsBack (s :: past) ∧ RemovedStaysOut oidc (s :: past) ↔ NoneOvertaken (s :: past) := by
  constructor
  · rintro ⟨hroll, -⟩
    exact noneOvertaken h hroll
  · intro hnone
    have hroll := neverRollsBack h hnone
    exact ⟨hroll, removedStaysOut h hroll⟩

end Run

/-! ### A caller that is overtaken -/

def leaked : Jwk := ⟨some "a", [1]⟩

/-- A verifier in whose crates a token is good if it is checked with the leaked key. -/
def leakedVerifier : OidcVerifier :=
  ⟨.production, ⟨"", ""⟩, ⟨fun _ => some (some "a"), fun jwk => some jwk.material,
    fun _ key _ _ => if key = [1] then some .null else none, fun _ => none, fun _ => none⟩⟩

/-- One caller is given the leaked key; the provider removes it; another caller is given the empty set
and stores it; then the first one stores the leaked key, and a third accepts a token by it. -/
theorem exists_rollback : ∃ (s : System) (past : List System), Run leakedVerifier (s :: past) ∧
    ¬ NeverRollsBack (s :: past) ∧ ¬ RemovedStaysOut leakedVerifier (s :: past) := by
  have hstart : Run leakedVerifier [⟨⟨0, none, [[leaked]]⟩, []⟩] := .start ⟨rfl, rfl⟩
  have hrun := ((hstart.next (.arrive _ "t")).next (.arrive _ "t")).next (.arrive _ "t")
  let old : JwksCache := ⟨0, 0, [leaked]⟩
  let new : JwksCache := ⟨0, 1, []⟩
  let g₀ : History JwksOp JwksOp.Ans := [⟨.readCache, none⟩, ⟨.getDiscovery, some ""⟩, ⟨.getJwks "", some ⟨0, [leaked]⟩⟩]
  let g₁ : History JwksOp JwksOp.Ans :=
    [⟨.readCache, none⟩, ⟨.getDiscovery, some ""⟩, ⟨.getJwks "", some ⟨1, []⟩⟩, ⟨.now, 0⟩, ⟨.writeCache new, ()⟩]
  let g₂ : History JwksOp JwksOp.Ans := [⟨.now, 0⟩, ⟨.writeCache old, ()⟩, ⟨.unixTime, 0⟩]
  let g₃ : History JwksOp JwksOp.Ans := [⟨.readCache, some old⟩, ⟨.now, 0⟩, ⟨.unixTime, 0⟩]
  have hret₀ : (decodeBearerToken leakedVerifier "t").Returns (g₀ ++ g₂) (.ok ⟨.null⟩) :=
    .call (.call (.call (.call (.call (.call (.ret _))))))
  have hret₁ : (decodeBearerToken leakedVerifier "t").Returns (g₁ ++ []) _ := .call (.call (.call (.call (.call (.raise _)))))
  have hret₃ : (decodeBearerToken leakedVerifier "t").Returns (g₃ ++ []) (.ok ⟨.null⟩) := .call (.call (.call (.ret _)))
  have hplays₀ : Pool.Plays Shared.Answers ⟨0, none, [[leaked]]⟩ g₀ ⟨0, none, [[leaked]]⟩ :=
    .cons ⟨_, .refl, rfl, rfl⟩ (.cons ⟨_, .refl, rfl⟩ (.cons ⟨_, .refl, rfl, by rintro _ ⟨⟩; exact ⟨rfl, rfl⟩⟩ (.nil _)))
  rcases Pool.exists_run_on (i := 0) hrun rfl hret₀ hplays₀ with ⟨past, q₀, hrun, hret₂, -⟩
  have hplays₁ : Pool.Plays Shared.Answers ⟨0, none, [[leaked]]⟩ g₁ ⟨0, some new, [[leaked], []]⟩ :=
    .cons ⟨_, .refl, rfl, rfl⟩ (.cons ⟨_, .refl, rfl⟩ (.cons ⟨_, .single (.publish _ []), rfl, by rintro _ ⟨⟩; exact ⟨rfl, rfl⟩⟩
      (.cons ⟨_, .refl, rfl, rfl⟩ (.cons ⟨_, .refl, rfl⟩ (.nil _)))))
  rcases Pool.exists_run_on (i := 1) hrun rfl hret₁ hplays₁ with ⟨past, q₁, hrun, -, -⟩
  have hplays₂ : Pool.Plays Shared.Answers ⟨0, some new, [[leaked], []]⟩ g₂ ⟨0, some old, [[leaked], []]⟩ :=
    .cons ⟨_, .refl, rfl, rfl⟩ (.cons ⟨_, .refl, rfl⟩ (.cons ⟨_, .refl, rfl⟩ (.nil _)))
  rcases Pool.exists_run_on (i := 0) hrun rfl (show q₀.Returns (g₂ ++ []) _ from hret₂) hplays₂ with ⟨pastB, q₂, hrunB, -, hsufB⟩
  have hplays₃ : Pool.Plays Shared.Answers ⟨0, some old, [[leaked], []]⟩ g₃ ⟨0, some old, [[leaked], []]⟩ :=
    .cons ⟨_, .refl, rfl, rfl⟩ (.cons ⟨_, .refl, rfl, rfl⟩ (.cons ⟨_, .refl, rfl⟩ (.nil _)))
  rcases Pool.exists_run_on (i := 2) hrunB rfl hret₃ hplays₃ with ⟨pastC, q₃, hrunC, hend, hsufC⟩
  -- the state in which the leaked key was out of the cache
  have hsuf := (List.suffix_cons_iff.1 (hsufB.trans hsufC)).resolve_left fun heq => by
    have hcache := congrArg (fun s : System => s.shared.cache.map fun c => c.keys.version) (List.cons.inj heq).1
    cases hcache
  have hearlier := hsuf.subset (List.mem_cons_self ..)
  refine ⟨_, pastC, hrunC, fun hroll => ?_, fun hout => ?_⟩
  · have hle := List.rel_of_pairwise_cons hroll hearlier new old rfl rfl
    exact absurd hle (by decide)
  · have hserved : ServedFromCache ⟨"t", [] ++ g₃, q₃⟩ old := ⟨_, rfl, by simp⟩
    rcases hout _ _ List.suffix_rfl _ hearlier new leaked rfl (by simp [new]) 2 _ ⟨.null⟩ old "a"
      (by rintro job₁ ⟨⟩; rfl) rfl hend.eq_ret hserved rfl rfl with ⟨v, keys, hv, hpub, -⟩
    cases v with
    | zero => cases hv
    | succ v =>
      cases v with
      | zero => cases hv with | step h => cases h
      | succ v => cases hpub

theorem not_jwks_overtaken : ¬ ∀ (oidc : OidcVerifier) (s : System) (past : List System), Run oidc (s :: past) →
    NeverRollsBack (s :: past) ∧ RemovedStaysOut oidc (s :: past) := by
  intro hall
  rcases exists_rollback with ⟨s, past, hrun, hroll, -⟩
  exact hroll (hall _ s past hrun).1

theorem jwks_iff_leaked : ∃ (s : System) (past : List System), Run leakedVerifier (s :: past) ∧
    ¬ NoneOvertaken (s :: past) := by
  rcases exists_rollback with ⟨s, past, hrun, hroll, -⟩
  exact ⟨s, past, hrun, fun hnone => hroll ((jwks_iff hrun).2 hnone).1⟩

end Jwks
end TemplateAxum
