import TemplateAxum.Craftainer
import TemplateAxum.Controllers
import TemplateAxum.Lib.Redis
import Mathlib.Logic.Relation

/-!
# The stats cache

`RedisStatsCache` of `cache.rs` and `cached_json` of `heroes.rs` as programs over the commands of a
Redis shared by all replicas, each of its own version. A command that fails may have been executed,
may be executed later or never. The repository is left open: a build may be told anything, so any
writes may run beside it. `CachedStats::get_or_build` is the crate's: `get`, then on a miss the build
and `set`.
-/

namespace TemplateAxum

open Prog

namespace StatsCache

/-! ### Commands -/

abbrev Bytes := List UInt8

/-- What is said about a moment; times are in nanoseconds. -/
structure Timed (α : Type) where
  value : α
  time : Nat

structure RedisError where
  message : String

/-- `SET key value EX seconds`. The ticket numbers the build whose result it stores, and is not sent. -/
structure SetCommand where
  ticket : Nat
  key : String
  value : Bytes
  seconds : Nat

inductive CacheOp
  | get (key : String)
  /-- Nothing is called: the moment at which a build starts, and its number. -/
  | startBuild
  | repo (c : RepoCall)
  | set (command : SetCommand)
  | scan (cursor : UInt64) (pattern : String) (count : Nat)
  | unlink (keys : List String)

abbrev CacheOp.Value : CacheOp → Type
  | get _ => Except RedisError (Option Bytes)
  | startBuild => Nat
  | repo c => c.Ans
  | set _ => Except RedisError Unit
  | scan .. => Except RedisError (UInt64 × List String)
  | unlink _ => Except RedisError Nat

/-- A command of Redis is answered with the moment at which it was executed, or given up, a call of
the repository with the moment at which it began. -/
abbrev CacheOp.Ans (op : CacheOp) : Type := Timed op.Value

abbrev CacheProg := Prog CacheOp CacheOp.Ans

def ask {ε : Type} (op : CacheOp) : CacheProg ε op.Value := .call op fun answer => pure answer.value

/-- What is not under `src/`: the crate's `cache_key` in the shared scope, and `serde_json`. -/
structure Env (Value : Type) where
  cacheKey : String → String → List (String × Value) → String
  toString : Value → Bytes
  fromSlice : Bytes → Option Value

end StatsCache

open StatsCache

/-! ### `cache.rs` -/

structure RedisStatsCache where
  /-- In nanoseconds. -/
  ttl : Nat
  version : String
  keyPrefix : String

namespace RedisStatsCache

def scanCount : Nat := 500

def globEscape (value : String) : String :=
  String.ofList (value.toList.flatMap fun ch => if ch ∈ ['*', '?', '[', ']', '\\'] then ['\\', ch] else [ch])

def connect (ttl : Nat) (version : String) : RedisStatsCache := ⟨ttl, version, "stats-cache"⟩

def redisKey (cache : RedisStatsCache) (resource key : String) : String :=
  cache.keyPrefix ++ ":" ++ cache.version ++ ":" ++ resource ++ ":" ++ key

/-- `try_invalidate`, of which `scans` rounds are seen. -/
def tryInvalidate (cache : RedisStatsCache) (resource : String) : Nat → UInt64 → CacheProg RedisError Unit
  | 0, _ => pure ()
  | scans + 1, cursor => do
    let pattern := cache.keyPrefix ++ ":*:" ++ globEscape resource ++ ":*"
    let (next, keys) ← ask (.scan cursor pattern scanCount) >>= ofExcept
    if !keys.isEmpty then
      let _ ← ask (.unlink keys) >>= ofExcept
    if next = 0 then pure () else cache.tryInvalidate resource scans next

variable {Value ε : Type} (env : StatsCache.Env Value) (cache : RedisStatsCache)

/-- An entry that is not valid JSON is a miss, and so is an error. -/
def get (resource key : String) : CacheProg ε (Option Value) := do
  match ← ask (.get (cache.redisKey resource key)) with
  | .ok (some bytes) => pure (env.fromSlice bytes)
  | .ok none => pure none
  | .error _ => pure none

def seconds : Nat := max (cache.ttl / 1000000000) 1

def set (resource key : String) (ticket : Nat) (value : Value) : CacheProg ε Unit := do
  let _ ← ask (.set ⟨ticket, cache.redisKey resource key, env.toString value, cache.seconds⟩)
  pure ()

def invalidate (resource : String) (scans : Nat) : CacheProg ε Unit := do
  match ← (cache.tryInvalidate resource scans 0).attempt with
  | .ok () => pure ()
  | .error _ => pure ()

end RedisStatsCache

/-! ### `cached_json` -/

namespace StatsCache

inductive CacheState
  | hit | miss | bypass
deriving DecidableEq

def CacheState.asStr : CacheState → String
  | hit => "hit"
  | miss => "miss"
  | bypass => "bypass"

/-- `CachedStats` of the crate: a resource, and the cache if it is on. -/
structure CachedStats where
  cache : Option RedisStatsCache
  resource : String

/-- The body of a response, and its `X-Stats-Cache`. -/
structure Served (Value : Type) where
  body : Value
  statsCache : Option String

variable {Value : Type} (env : Env Value)

/-- A build calls the repository only. -/
def runBuild (build : Crud AppError Value) : CacheProg AppError Value :=
  build.via .repo fun _ => Timed.value

def CachedStats.getOrBuild (stats : CachedStats) (key : String) (build : Crud AppError Value) :
    CacheProg AppError (Value × CacheState) :=
  match stats.cache with
  | none => do
    let body ← runBuild build
    pure (body, .bypass)
  | some cache => do
    match ← cache.get env stats.resource key with
    | some body => pure (body, .hit)
    | none =>
      let ticket ← ask .startBuild
      let body ← runBuild build
      cache.set env stats.resource key ticket body
      pure (body, .miss)

def cachedJson (stats : CachedStats) (kind schema : String) (params : List (String × Value))
    (build : Crud AppError Value) : CacheProg AppError (Served Value) := do
  let key := env.cacheKey kind schema params
  let (body, cacheState) ← stats.getOrBuild env key build
  if cacheState ≠ .bypass then pure ⟨body, some cacheState.asStr⟩ else pure ⟨body, none⟩

/-! ### Requests -/

/-- What the replicas do: `version` is the one of the replica. A read is `/stats` or `/predict`. -/
inductive Request (Value : Type)
  | read (version kind schema : String) (params : List (String × Value)) (build : Crud AppError Value)
  | write (op : WriteOp)
  | invalidate (version : String) (scans : Nat)

/-- Replicas share the resource, the prefix and the time to live. -/
def Request.handle (ttl : Nat) : Request Value → CacheProg AppError (Option (Served Value))
  | read version kind schema params build => do
    let served ← cachedJson env ⟨some (.connect ttl version), heroEventResource⟩ kind schema params build
    pure (some served)
  | write op => do
    let _ ← ask (.repo (.write op))
    pure none
  | invalidate version scans => do
    (RedisStatsCache.connect ttl version).invalidate heroEventResource scans
    pure none

/-! ### Redis -/

/-- A command that changes the store. -/
inductive Command
  | set (command : SetCommand)
  | unlink (keys : List String)

structure Shared where
  now : Nat
  db : Redis.Db String Bytes
  /-- Commands that failed and may still be executed. -/
  inFlight : List Command
  /-- Builds started so far. -/
  builds : Nat
  /-- The executed `SET`s. -/
  stored : List (Timed SetCommand)

namespace Shared

def execute (w : Shared) : Command → Shared
  | .set c =>
    { w with db := Redis.put c.key (some ⟨c.value, some (w.now + c.seconds * 1000000000)⟩) w.db
             stored := w.stored ++ [⟨c, w.now⟩] }
  | .unlink keys => { w with db := fun key => if key ∈ keys then none else w.db key }

/-- What happens by itself. -/
inductive Passes : Shared → Shared → Prop
  | tick (w : Shared) (elapsed : Nat) : Passes w { w with now := w.now + elapsed }
  | late {w : Shared} {before after : List Command} {c : Command} (hflight : w.inFlight = before ++ c :: after) :
      Passes w ({ w with inFlight := before ++ after }.execute c)
  | evict (w : Shared) (key : String) : Passes w { w with db := Redis.put key none w.db }

/-- A command that succeeds is executed; one that fails is executed now, later or never. -/
def Sends (w : Shared) (c : Command) (ok : Bool) (w' : Shared) : Prop :=
  w' = w.execute c ∨ ok = false ∧ w' = { w with inFlight := c :: w.inFlight }

def Performs (w : Shared) : (op : CacheOp) → op.Value → Shared → Prop
  | .get key, answer, w' =>
    w' = w ∧ ((∃ err, answer = .error err) ∨ answer = .ok ((Redis.lookup w.now key w.db).map Redis.Entry.value))
  | .startBuild, ticket, w' => ticket = w.builds ∧ w' = { w with builds := w.builds + 1 }
  | .repo _, _, w' => w' = w
  | .set c, answer, w' => w.Sends (.set c) answer.isOk w'
  | .scan .., _, w' => w' = w
  | .unlink keys, answer, w' => w.Sends (.unlink keys) answer.isOk w'

def Answers (w : Shared) (op : CacheOp) (answer : op.Ans) (w' : Shared) : Prop :=
  ∃ w₁, Relation.ReflTransGen Passes w w₁ ∧ answer.time = w₁.now ∧ w₁.Performs op answer.value w'

end Shared

abbrev CacheJob (Value : Type) := Job (Request Value) CacheOp CacheOp.Ans AppError (Option (Served Value))

abbrev System (Value : Type) := Pool Shared (Request Value) CacheOp CacheOp.Ans AppError (Option (Served Value))

def Initial (s : System Value) : Prop :=
  (∃ now, s.shared = ⟨now, fun _ => none, [], 0, []⟩) ∧ s.jobs = []

abbrev Run (ttl : Nat) : List (System Value) → Prop := Trace Initial (Pool.Step Shared.Answers (Request.handle env ttl))

end StatsCache
end TemplateAxum
