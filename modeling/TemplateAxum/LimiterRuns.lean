import Mathlib
import TemplateAxum.RateLimit
import TemplateAxum.Lib.IpAddr
import TemplateAxum.Lib.Keyed
import TemplateAxum.Lib.Redis
import TemplateAxum.Lib.Window

/-!
# Runs of the rate limiter

Calls of `RateLimiter::check` in order, on either backend: the map of the mock backend with its `u32`
counts, and the script that the Redis backend runs. Of the calls of one key both make the counts of
fixed windows (`Window.counts`), as long as a count fits a `u32`.
-/

namespace TemplateAxum

open Keyed

/-! ### Calls -/

/-- The limit and the window length of each scope. -/
structure Limits where
  limit : String → UInt32
  windowSecs : String → UInt64

/-- A call of `check` at an instant. -/
structure CheckCall where
  scope : String
  clientIp : IpAddr
  now : Instant
deriving DecidableEq

namespace CheckCall

def key (call : CheckCall) : String := RateLimiter.key call.scope (String.ofList call.clientIp.display)

/-- Whether the call is one of this scope and address. -/
def isOf (scope : String) (clientIp : IpAddr) (call : CheckCall) : Bool :=
  call.scope = scope && call.clientIp = clientIp

theorem toList_key (call : CheckCall) :
    call.key.toList = "ratelimit:".toList ++ (call.scope.toList ++ ':' :: call.clientIp.display) := by
  show ("ratelimit:" ++ call.scope ++ ":" ++ String.ofList call.clientIp.display).toList = _
  simp [String.toList_append]

/-- The scope ends at the first colon, whatever colons the address has. -/
theorem key_inj {call call' : CheckCall} (h : ':' ∉ call.scope.toList) (h' : ':' ∉ call'.scope.toList)
    (hkey : call.key = call'.key) : call.scope = call'.scope ∧ call.clientIp = call'.clientIp := by
  have hlist := congrArg String.toList hkey
  rw [toList_key, toList_key] at hlist
  have hrest := List.append_cancel_left hlist
  have hspan : ∀ {scope : List Char} (_ : ':' ∉ scope) (rest : List Char),
      (scope ++ ':' :: rest).takeWhile (· ≠ ':') = scope := by
    intro scope hscope rest
    rw [List.takeWhile_append_of_pos fun c hc => ?_]
    · simp
    · simpa using fun heq : c = ':' => hscope (heq ▸ hc)
  have hscope : call.scope.toList = call'.scope.toList := by
    have := congrArg (List.takeWhile (· ≠ ':')) hrest
    rwa [hspan h, hspan h'] at this
  rw [hscope] at hrest
  exact ⟨String.toList_inj.1 hscope, IpAddr.display_injective (List.cons.inj (List.append_cancel_left hrest)).2⟩

end CheckCall

namespace Limits
variable (limits : Limits)

/-- The window of a call, in nanoseconds. -/
def span (call : CheckCall) : Nat := (limits.windowSecs call.scope).toNat * 1000000000

/-- What `check` returns when the window has this count. -/
def verdict (call : CheckCall) (count : UInt32) : Except AppError Unit :=
  RateLimiter.verdict count.toNat (limits.limit call.scope).toNat (limits.windowSecs call.scope).toNat

end Limits

/-! ### The two backends -/

/-- `Backend::Mock`: the count of each key and the start of its window. -/
abbrev MockStore := String → Option (UInt32 × Instant)

/-- The entry as the call leaves it. `entry.0 += 1` wraps, as in a release build; with overflow checks, which
`HeroMemoryRepository.create` is modelled with, it panics. The two agree while no window of any key has 2^32 calls. -/
def MockStore.bump (windowNanos : Nat) (now : Instant) (entry : Option (UInt32 × Instant)) : UInt32 × Instant :=
  let entry := entry.getD (0, now)
  let entry := if windowNanos ≤ now - entry.2 then (0, now) else entry
  (entry.1 + 1, entry.2)

/-- `check` on the mock backend. -/
def MockStore.check (limits : Limits) (call : CheckCall) (store : MockStore) : Except AppError Unit × MockStore :=
  let entry := bump (limits.span call) call.now (store call.key)
  (limits.verdict call entry.1, fun k => if k = call.key then some entry else store k)

/-- `INCR_WITH_EXPIRY`, with the window in nanoseconds. -/
def incrWithExpiry (now : Instant) (key : String) (ttl : Nat) (db : Redis.Db String Nat) : Nat × Redis.Db String Nat :=
  let (count, db) := Redis.incr now key db
  (count, if count = 1 then Redis.expire now key ttl db else db)

/-- `check` on the Redis backend, when no command fails; the reply is read as a `u32`. -/
def redisCheck (limits : Limits) (call : CheckCall) (db : Redis.Db String Nat) :
    Except AppError Unit × Redis.Db String Nat :=
  let (count, db) := incrWithExpiry call.now call.key (limits.span call) db
  (limits.verdict call (UInt32.ofNat count), db)

/-- The calls in order, each with what it returned. -/
def checks {σ : Type} (check : CheckCall → σ → Except AppError Unit × σ) :
    List CheckCall → σ → List (CheckCall × Except AppError Unit)
  | [], _ => []
  | call :: calls, store => (call, (check call store).1) :: checks check calls (check call store).2

def mockChecks (limits : Limits) (calls : List CheckCall) : List (CheckCall × Except AppError Unit) :=
  checks (MockStore.check limits) calls fun _ => none

def redisChecks (limits : Limits) (calls : List CheckCall) : List (CheckCall × Except AppError Unit) :=
  checks (redisCheck limits) calls fun _ => none

/-! ### One key -/

/-- The answers of calls whose windows have these counts. -/
def Limits.answers (limits : Limits) (own : List CheckCall) (counts : List Nat) :
    List (CheckCall × Except AppError Unit) :=
  List.zipWith (fun call count => (call, limits.verdict call (UInt32.ofNat count))) own counts

variable {limits : Limits} {span : Nat} {own calls : List CheckCall}

/-- The mock entry of a key, and the counter it stands for. -/
def MockStore.Counts (entry : Option (UInt32 × Instant)) (counter : Option (Nat × Nat)) : Prop :=
  entry.map (fun e => (e.1.toNat, e.2)) = counter

theorem MockStore.bump_eq {entry : Option (UInt32 × Instant)} {counter : Option (Nat × Nat)} {now : Instant}
    (h : MockStore.Counts entry counter) (hstart : ∀ e, counter = some e → e.2 ≤ now)
    (hfits : (Window.hit span counter now).1 < 2 ^ 32) :
    ((bump span now entry).1.toNat, (bump span now entry).2) = Window.hit span counter now := by
  subst h
  cases entry with
  | none =>
    unfold bump
    simp [Window.hit]
  | some e =>
    obtain ⟨count, start⟩ := e
    have hle : @LE.le Nat _ start now := hstart _ rfl
    simp only [Option.map_some, Window.hit] at hfits ⊢
    unfold bump
    simp only [Option.getD_some]
    by_cases hlive : @LT.lt Nat _ now (start + span)
    · rw [if_pos hlive] at hfits ⊢
      rw [if_neg (by omega)]
      rw [UInt32.toNat_add]
      simp only [UInt32.toNat_one] at hfits ⊢
      rw [Nat.mod_eq_of_lt hfits]
    · rw [if_neg hlive, if_pos (by omega)]
      rfl

/-- One key of the mock backend. -/
theorem single_mock {entry : Option (UInt32 × Instant)} {counter : Option (Nat × Nat)}
    (hspan : ∀ call ∈ own, limits.span call = span) (hclock : own.Pairwise fun call call' => call.now ≤ call'.now)
    (h : MockStore.Counts entry counter) (hstart : ∀ e, counter = some e → ∀ call ∈ own, e.2 ≤ call.now)
    (hfits : ∀ count ∈ Window.counts span counter (own.map CheckCall.now), count < 2 ^ 32) :
    single (fun call entry => (limits.verdict call (MockStore.bump (limits.span call) call.now entry).1,
        some (MockStore.bump (limits.span call) call.now entry))) own entry =
      limits.answers own (Window.counts span counter (own.map CheckCall.now)) := by
  induction own generalizing entry counter with
  | nil => rfl
  | cons call own ih =>
    obtain ⟨hfirst, hrest⟩ := List.forall_mem_cons.1 hspan
    obtain ⟨hle, hclock⟩ := List.pairwise_cons.1 hclock
    rw [List.map_cons, Window.counts, List.forall_mem_cons] at hfits
    have hbump := MockStore.bump_eq h (fun e he => hstart e he call (List.mem_cons_self ..)) hfits.1
    rw [single, List.map_cons, Window.counts, Limits.answers, List.zipWith_cons_cons, hfirst]
    have hcount : (MockStore.bump span call.now entry).1 = UInt32.ofNat (Window.hit span counter call.now).1 := by
      rw [← hbump, UInt32.ofNat_toNat]
    rw [hcount]
    congr 1
    refine ih hrest hclock (congrArg some hbump) ?_ hfits.2
    rintro e he call' hcall'
    cases he
    exact (Window.hit_start_le fun e he => hstart e he call (List.mem_cons_self ..)).trans (hle call' hcall')

theorem mockChecks_eq (calls : List CheckCall) : mockChecks limits calls =
    Keyed.run CheckCall.key (fun call entry => (limits.verdict call (MockStore.bump (limits.span call) call.now entry).1,
      some (MockStore.bump (limits.span call) call.now entry))) calls fun _ => none := by
  unfold mockChecks
  generalize (fun _ => none : MockStore) = store
  induction calls generalizing store with
  | nil => rfl
  | cons call calls ih =>
    rw [checks, Keyed.run, ih]
    rfl

/-- What the calls of one key are answered. -/
theorem filter_mockChecks {key : String} (hclock : calls.Pairwise fun call call' => call.now ≤ call'.now)
    (hspan : ∀ call ∈ calls, call.key = key → limits.span call = span)
    (hfits : ∀ win ∈ Window.windows span ((calls.filter fun call => call.key = key).map CheckCall.now), win.length < 2 ^ 32) :
    (mockChecks limits calls).filter (fun answered => answered.1.key = key) =
      limits.answers (calls.filter fun call => call.key = key)
        (Window.counts span none ((calls.filter fun call => call.key = key).map CheckCall.now)) := by
  rw [mockChecks_eq, Keyed.filter_run]
  refine single_mock ?_ (hclock.filter _) rfl ?_ ?_
  · intro call hcall
    obtain ⟨hcall, hkey⟩ := List.mem_filter.1 hcall
    exact hspan call hcall (by simpa using hkey)
  · intro e he
    cases he
  · intro count hcount
    exact Nat.lt_of_le_pred (by decide) (Window.le_of_mem_counts (fun win hwin => Nat.le_pred_of_lt (hfits win hwin)) hcount).2

/-! ### The law of fixed windows -/

/-- The calls of one scope and address with what they returned obey the law: they are answered in
order, each window of length `w` accepts exactly its first `limit` calls, and any interval of length
`w` has at most `2 * limit` accepted ones. -/
structure FixedWindows (limit w : Nat) (own : List CheckCall) (answered : List (CheckCall × Except AppError Unit)) :
    Prop where
  calls : answered.map Prod.fst = own
  splits : Window.Splits w (own.map CheckCall.now) (Window.windows w (own.map CheckCall.now))
  accepted : answered.map (fun a => decide (a.2 = .ok ())) =
    (Window.windows w (own.map CheckCall.now)).flatMap fun win => (List.range win.length).map fun i => decide (i < limit)
  interval : ∀ lo, (answered.countP fun a => decide (a.2 = .ok () ∧ lo ≤ a.1.now ∧ a.1.now ≤ lo + w)) ≤ 2 * limit

/-- The calls with the counts of their windows. -/
theorem answers_eq (own : List CheckCall) (counts : List Nat) : limits.answers own counts =
    (own.zip counts).map fun hit => (hit.1, limits.verdict hit.1 (UInt32.ofNat hit.2)) := by
  rw [Limits.answers, List.zip, List.map_zipWith]

theorem length_counts (span : Nat) (entry : Option (Nat × Nat)) (ts : List Nat) : (Window.counts span entry ts).length = ts.length := by
  induction ts generalizing entry with
  | nil => rfl
  | cons t ts ih => rw [Window.counts, List.length_cons, List.length_cons, ih]

/-- Any calls of one key that are answered by the counts of its windows obey the law. -/
theorem fixedWindows_answers {limit : Nat} (hpos : 0 < span) (hclock : own.Pairwise fun call call' => call.now ≤ call'.now)
    (hlimit : ∀ call ∈ own, (limits.limit call.scope).toNat = limit)
    (hfits : ∀ win ∈ Window.windows span (own.map CheckCall.now), win.length < 2 ^ 32) :
    FixedWindows limit span own (limits.answers own (Window.counts span none (own.map CheckCall.now))) := by
  have hsorted : (own.map CheckCall.now).Pairwise fun t t' : Nat => t ≤ t' := List.pairwise_map.2 hclock
  have hlen := length_counts span none (own.map CheckCall.now)
  have hok : ∀ hit ∈ own.zip (Window.counts span none (own.map CheckCall.now)),
      (limits.verdict hit.1 (UInt32.ofNat hit.2) = .ok () ↔ hit.2 ≤ limit) := by
    rintro ⟨call, count⟩ hmem
    obtain ⟨hcall, hcount⟩ := List.of_mem_zip hmem
    have := (Window.le_of_mem_counts (fun win hwin => Nat.le_pred_of_lt (hfits win hwin)) hcount).2
    rw [Limits.verdict, RateLimiter.verdict_eq_ok, hlimit call hcall,
      UInt32.toNat_ofNat_of_lt' (by simpa using Nat.lt_of_le_pred (by decide) this)]
  refine ⟨?_, Window.splits_windows hsorted, ?_, fun lo => ?_⟩
  · rw [answers_eq, List.map_map]
    show (own.zip _).map Prod.fst = own
    exact List.map_fst_zip (by rw [hlen, List.length_map])
  · rw [answers_eq, List.map_map, ← Window.map_counts_le]
    calc _ = (own.zip (Window.counts span none (own.map CheckCall.now))).map ((fun count => decide (count ≤ limit)) ∘ Prod.snd) :=
          List.map_congr_left fun hit hmem => decide_eq_decide.2 (hok hit hmem)
      _ = _ := by rw [← List.map_map, List.map_snd_zip (by rw [hlen, List.length_map])]
  · rw [answers_eq, List.countP_map]
    refine le_trans (le_of_eq ?_) (Window.countP_admitted_le hpos hsorted lo)
    rw [← Window.admitted_eq, List.zip_map_left, List.countP_map, List.countP_filter, List.countP_map]
    refine List.countP_congr fun hit hmem => ?_
    have := hok hit hmem
    simp only [Function.comp_apply, decide_eq_true_eq, Bool.and_eq_true, Prod.map_fst, Prod.map_snd, id_eq]
    tauto

/-- Calls of this scope and address are the calls of its key. -/
theorem filter_isOf {α : Type} (call : α → CheckCall) {scope : String} {clientIp : IpAddr} {items : List α}
    {first : CheckCall} (hfirst : first.isOf scope clientIp = true) (hcolon : ':' ∉ first.scope.toList)
    (hscopes : ∀ item ∈ items, ':' ∉ (call item).scope.toList) :
    items.filter (fun item => (call item).isOf scope clientIp) = items.filter fun item => (call item).key = first.key := by
  refine List.filter_congr fun item hitem => ?_
  simp only [CheckCall.isOf, Bool.and_eq_true, decide_eq_true_eq] at hfirst ⊢
  obtain ⟨rfl, rfl⟩ := hfirst
  rw [← Bool.decide_and, decide_eq_decide]
  constructor
  · rintro ⟨hscope, hip⟩
    rw [CheckCall.key, CheckCall.key, hscope, hip]
  · intro hkey
    exact CheckCall.key_inj (hscopes item hitem) hcolon hkey

theorem mock_fixedWindows (hclock : calls.Pairwise fun call call' => call.now ≤ call'.now)
    (hscopes : ∀ call ∈ calls, ':' ∉ call.scope.toList) (scope : String) (clientIp : IpAddr)
    (hwindow : 1 ≤ limits.windowSecs scope)
    (hfits : ∀ win ∈ Window.windows ((limits.windowSecs scope).toNat * 1000000000)
      ((calls.filter (CheckCall.isOf scope clientIp)).map CheckCall.now), win.length < 2 ^ 32) :
    FixedWindows (limits.limit scope).toNat ((limits.windowSecs scope).toNat * 1000000000)
      (calls.filter (CheckCall.isOf scope clientIp))
      ((mockChecks limits calls).filter fun answered => answered.1.isOf scope clientIp) := by
  have hpos : 0 < (limits.windowSecs scope).toNat * 1000000000 := by
    have : 1 ≤ (limits.windowSecs scope).toNat := hwindow
    omega
  have hscope : ∀ call ∈ calls.filter (CheckCall.isOf scope clientIp), call.scope = scope := by
    intro call hcall
    have := (List.mem_filter.1 hcall).2
    simp only [CheckCall.isOf, Bool.and_eq_true, decide_eq_true_eq] at this
    exact this.1
  have hanswers : (mockChecks limits calls).filter (fun answered => answered.1.isOf scope clientIp) =
      limits.answers (calls.filter (CheckCall.isOf scope clientIp))
        (Window.counts ((limits.windowSecs scope).toNat * 1000000000) none
          ((calls.filter (CheckCall.isOf scope clientIp)).map CheckCall.now)) := by
    have hfst : (mockChecks limits calls).map Prod.fst = calls := by rw [mockChecks_eq, Keyed.map_fst_run]
    cases hown : calls.filter (CheckCall.isOf scope clientIp) with
    | nil =>
      refine List.filter_eq_nil_iff.2 fun answered hmem hof => ?_
      have hcall : answered.1 ∈ calls := hfst ▸ List.mem_map_of_mem hmem
      exact List.filter_eq_nil_iff.1 hown answered.1 hcall hof
    | cons first rest =>
      -- the pair is called, so its scope has no colon and its key is its own
      obtain ⟨hmem, hof⟩ := List.mem_filter.1 (hown ▸ List.mem_cons_self .. : first ∈ calls.filter (CheckCall.isOf scope clientIp))
      have hcolon := hscopes first hmem
      have hcalls : calls.filter (CheckCall.isOf scope clientIp) = calls.filter fun call => call.key = first.key :=
        filter_isOf (fun call => call) hof hcolon hscopes
      have hspan : ∀ call ∈ calls, call.key = first.key →
          limits.span call = (limits.windowSecs scope).toNat * 1000000000 := by
        intro call hcall hkey
        have hmem : call ∈ calls.filter fun call => call.key = first.key := List.mem_filter.2 ⟨hcall, by simpa using hkey⟩
        rw [Limits.span, hscope call (hcalls ▸ hmem)]
      rw [hcalls] at hfits
      rw [← hown, hcalls, filter_isOf _ hof hcolon ?_, filter_mockChecks hclock hspan hfits]
      intro answered hanswered
      exact hscopes _ (hfst ▸ List.mem_map_of_mem hanswered)
  rw [hanswers]
  refine fixedWindows_answers hpos (hclock.filter _) (fun call hcall => ?_) hfits
  rw [hscope call hcall]

/-- Two calls of one address in one window, and a third one after it. -/
def threeCalls : List CheckCall :=
  [⟨"hero-write", .v6 ⟨[0, 0, 0, 0, 0, 0, 0, 1], rfl⟩, 0⟩, ⟨"hero-write", .v6 ⟨[0, 0, 0, 0, 0, 0, 0, 1], rfl⟩, 59999999999⟩,
    ⟨"hero-write", .v6 ⟨[0, 0, 0, 0, 0, 0, 0, 1], rfl⟩, 60000000000⟩]

theorem mock_fixedWindows_three : FixedWindows 1 60000000000
    (threeCalls.filter (CheckCall.isOf "hero-write" (.v6 ⟨[0, 0, 0, 0, 0, 0, 0, 1], rfl⟩)))
    ((mockChecks ⟨fun _ => 1, fun _ => 60⟩ threeCalls).filter
      fun answered => answered.1.isOf "hero-write" (.v6 ⟨[0, 0, 0, 0, 0, 0, 0, 1], rfl⟩)) :=
  @mock_fixedWindows ⟨fun _ => 1, fun _ => 60⟩ threeCalls (by decide) (by decide) "hero-write" _ (by decide) fun _ hwin =>
    Nat.lt_of_le_of_lt (Window.length_le_of_mem_windows hwin) (by decide)

/-! ### The Redis backend -/

/-- The Redis entry of a key, and the counter it stands for. -/
def RedisCounts (span : Nat) (entry : Option (Redis.Entry Nat)) (counter : Option (Nat × Nat)) : Prop :=
  entry = counter.map (fun e => ⟨e.1, some (e.2 + span)⟩) ∧ ∀ e, counter = some e → 1 ≤ e.1

/-- The entry as the script leaves it. -/
def incrEntry (span : Nat) (now : Instant) (entry : Option (Redis.Entry Nat)) : Redis.Entry Nat :=
  let bumped := Redis.incremented now entry
  if bumped.value = 1 then { bumped with deadline := some (now + span) } else bumped

theorem incrWithExpiry_eq (now : Instant) (key : String) (ttl : Nat) (db : Redis.Db String Nat) :
    incrWithExpiry now key ttl db = ((incrEntry ttl now (db key)).value, Redis.put key (some (incrEntry ttl now (db key))) db) := by
  simp only [incrWithExpiry, Redis.incr, incrEntry]
  by_cases hone : (Redis.incremented now (db key)).value = 1
  · simp only [hone, if_true, Redis.expire_put (Redis.live_incremented now (db key))]
  · simp only [hone, if_false]

theorem incrEntry_eq {entry : Option (Redis.Entry Nat)} {counter : Option (Nat × Nat)} (now : Instant)
    (h : RedisCounts span entry counter) :
    RedisCounts span (some (incrEntry span now entry)) (some (Window.hit span counter now)) := by
  obtain ⟨rfl, hpos⟩ := h
  cases counter with
  | none => exact ⟨rfl, fun e he => Option.some.inj he ▸ Nat.le_refl 1⟩
  | some e =>
    have hpos := hpos e rfl
    by_cases hlive : @LT.lt Nat _ now (e.2 + span)
    · have hhit : Window.hit span (some e) now = (e.1 + 1, e.2) := if_pos hlive
      rw [hhit]
      refine ⟨?_, fun e' he' => Option.some.inj he' ▸ Nat.le_add_left 1 _⟩
      simp [incrEntry, Redis.incremented, Redis.Entry.live, hlive, Nat.ne_of_gt hpos]
    · have hhit : Window.hit span (some e) now = (1, now) := if_neg hlive
      rw [hhit]
      refine ⟨?_, fun e' he' => Option.some.inj he' ▸ Nat.le_refl 1⟩
      simp [incrEntry, Redis.incremented, Redis.Entry.live, hlive]

theorem single_redis {entry : Option (Redis.Entry Nat)} {counter : Option (Nat × Nat)}
    (hspan : ∀ call ∈ own, limits.span call = span) (h : RedisCounts span entry counter) :
    single (fun call entry => (limits.verdict call (UInt32.ofNat (incrEntry (limits.span call) call.now entry).value),
        some (incrEntry (limits.span call) call.now entry))) own entry =
      limits.answers own (Window.counts span counter (own.map CheckCall.now)) := by
  induction own generalizing entry counter with
  | nil => rfl
  | cons call own ih =>
    obtain ⟨hfirst, hrest⟩ := List.forall_mem_cons.1 hspan
    have hnext := incrEntry_eq call.now h
    rw [single, List.map_cons, Window.counts, Limits.answers, List.zipWith_cons_cons, hfirst]
    have hcount : (incrEntry span call.now entry).value = (Window.hit span counter call.now).1 := by
      rw [Option.some.inj hnext.1]
    rw [hcount]
    exact congrArg _ (ih hrest hnext)

theorem redisChecks_eq (calls : List CheckCall) : redisChecks limits calls =
    Keyed.run CheckCall.key
      (fun call entry => (limits.verdict call (UInt32.ofNat (incrEntry (limits.span call) call.now entry).value),
        some (incrEntry (limits.span call) call.now entry))) calls fun _ => none := by
  unfold redisChecks
  generalize (fun _ => none : Redis.Db String Nat) = db
  induction calls generalizing db with
  | nil => rfl
  | cons call calls ih =>
    rw [checks, Keyed.run, ih, redisCheck, incrWithExpiry_eq]
    rfl

theorem mock_eq_redis (hclock : calls.Pairwise fun call call' => call.now ≤ call'.now)
    (hwindow : ∀ call ∈ calls, ∀ call' ∈ calls, call'.key = call.key →
      limits.windowSecs call'.scope = limits.windowSecs call.scope)
    (hfits : ∀ call ∈ calls, ∀ win ∈ Window.windows (limits.span call)
      ((calls.filter fun call' => call'.key = call.key).map CheckCall.now), win.length < 2 ^ 32) :
    mockChecks limits calls = redisChecks limits calls := by
  refine Keyed.ext CheckCall.key ?_ fun key => ?_
  · rw [mockChecks_eq, redisChecks_eq, Keyed.map_fst_run, Keyed.map_fst_run]
  · cases hown : calls.filter fun call => call.key = key with
    | nil => rw [mockChecks_eq, redisChecks_eq, Keyed.filter_run, Keyed.filter_run, hown]; rfl
    | cons first rest =>
      obtain ⟨hfirst, hkey⟩ := List.mem_filter.1 (hown ▸ List.mem_cons_self .. : first ∈ calls.filter fun call => call.key = key)
      obtain rfl := of_decide_eq_true hkey
      have hspan : ∀ call ∈ calls, call.key = first.key → limits.span call = limits.span first := by
        intro call hcall hkey
        rw [Limits.span, Limits.span, hwindow first hfirst call hcall hkey]
      rw [filter_mockChecks hclock hspan (hfits first hfirst), redisChecks_eq, Keyed.filter_run]
      refine (single_redis (fun call hcall => ?_) ⟨rfl, fun e he => by cases he⟩).symm
      obtain ⟨hcall, hkey⟩ := List.mem_filter.1 hcall
      exact hspan call hcall (of_decide_eq_true hkey)

theorem mock_eq_redis_three : mockChecks ⟨fun _ => 1, fun _ => 60⟩ threeCalls = redisChecks ⟨fun _ => 1, fun _ => 60⟩ threeCalls :=
  @mock_eq_redis ⟨fun _ => 1, fun _ => 60⟩ threeCalls (by decide) (fun _ _ _ _ _ => rfl) fun _ _ _ hwin =>
    Nat.lt_of_le_of_lt (Window.length_le_of_mem_windows hwin)
      (Nat.lt_of_le_of_lt (by simpa using List.length_filter_le _ threeCalls) (by decide))

/-- Two scopes with windows of their own whose calls fall under one key. -/
def collidingCalls : List CheckCall :=
  [⟨"x:1", .v6 ⟨[2, 0, 0, 0, 0, 0, 0, 8], rfl⟩, 0⟩, ⟨"x", .v6 ⟨[1, 2, 0, 0, 0, 0, 0, 8], rfl⟩, 20000000000⟩]

def collidingLimits : Limits := ⟨fun _ => 1, fun scope => if scope = "x" then 10 else 60⟩

theorem not_mock_eq_redis_colliding : ¬ ∀ (limits : Limits) (calls : List CheckCall),
    (calls.Pairwise fun call call' => call.now ≤ call'.now) →
    (∀ call ∈ calls, ∀ win ∈ Window.windows (limits.span call)
      ((calls.filter fun call' => call'.key = call.key).map CheckCall.now), win.length < 2 ^ 32) →
    (mockChecks limits calls).map (fun answered => decide (answered.2 = .ok ())) =
      (redisChecks limits calls).map fun answered => decide (answered.2 = .ok ()) := by
  intro h
  have := h collidingLimits collidingCalls (by decide) fun _ _ _ hwin =>
    Nat.lt_of_le_of_lt (Window.length_le_of_mem_windows hwin)
      (Nat.lt_of_le_of_lt (by simpa using List.length_filter_le _ collidingCalls) (by decide))
  revert this
  decide +kernel

end TemplateAxum
