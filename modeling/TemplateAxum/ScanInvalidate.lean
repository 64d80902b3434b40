import TemplateAxum.Lib.Glob
import TemplateAxum.StatsCache

/-!
# What an invalidation removes

A run of `try_invalidate` beside whatever else happens to the keys. `SCAN` promises little: a key that is present from
the start of a full iteration to its end is returned, if it matches.
-/

namespace TemplateAxum

open Prog StatsCache

namespace RedisStatsCache

/-! ### Keys and patterns in bytes -/

def bytes (text : String) : List UInt8 := text.toList.flatMap String.utf8EncodeChar

/-- `MATCH pattern` -/
def Matches (pattern key : String) : Prop := Glob.glob (bytes pattern) (bytes key) = true

theorem bytes_append (s t : String) : bytes (s ++ t) = bytes s ++ bytes t := by
  rw [bytes, String.toList_append, List.flatMap_append, bytes, bytes]

theorem isMeta_toNat {b : UInt8} (h : Glob.isMeta b = true) :
    b.toNat = 42 ∨ b.toNat = 63 ∨ b.toNat = 91 ∨ b.toNat = 93 ∨ b.toNat = 92 := by
  simp only [Glob.isMeta, Bool.or_eq_true, decide_eq_true_eq] at h
  rcases h with (((rfl | rfl) | rfl) | rfl) | rfl <;> decide

theorem isMeta_utf8EncodeChar {c : Char} (hc : c ∉ ['*', '?', '[', ']', '\\']) :
    ∀ b ∈ String.utf8EncodeChar c, Glob.isMeta b = false := by
  intro b hb
  rw [Bool.eq_false_iff]
  intro hmeta
  have hnat := isMeta_toNat hmeta
  have hne : ∀ c' ∈ ['*', '?', '[', ']', '\\'], c.val.toNat ≠ c'.val.toNat := by
    intro c' hc' heq
    exact hc (by rwa [Char.ext (UInt32.toNat_inj.1 heq)])
  have h₁ : c.val.toNat ≠ 42 := hne '*' (by decide)
  have h₂ : c.val.toNat ≠ 63 := hne '?' (by decide)
  have h₃ : c.val.toNat ≠ 91 := hne '[' (by decide)
  have h₄ : c.val.toNat ≠ 93 := hne ']' (by decide)
  have h₅ : c.val.toNat ≠ 92 := hne '\\' (by decide)
  unfold String.utf8EncodeChar at hb
  dsimp only at hb
  split_ifs at hb <;> simp only [List.mem_cons, List.not_mem_nil, or_false] at hb
  · subst hb
    rw [UInt8.toNat_ofNat'] at hnat
    omega
  · rcases hb with rfl | rfl <;> rw [UInt8.toNat_ofNat'] at hnat <;> omega
  · rcases hb with rfl | rfl | rfl <;> rw [UInt8.toNat_ofNat'] at hnat <;> omega
  · rcases hb with rfl | rfl | rfl | rfl <;> rw [UInt8.toNat_ofNat'] at hnat <;> omega

theorem bytes_globEscape (value : String) : bytes (globEscape value) = (bytes value).flatMap Glob.escape := by
  have hchar : ∀ c : Char, (if c ∈ ['*', '?', '[', ']', '\\'] then ['\\', c] else [c]).flatMap String.utf8EncodeChar =
      (String.utf8EncodeChar c).flatMap Glob.escape := by
    intro c
    by_cases hc : c ∈ ['*', '?', '[', ']', '\\']
    · rw [if_pos hc]
      simp only [List.mem_cons, List.not_mem_nil, or_false] at hc
      rcases hc with rfl | rfl | rfl | rfl | rfl <;> rfl
    · rw [if_neg hc, List.flatMap_singleton]
      have : (String.utf8EncodeChar c).flatMap Glob.escape = (String.utf8EncodeChar c).flatMap fun b => [b] :=
        List.flatMap_congr fun b hb => by rw [Glob.escape, isMeta_utf8EncodeChar hc b hb]; rfl
      rw [this]
      simp
  rw [bytes, globEscape, String.toList_ofList, bytes, List.flatMap_assoc, List.flatMap_assoc]
  exact List.flatMap_congr fun c _ => hchar c

def pattern (cache : RedisStatsCache) (resource : String) : String :=
  cache.keyPrefix ++ ":*:" ++ globEscape resource ++ ":*"

/-- The pattern of `try_invalidate` matches every key of the resource, of any version. -/
theorem matches_redisKey (ttl ttl' : Nat) (version version' resource key : String) :
    Matches ((connect ttl version).pattern resource) ((connect ttl' version').redisKey resource key) := by
  have hstart : (bytes "stats-cache:").flatMap Glob.escape = bytes "stats-cache:" := by decide
  have hcolon : (bytes ":").flatMap Glob.escape = bytes ":" := by decide
  have hpattern : bytes ((connect ttl version).pattern resource) = (bytes "stats-cache:").flatMap Glob.escape ++
      Glob.star :: ((bytes (":" ++ resource ++ ":")).flatMap Glob.escape ++ [Glob.star]) := by
    rw [hstart, bytes_append, bytes_append, List.flatMap_append, List.flatMap_append, hcolon, ← bytes_globEscape]
    simp only [pattern, connect, bytes_append, List.append_assoc]
    rfl
  have hkey : bytes ((connect ttl' version').redisKey resource key) =
      bytes "stats-cache:" ++ (bytes version' ++ (bytes (":" ++ resource ++ ":") ++ bytes key)) := by
    simp only [redisKey, connect, bytes_append, List.append_assoc]
    rfl
  rw [Matches, hpattern, hkey]
  exact Glob.glob_escaped _ _ _ _

end RedisStatsCache

namespace StatsCache

/-! ### A run beside other commands -/

abbrev Keys := String → Prop

/-- A call with its answer: the keys that were there one after the other since the call before, and those after this one. -/
structure Moment where
  passed : List Keys
  call : Answered CacheOp CacheOp.Ans
  keys : Keys

/-- The keys at the call. -/
def Moment.at (m : Moment) (keys : Keys) : Keys := m.passed.getLast?.getD keys

/-- An `UNLINK` that succeeds removes its keys, and a `SCAN` none. -/
def Leaves (keys : Keys) : Answered CacheOp CacheOp.Ans → Keys → Prop
  | ⟨.unlink names, answer⟩, keys' => ∀ n, answer.value = .ok n → ∀ key, keys' key ↔ keys key ∧ key ∉ names
  | ⟨.scan .., _⟩, keys' => keys' = keys
  | _, _ => True

variable {ε α : Type}

/-- The program runs from these keys on, makes these calls and ends so. -/
inductive Runs : Keys → CacheProg ε α → List Moment → Except ε α → Prop
  | ret (keys : Keys) (a : α) : Runs keys (.ret a) [] (.ok a)
  | raise (keys : Keys) (e : ε) : Runs keys (.raise e) [] (.error e)
  | call {keys keys' : Keys} {passed : List Keys} {op : CacheOp} {k : op.Ans → CacheProg ε α} {answer : op.Ans}
      {moments : List Moment} {r : Except ε α} :
      Leaves (Moment.at ⟨passed, ⟨op, answer⟩, keys'⟩ keys) ⟨op, answer⟩ keys' → Runs keys' (k answer) moments r →
        Runs keys (.call op k) (⟨passed, ⟨op, answer⟩, keys'⟩ :: moments) r

/-- The moment is a `SCAN` that returns the key. -/
def Moment.Returns (m : Moment) (key : String) : Prop :=
  ∃ cursor pattern count answer next names, m.call = ⟨.scan cursor pattern count, answer⟩ ∧
    answer.value = .ok (next, names) ∧ key ∈ names

/-- The moment is an `UNLINK` that removes the key. -/
def Moment.Removes (m : Moment) (key : String) : Prop :=
  (∃ names answer n, m.call = ⟨.unlink names, answer⟩ ∧ answer.value = .ok n ∧ key ∈ names) ∧ ¬ m.keys key

/-- The key is there from the call before on. -/
def Moment.Has (m : Moment) (key : String) : Prop := (∀ keys ∈ m.passed, keys key) ∧ m.keys key

def Moment.isScan (m : Moment) : Bool := match m.call with | ⟨.scan .., _⟩ => true | _ => false

/-- A full iteration from this cursor on: each `SCAN` continues with the cursor of the one before, and the last one
returns 0. -/
inductive Iteration (pattern : String) : UInt64 → List Moment → Prop
  | other {cursor : UInt64} {m : Moment} {moments : List Moment} (h : m.isScan = false) :
      Iteration pattern cursor moments → Iteration pattern cursor (m :: moments)
  | next {cursor next : UInt64} {m : Moment} {moments : List Moment} {count : Nat}
      {answer : CacheOp.Ans (.scan cursor pattern count)} {names : List String}
      (hcall : m.call = ⟨.scan cursor pattern count, answer⟩) (hanswer : answer.value = .ok (next, names))
      (hne : next ≠ 0) : Iteration pattern next moments → Iteration pattern cursor (m :: moments)
  | last {cursor : UInt64} {m : Moment} {count : Nat} {answer : CacheOp.Ans (.scan cursor pattern count)}
      {names : List String} (hcall : m.call = ⟨.scan cursor pattern count, answer⟩) (hanswer : answer.value = .ok (0, names)) :
      Iteration pattern cursor [m]

/-- What `SCAN` guarantees: a key that is there from the start of a full iteration to its end is returned, if it matches. -/
def ScanGuarantee (keys : Keys) (moments : List Moment) : Prop :=
  ∀ pattern iteration after, moments = iteration ++ after → Iteration pattern 0 iteration → ∀ key,
    RedisStatsCache.Matches pattern key → keys key → (∀ m ∈ iteration, m.Has key) → ∃ m ∈ iteration, m.Returns key

/-- Nothing but the calls removes the key. -/
def Stays (key : String) : Keys → List Moment → Prop
  | _, [] => True
  | keys, m :: moments => (keys key → ∀ keys' ∈ m.passed, keys' key) ∧ Stays key m.keys moments

/-- A run of the loop that is seen to its end: it scans fewer times than are seen. -/
def TryInvalidate (cache : RedisStatsCache) (resource : String) (keys : Keys) (moments : List Moment)
    (r : Except RedisError Unit) : Prop :=
  ∃ scans, moments.countP Moment.isScan < scans ∧ Runs keys (cache.tryInvalidate resource scans 0) moments r

/-! ### A round -/

/-- A round that does not fail: the batch, its `UNLINK` unless it is empty, and the rest. -/
inductive Round (cache : RedisStatsCache) (resource : String) (scans : Nat) (cursor : UInt64) (keys : Keys) :
    List Moment → Prop
  | intro {m : Moment} {answer : CacheOp.Ans (.scan cursor (cache.pattern resource) RedisStatsCache.scanCount)}
      {next : UInt64} {names : List String} {unlinked : List Moment} {keys' : Keys} {rest : List Moment}
      (hcall : m.call = ⟨.scan cursor (cache.pattern resource) RedisStatsCache.scanCount, answer⟩)
      (hanswer : answer.value = .ok (next, names)) (hkeys : m.keys = m.at keys)
      (hunlinked : names = [] ∧ unlinked = [] ∧ keys' = m.keys ∨
        ∃ (m' : Moment) (answer' : CacheOp.Ans (.unlink names)) (n : Nat), unlinked = [m'] ∧ keys' = m'.keys ∧
          m'.call = ⟨.unlink names, answer'⟩ ∧ answer'.value = .ok n ∧
          ∀ key, m'.keys key ↔ m'.at m.keys key ∧ key ∉ names)
      (hrest : if next = 0 then rest = [] else Runs keys' (cache.tryInvalidate resource scans next) rest (.ok ())) :
      Round cache resource scans cursor keys (m :: (unlinked ++ rest))

theorem round_of_runs {cache : RedisStatsCache} {resource : String} {scans : Nat} {cursor : UInt64} {keys : Keys}
    {moments : List Moment} (h : Runs keys (cache.tryInvalidate resource (scans + 1) cursor) moments (.ok ())) :
    Round cache resource scans cursor keys moments := by
  rw [RedisStatsCache.tryInvalidate] at h
  simp only [ask, call_bind, pure_bind] at h
  cases h with
  | @call _ keys' passed _ _ answer moments _ hleaves hruns =>
    cases hvalue : answer.value with
    | error e =>
      simp only [hvalue, ofExcept_error, raise_bind] at hruns
      cases hruns
    | ok batch =>
      obtain ⟨next, names⟩ := batch
      simp only [hvalue, ofExcept_ok, ret_bind] at hruns
      have hlast : ∀ {keys rest}, Runs keys (if next = 0 then pure () else cache.tryInvalidate resource scans next) rest (.ok ()) →
          if next = 0 then rest = [] else Runs keys (cache.tryInvalidate resource scans next) rest (.ok ()) := by
        intro keys rest h
        by_cases hnext : next = 0
        · rw [if_pos hnext] at h ⊢
          cases h
          rfl
        · rwa [if_neg hnext] at h ⊢
      by_cases hnames : names = []
      · subst hnames
        exact @Round.intro _ _ _ _ _ _ _ _ _ [] _ _ rfl hvalue hleaves (.inl ⟨rfl, rfl, rfl⟩) (hlast hruns)
      · rw [if_pos (by simpa using hnames)] at hruns
        cases hruns with
        | @call _ keys'' passed' _ _ answer' moments' _ hleaves' hruns =>
          cases hvalue' : answer'.value with
          | error e =>
            simp only [hvalue', ofExcept_error, raise_bind] at hruns
            cases hruns
          | ok n =>
            simp only [hvalue', ofExcept_ok, ret_bind] at hruns
            exact @Round.intro _ _ _ _ _ _ _ _ _ [_] _ _ rfl hvalue hleaves
              (.inr ⟨_, answer', n, rfl, rfl, rfl, hvalue', hleaves' n hvalue'⟩) (hlast hruns)

/-! ### Whole runs -/

section

variable {cache : RedisStatsCache} {resource key : String} {scans : Nat} {cursor : UInt64} {keys : Keys} {moments : List Moment}

theorem Moment.isScan_of_scan {m : Moment} {pattern : String} {count : Nat} {answer : CacheOp.Ans (.scan cursor pattern count)}
    (h : m.call = ⟨.scan cursor pattern count, answer⟩) : m.isScan = true := by rw [isScan, h]

theorem Moment.isScan_of_unlink {m : Moment} {names : List String} {answer : CacheOp.Ans (.unlink names)}
    (h : m.call = ⟨.unlink names, answer⟩) : m.isScan = false := by rw [isScan, h]

theorem Moment.Returns.isScan {m : Moment} (h : m.Returns key) : m.isScan = true := by
  obtain ⟨cursor, pattern, count, answer, next, names, hcall, -, -⟩ := h
  exact isScan_of_scan hcall

theorem Moment.at_of_passed {m : Moment} (hkeys : keys key) (hpassed : ∀ keys' ∈ m.passed, keys' key) : m.at keys key := by
  unfold Moment.at
  cases hlast : m.passed.getLast? with
  | none => exact hkeys
  | some last => exact hpassed last (List.mem_of_getLast? hlast)

theorem iteration_of_runs (h : Runs keys (cache.tryInvalidate resource scans cursor) moments (.ok ()))
    (hscans : moments.countP Moment.isScan < scans) :
    ∃ iteration after, moments = iteration ++ after ∧ Iteration (cache.pattern resource) cursor iteration := by
  induction scans generalizing cursor keys moments with
  | zero => exact absurd hscans (Nat.not_lt_zero _)
  | succ scans ih =>
    obtain ⟨hcall, hanswer, -, hunlinked, hrest⟩ := round_of_runs h
    rename_i m answer next names unlinked keys' rest
    have hothers : ∀ m' ∈ unlinked, m'.isScan = false := by
      rintro m' hm'
      obtain ⟨-, rfl, -⟩ | ⟨_, answer', n, rfl, -, hcall', -, -⟩ := hunlinked
      · cases hm'
      · obtain rfl := List.mem_singleton.1 hm'
        exact Moment.isScan_of_unlink hcall'
    by_cases hnext : next = 0
    · subst hnext
      exact ⟨[m], unlinked ++ rest, rfl, .last hcall hanswer⟩
    · rw [if_neg hnext] at hrest
      have hcount : rest.countP Moment.isScan < scans := by
        rw [List.countP_cons_of_pos (Moment.isScan_of_scan hcall), List.countP_append] at hscans
        omega
      obtain ⟨iteration, after, rfl, hiteration⟩ := ih hrest hcount
      refine ⟨m :: (unlinked ++ iteration), after, by simp, .next hcall hanswer hnext ?_⟩
      clear hunlinked hscans h
      induction unlinked with
      | nil => exact hiteration
      | cons m' unlinked ih => exact .other (hothers m' (List.mem_cons_self ..)) (ih fun m hm => hothers m (List.mem_cons_of_mem _ hm))

theorem removed_of_returned (h : Runs keys (cache.tryInvalidate resource scans cursor) moments (.ok ()))
    (hreturned : ∃ m ∈ moments, m.Returns key) : ∃ m ∈ moments, m.Removes key := by
  induction scans generalizing cursor keys moments with
  | zero =>
    cases h
    obtain ⟨_, hm, -⟩ := hreturned
    cases hm
  | succ scans ih =>
    obtain ⟨hcall, hanswer, -, hunlinked, hrest⟩ := round_of_runs h
    rename_i m answer next names unlinked keys' rest
    obtain ⟨m₀, hm₀, hreturns⟩ := hreturned
    have hinner : m₀ ∈ rest → ∃ m' ∈ m :: (unlinked ++ rest), m'.Removes key := by
      intro hm₀
      split_ifs at hrest with hnext
      · rw [hrest] at hm₀
        cases hm₀
      · obtain ⟨m', hm', hremoves⟩ := ih hrest ⟨m₀, hm₀, hreturns⟩
        exact ⟨m', List.mem_cons_of_mem _ (List.mem_append_right _ hm'), hremoves⟩
    obtain rfl | hm₀ := List.mem_cons.1 hm₀
    · -- the batch names the key, so it is unlinked
      obtain ⟨_, _, _, _, _, _, hcall₀, hanswer₀, hmem⟩ := hreturns
      cases hcall.symm.trans hcall₀
      cases hanswer.symm.trans hanswer₀
      obtain ⟨rfl, -, -⟩ | ⟨m', answer', n, rfl, -, hcall', hanswer', hgone⟩ := hunlinked
      · cases hmem
      · refine ⟨m', by simp, ⟨names, answer', n, hcall', hanswer', hmem⟩, fun hkey => ?_⟩
        exact ((hgone key).1 hkey).2 hmem
    · obtain hm₀ | hm₀ := List.mem_append.1 hm₀
      · obtain ⟨-, rfl, -⟩ | ⟨m', answer', n, rfl, -, hcall', -, -⟩ := hunlinked
        · cases hm₀
        · obtain rfl := List.mem_singleton.1 hm₀
          have := hreturns.isScan
          rw [Moment.isScan_of_unlink hcall'] at this
          cases this
      · exact hinner hm₀

theorem has_of_not_returned (h : Runs keys (cache.tryInvalidate resource scans cursor) moments (.ok ())) (hkeys : keys key)
    (hstays : Stays key keys moments) (hnot : ∀ m ∈ moments, ¬ m.Returns key) : ∀ m ∈ moments, m.Has key := by
  induction scans generalizing cursor keys moments with
  | zero =>
    cases h
    simp
  | succ scans ih =>
    obtain ⟨hcall, hanswer, hafter, hunlinked, hrest⟩ := round_of_runs h
    rename_i m answer next names unlinked keys' rest
    obtain ⟨hpassed, hstays⟩ := hstays
    have hm : m.Has key := ⟨hpassed hkeys, by rw [hafter]; exact Moment.at_of_passed hkeys (hpassed hkeys)⟩
    have hbatch : key ∉ names := fun hmem =>
      hnot m (List.mem_cons_self ..) ⟨_, _, _, answer, next, names, hcall, hanswer, hmem⟩
    have hinner : ∀ {keys'}, keys' key → Stays key keys' rest →
        (if next = 0 then rest = [] else Runs keys' (cache.tryInvalidate resource scans next) rest (.ok ())) →
        ∀ m ∈ rest, m.Has key := by
      intro keys' hkeys' hstays' hrest
      split_ifs at hrest with hnext
      · simp [hrest]
      · exact ih hrest hkeys' hstays' fun m hm => hnot m (List.mem_cons_of_mem _ (List.mem_append_right _ hm))
    obtain ⟨-, rfl, rfl⟩ | ⟨m', answer', n, rfl, rfl, -, -, hgone⟩ := hunlinked
    · exact List.forall_mem_cons.2 ⟨hm, hinner hm.2 hstays hrest⟩
    · obtain ⟨hpassed', hstays⟩ := hstays
      have hm' : m'.Has key :=
        ⟨hpassed' hm.2, (hgone key).2 ⟨Moment.at_of_passed hm.2 (hpassed' hm.2), hbatch⟩⟩
      exact List.forall_mem_cons.2 ⟨hm, List.forall_mem_cons.2 ⟨hm', hinner hm'.2 hstays hrest⟩⟩

end

/-- An invalidation that succeeds removes every entry of the resource that nothing else removes meanwhile, whatever the
version and the key are. -/
theorem tryInvalidate_removes {ttl : Nat} {version resource : String} {keys : Keys} {moments : List Moment}
    (h : TryInvalidate (.connect ttl version) resource keys moments (.ok ())) (hscan : ScanGuarantee keys moments)
    (version' key : String) (hkeys : keys ((RedisStatsCache.connect ttl version').redisKey resource key))
    (hstays : Stays ((RedisStatsCache.connect ttl version').redisKey resource key) keys moments) :
    ∃ m ∈ moments, m.Removes ((RedisStatsCache.connect ttl version').redisKey resource key) := by
  obtain ⟨scans, hscans, hruns⟩ := h
  refine removed_of_returned hruns ?_
  by_contra hnot
  have hhas := has_of_not_returned hruns hkeys hstays fun m hm hreturns => hnot ⟨m, hm, hreturns⟩
  obtain ⟨iteration, after, rfl, hiteration⟩ := iteration_of_runs hruns hscans
  obtain ⟨m, hm, hreturns⟩ := hscan _ _ _ rfl hiteration _ (RedisStatsCache.matches_redisKey ttl ttl version version' resource key)
    hkeys fun m hm => hhas m (List.mem_append_left _ hm)
  exact hnot ⟨m, List.mem_append_left _ hm, hreturns⟩

/-! One entry of another version, in one batch. -/

def entry : String := (RedisStatsCache.connect 60 "2").redisKey "heroes" "stats"

def oneBatch : List Moment :=
  [⟨[], ⟨.scan 0 ((RedisStatsCache.connect 60 "1").pattern "heroes") RedisStatsCache.scanCount, ⟨.ok (0, [entry]), 0⟩⟩, (· = entry)⟩,
    ⟨[], ⟨.unlink [entry], ⟨.ok 1, 0⟩⟩, fun _ => False⟩]

theorem oneBatch_runs : TryInvalidate (.connect 60 "1") "heroes" (· = entry) oneBatch (.ok ()) := by
  exact ⟨2, Nat.lt_succ_self 1, .call rfl (.call (fun _ _ key => by simp [Moment.at]) (.ret _ _))⟩

theorem oneBatch_scan : ScanGuarantee (· = entry) oneBatch := by
  rintro pattern iteration after hsplit hiteration key - rfl -
  cases iteration with
  | nil => cases hiteration
  | cons m iteration =>
    obtain ⟨rfl, -⟩ := List.cons.inj hsplit
    exact ⟨_, List.mem_cons_self .., _, _, _, _, _, _, rfl, rfl, List.mem_singleton_self _⟩

theorem tryInvalidate_removes_oneBatch : ∃ m ∈ oneBatch, m.Removes entry :=
  tryInvalidate_removes oneBatch_runs oneBatch_scan "2" "stats" rfl (by simp [Stays, oneBatch])

end StatsCache
end TemplateAxum
