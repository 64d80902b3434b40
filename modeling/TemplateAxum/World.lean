import TemplateAxum.Writes
import TemplateAxum.Claims
import TemplateAxum.RateLimit
import TemplateAxum.Lib.Pool

/-!
# What the handlers call

The calls a handler makes of the process around it, each atomic: the repository, the rate limiter,
the event bus, the issuer's keys, the wall clock. `World.Answers` says how each may be answered and
what it leaves; of a repository write it is read through `Repo.answers_write` only.
-/

open Std

namespace TemplateAxum

open HeroMemory HeroSeaOrm

/-! ### Answers of the write methods -/

namespace WriteOp

/-- What the trait method returns when it does not fail. -/
abbrev Result : WriteOp → Type
  | create .. => Model
  | update .. => Option Model
  | updateMany .. => List Model
  | delete .. => Bool
  | deleteMany .. => List Model

def pack : (op : WriteOp) → op.Result → WriteAnswer
  | create .., hero => .hero (some hero)
  | update .., hero => .hero hero
  | updateMany .., heroes => .heroes heroes
  | delete .., done => .done done
  | deleteMany .., heroes => .heroes heroes

/-- Every answer of a write that makes a change is one its method returns. -/
theorem exists_pack (op : WriteOp) (chooses : List FilterClause → Model → Bool) (newId : Int32)
    (stamps : Stamps) (table : Table) :
    ∃ r, op.pack r = op.answer ((op.change chooses newId stamps).reported table) := by
  cases op with
  | create ownerId data => exact ⟨data.row newId ownerId stamps.first, rfl⟩
  | update id ownerId data => exact ⟨_, rfl⟩
  | updateMany filters data => exact ⟨_, rfl⟩
  | delete id ownerId => exact ⟨_, rfl⟩
  | deleteMany filters includeUnpublished => exact ⟨_, rfl⟩

end WriteOp

/-- Whether a by-id write found its record; a create and a bulk write always do what they are asked. -/
def WriteAnswer.performed : WriteAnswer → Bool
  | .hero found => found.isSome
  | .done found => found
  | .heroes _ => true

/-! ### The repository -/

/-- A call of the `Repository` trait. -/
inductive RepoCall
  | get (id : Int32) (includeArchived : Bool)
  | list (opts : ListOptions)
  | count (filters : List FilterClause) (includeArchived onlyArchived : Bool)
  | write (op : WriteOp)

abbrev RepoCall.Ans : RepoCall → Type
  | get .. => Except RepoError (Option Model)
  | list .. => Except RepoError (List Model)
  | count .. => Except RepoError Nat
  | write op => Except RepoError op.Result

/-- The repository that `build_state` chose: in memory under `Mode::Mock`, on Postgres otherwise. -/
inductive Repo
  | memory (repo : HeroMemoryRepository)
  | seaOrm (db : Table)

namespace Repo

def rows : Repo → Table
  | memory repo => repo.records
  | seaOrm db => db

/-- The next `create` finds the id counter at its end. -/
def Exhausted : Repo → Prop
  | memory repo => repo.nextId = Int32.maxValue
  | seaOrm _ => False

def isMemory : Repo → Bool
  | memory _ => true
  | seaOrm _ => false

/-- The id counter, where the repository has one of its own. -/
def counter : Repo → Option Int32
  | memory repo => some repo.nextId
  | seaOrm _ => none

def Inv : Repo → Prop
  | memory repo => repo.Inv
  | seaOrm db => db.Keyed

theorem ext {repo repo' : Repo} (hrows : repo'.rows = repo.rows) (hcounter : repo'.counter = repo.counter) :
    repo' = repo := by
  cases repo with
  | memory repo =>
    cases repo' with
    | memory repo' =>
      cases repo; cases repo'; cases hrows; cases hcounter; rfl
    | seaOrm db' => cases hcounter
  | seaOrm db =>
    cases repo' with
    | memory repo' => cases hcounter
    | seaOrm db' => cases hrows; rfl

variable [Lowercase]

/-- The reading of filter clauses. -/
def chooses : Repo → List FilterClause → Model → Bool
  | memory _, filters, row => matchesAll row filters
  | seaOrm _, filters, row => whereHolds (applyFilters filters) row

/-- The answers of a call. In memory nothing fails, but a `create` that overflows the id counter
panics, and has no answer. On Postgres any call may fail, and then changes nothing. -/
def Answers : Repo → (c : RepoCall) → c.Ans → Repo → Prop
  | memory repo, .get id includeArchived, answer, repo' =>
    answer = .ok (repo.get id includeArchived) ∧ repo' = memory repo
  | memory repo, .list opts, answer, repo' => answer = .ok (repo.list opts) ∧ repo' = memory repo
  | memory repo, .count filters includeArchived onlyArchived, answer, repo' =>
    answer = .ok (repo.count filters includeArchived onlyArchived) ∧ repo' = memory repo
  | memory repo, .write op, answer, repo' =>
    ∃ now r next, op.memory now repo = some (op.pack r, next) ∧ answer = .ok r ∧ repo' = memory next
  | seaOrm db, .get id includeArchived, answer, repo' =>
    repo' = seaOrm db ∧
      ((∃ err, answer = .error err) ∨ answer = .ok (HeroSeaOrmRepository.get id includeArchived db))
  | seaOrm db, .list opts, answer, repo' =>
    repo' = seaOrm db ∧ ((∃ err, answer = .error err) ∨
      ∃ heroes, (HeroSeaOrmRepository.list opts).Answers db heroes ∧ answer = .ok heroes)
  | seaOrm db, .count filters includeArchived onlyArchived, answer, repo' =>
    repo' = seaOrm db ∧ ((∃ err, answer = .error err) ∨
      answer = .ok (HeroSeaOrmRepository.count filters includeArchived onlyArchived db))
  | seaOrm db, .write op, answer, repo' =>
    (repo' = seaOrm db ∧ ∃ err, answer = .error err) ∨
      ∃ returning now newId r next, op.seaOrm returning now newId db = some (op.pack r, next) ∧
        answer = .ok r ∧ repo' = seaOrm next

/-- What a write that was answered `r` has done. -/
structure Wrote (repo : Repo) (op : WriteOp) (r : op.Result) (repo' : Repo) (newId : Int32) (stamps : Stamps) :
    Prop where
  fresh : (op.change repo.chooses newId stamps).Fresh repo.rows
  rows : repo'.rows = (op.change repo.chooses newId stamps).run repo.rows
  answer : op.pack r = op.answer ((op.change repo.chooses newId stamps).reported repo.rows)
  counter : op.isCreate = false → repo'.counter = repo.counter
  room : op.isCreate = true → ¬ repo.Exhausted

variable {repo repo' : Repo}

omit [Lowercase] in
theorem Inv.keyed (h : repo.Inv) : repo.rows.Keyed := by
  cases repo with
  | memory repo => exact h.keyed
  | seaOrm db => exact h

/-- All that a write can do. -/
theorem answers_write (h : repo.Inv) {op : WriteOp} {answer : Except RepoError op.Result}
    (ha : repo.Answers (.write op) answer repo') :
    repo'.Inv ∧ ((repo' = repo ∧ ∃ err, answer = .error err) ∨
      ∃ r newId stamps, answer = .ok r ∧ repo.Wrote op r repo' newId stamps) := by
  cases repo with
  | memory repo =>
    rcases ha with ⟨now, r, next, hstep, rfl, rfl⟩
    refine ⟨HeroMemoryRepository.Inv.step h hstep, .inr ⟨r, repo.nextId, op.memoryStamps now repo, rfl, ?_⟩⟩
    have heq := op.memory_eq h.keyed now
    rw [hstep] at heq
    split at heq
    · cases heq
    · rename_i hroom
      obtain ⟨hans, rfl⟩ := Prod.mk.inj (Option.some.inj heq)
      refine ⟨h.fresh now op, rfl, hans, fun hc => ?_, fun hc hmax => hroom ⟨hc, hmax⟩⟩
      rw [counter, if_neg (by rw [hc]; decide)]
      rfl
  | seaOrm db =>
    rcases ha with ⟨rfl, herr⟩ | ⟨returning, now, newId, r, next, hstep, rfl, rfl⟩
    · exact ⟨h, .inl ⟨rfl, herr⟩⟩
    · have heq := op.seaOrm_eq h returning now newId
      rw [hstep] at heq
      split at heq
      · cases heq
      · rename_i hfree
        obtain ⟨hans, rfl⟩ := Prod.mk.inj (Option.some.inj heq)
        refine ⟨Change.keyed_run h, .inr ⟨r, newId, .const now, rfl, ?_, rfl, hans, fun _ => rfl, fun _ => id⟩⟩
        cases op with
        | create ownerId data =>
          show db.get? newId = none
          cases hrow : db.get? newId with
          | none => rfl
          | some row => exact absurd ⟨rfl, by rw [hrow]; rfl⟩ hfree
        | _ => trivial

theorem isMemory_of_answers {c : RepoCall} {answer : c.Ans} (ha : repo.Answers c answer repo') :
    repo'.isMemory = repo.isMemory := by
  cases repo with
  | memory repo =>
    cases c with
    | write op => rcases ha with ⟨now, r, next, -, -, rfl⟩; rfl
    | get id includeArchived => rw [ha.2]
    | list opts => rw [ha.2]
    | count filters includeArchived onlyArchived => rw [ha.2]
  | seaOrm db =>
    cases c with
    | write op =>
      rcases ha with ⟨rfl, -⟩ | ⟨returning, now, newId, r, next, -, -, rfl⟩
      · rfl
      · rfl
    | get id includeArchived => rw [ha.1]
    | list opts => rw [ha.1]
    | count filters includeArchived onlyArchived => rw [ha.1]

/-- All that a read can do. -/
theorem answers_read {c : RepoCall} (hc : ∀ op, c ≠ .write op) {answer : c.Ans}
    (ha : repo.Answers c answer repo') : repo' = repo := by
  cases c with
  | get id includeArchived =>
    cases repo with
    | memory repo => exact ha.2
    | seaOrm db => exact ha.1
  | list opts =>
    cases repo with
    | memory repo => exact ha.2
    | seaOrm db => exact ha.1
  | count filters includeArchived onlyArchived =>
    cases repo with
    | memory repo => exact ha.2
    | seaOrm db => exact ha.1
  | write op => exact absurd rfl (hc op)

/-- The by-id writes look for a live row of their owner. -/
def Finds (table : Table) : WriteOp → Prop
  | .update id ownerId _ | .delete id ownerId =>
    ∃ row, table.get? id = some row ∧ row.ownerId = ownerId ∧ row.live = true
  | _ => True

omit [Lowercase] in
theorem changed_ne_nil_iff {r : Revision} {table : Table} {id : Int32} {ownerId : String} (hk : table.Keyed)
    (hsel : ∀ row, r.selects row = (row.live && Revision.ownedBy id ownerId row)) :
    r.changed table ≠ [] ↔ ∃ row, table.get? id = some row ∧ row.ownerId = ownerId ∧ row.live = true := by
  rw [Revision.changed_of_ownedBy hk hsel]
  cases hrow : table.get? id with
  | none => simp
  | some row =>
    by_cases hown : row.ownerId = ownerId
    · cases harch : row.archivedAt <;> simp [hown, harch, Model.live]
    · simp [hown]

theorem Wrote.performed_iff (h : repo.Inv) {op : WriteOp} {r : op.Result} {newId : Int32} {stamps : Stamps}
    (hw : repo.Wrote op r repo' newId stamps) : (op.pack r).performed = true ↔ Finds repo.rows op := by
  rw [hw.answer]
  cases op with
  | update id ownerId data =>
    rw [Finds, ← changed_ne_nil_iff (r := .updateOwned id ownerId data stamps.first) h.keyed fun _ => rfl,
      ← List.isSome_head?]
    rfl
  | delete id ownerId =>
    rw [Finds,
      ← changed_ne_nil_iff (r := .archiveOwned id ownerId stamps.first stamps.second) h.keyed fun _ => rfl]
    show (!(_ : List Model).isEmpty) = true ↔ _
    rw [Bool.not_eq_true', List.isEmpty_eq_false_iff]
    rfl
  | create ownerId data => exact iff_of_true rfl trivial
  | updateMany filters data => exact iff_of_true rfl trivial
  | deleteMany filters includeUnpublished => exact iff_of_true rfl trivial

/-- A write that did not perform found nothing, and left the repository as it was. -/
theorem Wrote.eq_of_not_performed (h : repo.Inv) {op : WriteOp} {r : op.Result} {newId : Int32}
    {stamps : Stamps} (hw : repo.Wrote op r repo' newId stamps) (hp : (op.pack r).performed = false) :
    repo' = repo := by
  rw [hw.answer] at hp
  have hcreate : op.isCreate = false := by
    cases op with
    | create ownerId data => cases hp
    | _ => rfl
  refine ext (hw.rows.trans (Change.run_of_reported_nil h.keyed ?_)) (hw.counter hcreate)
  cases op with
  | update id ownerId data =>
    exact List.head?_eq_none_iff.1 (Option.isNone_iff_eq_none.1 (Option.isSome_eq_false_iff.1 hp))
  | delete id ownerId => exact List.isEmpty_iff.1 (Bool.not_eq_eq_eq_not.1 hp)
  | create ownerId data => cases hp
  | updateMany filters data => cases hp
  | deleteMany filters includeUnpublished => cases hp

/-- In memory nothing fails. -/
theorem exists_ok (h : repo.Inv) (hmemory : repo.isMemory = true) {op : WriteOp}
    (hroom : op.isCreate = true → ¬ repo.Exhausted) : ∃ r repo', repo.Answers (.write op) (.ok r) repo' := by
  cases repo with
  | seaOrm db => cases hmemory
  | memory repo =>
    have heq := op.memory_eq h.keyed fun _ => 0
    rw [if_neg fun hc => hroom hc.1 hc.2] at heq
    obtain ⟨r, hr⟩ := op.exists_pack (fun filters row => matchesAll row filters) repo.nextId
      (op.memoryStamps (fun _ => 0) repo) repo.records
    exact ⟨r, _, fun _ => 0, r, _, heq.trans (by rw [hr]; rfl), rfl, rfl⟩

/-- And a write that finds its record performs. -/
theorem exists_performed (h : repo.Inv) (hmemory : repo.isMemory = true) {op : WriteOp}
    (hroom : op.isCreate = true → ¬ repo.Exhausted) (hfinds : Finds repo.rows op) :
    ∃ r repo', repo.Answers (.write op) (.ok r) repo' ∧ (op.pack r).performed = true := by
  obtain ⟨r, repo', ha⟩ := exists_ok h hmemory hroom
  refine ⟨r, repo', ha, ?_⟩
  rcases (answers_write h ha).2 with ⟨-, err, herr⟩ | ⟨r', newId, stamps, hr, hwrote⟩
  · cases herr
  · cases hr
    exact (hwrote.performed_iff h).2 hfinds

/-- A `create` that overflows the counter panics. -/
theorem not_answers_of_exhausted (h : repo.Inv) {op : WriteOp} (hcreate : op.isCreate = true)
    (hfull : repo.Exhausted) {answer : Except RepoError op.Result} : ¬ repo.Answers (.write op) answer repo' := by
  cases repo with
  | seaOrm db => exact absurd hfull id
  | memory repo =>
    rintro ⟨now, r, next, hstep, -, -⟩
    rw [op.memory_eq h.keyed now, if_pos ⟨hcreate, hfull⟩] at hstep
    cases hstep

/-- Every call has an answer but a `create` that panics. -/
theorem exists_answers (h : repo.Inv) (c : RepoCall)
    (hroom : ∀ op, c = .write op → op.isCreate = true → ¬ repo.Exhausted) :
    ∃ answer repo', repo.Answers c answer repo' := by
  cases repo with
  | seaOrm db =>
    cases c with
    | get id includeArchived => exact ⟨_, _, rfl, .inr rfl⟩
    | list opts => exact ⟨.error ⟨""⟩, _, rfl, .inl ⟨_, rfl⟩⟩
    | count filters includeArchived onlyArchived => exact ⟨_, _, rfl, .inr rfl⟩
    | write op => exact ⟨.error ⟨""⟩, _, .inl ⟨rfl, _, rfl⟩⟩
  | memory repo =>
    cases c with
    | get id includeArchived => exact ⟨_, _, rfl, rfl⟩
    | list opts => exact ⟨_, _, rfl, rfl⟩
    | count filters includeArchived onlyArchived => exact ⟨_, _, rfl, rfl⟩
    | write op =>
      rcases exists_ok h rfl (hroom op rfl) with ⟨r, repo', ha⟩
      exact ⟨.ok r, repo', ha⟩

end Repo

/-! ### Events -/

inductive EventAction
  | create | update | updateMany | delete | deleteMany
deriving DecidableEq, Repr

structure Event where
  resource : String
  action : EventAction
  ids : List Int32
deriving DecidableEq, Repr

/-- The action that announces a write. -/
def WriteOp.action : WriteOp → EventAction
  | create .. => .create
  | update .. => .update
  | updateMany .. => .updateMany
  | delete .. => .delete
  | deleteMany .. => .deleteMany

/-! ### The world -/

/-- A call of a handler. `fetchJwks` is the issuer's key set, from the cache or the network. -/
inductive Op
  | repo (c : RepoCall)
  | check (scope clientIp : String) (limit windowSecs : Nat)
  | publish (resource : String) (action : EventAction) (ids : List Int32)
  | fetchJwks
  | unixTime

abbrev Op.Ans : Op → Type
  | repo c => c.Ans
  | check .. => Except AppError Unit
  | publish .. => Unit
  | fetchJwks => Option JwkSet
  | unixTime => Nat

structure World where
  repo : Repo
  limiter : RateLimiter
  log : List Event

inductive Mode
  | dev | mock | production
deriving DecidableEq, Repr

namespace World

/-- What `build_state` starts from: nothing under `Mode::Mock`, else the table as the database has it. -/
def Initial (mode : Mode) (w : World) : Prop :=
  if mode = .mock then w = ⟨.memory .new, .mock fun _ => none, []⟩
  else ∃ db : Table, db.Keyed ∧ w = ⟨.seaOrm db, .redis, []⟩

variable [Lowercase]

/-- Publishing appends to the log and never fails; the issuer and the clock answer as they like. -/
def Answers (w : World) : (op : Op) → op.Ans → World → Prop
  | .repo c, answer, w' => ∃ repo', w.repo.Answers c answer repo' ∧ w' = { w with repo := repo' }
  | .check scope clientIp limit windowSecs, answer, w' =>
    ∃ limiter', w.limiter.Checks scope clientIp limit windowSecs answer limiter' ∧
      w' = { w with limiter := limiter' }
  | .publish resource action ids, _, w' => w' = { w with log := w.log ++ [⟨resource, action, ids⟩] }
  | .fetchJwks, _, w' => w' = w
  | .unixTime, _, w' => w' = w

/-- A call of one who may not write. -/
def IsRead : Op → Prop
  | .repo (.write _) | .publish .. => False
  | _ => True

variable {w w' : World} {op : Op} {answer : op.Ans}

theorem answers_read (ha : w.Answers op answer w') (hop : IsRead op) : w'.repo = w.repo ∧ w'.log = w.log := by
  cases op with
  | repo c =>
    rcases ha with ⟨repo', hc, rfl⟩
    refine ⟨Repo.answers_read ?_ hc, rfl⟩
    rintro op rfl
    exact hop
  | check scope clientIp limit windowSecs =>
    rcases ha with ⟨limiter', -, rfl⟩
    exact ⟨rfl, rfl⟩
  | publish resource action ids => exact absurd hop id
  | fetchJwks => cases ha; exact ⟨rfl, rfl⟩
  | unixTime => cases ha; exact ⟨rfl, rfl⟩

/-- What a call that is no repository write leaves alone. -/
theorem repo_of_answers (ha : w.Answers op answer w') (hop : ∀ c, op ≠ .repo (.write c)) : w'.repo = w.repo := by
  cases op with
  | publish resource action ids => cases ha; rfl
  | repo c =>
    rcases ha with ⟨repo', hc, rfl⟩
    exact Repo.answers_read (fun op heq => hop op (congrArg Op.repo heq)) hc
  | check scope clientIp limit windowSecs => exact (answers_read ha trivial).1
  | fetchJwks => exact (answers_read ha trivial).1
  | unixTime => exact (answers_read ha trivial).1

theorem inv_of_answers (h : w.repo.Inv) (ha : w.Answers op answer w') : w'.repo.Inv := by
  by_cases hop : ∃ c, op = .repo (.write c)
  · rcases hop with ⟨c, rfl⟩
    rcases ha with ⟨repo', hc, rfl⟩
    exact (Repo.answers_write h hc).1
  · rw [repo_of_answers ha fun c heq => hop ⟨c, heq⟩]
    exact h

theorem isMemory_of_answers (ha : w.Answers op answer w') : w'.repo.isMemory = w.repo.isMemory := by
  by_cases hop : ∃ c, op = .repo (.write c)
  · rcases hop with ⟨c, rfl⟩
    rcases ha with ⟨repo', hc, rfl⟩
    exact Repo.isMemory_of_answers hc
  · rw [repo_of_answers ha fun c heq => hop ⟨c, heq⟩]

/-- Every call has an answer but a `create` that panics. -/
theorem exists_answers (h : w.repo.Inv) (op : Op)
    (hroom : ∀ o, op = .repo (.write o) → o.isCreate = true → ¬ w.repo.Exhausted) :
    ∃ answer w', w.Answers op answer w' := by
  cases op with
  | repo c =>
    rcases Repo.exists_answers h c fun o heq => hroom o (congrArg Op.repo heq) with ⟨answer, repo', ha⟩
    exact ⟨answer, _, repo', ha, rfl⟩
  | check scope clientIp limit windowSecs =>
    rcases RateLimiter.Checks.total w.limiter scope clientIp limit windowSecs with ⟨answer, limiter', ha⟩
    exact ⟨answer, _, limiter', ha, rfl⟩
  | publish resource action ids => exact ⟨(), _, rfl⟩
  | fetchJwks => exact ⟨none, _, rfl⟩
  | unixTime => exact ⟨(0 : Nat), _, rfl⟩

omit [Lowercase] in
theorem Initial.isMemory {mode : Mode} (h : Initial mode w) : w.repo.isMemory = decide (mode = .mock) := by
  unfold Initial at h
  split at h
  · rename_i hmode; rw [h, decide_eq_true hmode]; rfl
  · rename_i hmode; rcases h with ⟨db, -, rfl⟩; rw [decide_eq_false hmode]; rfl

omit [Lowercase] in
theorem Initial.inv {mode : Mode} (h : Initial mode w) : w.repo.Inv := by
  unfold Initial at h
  split at h
  · rw [h]; exact HeroMemoryRepository.Inv.new
  · rcases h with ⟨db, hk, rfl⟩
    exact hk

end World
end TemplateAxum
