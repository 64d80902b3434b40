import Mathlib
import TemplateAxum.Writes

/-!
# Versions of a record

Writes of concurrent calls, with their clock readings. The in-memory repository reads the clock while
it holds the lock, so its versions are stamped in the order in which they are made. A method of the
other repository reads the clock and then runs its statement, and two calls may do the second in
another order than the first. The clock counts nanoseconds; the columns and the tags keep microseconds.
`versions_iff` says that `updated_at` and the tag then tell the versions of a record apart exactly when
they are stamped in later and later microseconds.
-/

namespace TemplateAxum

open HeroMemory HeroSeaOrm

/-- A version of a record, and the number of the clock reading that it is stamped with. -/
structure HeroVersion where
  read : Nat
  row : Model

def Increasing (log : List HeroVersion) : Prop :=
  log.Pairwise fun v w => v.row.id = w.row.id → v.row.updatedAt < w.row.updatedAt

/-- `updated_at` only goes forward in a log of versions, and the table shows the latest ones. -/
structure UpdatedAtOrdered (log : List HeroVersion) (table : Table) : Prop where
  increasing : Increasing log
  created : ∀ v ∈ log, v.row.createdAt ≤ v.row.updatedAt
  latest : ∀ id row, table.get? id = some row → row ∈ log.map HeroVersion.row ∧
    ∀ v ∈ log, v.row.id = id → v.row.updatedAt ≤ row.updatedAt

/-- And the tag identifies a version. -/
structure VersionsOrdered {Tag : Type} (recordEtag : Int32 → DateTime → Tag) (log : List HeroVersion)
    (table : Table) : Prop extends UpdatedAtOrdered log table where
  tags : log.Pairwise fun v w =>
    v.row.id = w.row.id → recordEtag v.row.id v.row.updatedAt ≠ recordEtag w.row.id w.row.updatedAt

variable [Lowercase] (clock : Nat → DateTime)

omit [Lowercase] in
/-- Of two versions of a record, the one that is committed later is stamped in a later microsecond. -/
def InOrder (log : List HeroVersion) : Prop :=
  log.Pairwise fun v w => v.row.id = w.row.id → (clock v.read).micros < (clock w.read).micros

/-- A call that has read the clock and not run its statement. -/
structure Call where
  op : WriteOp
  read : Nat

/-- The table, the number of clock readings so far, the calls under way, and the versions so far, of all
records, as they were committed. -/
structure SeaOrmState where
  db : Table
  reads : Nat
  calls : List Call
  log : List HeroVersion

/-- A call reads the clock, runs its statement, or fails. -/
inductive SeaOrmState.Step (s : SeaOrmState) : SeaOrmState → Prop
  | start (op : WriteOp) : Step s { s with reads := s.reads + 1, calls := s.calls ++ [⟨op, s.reads⟩] }
  | commit (front : List Call) {back : List Call} {call : Call} (hcalls : s.calls = front ++ call :: back)
      (returning : RowOrder) (newId : Int32) {answer : WriteAnswer} {db : Table}
      (hrun : call.op.seaOrm returning (clock call.read).micros newId s.db = some (answer, db)) :
      Step s { s with
        db := db, calls := front ++ back, log := s.log ++ (call.op.written answer db).map fun row => ⟨call.read, row⟩ }
  | fail {front back : List Call} {call : Call} (hcalls : s.calls = front ++ call :: back) :
      Step s { s with calls := front ++ back }

def SeaOrmState.Reachable : SeaOrmState → Prop :=
  Relation.ReflTransGen (SeaOrmState.Step clock) ⟨.empty, 0, [], []⟩

structure MemoryState where
  repo : HeroMemoryRepository
  reads : Nat
  log : List HeroVersion

/-- The number of clock readings of a write. -/
def WriteOp.readings : WriteOp → WriteAnswer → Nat
  | .updateMany .., .heroes heroes => heroes.length
  | .delete .., _ => 2
  | _, _ => 1

/-- The one of them that the `n`-th row it reports is stamped with. -/
def WriteOp.readingAt : WriteOp → Nat → Nat
  | .updateMany .., n => n
  | .delete .., _ => 1
  | _, _ => 0

/-- A call takes the lock, reads the clock and writes; in between others may read the clock. -/
inductive MemoryState.Step (s : MemoryState) : MemoryState → Prop
  | write {op : WriteOp} {answer : WriteAnswer} {repo : HeroMemoryRepository} {reads : Nat}
      (hrun : op.memory (fun n => clock (s.reads + n)) s.repo = some (answer, repo))
      (hreads : s.reads + op.readings answer ≤ reads) :
      Step s ⟨repo, reads, s.log ++ (op.written answer repo.records).mapIdx fun n row => ⟨s.reads + op.readingAt n, row⟩⟩

def MemoryState.Reachable : MemoryState → Prop :=
  Relation.ReflTransGen (MemoryState.Step clock) ⟨.new, 0, []⟩

/-! ### Stamps -/

namespace WriteOp

omit [Lowercase] in
theorem distinct_reported {table : Table} (hk : table.Keyed) (c : Change) :
    (c.reported table).Pairwise fun a b => a.id ≠ b.id := by
  cases c with
  | insert row => exact List.pairwise_singleton ..
  | revise r =>
    exact (Revision.pairwise_id_changed hk).imp fun {a b} hab heq => by simp [heq] at hab

theorem updatedAt_seaOrm {table : Table} {now : DateTime} {newId : Int32} {op : WriteOp} {row : Model}
    (hrow : row ∈ (op.seaOrmChange now newId).reported table) : row.updatedAt = now := by
  cases op with
  | create ownerId data => rw [List.mem_singleton.1 hrow]; rfl
  | _ => obtain ⟨_, _, _, _, rfl⟩ := Revision.mem_changed.1 hrow; rfl

theorem updatedAt_memory {repo : HeroMemoryRepository} (hk : repo.records.Keyed) {now : Nat → DateTime}
    {op : WriteOp} {n : Nat} {row : Model} (hrow : ((op.memoryChange now repo).reported repo.records)[n]? = some row) :
    row.updatedAt = now (op.readingAt n) := by
  have hmem := List.mem_of_getElem? hrow
  cases op with
  | create ownerId data => rw [List.mem_singleton.1 hmem]; rfl
  | updateMany filters data =>
    have hupdated : (repo.updateMany now filters data).1[n]? = some row := by
      rw [HeroMemoryRepository.updateMany_eq hk]
      exact hrow
    exact HeroMemoryRepository.updatedAt_updateMany hupdated
  | _ => obtain ⟨_, _, _, _, rfl⟩ := Revision.mem_changed.1 hmem; rfl

omit [Lowercase] in
theorem readingAt_lt {rows : List Model} {n : Nat} (hn : n < rows.length) (op : WriteOp) :
    op.readingAt n < op.readings (op.answer rows) := by
  cases op with
  | updateMany filters data => exact hn
  | delete id ownerId => exact Nat.one_lt_two
  | _ => exact Nat.zero_lt_one

omit [Lowercase] in
/-- A row that is inserted is as new as its last change. -/
theorem createdAt_of_insert {chooses : List FilterClause → Model → Bool} {newId : Int32} {stamps : Stamps} {op : WriteOp}
    {row : Model} (h : op.change chooses newId stamps = .insert row) : row.createdAt = row.updatedAt := by
  cases op with
  | create ownerId data => cases h; rfl
  | _ => cases h

end WriteOp

/-! ### Logs -/

omit [Lowercase]

theorem map_row_mapIdx (rows : List Model) (read : Nat → Nat) :
    (rows.mapIdx fun n row => (⟨read n, row⟩ : HeroVersion)).map HeroVersion.row = rows := by
  refine List.ext_getElem? fun i => ?_
  rw [List.getElem?_map, List.getElem?_mapIdx, Option.map_map]
  exact Option.map_id'

variable {clock} {Tag : Type} {recordEtag : Int32 → DateTime → Tag}

/-- What holds of a log of versions and the table they leave, whatever the order of their stamps; the last two
when the stamps increase. -/
structure Logged (stamp : Nat → DateTime) (log : List HeroVersion) (table : Table) : Prop where
  keyed : table.Keyed
  stamped : ∀ v ∈ log, v.row.updatedAt = stamp v.read
  current : ∀ id row, table.get? id = some row → row ∈ log.map HeroVersion.row
  created : Increasing log → ∀ v ∈ log, v.row.createdAt ≤ v.row.updatedAt
  latest : Increasing log → ∀ id row, table.get? id = some row → ∀ v ∈ log, v.row.id = id → v.row.updatedAt ≤ row.updatedAt

namespace Logged

variable {stamp : Nat → DateTime} {log : List HeroVersion} {table : Table}

theorem init : Logged stamp [] .empty where
  keyed _ _ h := by cases h
  stamped _ h := by cases h
  current _ _ h := by cases h
  created _ _ h := by cases h
  latest _ _ _ h := by cases h

/-- A change whose rows are stamped. -/
theorem commit (h : Logged stamp log table) {c : Change} {added : List HeroVersion}
    (hadded : added.map HeroVersion.row = c.reported table) (hstamp : ∀ v ∈ added, v.row.updatedAt = stamp v.read)
    (hinsert : ∀ row, c = .insert row → row.createdAt = row.updatedAt) :
    Logged stamp (log ++ added) (c.run table) where
  keyed := Change.keyed_run h.keyed
  stamped v hv := (List.mem_append.1 hv).elim (h.stamped v) (hstamp v)
  current id row hrow := by
    rw [List.map_append, List.mem_append, hadded]
    exact (Change.get?_run_eq_or_reported hrow).imp_left (h.current id row)
  created hinc v hv := by
    obtain ⟨hold, -, hcross⟩ := List.pairwise_append.1 hinc
    rcases List.mem_append.1 hv with hv | hv
    · exact h.created hold v hv
    · rcases Change.reported_cases (hadded ▸ List.mem_map_of_mem hv) with hins | ⟨id, old, hrow, hsame⟩
      · exact (hinsert v.row hins).le
      · -- the version before it was stamped earlier
        obtain ⟨w, hw, rfl⟩ := List.mem_map.1 (h.current id old hrow)
        rw [hsame.createdAt]
        exact (h.created hold w hw).trans (hcross w hw v hv hsame.id.symm).le
  latest hinc id row hrow v hv hid := by
    obtain ⟨hold, -, hcross⟩ := List.pairwise_append.1 hinc
    rcases List.mem_append.1 hv with hv | hv
    · rcases Change.get?_run_eq_or_reported hrow with hkept | hnew
      · exact h.latest hold id row hkept v hv hid
      · obtain ⟨w, hw, rfl⟩ := List.mem_map.1 (hadded ▸ hnew)
        exact (hcross v hv w hw (hid.trans (Change.keyed_run h.keyed id _ hrow).symm)).le
    · have hv' := Change.get?_run_of_reported h.keyed (hadded ▸ List.mem_map_of_mem hv)
      rw [hid, hrow] at hv'
      rw [Option.some.inj hv']

theorem updatedAtOrdered (h : Logged stamp log table) (hinc : Increasing log) : UpdatedAtOrdered log table where
  increasing := hinc
  created := h.created hinc
  latest id row hrow := ⟨h.current id row hrow, h.latest hinc id row hrow⟩

theorem versionsOrdered_iff (h : Logged stamp log table) (hstamp : ∀ n, (stamp n).micros = (clock n).micros)
    (hetag : ∀ id t t', recordEtag id t = recordEtag id t' ↔ t.micros = t'.micros) :
    VersionsOrdered recordEtag log table ↔ InOrder clock log := by
  have hmicros : ∀ v ∈ log, v.row.updatedAt.micros = (clock v.read).micros := fun v hv => by rw [h.stamped v hv, hstamp]
  constructor
  · rintro ⟨hordered, htags⟩
    refine (List.Pairwise.and hordered.increasing htags).imp_of_mem fun {v w} hv hw hvw hid => ?_
    rw [← hmicros v hv, ← hmicros w hw]
    refine lt_of_le_of_ne (DateTime.micros_mono (hvw.1 hid).le) fun heq => hvw.2 hid ?_
    rw [hid, hetag]
    exact heq
  · intro horder
    have hlt : log.Pairwise fun v w => v.row.id = w.row.id → v.row.updatedAt.micros < w.row.updatedAt.micros :=
      horder.imp_of_mem fun {v w} hv hw hvw hid => by
        rw [hmicros v hv, hmicros w hw]
        exact hvw hid
    refine ⟨h.updatedAtOrdered (hlt.imp fun {v w} hvw hid => ?_), hlt.imp fun {v w} hvw hid heq => ?_⟩
    · exact lt_of_not_ge fun hge => absurd (hvw hid) (not_lt_of_ge (DateTime.micros_mono hge))
    · rw [hid] at heq
      exact absurd ((hetag _ _ _).1 heq) (hvw hid).ne

end Logged

variable [Lowercase]

/-! ### The Postgres repository -/

theorem SeaOrmState.Reachable.logged {s : SeaOrmState} (h : SeaOrmState.Reachable clock s) :
    Logged (fun n => (clock n).micros) s.log s.db := by
  induction h with
  | refl => exact .init
  | tail _ hstep ih =>
    cases hstep with
    | start op => exact ih
    | fail hcalls => exact ih
    | @commit front back call hcalls returning newId answer db hrun =>
      rw [WriteOp.seaOrm_eq ih.keyed] at hrun
      split at hrun
      · cases hrun
      · cases hrun
        rw [WriteOp.seaOrmChange, WriteOp.written_answer ih.keyed, ← WriteOp.seaOrmChange]
        refine ih.commit (by simp [Function.comp_def]) (fun v hv => ?_) fun row hins => WriteOp.createdAt_of_insert hins
        obtain ⟨row, hrow, rfl⟩ := List.mem_map.1 hv
        exact WriteOp.updatedAt_seaOrm hrow

/-! ### The in-memory repository -/

/-- What holds in every reachable state. -/
structure MemoryState.Inv (clock : Nat → DateTime) (s : MemoryState) : Prop where
  repo : s.repo.Inv
  logged : Logged clock s.log s.repo.records
  reads : ∀ v ∈ s.log, v.read < s.reads
  order : s.log.Pairwise fun v w => v.row.id = w.row.id → v.read < w.read

theorem MemoryState.Inv.step {s s' : MemoryState} (h : s.Inv clock) (hstep : MemoryState.Step clock s s') :
    s'.Inv clock := by
  obtain @⟨op, answer, repo', reads, hrun, hreads⟩ := hstep
  have hrepo := h.repo.step hrun
  have hk := h.repo.keyed
  rw [op.memory_eq hk] at hrun
  split at hrun
  · cases hrun
  cases hrun
  simp only [WriteOp.memoryChange, WriteOp.written_answer hk]
  rw [← WriteOp.memoryChange]
  -- the new versions carry readings from `s.reads` on
  have hnew : ∀ v ∈ ((op.memoryChange (fun n => clock (s.reads + n)) s.repo).reported s.repo.records).mapIdx
      (fun n row => (⟨s.reads + op.readingAt n, row⟩ : HeroVersion)),
      s.reads ≤ v.read ∧ v.read < reads ∧ v.row.updatedAt = clock v.read := by
    intro v hv
    obtain ⟨n, hn, rfl⟩ := List.exists_of_mem_mapIdx hv
    have hlt := op.readingAt_lt hn
    exact ⟨Nat.le_add_right .., (Nat.add_lt_add_left hlt _).trans_le hreads, WriteOp.updatedAt_memory hk (List.getElem?_eq_getElem hn)⟩
  have hrows := map_row_mapIdx ((op.memoryChange (fun n => clock (s.reads + n)) s.repo).reported s.repo.records)
    fun n => s.reads + op.readingAt n
  refine ⟨hrepo, h.logged.commit hrows (fun v hv => (hnew v hv).2.2)
    fun row hins => WriteOp.createdAt_of_insert hins, fun v hv => ?_, ?_⟩
  · rcases List.mem_append.1 hv with hv | hv
    · exact (h.reads v hv).trans_le ((Nat.le_add_right ..).trans hreads)
    · exact (hnew v hv).2.1
  · refine List.pairwise_append.2 ⟨h.order, ?_, fun v hv w hw _ => (h.reads v hv).trans_le (hnew w hw).1⟩
    have hdistinct := WriteOp.distinct_reported hk (op.memoryChange (fun n => clock (s.reads + n)) s.repo)
    rw [← hrows, List.pairwise_map] at hdistinct
    exact hdistinct.imp fun hne heq => absurd heq hne

theorem MemoryState.Reachable.inv {s : MemoryState} (h : MemoryState.Reachable clock s) : s.Inv clock := by
  induction h with
  | refl => exact ⟨.new, .init, fun v hv => absurd hv List.not_mem_nil, .nil⟩
  | tail _ hstep ih => exact ih.step hstep

omit [Lowercase] in
theorem MemoryState.Inv.increasing (hclock : StrictMono clock) {s : MemoryState} (h : s.Inv clock) : Increasing s.log :=
  h.order.imp_of_mem fun {v w} hv hw hvw hid => by
    rw [h.logged.stamped v hv, h.logged.stamped w hw]
    exact hclock (hvw hid)

/-! ### Both -/

/-- In every run `updated_at` goes forward in the in-memory repository. There and in the other one it and the tag
identify the versions of each record exactly when they are stamped in later and later microseconds. -/
theorem versions_iff (hclock : StrictMono clock)
    (hetag : ∀ id t t', recordEtag id t = recordEtag id t' ↔ t.micros = t'.micros) :
    (∀ s, MemoryState.Reachable clock s → UpdatedAtOrdered s.log s.repo.records ∧
        (VersionsOrdered recordEtag s.log s.repo.records ↔ InOrder clock s.log)) ∧
      ∀ s, SeaOrmState.Reachable clock s → (VersionsOrdered recordEtag s.log s.db ↔ InOrder clock s.log) := by
  refine ⟨fun s hs => ?_, fun s hs => hs.logged.versionsOrdered_iff (fun n => DateTime.micros_micros _) hetag⟩
  have h := hs.inv
  exact ⟨h.logged.updatedAtOrdered (h.increasing hclock), h.logged.versionsOrdered_iff (fun _ => rfl) hetag⟩

omit [Lowercase] in
theorem versions_iff_pairs :
    (∀ s, @MemoryState.Reachable .ascii (fun n => (n : Int)) s → UpdatedAtOrdered s.log s.repo.records ∧
        (VersionsOrdered (fun id t => (id, DateTime.micros t)) s.log s.repo.records ↔ InOrder (fun n => (n : Int)) s.log)) ∧
      ∀ s, @SeaOrmState.Reachable .ascii (fun n => (n : Int)) s →
        (VersionsOrdered (fun id t => (id, DateTime.micros t)) s.log s.db ↔ InOrder (fun n => (n : Int)) s.log) := by
  let _ := Lowercase.ascii
  exact versions_iff (fun _ _ h => Int.ofNat_lt.2 h) fun id t t' => ⟨fun h => (Prod.mk.inj h).2, fun h => by rw [h]⟩

omit [Lowercase] in
/-- Two updates that commit in the other order than they read the clock. -/
theorem not_versionsOrdered_overtaking :
    ∃ s, @SeaOrmState.Reachable .ascii (fun n => 1000 * (n : Int)) s ∧
      ¬ VersionsOrdered (fun id t => (id, DateTime.micros t)) s.log s.db := by
  let _ := Lowercase.ascii
  let create : WriteOp := .create "alice" ⟨"Spectra", [], none⟩
  let first : WriteOp := .update 1 "alice" ⟨none, none, some 1⟩
  let second : WriteOp := .update 1 "alice" ⟨none, none, some 2⟩
  have h₀ : SeaOrmState.Reachable (fun n => 1000 * (n : Int)) _ := .refl
  have h₁ := h₀.tail (.start create)
  have h₂ := h₁.tail (.commit [] rfl .asListed 1 rfl)
  have h₃ := (h₂.tail (.start first)).tail (.start second)
  have h₄ := h₃.tail (.commit [⟨first, 1⟩] rfl .asListed 0 rfl)
  have h₅ := h₄.tail (.commit [] rfl .asListed 0 rfl)
  exact ⟨_, h₅, fun h => absurd h.increasing (by unfold Increasing; decide)⟩

end TemplateAxum
