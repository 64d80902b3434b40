import TemplateAxum.WriteSim
import TemplateAxum.World

/-!
# One repository for the other

Whole runs of the `Repository` trait, reads and writes, on both implementations side by side. The database
may order ties and the rows of a `RETURNING` as it likes; where every call is settled (its clauses mean the
same in both, and its sort list orders all rows by values that are there) this freedom is never seen, and
the replies of a run are those of the in-memory repository. That is so of calls that the database takes (it
refuses a text with a NUL in it), where it compares texts as the collation C does, and of instants in whole
microseconds: the columns keep no more of them.
-/

open Std StableSort Sql

namespace TemplateAxum

open HeroMemory HeroSeaOrm

/-! ### Sort lists that leave nothing open -/

namespace ListOptions

/-- The sort list in effect: both repositories fall back to the id. -/
def clauses (opts : ListOptions) : List SortClause := if opts.sort.isEmpty then [⟨"id", false⟩] else opts.sort

/-- Archived and live rows are listed together. -/
def mixed (opts : ListOptions) : Bool := opts.includeArchived && !opts.onlyArchived

/-- The clause never compares a value with NULL: a power level may be missing, and `archived_at` is in some rows
of a mixed listing only. -/
def NullBlind (opts : ListOptions) (clause : SortClause) : Prop :=
  clause.field ≠ "power_level" ∧ (clause.field = "archived_at" → opts.mixed = false)

/-- The rows are ordered by their ids in the end, and by no NULL before that. -/
def Ordered (opts : ListOptions) : Prop :=
  ∃ front clause back, opts.clauses = front ++ clause :: back ∧ clause.field = "id" ∧ ∀ c ∈ front, opts.NullBlind c

theorem ordered_of_no_sort {opts : ListOptions} (h : opts.sort = []) : opts.Ordered :=
  ⟨[], ⟨"id", false⟩, [], by rw [clauses, h]; rfl, rfl, fun c hc => absurd hc List.not_mem_nil⟩

end ListOptions

/-- Every row has a name. -/
def Table.Named (table : Table) : Prop := ∀ id row, table.get? id = some row → row.name.isSome = true

variable [Lowercase] {opts : ListOptions} {repo : HeroMemoryRepository}

theorem HeroMemoryRepository.ordered_eq (opts : ListOptions) (repo : HeroMemoryRepository) :
    repo.ordered opts = HeroMemory.applySort (repo.matching opts) opts.clauses := by
  unfold HeroMemoryRepository.ordered ListOptions.clauses
  split
  · rfl
  · rfl

theorem HeroSeaOrmRepository.orderBy_eq (opts : ListOptions) :
    (HeroSeaOrmRepository.list opts).orderBy = HeroSeaOrm.applySort opts.clauses := by
  show (if opts.sort.isEmpty then [(Column.id, Order.asc)] else HeroSeaOrm.applySort opts.sort) = _
  unfold ListOptions.clauses
  split
  · rfl
  · rfl

omit [Lowercase] in
theorem Table.Keyed.eq_of_id {table : Table} (hk : table.Keyed) {a b : Model} (ha : a ∈ table.values)
    (hb : b ∈ table.values) (h : a.id = b.id) : a = b := by
  obtain ⟨k, hka⟩ := OrdMap.mem_values.1 ha
  obtain ⟨k', hkb⟩ := OrdMap.mem_values.1 hb
  rw [← hk k a hka, h, hk k' b hkb] at hka
  exact Option.some.inj (hka.symm.trans hkb)

omit [Lowercase] in
/-- Rows are told apart by their ids. -/
theorem eq_of_fieldCmp_id {table : Table} (hk : table.Keyed) {a b : Model} (ha : a ∈ table.values)
    (hb : b ∈ table.values) {clause : SortClause} (hid : clause.field = "id") (h : fieldCmp a b clause.field = .eq) :
    a = b := by
  rw [hid] at h
  have hcompare : compare a.id b.id = .eq := h
  exact hk.eq_of_id ha hb (LawfulEqCmp.eq_of_compare hcompare)

omit [Lowercase] in
/-- Rows that are listed together are both NULL in a field that is compared, or neither is. -/
theorem ListOptions.NullBlind.isNullAt {clause : SortClause} (h : opts.NullBlind clause) {a b : Model}
    (hname : a.name.isSome = true ∧ b.name.isSome = true)
    (ha : visible a opts.includeArchived opts.onlyArchived = true)
    (hb : visible b opts.includeArchived opts.onlyArchived = true) :
    a.isNullAt clause.field = b.isNullAt clause.field := by
  obtain ⟨hpower, harchived⟩ := h
  unfold Model.isNullAt columnFor
  split
  · rfl
  · simp [cell, Value.isNull, Option.isNone_eq_false_iff.2 hname.1, Option.isNone_eq_false_iff.2 hname.2]
  · rename_i hfield
    exact absurd hfield hpower
  · rfl
  · rename_i hfield
    have hscope := harchived hfield
    unfold ListOptions.mixed at hscope
    unfold visible at ha hb
    cases honly : opts.onlyArchived with
    | true =>
      simp only [honly, if_true] at ha hb
      simp [cell, Value.isNull, Option.isNone_eq_false_iff.2 ha, Option.isNone_eq_false_iff.2 hb]
    | false =>
      simp only [honly, Bool.not_false, Bool.and_true] at hscope
      simp only [honly, hscope, Bool.false_eq_true, if_false, Bool.false_or] at ha hb
      simp [cell, Value.isNull, ha, hb]
  · rfl
  · rfl
  · rfl

section Listing

variable (hk : repo.records.Keyed) (hnamed : repo.records.Named) (hordered : opts.Ordered)
include hk hnamed hordered

theorem nullFree_of_ordered {a b : Model} (ha : a ∈ repo.matching opts) (hb : b ∈ repo.matching opts) :
    NullFree a b opts.clauses := by
  obtain ⟨front, clause, back, hsort, hid, hfront⟩ := hordered
  obtain ⟨hva, hca⟩ := List.mem_filter.1 ha
  obtain ⟨hvb, hcb⟩ := List.mem_filter.1 hb
  have named : ∀ row ∈ repo.records.values, row.name.isSome = true := fun row hrow => by
    obtain ⟨k, hkrow⟩ := OrdMap.mem_values.1 hrow
    exact hnamed k row hkrow
  rw [hsort]
  clear hsort
  induction front with
  | nil =>
    rw [List.nil_append, NullFree]
    split
    · rename_i heq
      rw [eq_of_fieldCmp_id hk hva hvb hid heq]
      -- a row is compared with itself
      clear heq
      induction back with
      | nil => trivial
      | cons c back ih =>
        rw [NullFree]
        split
        · exact ih
        · rfl
    · rw [hid]
      rfl
  | cons c front ih =>
    rw [List.cons_append, NullFree]
    split
    · exact ih fun c hc => hfront c (List.mem_cons_of_mem _ hc)
    · exact (hfront c List.mem_cons_self).isNullAt ⟨named a hva, named b hvb⟩ (Bool.and_eq_true_iff.1 hca).1
        (Bool.and_eq_true_iff.1 hcb).1

omit hnamed in
theorem eq_of_tie {a b : Model} (ha : a ∈ repo.matching opts) (hb : b ∈ repo.matching opts)
    (h : lexCmp clauseCmp opts.clauses a b = .eq) : a = b := by
  obtain ⟨front, clause, back, hsort, hid, -⟩ := hordered
  have hclause : clause ∈ opts.clauses := by
    rw [hsort]
    exact List.mem_append_right _ List.mem_cons_self
  exact eq_of_fieldCmp_id hk (List.mem_filter.1 ha).1 (List.mem_filter.1 hb).1 hid (tie_iff.2 h clause hclause)

/-- There is one answer, and it is the one of the in-memory repository. -/
theorem answers_list_iff (hagree : ∀ clause ∈ opts.filters, clause.Agrees) {heroes : List Model} :
    (HeroSeaOrmRepository.list opts).Answers repo.records heroes ↔ heroes = repo.list opts := by
  have hrows : (HeroSeaOrmRepository.list opts).rows repo.records = repo.matching opts := by
    rw [rows_list, HeroSeaOrmRepository.matching, HeroMemoryRepository.matching]
    simp only [filtersAgree_of_agrees hagree _]
  have hperm : (repo.ordered opts).Perm (repo.matching opts) := repo.ordered_perm opts
  have htrans : TransCmp (lexCmp orderCmp (HeroSeaOrm.applySort opts.clauses)) := lexCmp.transCmp orderCmp _
  -- the in-memory order is strict for the comparison of the `ORDER BY`
  have hstrict : (repo.ordered opts).Pairwise fun a b =>
      lexCmp orderCmp (HeroSeaOrm.applySort opts.clauses) a b = .lt := by
    have hsorted : Sorted (lexCmp clauseCmp opts.clauses) (repo.ordered opts) := by
      rw [HeroMemoryRepository.ordered_eq, HeroMemory.applySort_eq]
      exact sorted_sortBy ..
    have hnodup : (repo.ordered opts).Nodup := hperm.nodup_iff.2 (hk.nodup_values.filter _)
    refine (List.Pairwise.and hsorted hnodup).imp_of_mem fun {a b} ha hb hab => ?_
    have ha' := hperm.mem_iff.1 ha
    have hb' := hperm.mem_iff.1 hb
    rw [(lexCmp_applySort opts.clauses a b).1 (nullFree_of_ordered hk hnamed hordered ha' hb')]
    have hne : lexCmp clauseCmp opts.clauses a b ≠ .eq := fun heq => hab.2 (eq_of_tie hk hordered ha' hb' heq)
    have hle := hab.1
    revert hne hle
    cases lexCmp clauseCmp opts.clauses a b <;> simp
  unfold Select.Answers
  rw [HeroSeaOrmRepository.orderBy_eq, hrows, repo.list_eq]
  constructor
  · rintro ⟨out, hout, rfl⟩
    rw [eq_of_perm_of_strict (hout.perm.trans hperm.symm) hout.sorted hstrict]
    rfl
  · rintro rfl
    exact ⟨repo.ordered opts, ⟨hperm, hstrict.imp fun {a b} hab => by simp [hab]⟩, rfl⟩

end Listing

theorem seaOrm_get_eq (hk : repo.records.Keyed) (id : Int32) (includeArchived : Bool) :
    HeroSeaOrmRepository.get id includeArchived repo.records = repo.get id includeArchived := by
  have hwhere : whereHolds (HeroSeaOrmRepository.eqId id :: if includeArchived then [] else [.isNull .archivedAt]) =
      fun row => row.id == id && (includeArchived || row.archivedAt.isNone) := funext fun row => by
    cases includeArchived <;> simp [Model.live]
  rw [HeroSeaOrmRepository.get, hwhere, OrdMap.filter_values_of_key (k := id), HeroMemoryRepository.get]
  · cases hrow : repo.records.get? id with
    | none => rfl
    | some row =>
      have hid : (row.id == id) = true := beq_iff_eq.2 (hk id row hrow)
      simp only [Option.filter_some, hid, Bool.true_and]
      split
      · rfl
      · rfl
  · intro e he hsel
    have hget := OrdMap.get?_eq_some_iff.2 he
    rw [← hk e.1 e.2 hget]
    exact beq_iff_eq.1 (Bool.and_eq_true_iff.1 hsel).1

theorem seaOrm_count_eq {filters : List FilterClause} (hagree : ∀ clause ∈ filters, clause.Agrees)
    (includeArchived onlyArchived : Bool) :
    HeroSeaOrmRepository.count filters includeArchived onlyArchived repo.records =
      repo.count filters includeArchived onlyArchived :=
  (sameRows_of_filtersAgree (filtersAgree_of_agrees hagree)).counted repo includeArchived onlyArchived

/-! ### What the database keeps of a call -/

namespace HeroSeaOrm

omit [Lowercase] in
/-- The key comparison of `ORDER BY`, where `collation` compares the texts. -/
def orderCmpIn (collation : String → String → Ordering) (key : Column × Order) (a b : Model) : Ordering :=
  match cell key.1 a, cell key.1 b with
  | .string x, .string y => if key.2 = .asc then asc collation x y else (asc collation x y).swap
  | _, _ => orderCmp key a b

omit [Lowercase] in
theorem orderCmpIn_compare : orderCmpIn compare = orderCmp := by
  funext key a b
  unfold orderCmpIn
  split
  · rename_i x y hx hy
    unfold orderCmp
    rw [hx, hy]
    cases key.2 <;> rfl
  · rfl

omit [Lowercase] in
/-- The values that a condition binds. -/
def SimpleExpr.binds : SimpleExpr → List Value
  | .binary _ _ value => [value]
  | .isIn _ values => values
  | .like _ pattern | .lowerLike _ pattern => [.string (some pattern)]
  | _ => []

end HeroSeaOrm

omit [Lowercase] in
/-- A value as a `timestamp` parameter carries it. -/
def FilterValue.bound : FilterValue → FilterValue
  | .dateTime v => .dateTime v.micros
  | .list values => .list (values.map fun | .dateTime v => .dateTime v.micros | value => value)
  | value => value

omit [Lowercase] in
def FilterClause.bound (clause : FilterClause) : FilterClause := { clause with value := clause.value.bound }

def boundTexts (filters : List FilterClause) : List String :=
  (applyFilters filters).flatMap fun condition => condition.binds.filterMap Value.text?

omit [Lowercase] in
def HeroUpdate.texts (data : HeroUpdate) : List String := data.name.toList ++ data.powers.getD []

namespace WriteOp

omit [Lowercase] in
def bound : WriteOp → WriteOp
  | updateMany filters data => updateMany (filters.map FilterClause.bound) data
  | deleteMany filters includeUnpublished => deleteMany (filters.map FilterClause.bound) includeUnpublished
  | op => op

/-- The texts that its statement binds. -/
def texts : WriteOp → List String
  | create ownerId data => ownerId :: data.name :: data.powers
  | update _ ownerId data => ownerId :: data.texts
  | updateMany filters data => data.texts ++ boundTexts filters
  | delete _ ownerId => [ownerId]
  | deleteMany filters _ => boundTexts filters

end WriteOp

namespace RepoCall

omit [Lowercase] in
/-- A call as its statement carries it. -/
def bound : RepoCall → RepoCall
  | list opts => list { opts with filters := opts.filters.map FilterClause.bound }
  | count filters includeArchived onlyArchived => count (filters.map FilterClause.bound) includeArchived onlyArchived
  | write op => write op.bound
  | call => call

def texts : RepoCall → List String
  | get .. => []
  | list opts => boundTexts opts.filters
  | count filters .. => boundTexts filters
  | write op => op.texts

end RepoCall

/-- A Postgres server: how it compares texts, and which calls it takes; none that binds a text with a NUL. -/
structure Postgres where
  collation : String → String → Ordering
  takes : RepoCall → Prop
  takes_texts : ∀ call, takes call → ∀ text ∈ call.texts, Char.ofNat 0 ∉ text.toList

/-- One with the collation C, which refuses no more than that. -/
def Postgres.collationC : Postgres := ⟨compare, fun call => ∀ text ∈ call.texts, Char.ofNat 0 ∉ text.toList, fun _ h => h⟩

/-- The answers it may give to a `SELECT`. -/
def Select.AnswersIn (pg : Postgres) (query : Select) (db : Table) (answer : List Model) : Prop :=
  Sql.Answer (lexCmp (orderCmpIn pg.collation) query.orderBy) query.offset query.limit (query.rows db) answer

/-! ### One call -/

/-- What a call is answered when it does not fail. -/
inductive Reply
  | wrote (answer : WriteAnswer)
  | found (hero : Option Model)
  | listed (heroes : List Model)
  | counted (n : Nat)

namespace RepoCall

omit [Lowercase] in
def isCreate : RepoCall → Bool
  | write op => op.isCreate
  | _ => false

/-- On `HeroMemoryRepository`, whose clock stands still meanwhile; `none` is the panic of `create`. -/
def memory (now : DateTime) (repo : HeroMemoryRepository) : RepoCall → Option (Reply × HeroMemoryRepository)
  | get id includeArchived => some (.found (repo.get id includeArchived), repo)
  | list opts => some (.listed (repo.list opts), repo)
  | count filters includeArchived onlyArchived => some (.counted (repo.count filters includeArchived onlyArchived), repo)
  | write op => (op.memory (fun _ => now) repo).map fun (answer, repo) => (.wrote answer, repo)

/-- The statement of a call: the replies the database may give, and what it leaves. -/
def Statement (pg : Postgres) (now : DateTime) (newId : Int32) (db : Table) : RepoCall → Reply → Table → Prop
  | get id includeArchived, reply, db' => reply = .found (HeroSeaOrmRepository.get id includeArchived db) ∧ db' = db
  | list opts, reply, db' =>
    ∃ heroes, (HeroSeaOrmRepository.list opts).AnswersIn pg db heroes ∧ reply = .listed heroes ∧ db' = db
  | count filters includeArchived onlyArchived, reply, db' =>
    reply = .counted (HeroSeaOrmRepository.count filters includeArchived onlyArchived db) ∧ db' = db
  | write op, reply, db' => ∃ returning answer, op.seaOrm returning now newId db = some (answer, db') ∧ reply = .wrote answer

/-- On `HeroSeaOrmRepository`, when the call does not fail. -/
def SeaOrm (pg : Postgres) (now : DateTime) (newId : Int32) (db : Table) (call : RepoCall) (reply : Reply) (db' : Table) : Prop :=
  pg.takes call ∧ call.bound.Statement pg now.micros newId db reply db'

/-- Its clauses mean the same in both repositories, and its sort list leaves nothing open. -/
def Settled : RepoCall → Prop
  | get .. => True
  | list opts => (∀ clause ∈ opts.filters, clause.Agrees) ∧ opts.Ordered
  | count filters .. => ∀ clause ∈ filters, clause.Agrees
  | write op => ∀ clause ∈ op.filters, clause.Agrees

end RepoCall

/-- A call with its clock instant and the id of the row it may insert. -/
structure Exchange where
  call : RepoCall
  now : DateTime
  newId : Int32

omit [Lowercase] in
/-- Its instants are whole microseconds. -/
def Exchange.Whole (c : Exchange) : Prop := c.now.micros = c.now ∧ c.call.bound = c.call

omit [Lowercase] in
/-- A write does not take a name away. -/
theorem Revision.named_run {r : Revision} {table : Table} (h : table.Named)
    (hr : ∀ row, row.name.isSome = true → (r.revise row).name.isSome = true) : (r.run table).Named := fun id row hrow => by
  rw [Revision.get?_run] at hrow
  obtain ⟨old, hold, rfl⟩ := Option.map_eq_some_iff.1 hrow
  unfold Revision.apply
  split
  · exact hr old (h id old hold)
  · exact h id old hold

omit [Lowercase] in
theorem WriteOp.named_change {op : WriteOp} {table : Table} (h : table.Named) (chooses : List FilterClause → Model → Bool)
    (newId : Int32) (stamps : Stamps) : ((op.change chooses newId stamps).run table).Named := by
  have patched : ∀ (row : Model) (data : HeroUpdate) (stamp : DateTime), row.name.isSome = true →
      (row.patch data stamp).name.isSome = true := fun row data stamp hrow => by
    show (data.name.or row.name).isSome = true
    rw [Option.isSome_or, hrow, Bool.or_true]
  cases op with
  | create ownerId data =>
    intro id row hrow
    rw [change, Change.run, OrdMap.get?_insert] at hrow
    split at hrow
    · cases hrow
      rfl
    · exact h id row hrow
  | update id ownerId data => exact Revision.named_run h fun row hrow => patched row data _ hrow
  | updateMany filters data => exact Revision.named_run h fun row hrow => patched row data _ hrow
  | delete id ownerId => exact Revision.named_run h fun row hrow => hrow
  | deleteMany filters includeUnpublished => exact Revision.named_run h fun row hrow => hrow

namespace Exchange

variable {pg : Postgres}

/-- One call on both repositories: the in-memory one has a reply, which is the only one that the database may give. -/
theorem statement_eq (hcollation : pg.collation = compare) {c : Exchange} (hinv : repo.Inv) (hnamed : repo.records.Named)
    (hid : c.call.isCreate → c.newId = repo.nextId) (hroom : c.call.isCreate → repo.nextId ≠ Int32.maxValue)
    (hsettled : c.call.Settled) :
    ∃ reply repo', c.call.memory c.now repo = some (reply, repo') ∧
      (∀ reply' db', c.call.Statement pg c.now c.newId repo.records reply' db' ↔ reply' = reply ∧ db' = repo'.records) ∧
      repo'.Inv ∧ repo'.records.Named ∧ repo'.nextId = if c.call.isCreate then repo.nextId + 1 else repo.nextId := by
  obtain ⟨call, now, newId⟩ := c
  cases call with
  | get id includeArchived =>
    refine ⟨_, repo, rfl, fun reply' db' => ?_, hinv, hnamed, rfl⟩
    rw [RepoCall.Statement, seaOrm_get_eq hinv.keyed]
  | list opts =>
    refine ⟨_, repo, rfl, fun reply' db' => ?_, hinv, hnamed, rfl⟩
    have hanswers : ∀ heroes, (HeroSeaOrmRepository.list opts).AnswersIn pg repo.records heroes ↔ heroes = repo.list opts := by
      intro heroes
      rw [Select.AnswersIn, hcollation, orderCmpIn_compare]
      exact answers_list_iff hinv.keyed hnamed hsettled.2 hsettled.1
    simp only [RepoCall.Statement, hanswers, exists_eq_left]
  | count filters includeArchived onlyArchived =>
    refine ⟨_, repo, rfl, fun reply' db' => ?_, hinv, hnamed, rfl⟩
    rw [RepoCall.Statement, seaOrm_count_eq hsettled]
  | write op =>
    have both : ∀ returning, ∃ answer repo', op.memory (fun _ => now) repo = some (answer, repo') ∧
        op.seaOrm returning now newId repo.records = some (answer, repo'.records) ∧
        repo'.nextId = if op.isCreate then repo.nextId + 1 else repo.nextId := fun returning => by
      obtain ⟨answer, repo', hmem, hsql, -, hnext⟩ := @Step.simulates _ ⟨op, now, newId, returning⟩ repo hinv hid hroom hsettled
      exact ⟨answer, repo', hmem, hsql, hnext⟩
    obtain ⟨answer, repo', hmem, hsql, hnext⟩ := both .asListed
    refine ⟨.wrote answer, repo', by rw [RepoCall.memory, hmem]; rfl, fun reply' db' => ⟨?_, ?_⟩, hinv.step hmem, ?_, hnext⟩
    · rintro ⟨returning, answer', hans, rfl⟩
      obtain ⟨answer₁, repo₁, hmem₁, hsql₁, -⟩ := both returning
      rw [hmem] at hmem₁
      obtain ⟨rfl, rfl⟩ := Prod.mk.inj (Option.some.inj hmem₁)
      rw [hsql₁] at hans
      obtain ⟨rfl, rfl⟩ := Prod.mk.inj (Option.some.inj hans)
      exact ⟨rfl, rfl⟩
    · rintro ⟨rfl, rfl⟩
      exact ⟨.asListed, answer, hsql, rfl⟩
    · have heq := op.memory_eq hinv.keyed fun _ => now
      rw [hmem] at heq
      split at heq
      · cases heq
      · obtain ⟨-, rfl⟩ := Prod.mk.inj (Option.some.inj heq)
        exact op.named_change hnamed _ _ _

theorem seaOrm_iff {c : Exchange} (htakes : pg.takes c.call) (hwhole : c.Whole) {db : Table} {reply : Reply} {db' : Table} :
    c.call.SeaOrm pg c.now c.newId db reply db' ↔ c.call.Statement pg c.now c.newId db reply db' := by
  rw [RepoCall.SeaOrm, hwhole.1, hwhole.2, and_iff_right htakes]

/-! ### Runs -/

/-- One call after the other; `none` when a create panics. -/
def runMemory : List Exchange → HeroMemoryRepository → Option (List Reply × HeroMemoryRepository)
  | [], repo => some ([], repo)
  | c :: calls, repo =>
    (c.call.memory c.now repo).bind fun (reply, repo) =>
      (runMemory calls repo).map fun (replies, repo) => (reply :: replies, repo)

/-- The runs of the database in which no call fails. -/
inductive RunsSeaOrm (pg : Postgres) : List Exchange → Table → List Reply → Table → Prop
  | nil (db : Table) : RunsSeaOrm pg [] db [] db
  | cons {c : Exchange} {calls : List Exchange} {db db' db'' : Table} {reply : Reply} {replies : List Reply}
      (first : c.call.SeaOrm pg c.now c.newId db reply db') (rest : RunsSeaOrm pg calls db' replies db'') :
      RunsSeaOrm pg (c :: calls) db (reply :: replies) db''

omit [Lowercase] in
/-- The database hands out the ids that `next_id` counts out. -/
def SameIds : List Exchange → Int32 → Prop
  | [], _ => True
  | c :: calls, nextId =>
    if c.call.isCreate then c.newId = nextId ∧ SameIds calls (nextId + 1) else SameIds calls nextId

omit [Lowercase] in
def creates (calls : List Exchange) : Nat := calls.countP fun c => c.call.isCreate

theorem run_eq (hcollation : pg.collation = compare) (calls : List Exchange) (repo : HeroMemoryRepository) (hinv : repo.Inv)
    (hnamed : repo.records.Named) (hids : SameIds calls repo.nextId) (hroom : repo.nextId.toInt + creates calls < 2 ^ 31)
    (hsettled : ∀ c ∈ calls, c.call.Settled ∧ c.Whole ∧ pg.takes c.call) :
    ∃ replies repo', runMemory calls repo = some (replies, repo') ∧
      ∀ replies' db', RunsSeaOrm pg calls repo.records replies' db' ↔ replies' = replies ∧ db' = repo'.records := by
  induction calls generalizing repo with
  | nil =>
    refine ⟨[], repo, rfl, fun replies' db' => ⟨?_, ?_⟩⟩
    · rintro ⟨⟩
      exact ⟨rfl, rfl⟩
    · rintro ⟨rfl, rfl⟩
      exact .nil _
  | cons c calls ih =>
    have hnext : (c.call.isCreate → c.newId = repo.nextId) ∧
        SameIds calls (if c.call.isCreate then repo.nextId + 1 else repo.nextId) := by
      by_cases hc : c.call.isCreate = true
      · rw [SameIds, if_pos hc] at hids
        rw [if_pos hc]
        exact ⟨fun _ => hids.1, hids.2⟩
      · rw [SameIds, if_neg hc] at hids
        rw [if_neg hc]
        exact ⟨fun h => absurd h hc, hids⟩
    have hcreates : creates (c :: calls) = creates calls + if c.call.isCreate then 1 else 0 := List.countP_cons
    have hmax : c.call.isCreate → repo.nextId ≠ Int32.maxValue := fun hc heq => by
      rw [hcreates, if_pos hc, heq] at hroom
      have : Int32.maxValue.toInt = 2 ^ 31 - 1 := by decide
      omega
    obtain ⟨hc, hwhole, htakes⟩ := hsettled c List.mem_cons_self
    obtain ⟨reply, repo₁, hmem, hstatement, hinv₁, hnamed₁, hnext₁⟩ := statement_eq hcollation hinv hnamed hnext.1 hmax hc
    have hsql : ∀ reply' db', c.call.SeaOrm pg c.now c.newId repo.records reply' db' ↔ reply' = reply ∧ db' = repo₁.records :=
      fun reply' db' => (seaOrm_iff htakes hwhole).trans (hstatement reply' db')
    have hroom₁ : repo₁.nextId.toInt + creates calls < 2 ^ 31 := by
      rw [hnext₁]
      by_cases hc : c.call.isCreate = true
      · rw [if_pos hc, HeroMemoryRepository.Inv.toInt_add_one (hmax hc)]
        rw [hcreates, if_pos hc] at hroom
        omega
      · rw [if_neg hc]
        omega
    obtain ⟨replies, repo', hrun, hruns⟩ := ih repo₁ hinv₁ hnamed₁ (hnext₁ ▸ hnext.2) hroom₁ fun c' hc' =>
      hsettled c' (List.mem_cons_of_mem _ hc')
    refine ⟨reply :: replies, repo', by simp only [runMemory, hmem, Option.bind_some, hrun, Option.map_some],
      fun replies' db' => ⟨?_, ?_⟩⟩
    · rintro (_ | ⟨first, rest⟩)
      obtain ⟨rfl, rfl⟩ := (hsql _ _).1 first
      obtain ⟨rfl, rfl⟩ := (hruns _ _).1 rest
      exact ⟨rfl, rfl⟩
    · rintro ⟨rfl, rfl⟩
      exact .cons ((hsql _ _).2 ⟨rfl, rfl⟩) ((hruns _ _).2 ⟨rfl, rfl⟩)

/-- A run that starts with no heroes, of calls that the database takes, with instants in whole microseconds: the
replies of the in-memory repository are those that a database with the collation C gives, and the only ones that
it may give. -/
theorem interchangeable (pg : Postgres) (hcollation : pg.collation = compare) (calls : List Exchange)
    (hids : SameIds calls 1) (hroom : creates calls < 2 ^ 31 - 1)
    (hsettled : ∀ c ∈ calls, c.call.Settled ∧ c.Whole ∧ pg.takes c.call) :
    ∃ replies repo, runMemory calls .new = some (replies, repo) ∧
      ∀ replies' db, RunsSeaOrm pg calls .empty replies' db ↔ replies' = replies ∧ db = repo.records := by
  refine run_eq hcollation calls .new .new (fun id row hrow => by cases hrow) hids ?_ hsettled
  have hone : HeroMemoryRepository.new.nextId.toInt = 1 := by decide
  omega

omit [Lowercase] in
/-- A create, a listing of what is not new by name and id, and a page of what has no archived rows in it. -/
def visits : List Exchange :=
  [⟨.write (.create "alice" ⟨"Spectra", ["light"], none⟩), 10000, 1⟩,
    ⟨.list ⟨0, 20, true, false, [⟨"created_at", .lt, .dateTime 11000⟩], [⟨"name", true⟩, ⟨"id", false⟩]⟩, 11000, 0⟩,
    ⟨.list ⟨0, 20, false, false, [], []⟩, 12000, 0⟩]

omit [Lowercase] in
theorem visits_settled : ∀ c ∈ visits, @RepoCall.Settled .ascii c.call := by
  let _ := Lowercase.ascii
  simp only [visits, List.forall_mem_cons, List.not_mem_nil, false_imp_iff, implies_true, and_true]
  refine ⟨fun clause hc => absurd hc List.not_mem_nil, ⟨fun clause hc => ?_, ?_⟩, fun clause hc => absurd hc List.not_mem_nil,
    ListOptions.ordered_of_no_sort rfl⟩
  · obtain rfl := List.mem_singleton.1 hc
    exact NumericClause.agrees_of_exact (c := .time .createdAt .lt 11000) trivial
  · refine ⟨[⟨"name", true⟩], ⟨"id", false⟩, [], rfl, rfl, fun c hc => ?_⟩
    obtain rfl := List.mem_singleton.1 hc
    exact ⟨by decide, fun h => absurd h (by decide)⟩

omit [Lowercase] in
theorem visits_taken : ∀ c ∈ visits, c.Whole ∧ @Postgres.takes .ascii (@Postgres.collationC .ascii) c.call := by
  let _ := Lowercase.ascii
  have htexts : ∀ c ∈ visits, ∀ text ∈ c.call.texts, Char.ofNat 0 ∉ text.toList := by
    simp only [visits, List.forall_mem_cons, List.not_mem_nil, false_imp_iff, implies_true, and_true]
    exact ⟨by decide, by decide, by decide⟩
  refine fun c hc => ⟨?_, htexts c hc⟩
  simp only [visits, List.mem_cons, List.not_mem_nil, or_false] at hc
  rcases hc with rfl | rfl | rfl <;> exact ⟨rfl, rfl⟩

omit [Lowercase] in
theorem interchangeable_visits :
    ∃ replies repo, @runMemory .ascii visits .new = some (replies, repo) ∧
      ∀ replies' db, @RunsSeaOrm .ascii (@Postgres.collationC .ascii) visits .empty replies' db ↔
        replies' = replies ∧ db = repo.records :=
  @interchangeable .ascii (@Postgres.collationC .ascii) rfl visits ⟨rfl, trivial⟩ (by decide) fun c hc =>
    ⟨visits_settled c hc, visits_taken c hc⟩

end Exchange
end TemplateAxum
