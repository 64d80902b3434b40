import TemplateAxum.Model
import TemplateAxum.Lib.StableSort

/-!
# `HeroMemoryRepository`

The in-memory repository of `Mode::Mock` (`repositories/hero_memory.rs`). A method runs under the
records lock, so it is one step; `now` lists the instants that successive `Utc::now()` calls of
that method return.
-/

open StableSort

namespace TemplateAxum
namespace HeroMemory

/-! ### Filters -/

/-- `compare`: the scalar comparisons; the other operators compare nothing. -/
def compareOp {T : Type} [DecidableEq T] [LT T] [LE T] [DecidableLT T] [DecidableLE T]
    (actual : T) (op : FilterOp) (target : T) : Bool :=
  match op with
  | .eq => actual = target
  | .ne => actual ≠ target
  | .lt => actual < target
  | .lte => actual ≤ target
  | .gt => actual > target
  | .gte => actual ≥ target
  | .in | .contains | .icontains => false

def matchesInt (actual : Int64) (clause : FilterClause) : Bool :=
  if clause.op = .in then
    match clause.value with
    | .list values => values.any fun | .int target => target = actual | _ => false
    | _ => false
  else
    match clause.value with
    | .int target => compareOp actual clause.op target
    | _ => false

def matchesDatetime (actual : DateTime) (clause : FilterClause) : Bool :=
  if clause.op = .in then
    match clause.value with
    | .list values => values.any fun | .dateTime target => target = actual | _ => false
    | _ => false
  else
    match clause.value with
    | .dateTime target => compareOp actual clause.op target
    | _ => false

def matchesStr [Lowercase] (actual : String) (clause : FilterClause) : Bool :=
  match clause.op with
  | .in =>
    match clause.value with
    | .list values => values.any fun | .str target => target = actual | _ => false
    | _ => false
  | .contains =>
    match clause.value with
    | .str target => containsStr actual target
    | _ => false
  | .icontains =>
    match clause.value with
    | .str target => containsStr (toLowercase actual) (toLowercase target)
    | _ => false
  | .eq =>
    match clause.value with
    | .str target => actual = target
    | _ => false
  | .ne =>
    match clause.value with
    | .str target => actual ≠ target
    | _ => false
  | .lt | .lte | .gt | .gte => false

def matchesOne [Lowercase] (hero : Model) (clause : FilterClause) : Bool :=
  match clause.field with
  | "id" => matchesInt hero.id.toInt64 clause
  | "power_level" => hero.powerLevel.any fun v => matchesInt v.toInt64 clause
  | "name" => hero.name.any fun v => matchesStr v clause
  | "owner_id" => matchesStr hero.ownerId clause
  | "created_at" => matchesDatetime hero.createdAt clause
  | "updated_at" => matchesDatetime hero.updatedAt clause
  | "archived_at" => hero.archivedAt.any fun v => matchesDatetime v clause
  -- an unrecognized field never matches
  | _ => false

def matchesAll [Lowercase] (hero : Model) (filters : List FilterClause) : Bool :=
  filters.all fun clause => matchesOne hero clause

/-! ### Sorting and visibility -/

def fieldCmp (a b : Model) (field : String) : Ordering :=
  match field with
  | "id" => compare a.id b.id
  | "power_level" => compare a.powerLevel b.powerLevel
  | "name" => compare a.name b.name
  | "owner_id" => compare a.ownerId b.ownerId
  | "created_at" => compare a.createdAt b.createdAt
  | "updated_at" => compare a.updatedAt b.updatedAt
  | "archived_at" => compare a.archivedAt b.archivedAt
  | _ => .eq

/-- The comparison of one pass of `apply_sort`. -/
def clauseCmp (clause : SortClause) (a b : Model) : Ordering :=
  if clause.descending then (fieldCmp a b clause.field).swap else fieldCmp a b clause.field

/-- One stable pass a clause, from the last clause to the first. -/
def applySort (items : List Model) (sort : List SortClause) : List Model :=
  sort.reverse.foldl (fun items clause => sortBy (clauseCmp clause) items) items

def visible (hero : Model) (includeArchived onlyArchived : Bool) : Bool :=
  if onlyArchived then hero.archivedAt.isSome else includeArchived || hero.archivedAt.isNone

/-! ### Row changes -/

def applyUpdate (now : DateTime) (existing : Model) (data : HeroUpdate) : Model :=
  { existing with
    name := match data.name with | some name => some name | none => existing.name
    powers := match data.powers with | some powers => some powers | none => existing.powers
    powerLevel := if data.powerLevel.isSome then data.powerLevel else existing.powerLevel
    updatedAt := now }

/-- The soft delete: `archived_at` and `updated_at` are two clock readings in `delete` and one in
`delete_many`. -/
def archive (archivedAt updatedAt : DateTime) (existing : Model) : Model :=
  { existing with archivedAt := some archivedAt, updatedAt := updatedAt }

/-- The loop bodies of the bulk methods skip an archived row and one a clause rejects. -/
def selects [Lowercase] (filters : List FilterClause) (hero : Model) : Bool :=
  !(hero.archivedAt.isSome || !matchesAll hero filters)

end HeroMemory

/-! ### The repository -/

open HeroMemory

structure HeroMemoryRepository where
  records : Table
  nextId : Int32

namespace HeroMemoryRepository

variable [Lowercase]

def new : HeroMemoryRepository := ⟨.empty, 1⟩

omit [Lowercase] in
def get (id : Int32) (includeArchived : Bool) (repo : HeroMemoryRepository) : Option Model :=
  (repo.records.get? id).filter fun hero => includeArchived || hero.archivedAt.isNone

def list (opts : ListOptions) (repo : HeroMemoryRepository) : List Model :=
  let items := (repo.records.values.filter fun hero =>
    visible hero opts.includeArchived opts.onlyArchived).filter fun hero => matchesAll hero opts.filters
  let items :=
    if opts.sort.isEmpty then sortBy (fun a b => compare a.id b.id) items else applySort items opts.sort
  (items.drop opts.skip).take opts.limit

def count (filters : List FilterClause) (includeArchived onlyArchived : Bool)
    (repo : HeroMemoryRepository) : Nat :=
  ((repo.records.values.filter fun hero => visible hero includeArchived onlyArchived).filter fun hero =>
    matchesAll hero filters).length

omit [Lowercase] in
/-- `none` is the panic of `*next_id += 1` on overflow, in a build with overflow checks: nothing has been inserted yet. -/
def create (now : Nat → DateTime) (ownerId : String) (data : HeroCreate)
    (repo : HeroMemoryRepository) : Option (Model × HeroMemoryRepository) :=
  if repo.nextId = Int32.maxValue then none
  else
    let model : Model :=
      { id := repo.nextId, name := some data.name, powers := some data.powers,
        powerLevel := data.powerLevel, ownerId := ownerId, archivedAt := none,
        createdAt := now 0, updatedAt := now 0 }
    some (model, ⟨repo.records.insert repo.nextId model, repo.nextId + 1⟩)

omit [Lowercase] in
def update (now : Nat → DateTime) (id : Int32) (ownerId : String) (data : HeroUpdate)
    (repo : HeroMemoryRepository) : Option Model × HeroMemoryRepository :=
  match repo.records.get? id with
  | none => (none, repo)
  | some existing =>
    if existing.ownerId ≠ ownerId || existing.archivedAt.isSome then (none, repo)
    else
      (some (applyUpdate (now 0) existing data),
        { repo with records := repo.records.adjust id fun hero => applyUpdate (now 0) hero data })

/-- The `n`-th matched row is stamped with the `n`-th clock reading. -/
def updateMany (now : Nat → DateTime) (filters : List FilterClause) (data : HeroUpdate)
    (repo : HeroMemoryRepository) : List Model × HeroMemoryRepository :=
  let (updated, records) := repo.records.walk
    (OrdMap.collect (selects filters) fun updated hero => applyUpdate (now updated.length) hero data) []
  (updated, { repo with records })

omit [Lowercase] in
def delete (now : Nat → DateTime) (id : Int32) (ownerId : String) (repo : HeroMemoryRepository) :
    Bool × HeroMemoryRepository :=
  match repo.records.get? id with
  | none => (false, repo)
  | some existing =>
    if existing.ownerId ≠ ownerId || existing.archivedAt.isSome then (false, repo)
    else (true, { repo with records := repo.records.adjust id (archive (now 0) (now 1)) })

def deleteMany (now : Nat → DateTime) (filters : List FilterClause) (_includeUnpublished : Bool)
    (repo : HeroMemoryRepository) : List Model × HeroMemoryRepository :=
  let (deleted, records) := repo.records.walk
    (OrdMap.collect (selects filters) fun _ hero => archive (now 0) (now 0) hero) []
  (deleted, { repo with records })

end HeroMemoryRepository
end TemplateAxum
