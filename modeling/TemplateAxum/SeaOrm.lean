import TemplateAxum.Model
import TemplateAxum.Lib.Sql

/-!
# `HeroSeaOrmRepository`

The Postgres repository (`repositories/hero_sea_orm.rs`): the query builders, and the methods as the
one statement each of them runs on the `heroes` table. A statement is atomic; what it leaves open
(the order of `RETURNING`, the order among rows that tie) is a parameter or a relation. `now` is the
clock reading the method takes before its statement, as the columns keep it. Texts are compared as the
collation C does.
-/

open Std StableSort Sql

namespace TemplateAxum
namespace HeroSeaOrm

/-! ### Columns, values and conditions -/

/-- The columns a clause can name; `powers` is not one. -/
inductive Column
  | id | name | powerLevel | ownerId | archivedAt | createdAt | updatedAt
deriving DecidableEq, Repr

def columnFor (field : String) : Option Column :=
  match field with
  | "id" => some .id
  | "name" => some .name
  | "power_level" => some .powerLevel
  | "owner_id" => some .ownerId
  | "archived_at" => some .archivedAt
  | "created_at" => some .createdAt
  | "updated_at" => some .updatedAt
  | _ => none

/-- `sea_orm::Value`: a bound parameter or a cell; `none` is NULL. -/
inductive Value
  | int (v : Option Int32)
  | string (v : Option String)
  | dateTime (v : Option DateTime)
  | double (bits : Option UInt64)
  | bool (v : Option Bool)
deriving DecidableEq, Repr

/-- The `SimpleExpr`s the builders make. -/
inductive SimpleExpr
  | alwaysFalse
  | binary (column : Column) (op : FilterOp) (value : Value)
  | isIn (column : Column) (values : List Value)
  | like (column : Column) (pattern : String)
  | lowerLike (column : Column) (pattern : String)
  | isNull (column : Column)
  | isNotNull (column : Column)

def scalar : FilterValue → Value
  | .str v => .string (some v)
  | .int v => .int (some v.toInt32)
  | .dateTime v => .dateTime (some v)
  | .float bits => .double (some bits)
  | .bool v => .bool (some v)
  | .list _ => .int none

def scalarStr : FilterValue → String
  | .str v => v
  | _ => ""

/-- `str::replace(['%', '_'], "")`. -/
def stripWildcards (s : String) : String := String.ofList (s.toList.filter fun c => !(c == '%' || c == '_'))

/-- `column.contains(s)` is `LIKE '%s%'` with `s` taken as given. -/
def containsPattern (s : String) : String := "%" ++ s ++ "%"

def conditionFor [Lowercase] (clause : FilterClause) : SimpleExpr :=
  match columnFor clause.field with
  | none => .alwaysFalse
  | some column =>
    match clause.op, clause.value with
    | .in, .list values => .isIn column (values.map scalar)
    | .in, other => .isIn column [scalar other]
    | .contains, value => .like column (containsPattern (scalarStr value))
    | .icontains, value =>
      .lowerLike column (containsPattern (stripWildcards (toLowercase (scalarStr value))))
    -- the six comparisons
    | op, value => .binary column op (scalar value)

def archiveScope (includeArchived onlyArchived : Bool) : List SimpleExpr :=
  if onlyArchived then [.isNotNull .archivedAt]
  else if includeArchived then [] else [.isNull .archivedAt]

def applyFilters [Lowercase] (filters : List FilterClause) : List SimpleExpr := filters.map conditionFor

inductive Order
  | asc | desc
deriving DecidableEq, Repr

/-- `order_by_asc`/`order_by_desc` append, an unknown field is skipped. -/
def applySort (sort : List SortClause) : List (Column × Order) :=
  sort.filterMap fun clause =>
    (columnFor clause.field).map fun column => (column, if clause.descending then .desc else .asc)

/-! ### What the statements mean -/

def cell (column : Column) (row : Model) : Value :=
  match column with
  | .id => .int (some row.id)
  | .name => .string row.name
  | .powerLevel => .int row.powerLevel
  | .ownerId => .string (some row.ownerId)
  | .archivedAt => .dateTime row.archivedAt
  | .createdAt => .dateTime (some row.createdAt)
  | .updatedAt => .dateTime (some row.updatedAt)

namespace Value

def text? : Value → Option String
  | .string v => v
  | _ => none

def isNull : Value → Bool
  | .int v => v.isNone
  | .string v => v.isNone
  | .dateTime v => v.isNone
  | .double v => v.isNone
  | .bool v => v.isNone

/-- Comparison of a cell with a value; unknown when one is NULL. Postgres rejects a statement that
compares values of two types, which here selects nothing. -/
def compare? : Value → Value → Option Ordering
  | .int (some a), .int (some b) => some (compare a b)
  | .string (some a), .string (some b) => some (compare a b)
  | .dateTime (some a), .dateTime (some b) => some (compare a b)
  | _, _ => none

/-- The key comparison of `ORDER BY column ASC`. -/
def ascCmp : Value → Value → Ordering
  | .int a, .int b => asc compare a b
  | .string a, .string b => asc compare a b
  | .dateTime a, .dateTime b => asc compare a b
  | _, _ => .eq

end Value

def binaryHolds (op : FilterOp) (o : Ordering) : Bool :=
  match op with
  | .eq => o.isEq
  | .ne => o.isNe
  | .lt => o.isLT
  | .lte => o.isLE
  | .gt => o.isGT
  | .gte => o.isGE
  | .in | .contains | .icontains => false

namespace SimpleExpr

/-- The truth of a condition on a row. -/
def eval [Lowercase] (row : Model) : SimpleExpr → Truth
  | .alwaysFalse => some false
  | .binary column op value => ((cell column row).compare? value).map (binaryHolds op)
  | .isIn column values => Truth.any (values.map fun value => ((cell column row).compare? value).map Ordering.isEq)
  | .like column pattern => (cell column row).text?.map (Sql.like pattern)
  | .lowerLike column pattern => (cell column row).text?.map fun text => Sql.like pattern (toLowercase text)
  | .isNull column => some (cell column row).isNull
  | .isNotNull column => some !(cell column row).isNull

end SimpleExpr

/-- `WHERE` the conjunction of the conditions. -/
def whereHolds [Lowercase] (conditions : List SimpleExpr) (row : Model) : Bool :=
  (Truth.all (conditions.map fun e => e.eval row)).holds

def orderCmp (key : Column × Order) (a b : Model) : Ordering :=
  match key.2 with
  | .asc => (cell key.1 a).ascCmp (cell key.1 b)
  | .desc => ((cell key.1 a).ascCmp (cell key.1 b)).swap

/-! ### `SET` lists -/

/-- `sea_orm::ActiveValue`. -/
inductive ActiveValue (α : Type)
  | set (v : α)
  | notSet

/-- The value a column has after a statement that carries `v` for it. -/
def ActiveValue.getD {α : Type} (v : ActiveValue α) (old : α) : α :=
  match v with
  | .set new => new
  | .notSet => old

structure ActiveModel where
  id : ActiveValue Int32 := .notSet
  name : ActiveValue (Option String) := .notSet
  powers : ActiveValue (Option (List String)) := .notSet
  powerLevel : ActiveValue (Option Int32) := .notSet
  ownerId : ActiveValue String := .notSet
  archivedAt : ActiveValue (Option DateTime) := .notSet
  createdAt : ActiveValue DateTime := .notSet
  updatedAt : ActiveValue DateTime := .notSet

namespace ActiveModel

/-- `UPDATE … SET`: only the columns marked `Set` are written. -/
def apply (active : ActiveModel) (row : Model) : Model :=
  { id := active.id.getD row.id
    name := active.name.getD row.name
    powers := active.powers.getD row.powers
    powerLevel := active.powerLevel.getD row.powerLevel
    ownerId := active.ownerId.getD row.ownerId
    archivedAt := active.archivedAt.getD row.archivedAt
    createdAt := active.createdAt.getD row.createdAt
    updatedAt := active.updatedAt.getD row.updatedAt }

/-- The row an `INSERT` makes, `id` coming from the sequence; `none` when a column that is
`NOT NULL` has no value. -/
def insertRow (active : ActiveModel) (id : Int32) : Option Model :=
  match active.ownerId, active.createdAt, active.updatedAt with
  | .set ownerId, .set createdAt, .set updatedAt =>
    some
      { id := active.id.getD id
        name := active.name.getD none
        powers := active.powers.getD none
        powerLevel := active.powerLevel.getD none
        ownerId := ownerId
        archivedAt := active.archivedAt.getD none
        createdAt := createdAt
        updatedAt := updatedAt }
  | _, _, _ => none

end ActiveModel

def updateValues (data : HeroUpdate) (now : DateTime) : ActiveModel :=
  { updatedAt := .set now
    name := match data.name with | some name => .set (some name) | none => .notSet
    powers := match data.powers with | some powers => .set (some powers) | none => .notSet
    powerLevel := if data.powerLevel.isSome then .set data.powerLevel else .notSet }

def archiveValues (now : DateTime) : ActiveModel := { archivedAt := .set (some now), updatedAt := .set now }

def byId (rows : List Model) : List Model := sortBy (fun a b => compare a.id b.id) rows

end HeroSeaOrm

/-! ### The statements -/

open HeroSeaOrm

/-- A `SELECT * FROM heroes`. -/
structure Select where
  conditions : List SimpleExpr
  orderBy : List (Column × Order)
  offset : Nat
  limit : Nat

namespace Select

variable [Lowercase]

/-- The rows its `WHERE` keeps. -/
def rows (query : Select) (db : Table) : List Model := db.values.filter (whereHolds query.conditions)

/-- The answers the database may give. -/
def Answers (query : Select) (db : Table) (answer : List Model) : Prop :=
  Sql.Answer (lexCmp orderCmp query.orderBy) query.offset query.limit (query.rows db) answer

end Select

/-- The order in which a `RETURNING` lists its rows, which is unspecified. -/
structure RowOrder where
  order : List Model → List Model
  perm : ∀ rows, (order rows).Perm rows

def RowOrder.asListed : RowOrder := ⟨fun rows => rows, fun _ => .refl _⟩

/-- `UPDATE heroes SET … WHERE … RETURNING *`. -/
def execWithReturning [Lowercase] (returning : RowOrder) (active : ActiveModel)
    (conditions : List SimpleExpr) (db : Table) : List Model × Table :=
  (returning.order ((db.values.filter (whereHolds conditions)).map active.apply),
    db.map fun row => if whereHolds conditions row then active.apply row else row)

namespace HeroSeaOrmRepository

variable [Lowercase]

omit [Lowercase] in
def eqId (id : Int32) : SimpleExpr := .binary .id .eq (.int (some id))

omit [Lowercase] in
def eqOwner (ownerId : String) : SimpleExpr := .binary .ownerId .eq (.string (some ownerId))

def list (opts : ListOptions) : Select :=
  { conditions := archiveScope opts.includeArchived opts.onlyArchived ++ applyFilters opts.filters
    orderBy := if opts.sort.isEmpty then [(.id, .asc)] else applySort opts.sort
    offset := opts.skip
    limit := opts.limit }

def count (filters : List FilterClause) (includeArchived onlyArchived : Bool) (db : Table) : Nat :=
  (db.values.filter (whereHolds (archiveScope includeArchived onlyArchived ++ applyFilters filters))).length

def get (id : Int32) (includeArchived : Bool) (db : Table) : Option Model :=
  (db.values.filter (whereHolds (eqId id :: if includeArchived then [] else [.isNull .archivedAt]))).head?

/-- `id` is the next value of the sequence; `none` when the database refuses the row. -/
def create (now : DateTime) (id : Int32) (ownerId : String) (data : HeroCreate) (db : Table) :
    Option (Model × Table) :=
  let active : ActiveModel :=
    { name := .set (some data.name), powers := .set (some data.powers),
      powerLevel := .set data.powerLevel, ownerId := .set ownerId, archivedAt := .set none,
      createdAt := .set now, updatedAt := .set now }
  match active.insertRow id with
  | none => none
  | some row => if (db.get? row.id).isSome then none else some (row, db.insert row.id row)

def update (returning : RowOrder) (now : DateTime) (id : Int32) (ownerId : String) (data : HeroUpdate)
    (db : Table) : Option Model × Table :=
  let (rows, db) := execWithReturning returning (updateValues data now)
    [eqId id, eqOwner ownerId, .isNull .archivedAt] db
  (rows.head?, db)

def updateMany (returning : RowOrder) (now : DateTime) (filters : List FilterClause) (data : HeroUpdate)
    (db : Table) : List Model × Table :=
  let (rows, db) := execWithReturning returning (updateValues data now)
    (.isNull .archivedAt :: applyFilters filters) db
  (byId rows, db)

def delete (returning : RowOrder) (now : DateTime) (id : Int32) (ownerId : String) (db : Table) :
    Bool × Table :=
  let (rows, db) := execWithReturning returning (archiveValues now)
    [eqId id, eqOwner ownerId, .isNull .archivedAt] db
  (!rows.isEmpty, db)

def deleteMany (returning : RowOrder) (now : DateTime) (filters : List FilterClause)
    (_includeUnpublished : Bool) (db : Table) : List Model × Table :=
  let (rows, db) := execWithReturning returning (archiveValues now)
    (.isNull .archivedAt :: applyFilters filters) db
  (byId rows, db)

end HeroSeaOrmRepository
end TemplateAxum
