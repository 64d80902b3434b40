import TemplateAxum.World

/-!
# The CRUD crate

`craftainer_crud` is a dependency, so what the controllers use of it is a parameter: its query
parsing and tags are functions, its `CrudService` and `resolve_*` are programs over the repository.
`Craftainer.Documented` is what the ADRs say about it. `Craftainer.reference` follows the ADRs, on
queries that carry no filters, and is documented in that sense.
-/

namespace TemplateAxum

open Prog

/-- A program that calls the repository and nothing else. -/
abbrev Crud := Prog RepoCall RepoCall.Ans

/-- The write that an answered call performed, with its answer. -/
def RepoCall.written? : Answered RepoCall RepoCall.Ans → Option (WriteOp × WriteAnswer)
  | ⟨.write op, .ok r⟩ => if (op.pack r).performed then some (op, op.pack r) else none
  | _ => none

/-- Checks first, then at most one performed write, one that `allowed` admits; `result` relates its
answer to what is returned, and a program that stops early has performed none. -/
def Mutates {ε α : Type} (allowed : WriteOp → Prop) (result : WriteAnswer → α → Prop) (p : Crud ε α) : Prop :=
  Sat (fun h c => ∀ op, c = .write op → allowed op ∧ h.filterMap RepoCall.written? = [])
    (fun h outcome => ∃ op answer, h.filterMap RepoCall.written? = [(op, answer)] ∧ allowed op ∧
      result answer outcome)
    (fun h _ => h.filterMap RepoCall.written? = []) [] p

/-! ### The interface -/

inductive FieldKind
  | number | string | datetime
deriving DecidableEq

structure FieldSpec where
  name : String
  kind : FieldKind

structure ArchivedScope where
  includeArchived : Bool
  onlyArchived : Bool

inductive ListOrGet
  | one (hero : Model)
  | many (heroes : List Model)

inductive UpdateOutcome
  | one (hero : Model)
  | bulk (result : BulkResult)

inductive DeleteOutcome
  | one
  | bulk (result : BulkResult)

structure Craftainer where
  /-- `DEFAULT_LIMIT`. -/
  defaultLimit : Nat
  parseFilters : List FieldSpec → List (String × String) → Checked (List FilterClause)
  parseSort : List FieldSpec → List (String × String) → Checked (List SortClause)
  parseArchivedScope : List (String × String) → Checked ArchivedScope
  rejectOnlyArchived : List (String × String) → Checked Unit
  parseIncludeArchived : List (String × String) → Checked Bool
  parseBulkDeleteIncludeUnpublished : List (String × String) → Checked Bool
  recordEtag : Model → String
  listEtag : List Model → String
  /-- The tags that `If-Match` values list; `none` for `*`. -/
  ifMatchTags : List HeaderValue → Option (List String)
  checkIfMatch : List HeaderValue → String → String → Except CrudError Unit
  notModified : Headers → String → Option Response
  revalidationHeaders : String → Response → Response
  /-- `CrudError::into_response`. -/
  errorResponse : CrudError → Response
  create : String → HeroCreate → Crud RepoError Model
  get : Int32 → Bool → Crud RepoError (Option Model)
  list : ListOptions → Crud RepoError (List Model)
  resolveListOrGet : Option Int32 → Nat → Nat → ArchivedScope → List FilterClause → List SortClause →
    Crud CrudError ListOrGet
  resolveUpdate : Option Int32 → String → List FilterClause → HeroUpdate → Nat → Crud CrudError UpdateOutcome
  resolveUpdateById : Int32 → String → HeroUpdate → Crud CrudError Model
  resolveDelete : Option Int32 → String → List FilterClause → Nat → Bool → Crud CrudError DeleteOutcome

/-- The clause that `update_many` and `delete_many` of `CrudService` add (ADR 0013). -/
def ownerClause (ownerId : String) : FilterClause := ⟨"owner_id", .eq, .str ownerId⟩

/-- One repository write of `CrudService`. -/
def Crud.write (op : WriteOp) : Crud RepoError op.Result := .call (.write op) ofExcept

def Crud.ofRepo (err : RepoError) : CrudError := .internal err.message

/-- A by-id write that finds no record is a 404. -/
def Crud.resolveUpdateById (notFound : String) (id : Int32) (ownerId : String) (data : HeroUpdate) :
    Crud CrudError Model := do
  match ← (Crud.write (.update id ownerId data)).mapError Crud.ofRepo with
  | some hero => pure hero
  | none => raise (.notFound notFound)

def Crud.resolveDeleteById (notFound : String) (id : Int32) (ownerId : String) : Crud CrudError DeleteOutcome := do
  match ← (Crud.write (.delete id ownerId)).mapError Crud.ofRepo with
  | true => pure .one
  | false => raise (.notFound notFound)

/-- A list of ids is reported by the rows it names. -/
def BulkResult.Reports (result : BulkResult) (answer : WriteAnswer) : Prop :=
  ∃ heroes, answer = .heroes heroes ∧ result.ids = heroes.map Model.id

structure Craftainer.Documented (crud : Craftainer) : Prop where
  /-- `create` and `get` pass through to the repository. -/
  create_eq : ∀ ownerId data, crud.create ownerId data = Crud.write (.create ownerId data)
  get_eq : ∀ id includeArchived, crud.get id includeArchived = .call (.get id includeArchived) ofExcept
  list_reads : ∀ opts, (crud.list opts).Calls fun c => ∀ op, c ≠ .write op
  resolveListOrGet_reads : ∀ id skip limit scope filters sort,
    (crud.resolveListOrGet id skip limit scope filters sort).Calls fun c => ∀ op, c ≠ .write op
  resolveUpdateById_eq : ∃ notFound, ∀ id ownerId data,
    crud.resolveUpdateById id ownerId data = Crud.resolveUpdateById notFound id ownerId data
  /-- With an id, only the by-id operation is called. -/
  resolveUpdate_byId : ∀ id ownerId filters data maxMatched,
    Mutates (fun op => op = .update id ownerId data)
      (fun answer outcome => ∃ hero, answer = .hero (some hero) ∧ outcome = .one hero)
      (crud.resolveUpdate (some id) ownerId filters data maxMatched)
  /-- Without one, the bulk operation, on the given clauses and the owner's. -/
  resolveUpdate_bulk : ∀ ownerId filters data maxMatched,
    Mutates (fun op => ∃ clauses, op = .updateMany clauses data ∧ ownerClause ownerId ∈ clauses ∧ filters ⊆ clauses)
      (fun answer outcome => ∃ result, outcome = .bulk result ∧ result.Reports answer)
      (crud.resolveUpdate none ownerId filters data maxMatched)
  resolveDelete_byId : ∀ id ownerId filters maxMatched includeUnpublished,
    Mutates (fun op => op = .delete id ownerId) (fun answer outcome => answer = .done true ∧ outcome = .one)
      (crud.resolveDelete (some id) ownerId filters maxMatched includeUnpublished)
  resolveDelete_bulk : ∀ ownerId filters maxMatched includeUnpublished,
    Mutates (fun op => ∃ clauses unpublished, op = .deleteMany clauses unpublished ∧
        ownerClause ownerId ∈ clauses ∧ filters ⊆ clauses)
      (fun answer outcome => ∃ result, outcome = .bulk result ∧ result.Reports answer)
      (crud.resolveDelete none ownerId filters maxMatched includeUnpublished)
  /-- An id without filters passes the checks. -/
  resolveDelete_eq : ∃ notFound, ∀ id ownerId maxMatched includeUnpublished,
    crud.resolveDelete (some id) ownerId [] maxMatched includeUnpublished = Crud.resolveDeleteById notFound id ownerId
  checkIfMatch_iff : ∀ values tags tag resource, crud.ifMatchTags values = some tags →
    (crud.checkIfMatch values tag resource = .ok () ↔ tag ∈ tags)
  recordEtag_accepts : ∀ hero, HeaderValue.accepts (crud.recordEtag hero) = true
  errorResponse_isError : ∀ err, (crud.errorResponse err).isError = true

/-! ### A reference -/

namespace Craftainer

def noTarget : CrudError :=
  .unprocessableEntity [⟨"id", "id or at least one filter is required for a bulk action"⟩]

def idPlusFilters : CrudError := .unprocessableEntity [⟨"id", "id cannot be combined with filters"⟩]

def tooMany : CrudError := .unprocessableEntity [⟨"filters", "too many records match"⟩]

/-- `count` over the clauses of a bulk action, against the cap. -/
def checkBulkSize (clauses : List FilterClause) (maxMatched : Nat) : Crud CrudError Unit := do
  let matched ← (Prog.call (.count clauses false false) ofExcept : Crud RepoError Nat).mapError Crud.ofRepo
  if maxMatched < matched then raise tooMany else pure ()

def reference : Craftainer where
  defaultLimit := 100
  parseFilters _ _ := .ok []
  parseSort _ _ := .ok []
  parseArchivedScope _ := .ok ⟨false, false⟩
  rejectOnlyArchived _ := .ok ()
  parseIncludeArchived _ := .ok false
  parseBulkDeleteIncludeUnpublished _ := .ok false
  -- a tag that tells the versions of a record apart
  recordEtag hero := String.ofList ('"' :: List.replicate hero.updatedAt.toNat '1' ++ ['"'])
  listEtag _ := "W/\"\""
  ifMatchTags values :=
    if values.any fun value => value.toStr == some "*" then none else some (values.filterMap HeaderValue.toStr)
  checkIfMatch values tag resource :=
    if values.any fun value => value.toStr == some "*" then .ok ()
    else if tag ∈ values.filterMap HeaderValue.toStr then .ok ()
    else .error (.preconditionFailed (resource ++ " was modified since the supplied If-Match"))
  notModified _ _ := none
  revalidationHeaders tag response := response.withHeader "etag" tag
  errorResponse err := (AppError.ofCrud err).intoResponse false
  create ownerId data := Crud.write (.create ownerId data)
  get id includeArchived := .call (.get id includeArchived) ofExcept
  list opts := .call (.list opts) ofExcept
  resolveListOrGet id skip limit scope filters sort :=
    match id with
    | some id => do
      match ← (Prog.call (.get id scope.includeArchived) ofExcept : Crud RepoError _).mapError Crud.ofRepo with
      | some hero => pure (.one hero)
      | none => raise (.notFound "Hero not found")
    | none => do
      let heroes ← (Prog.call (.list ⟨skip, limit, scope.includeArchived, scope.onlyArchived, filters, sort⟩)
        ofExcept : Crud RepoError _).mapError Crud.ofRepo
      pure (.many heroes)
  resolveUpdate id ownerId filters data maxMatched :=
    match id with
    | some id =>
      if filters.isEmpty then do
        let hero ← Crud.resolveUpdateById "Hero not found" id ownerId data
        pure (.one hero)
      else raise idPlusFilters
    | none =>
      if filters.isEmpty then raise noTarget
      else do
        checkBulkSize (ownerClause ownerId :: filters) maxMatched
        let heroes ← (Crud.write (.updateMany (ownerClause ownerId :: filters) data)).mapError Crud.ofRepo
        pure (.bulk ⟨heroes.length, heroes.map Model.id⟩)
  resolveUpdateById := Crud.resolveUpdateById "Hero not found"
  resolveDelete id ownerId filters maxMatched includeUnpublished :=
    match id with
    | some id =>
      if filters.isEmpty then Crud.resolveDeleteById "Hero not found" id ownerId else raise idPlusFilters
    | none =>
      if filters.isEmpty then raise noTarget
      else do
        checkBulkSize (ownerClause ownerId :: filters) maxMatched
        let heroes ← (Crud.write (.deleteMany (ownerClause ownerId :: filters) includeUnpublished)).mapError Crud.ofRepo
        pure (.bulk ⟨heroes.length, heroes.map Model.id⟩)

end Craftainer
end TemplateAxum
