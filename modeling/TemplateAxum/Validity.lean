import TemplateAxum.Reference

/-!
# Stored data is valid

What the three validators accept, in one vocabulary: a payload that a router lets through carries
valid fields only, a row made of such a payload is valid, and so is a valid row that such an update
has patched. So whatever requests are in flight, a table that starts empty holds valid rows only.
-/

namespace TemplateAxum

open Prog

/-! ### Valid data -/

/-- A text field as the table may hold it, its length in Unicode scalar values. -/
def ValidText (value : String) : Prop := 1 ≤ value.length ∧ value.length ≤ maxLen

def ValidPowers (powers : List String) : Prop := powers ≠ [] ∧ ∀ power ∈ powers, ValidText power

structure HeroCreate.Valid (data : HeroCreate) : Prop where
  name : ValidText data.name
  powers : ValidPowers data.powers

/-- The fields that are there. -/
structure HeroUpdate.Valid (data : HeroUpdate) : Prop where
  name : ∀ name, data.name = some name → ValidText name
  powers : ∀ powers, data.powers = some powers → ValidPowers powers

/-- A row has a name and powers, both valid. -/
structure Model.Valid (row : Model) : Prop where
  name : ∃ name, row.name = some name ∧ ValidText name
  powers : ∃ powers, row.powers = some powers ∧ ValidPowers powers

def Table.Valid (table : Table) : Prop := ∀ id row, table.get? id = some row → row.Valid

/-! ### What the validators accept -/

theorem checked_eq_ok {errors : List FieldError} : checked errors = .ok () ↔ errors = [] := by
  cases errors with
  | nil => simp [checked]
  | cons err errors => simp [checked]

theorem validateTextField_eq_nil {field value : String} : validateTextField field value = [] ↔ ValidText value := by
  unfold validateTextField
  split
  · rename_i h; exact iff_of_true rfl h
  · rename_i h; exact iff_of_false (List.cons_ne_nil _ _) h

theorem validatePowers_eq_nil {powers : List String} : validatePowers powers = [] ↔ ValidPowers powers := by
  cases powers with
  | nil => simp [validatePowers, ValidPowers]
  | cons first rest =>
    rw [validatePowers, if_neg (by simp), List.flatMap_eq_nil_iff]
    constructor
    · intro h
      refine ⟨List.cons_ne_nil _ _, fun power hpower => ?_⟩
      obtain ⟨index, hindex⟩ := List.mem_iff_getElem?.1 hpower
      have := h (power, index) (List.mem_zipIdx_iff_getElem?.2 hindex)
      by_contra hno
      exact absurd ((if_neg hno).symm.trans this) (List.cons_ne_nil _ _)
    · rintro ⟨-, h⟩ ⟨power, index⟩ hmem
      exact if_pos (h power (List.fst_mem_of_mem_zipIdx hmem))

theorem HeroCreate.validate_eq_ok {payload : HeroCreate} : payload.validate = .ok () ↔ payload.Valid := by
  rw [validate, checked_eq_ok, List.append_eq_nil_iff, validateTextField_eq_nil, validatePowers_eq_nil]
  exact ⟨fun h => ⟨h.1, h.2⟩, fun h => ⟨h.name, h.powers⟩⟩

/-- An absent field is not checked. -/
theorem elim_eq_nil {α : Type} {field : Option α} {check : α → List FieldError} :
    field.elim [] check = [] ↔ ∀ a, field = some a → check a = [] := by
  cases field with
  | none => simp
  | some a => simp

theorem HeroUpdate.validate_eq_ok {payload : HeroUpdate} : payload.validate = .ok () ↔ payload.Valid := by
  rw [validate, checked_eq_ok, List.append_eq_nil_iff, elim_eq_nil, elim_eq_nil]
  simp only [validateTextField_eq_nil, validatePowers_eq_nil]
  exact ⟨fun h => ⟨h.1, h.2⟩, fun h => ⟨h.name, h.powers⟩⟩

theorem validPowers_singleton {power : String} : ValidPowers [power] ↔ ValidText power := by
  simp [ValidPowers]

/-- The one superpower is valid as a list of powers. -/
theorem HeroCreateV1.validate_eq_ok {payload : HeroCreateV1} :
    payload.validate = .ok () ↔ payload.toHeroCreate.Valid := by
  rw [validate, checked_eq_ok, List.append_eq_nil_iff, validateTextField_eq_nil, validateTextField_eq_nil]
  exact ⟨fun h => ⟨h.1, validPowers_singleton.2 h.2⟩, fun h => ⟨h.name, validPowers_singleton.1 h.powers⟩⟩

theorem HeroUpdateV1.validate_eq_ok {payload : HeroUpdateV1} :
    payload.validate = .ok () ↔ payload.toHeroUpdate.Valid := by
  rw [validate, checked_eq_ok, List.append_eq_nil_iff, elim_eq_nil, elim_eq_nil]
  simp only [validateTextField_eq_nil]
  constructor
  · intro h
    refine ⟨h.1, fun powers hpowers => ?_⟩
    rcases Option.map_eq_some_iff.1 hpowers with ⟨superpower, hsuper, rfl⟩
    exact validPowers_singleton.2 (h.2 superpower hsuper)
  · intro h
    exact ⟨h.name, fun superpower hsuper => validPowers_singleton.1 (h.powers _ (Option.map_eq_some_iff.2 ⟨_, hsuper, rfl⟩))⟩

theorem ne_nil_of_checked {errors errors' : List FieldError} (h : checked errors = .error errors') : errors' ≠ [] := by
  rintro rfl
  cases errors with
  | nil => cases h
  | cons err errors => cases h

namespace HeroFormFields
variable {fields : HeroFormFields}

/-- The form is checked after it has been split and trimmed. -/
theorem valid_of_create {data : HeroCreate} (h : fields.intoHeroCreate = .ok data) : data.Valid := by
  simp only [intoHeroCreate] at h
  generalize hvalid : HeroCreate.validate _ = verdict at h
  cases verdict with
  | ok _ =>
    dsimp only at h
    split at h
    · cases h
      exact HeroCreate.validate_eq_ok.1 hvalid
    · cases h
  | error errors =>
    have hne := ne_nil_of_checked hvalid
    simp [hne] at h

theorem valid_of_update {data : HeroUpdate} (h : fields.intoHeroUpdate = .ok data) : data.Valid := by
  simp only [intoHeroUpdate] at h
  generalize hvalid : HeroUpdate.validate _ = verdict at h
  cases verdict with
  | ok _ =>
    dsimp only at h
    split at h
    · cases h
      exact HeroUpdate.validate_eq_ok.1 hvalid
    · cases h
  | error errors =>
    have hne := ne_nil_of_checked hvalid
    simp [hne] at h

end HeroFormFields

/-! ### What a request can ask for -/

/-- A write whose payload is valid. -/
def WriteOp.Valid : WriteOp → Prop
  | create _ data => data.Valid
  | update _ _ data | updateMany _ data => data.Valid
  | delete .. | deleteMany .. => True

theorem valid_of_payload {α β : Type} {validate : α → Checked Unit} {convert : α → β} {P : β → Prop}
    (hP : ∀ a, validate a = .ok () → P (convert a)) {body : Except Response (Except AppError α)} {data : β}
    (h : payload validate convert body = some data) : P data := by
  unfold payload at h
  split at h
  · rename_i a
    split at h
    · rename_i hok
      cases h
      exact hP a hok
    · cases h
  · cases h

namespace Request
variable {env : Env} {request : Request}

theorem valid_of_createData {data : HeroCreate} (h : request.createData env = some data) : data.Valid := by
  cases request with
  | api server method req =>
    cases method with
    | post =>
      cases server with
      | v2Json => exact valid_of_payload (fun _ hok => HeroCreate.validate_eq_ok.1 hok) h
      | v2Xml => exact valid_of_payload (fun _ hok => HeroCreate.validate_eq_ok.1 hok) h
      | v1Json => exact valid_of_payload (fun _ hok => HeroCreateV1.validate_eq_ok.1 hok) h
      | v1Xml => exact valid_of_payload (fun _ hok => HeroCreateV1.validate_eq_ok.1 hok) h
    | _ => cases h
  | web route req =>
    cases route with
    | create =>
      rcases Option.bind_eq_some_iff.1 h with ⟨fields, -, hinto⟩
      exact HeroFormFields.valid_of_create (eq_ok_of_toOption hinto)
    | _ => cases h
  | read handler => cases h

theorem valid_of_updateData {data : HeroUpdate} (h : request.updateData env = some data) : data.Valid := by
  cases request with
  | api server method req =>
    cases method with
    | patch =>
      cases server with
      | v2Json => exact valid_of_payload (fun _ hok => HeroUpdate.validate_eq_ok.1 hok) h
      | v2Xml => exact valid_of_payload (fun _ hok => HeroUpdate.validate_eq_ok.1 hok) h
      | v1Json => exact valid_of_payload (fun _ hok => HeroUpdateV1.validate_eq_ok.1 hok) h
      | v1Xml => exact valid_of_payload (fun _ hok => HeroUpdateV1.validate_eq_ok.1 hok) h
    | _ => cases h
  | web route req =>
    cases route with
    | update =>
      rcases Option.bind_eq_some_iff.1 h with ⟨fields, -, hinto⟩
      exact HeroFormFields.valid_of_update (eq_ok_of_toOption hinto)
    | _ => cases h
  | read handler => cases h

theorem Asks.valid {op : WriteOp} (h : request.Asks env op) : op.Valid := by
  rcases h with ⟨-, h⟩
  cases op with
  | create ownerId data => exact valid_of_createData h
  | update id ownerId data => exact valid_of_updateData h.2
  | updateMany filters data => exact valid_of_updateData h
  | delete id ownerId => trivial
  | deleteMany filters includeUnpublished => trivial

end Request

/-! ### What a write leaves -/

theorem HeroCreate.Valid.row {data : HeroCreate} (h : data.Valid) (id : Int32) (ownerId : String) (now : DateTime) :
    (data.row id ownerId now).Valid := ⟨⟨_, rfl, h.name⟩, ⟨_, rfl, h.powers⟩⟩

/-- A partial update never sees the row, and need not: a field it leaves out was valid before. -/
theorem Model.Valid.patch {row : Model} (h : row.Valid) {data : HeroUpdate} (hdata : data.Valid) (stamp : DateTime) :
    (row.patch data stamp).Valid := by
  constructor
  · cases hname : data.name with
    | none => rw [Model.patch, hname]; exact h.name
    | some name => exact ⟨name, by rw [Model.patch, hname]; rfl, hdata.name name hname⟩
  · cases hpowers : data.powers with
    | none => rw [Model.patch, hpowers]; exact h.powers
    | some powers => exact ⟨powers, by rw [Model.patch, hpowers]; rfl, hdata.powers powers hpowers⟩

theorem Table.Valid.revise {table : Table} (h : table.Valid) {r : Revision} {row : Model}
    (hr : ∀ old, old.Valid → (r.revise old).Valid) (hrow : row ∈ r.changed table) : row.Valid := by
  rcases Revision.mem_changed.1 hrow with ⟨id, old, hold, -, rfl⟩
  exact hr old (h id old hold)

theorem WriteOp.Valid.reported {op : WriteOp} (hop : op.Valid) {table : Table} (h : table.Valid)
    {chooses : List FilterClause → Model → Bool} {newId : Int32} {stamps : Stamps} {row : Model}
    (hrow : row ∈ (op.change chooses newId stamps).reported table) : row.Valid := by
  cases op with
  | create ownerId data =>
    rw [List.mem_singleton.1 hrow]
    exact HeroCreate.Valid.row hop _ _ _
  | update id ownerId data => exact h.revise (fun old hold => hold.patch hop _) hrow
  | updateMany filters data => exact h.revise (fun old hold => hold.patch hop _) hrow
  | delete id ownerId => exact h.revise (fun old hold => ⟨hold.name, hold.powers⟩) hrow
  | deleteMany filters includeUnpublished => exact h.revise (fun old hold => ⟨hold.name, hold.powers⟩) hrow

variable [Lowercase]

theorem Repo.Wrote.valid {repo repo' : Repo} {op : WriteOp} {r : op.Result} {newId : Int32} {stamps : Stamps}
    (hw : repo.Wrote op r repo' newId stamps) (hop : op.Valid) (h : repo.rows.Valid) : repo'.rows.Valid := by
  intro id row hrow
  rw [hw.rows] at hrow
  rcases Change.get?_run_eq_or_reported hrow with hold | hnew
  · exact h id row hold
  · exact hop.reported h hnew

/-! ### Over all runs -/

variable {env : Env} {s s' : Service} {past : List Service}

/-- The service has just started, over an empty table. -/
def Service.InitialEmpty (env : Env) (s : Service) : Prop := Service.Initial env s ∧ s.shared.repo.rows = OrdMap.empty

theorem Service.valid_step (hcrud : env.crud.Documented) (haxum : env.axum.Documented)
    (hrun : Service.Run env (s :: past)) (hstep : Service.Step env s s') (h : s.shared.repo.rows.Valid) :
    s'.shared.repo.rows.Valid := by
  rcases hstep.shared_cases with heq | ⟨i, job, op, k, answer, hjob, hprog, hans, -⟩
  · rw [heq]
    exact h
  · by_cases hwrite : ∃ w, op = .repo (.write w)
    · rcases hwrite with ⟨w, rfl⟩
      rcases hans with ⟨repo', hrepo, hw'⟩
      have hvalid := (hrun.permits hcrud haxum hjob hprog).2.asks.valid
      rw [hw']
      rcases (Repo.answers_write hrun.inv hrepo).2 with ⟨heq, -⟩ | ⟨r, newId, stamps, -, hwrote⟩
      · rw [heq]
        exact h
      · exact hwrote.valid hvalid h
    · rw [World.repo_of_answers hans fun w heq => hwrite ⟨w, heq⟩]
      exact h

theorem stored_valid (hcrud : env.crud.Documented) (haxum : env.axum.Documented)
    (hrun : Trace (Service.InitialEmpty env) (Service.Step env) (s :: past)) {id : Int32} {row : Model}
    (hrow : s.shared.repo.rows.get? id = some row) : row.Valid := by
  refine hrun.along (I := fun s => s.shared.repo.rows.Valid) ?_ ?_ id row hrow
  · rintro s ⟨-, hempty⟩ id row hrow
    rw [hempty] at hrow
    cases hrow
  · intro s s' past hpast h hstep
    exact Service.valid_step hcrud haxum (hpast.mono (fun _ hs => hs.1) fun _ _ hs => hs) hstep h

omit [Lowercase] in
theorem stored_valid_create : ∃ (s : Service) (row : Model), s.shared.repo.rows.get? 1 = some row ∧ row.Valid := by
  let _ := Lowercase.ascii
  rcases Service.exists_created (show Service.InitialEmpty Env.reference .fresh from ⟨Service.initial_fresh, rfl⟩) with
    ⟨s, s', past, hrun, hstep, -, hrow⟩
  exact ⟨s', _, hrow, stored_valid Craftainer.reference_documented Axum.reference_documented (hrun.next hstep) hrow⟩

end TemplateAxum
