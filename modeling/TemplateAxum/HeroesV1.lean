import TemplateAxum.Served
import TemplateAxum.Validity

/-!
# The deprecated routers

v1 is a view of the rows that v2 stores, with one superpower in place of the list of powers. Writing through it
and reading through it fit together, although a payload may omit fields and a row may hold powers that v1 does
not show.
-/

namespace TemplateAxum

/-- The two routers of v1. -/
inductive V1
  | json | xml

namespace V1

def api : V1 → Api
  | json => .v1Json
  | xml => .v1Xml

def createBody (server : V1) (env : Env) (req : HttpRequest) : Except Response (Except AppError HeroCreateV1) :=
  match server with
  | json => heroesV1.createBody env req
  | xml => heroesV1Xml.createBody env req

def updateBody (server : V1) (env : Env) (req : HttpRequest) : Except Response (Except AppError HeroUpdateV1) :=
  match server with
  | json => heroesV1.updateBody env req
  | xml => heroesV1Xml.updateBody env req

/-- What is shown of a record that is not archived. -/
def read (server : V1) (repo : Repo) (id : Int32) : Option View :=
  ((repo.rows.get? id).filter Model.live).map server.api.router.hero

end V1

/-- A field that the payload carries is as it was written, an omitted one as it was shown before. -/
structure ReadsBack (payload : HeroUpdateV1) (before after : HeroReadV1) : Prop where
  name : after.name = payload.name.or before.name
  superpower : after.superpower = payload.superpower.or before.superpower
  powerLevel : after.powerLevel = payload.powerLevel.or before.powerLevel
  rest : after = { before with
    name := after.name, superpower := after.superpower, powerLevel := after.powerLevel, updatedAt := after.updatedAt }

/-- What an update through v1 makes of a row, as either router reads it. -/
structure UpdatedV1 (payload : HeroUpdateV1) (repo' : Repo) (id : Int32) (row : Model) : Prop where
  read : ∃ after, ReadsBack payload (.ofModel row) after ∧ ∀ reader : V1, reader.read repo' id = some (.heroV1 after)
  /-- The powers that v1 does not show stay, too. -/
  powers : payload.superpower = none → ∃ row', repo'.rows.get? id = some row' ∧ row'.powers = row.powers

theorem readsBack_patch (payload : HeroUpdateV1) (row : Model) (stamp : DateTime) :
    ReadsBack payload (.ofModel row) (.ofModel (row.patch payload.toHeroUpdate stamp)) where
  name := rfl
  superpower := by
    show ((payload.superpower.map fun superpower => [superpower]).or row.powers).bind List.head? = _
    cases payload.superpower with
    | none => rfl
    | some superpower => rfl
  powerLevel := rfl
  rest := rfl

theorem V1.read_of_live {repo : Repo} {id : Int32} {row : Model} (hrow : repo.rows.get? id = some row) (hlive : row.live = true)
    (reader : V1) : reader.read repo id = some (.heroV1 (.ofModel row)) := by
  rw [V1.read, hrow, Option.filter_some, if_pos hlive]
  cases reader <;> rfl

theorem updatedV1_of_patch {payload : HeroUpdateV1} {repo' : Repo} {id : Int32} {row : Model} {stamp : DateTime}
    (hlive : row.live = true) (hrow' : repo'.rows.get? id = some (row.patch payload.toHeroUpdate stamp)) :
    UpdatedV1 payload repo' id row where
  read := ⟨_, readsBack_patch payload row stamp, V1.read_of_live hrow' hlive⟩
  powers hnone := by
    refine ⟨_, hrow', ?_⟩
    show ((payload.superpower.map fun superpower => [superpower]).or row.powers) = row.powers
    rw [hnone]
    rfl

theorem payload_eq_some {α β : Type} {validate : α → Checked Unit} {convert : α → β}
    {body : Except Response (Except AppError α)} {b : β} (h : payload validate convert body = some b) {a : α}
    (hbody : body = .ok (.ok a)) : convert a = b := by
  subst hbody
  rw [payload] at h
  split at h
  · exact Option.some.inj h
  · cases h

variable {env : Env} {server : V1} {req : HttpRequest}

theorem V1.createData_eq {payload : HeroCreateV1} (hbody : server.createBody env req = .ok (.ok payload)) {data : HeroCreate}
    (h : (Request.api server.api .post req).createData env = some data) : data = payload.toHeroCreate := by
  cases server with
  | json => exact (payload_eq_some h hbody).symm
  | xml => exact (payload_eq_some h hbody).symm

theorem V1.updateData_eq {payload : HeroUpdateV1} (hbody : server.updateBody env req = .ok (.ok payload)) {data : HeroUpdate}
    (h : (Request.api server.api .patch req).updateData env = some data) : data = payload.toHeroUpdate := by
  cases server with
  | json => exact (payload_eq_some h hbody).symm
  | xml => exact (payload_eq_some h hbody).symm

section Runs

variable [Lowercase] {w w' : World} {response : Response}

theorem Request.Serves.createdV1 (hcrud : env.crud.Documented) (haxum : env.axum.Documented) (hinv : w.repo.Inv)
    {payload : HeroCreateV1} (hbody : server.createBody env req = .ok (.ok payload))
    (h : (Request.api server.api .post req).Serves env w w' response) (hdone : w'.log ≠ w.log) :
    ∃ id ownerId stamp, w'.log = w.log ++ [⟨heroEventResource, .create, [id]⟩] ∧ w.repo.rows.get? id = none ∧
      ∀ reader : V1, reader.read w'.repo id =
        some (.heroV1 ⟨id, payload.name, payload.superpower, payload.powerLevel, ownerId, none, stamp, stamp⟩) := by
  rcases h.cases hcrud haxum hinv with ⟨-, hlog⟩ | ⟨-, op, hdid⟩
  · exact absurd hlog hdone
  · obtain ⟨haction, hasks⟩ := hdid.asks
    cases op with
    | create ownerId data =>
      cases V1.createData_eq hbody hasks
      obtain ⟨id, stamp, hlog, hfree, hrow⟩ := hdid.created
      exact ⟨id, ownerId, stamp, hlog, hfree, V1.read_of_live hrow rfl⟩
    | _ => cases haction

theorem Request.Serves.updatedV1 (hcrud : env.crud.Documented) (haxum : env.axum.Documented) (hinv : w.repo.Inv)
    {payload : HeroUpdateV1} (hbody : server.updateBody env req = .ok (.ok payload))
    (h : (Request.api server.api .patch req).Serves env w w' response) (hdone : w'.log ≠ w.log) :
    (∀ id, (Request.api server.api .patch req).target env = some id →
      ∃ row, w.repo.rows.get? id = some row ∧ row.live = true ∧ UpdatedV1 payload w'.repo id row) ∧
    ∃ action ids, w'.log = w.log ++ [⟨heroEventResource, action, ids⟩] ∧ ∀ id row, w.repo.rows.get? id = some row →
      (id ∈ ids → row.live = true ∧ UpdatedV1 payload w'.repo id row) ∧
      (id ∉ ids → w'.repo.rows.get? id = some row) := by
  rcases h.cases hcrud haxum hinv with ⟨-, hlog⟩ | ⟨-, op, hdid⟩
  · exact absurd hlog hdone
  · obtain ⟨haction, hasks⟩ := hdid.asks
    have haction : some (if ((Request.api server.api .patch req).target env).isSome then EventAction.update else .updateMany) =
        some op.action := haction
    have hdata : op.updateData? = some payload.toHeroUpdate := by
      cases op with
      | update id ownerId data => rw [← V1.updateData_eq hbody hasks.2]; rfl
      | updateMany filters data => rw [← V1.updateData_eq hbody hasks]; rfl
      | _ => split at haction <;> cases haction
    refine ⟨fun id hid => ?_, ?_⟩
    · rw [hid] at haction
      cases op with
      | update id' ownerId data =>
        obtain rfl : id = id' := Option.some.inj (hid.symm.trans hasks.1)
        cases hdata
        obtain ⟨row, stamp, hrow, -, hlive, hrow', -⟩ := hdid.patched hinv
        exact ⟨row, hrow, hlive, updatedV1_of_patch hlive hrow'⟩
      | _ => cases haction
    · obtain ⟨ids, hlog, hrows⟩ := hdid.revised hinv hdata
      refine ⟨_, ids, hlog, fun id row hrow => ⟨fun hid => ?_, (hrows id row hrow).2⟩⟩
      obtain ⟨hlive, stamp, hrow'⟩ := (hrows id row hrow).1 hid
      exact ⟨hlive, updatedV1_of_patch hlive hrow'⟩

/-- Of either router: a payload is accepted as its conversion is, and what has been written is what is read. -/
theorem v1_faithful (hcrud : env.crud.Documented) (haxum : env.axum.Documented) {s : Service} {past : List Service}
    (hrun : Service.Run env (s :: past)) (server : V1) :
    (∀ payload : HeroCreateV1, payload.validate = .ok () ↔ payload.toHeroCreate.validate = .ok ()) ∧
    (∀ payload : HeroUpdateV1, payload.validate = .ok () ↔ payload.toHeroUpdate.validate = .ok ()) ∧
    (∀ (req : HttpRequest) (payload : HeroCreateV1) (w' : World) (response : Response),
      server.createBody env req = .ok (.ok payload) →
      (Request.api server.api .post req).Serves env s.shared w' response →
      (response.isSuccess = true ∨ w'.log ≠ s.shared.log) →
      ∃ id ownerId stamp, w'.log = s.shared.log ++ [⟨heroEventResource, .create, [id]⟩] ∧ s.shared.repo.rows.get? id = none ∧
        ∀ reader : V1, reader.read w'.repo id =
          some (.heroV1 ⟨id, payload.name, payload.superpower, payload.powerLevel, ownerId, none, stamp, stamp⟩)) ∧
    ∀ (req : HttpRequest) (payload : HeroUpdateV1) (w' : World) (response : Response),
      server.updateBody env req = .ok (.ok payload) →
      (Request.api server.api .patch req).Serves env s.shared w' response →
      (response.isSuccess = true ∨ w'.log ≠ s.shared.log) →
      (∀ id, (Request.api server.api .patch req).target env = some id →
        ∃ row, s.shared.repo.rows.get? id = some row ∧ row.live = true ∧ UpdatedV1 payload w'.repo id row) ∧
      ∃ action ids, w'.log = s.shared.log ++ [⟨heroEventResource, action, ids⟩] ∧
        ∀ id row, s.shared.repo.rows.get? id = some row →
          (id ∈ ids → row.live = true ∧ UpdatedV1 payload w'.repo id row) ∧
          (id ∉ ids → w'.repo.rows.get? id = some row) := by
  refine ⟨fun payload => ?_, fun payload => ?_, fun req payload w' response hbody h hdone => ?_,
    fun req payload w' response hbody h hdone => ?_⟩
  · rw [HeroCreateV1.validate_eq_ok, HeroCreate.validate_eq_ok]
  · rw [HeroUpdateV1.validate_eq_ok, HeroUpdate.validate_eq_ok]
  · exact h.createdV1 hcrud haxum hrun.inv hbody (hdone.elim (h.announced hcrud haxum hrun.inv rfl rfl) id)
  · exact h.updatedV1 hcrud haxum hrun.inv hbody (hdone.elim (h.announced hcrud haxum hrun.inv rfl rfl) id)

end Runs

/-! ### A creation through the JSON router -/

def flightV1 : HeroCreateV1 := ⟨"Nova", "flight", some 5⟩

def flightJson : HttpRequest :=
  ⟨"10.0.0.1", ⟨some aliceBearer, none, [], []⟩, "", "", ascii "\x7b\"name\":\"Nova\",\"superpower\":\"flight\",\"power_level\":5\x7d"⟩

/-- The crates as they decode its body. -/
def Env.deprecated : Env :=
  { Env.reference with
    axum := { Axum.reference with
      jsonHeroCreateV1 := fun req => if req.body = flightJson.body then .ok flightV1 else .error Axum.unsupportedMediaType } }

theorem Axum.deprecated_documented : Env.deprecated.axum.Documented :=
  { Axum.reference_documented with
    jsonHeroCreateV1 := fun req response h => by
      have h : (if req.body = flightJson.body then Except.ok flightV1 else .error Axum.unsupportedMediaType) =
        .error response := h
      split at h
      · cases h
      · cases h
        rfl }

theorem flight_body : V1.json.createBody Env.deprecated flightJson = .ok (.ok flightV1) := by
  have hbody : Env.deprecated.axum.jsonHeroCreateV1 flightJson = .ok flightV1 := by simp [Env.deprecated]
  show (Env.deprecated.axum.jsonHeroCreateV1 flightJson).map Except.ok = _
  rw [hbody]
  rfl

theorem flight_passes : Passes Env.deprecated (.api .v1Json .post flightJson) (.create "alice" flightV1.toHeroCreate) where
  mock := rfl
  limit := show 1 ≤ 60 by decide
  asks := by
    have hvalid : flightV1.validate = .ok () := by
      rw [HeroCreateV1.validate_eq_ok, ← HeroCreate.validate_eq_ok]
      decide +kernel
    refine ⟨rfl, ?_⟩
    show payload HeroCreateV1.validate HeroCreateV1.toHeroCreate (V1.json.createBody Env.deprecated flightJson) = _
    rw [flight_body]
    simp only [payload, hvalid]
  granted := ⟨"e30." ++ aliceSegment ++ ".s", "alice", (congrArg Except.toOption (@bearerToken_alice flightJson.headers rfl) :),
    ⟨aliceClaims, OidcVerifier.decode_reference rfl splitOn_alice, by decide, rfl⟩, rfl⟩

theorem v1_faithful_flight : let _ := Lowercase.ascii
    ∃ w' response, (Request.api .v1Json .post flightJson).Serves Env.deprecated Service.fresh.shared w' response ∧
      ∃ id ownerId stamp, ∀ reader : V1, reader.read w'.repo id =
        some (.heroV1 ⟨id, some "Nova", some "flight", some 5, ownerId, none, stamp, stamp⟩) := by
  intro _
  have hrun : Service.Run Env.deprecated [.fresh] := .start ⟨(if_pos rfl).mpr rfl, rfl⟩
  obtain ⟨w', response, hserves, hdone⟩ := flight_passes.serves Craftainer.reference_documented (.inl rfl) hrun.inv rfl
    (fun _ (hfull : (1 : Int32) = Int32.maxValue) => absurd hfull (by decide)) trivial
  obtain ⟨id, ownerId, stamp, -, -, hread⟩ := (v1_faithful Craftainer.reference_documented Axum.deprecated_documented hrun
    .json).2.2.1 flightJson flightV1 w' response flight_body hserves (.inr hdone)
  exact ⟨w', response, hserves, id, ownerId, stamp, hread⟩

end TemplateAxum
