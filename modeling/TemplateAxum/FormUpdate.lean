import TemplateAxum.HeroForm
import TemplateAxum.Served
import TemplateAxum.Lib.FormData

/-!
# Updates from the form

What the web router's update does to a row. A form always carries every field, but its power level goes through
a payload whose `None` leaves the stored one as it is. And the form of a row, sent back as it was rendered, brings
the row's data back if and only if its powers can be written into the field.
-/

namespace TemplateAxum

open Html (events controls decode)

/-- The submitted data is the data of the row, and the rest is as it was. -/
structure Replaced (fields : HeroFormFields) (row row' : Model) : Prop where
  name : row'.name = some fields.name
  powers : row'.powers = some (parsePowers fields.powers)
  powerLevel : parsePowerLevel fields.powerLevel = .ok row'.powerLevel
  rest : row' = { row with name := row'.name, powers := row'.powers, powerLevel := row'.powerLevel, updatedAt := row'.updatedAt }

theorem replaced_patch_iff {fields : HeroFormFields} {data : HeroUpdate} (hdata : fields.intoHeroUpdate = .ok data)
    (row : Model) (stamp : DateTime) :
    Replaced fields row (row.patch data stamp) ↔ row.powerLevel = none ∨ trim fields.powerLevel.toList ≠ [] := by
  obtain ⟨level, hlevel, -, -, rfl⟩ := HeroFormFields.intoHeroUpdate_eq_ok.1 hdata
  have hblank : level = none ↔ trim fields.powerLevel.toList = [] := by
    rw [← parsePowerLevel_eq_none_iff, hlevel]
    simp
  have hpatch : Replaced fields row (row.patch ⟨some fields.name, some (parsePowers fields.powers), level⟩ stamp) ↔
      level = level.or row.powerLevel := by
    refine ⟨fun h => ?_, fun h => ⟨rfl, rfl, hlevel.trans (congrArg _ h), rfl⟩⟩
    have := h.powerLevel
    rw [hlevel] at this
    exact Except.ok.inj this
  rw [hpatch, Ne, ← hblank]
  cases level with
  | none => simp [eq_comm]
  | some n => simp

section Runs

variable [Lowercase] {env : Env} {req : HttpRequest} {w w' : World} {response : Response} {id : Int32}
  {fields : HeroFormFields}

/-- The web update that was made has patched the row that the path names. -/
theorem Request.Serves.webUpdate (hcrud : env.crud.Documented) (haxum : env.axum.Documented) (hinv : w.repo.Inv)
    (hserves : (Request.web .update req).Serves env w w' response) (hdone : w'.log ≠ w.log)
    (hid : env.axum.pathId req.path = .ok id) (hform : env.axum.form req = .ok fields) :
    ∃ row data stamp, fields.intoHeroUpdate = .ok data ∧ w.repo.rows.get? id = some row ∧
      w'.repo.rows.get? id = some (row.patch data stamp) := by
  rcases hserves.cases hcrud haxum hinv with ⟨-, hlog⟩ | ⟨-, op, hdid⟩
  · exact absurd hlog hdone
  · obtain ⟨haction, hasks⟩ := hdid.asks
    cases op with
    | update id' ownerId data =>
      obtain ⟨htarget, hdata⟩ := hasks
      have hid' : id' = id := by
        have htarget : (env.axum.pathId req.path).toOption = some id' := htarget
        rw [hid] at htarget
        exact (Option.some.inj htarget).symm
      subst hid'
      obtain ⟨fields', hform', hinto⟩ := formPayload_eq hdata
      rw [hform] at hform'
      cases hform'
      obtain ⟨row, stamp, hrow, -, -, hrow', -⟩ := hdid.patched hinv
      exact ⟨row, data, stamp, hinto, hrow, hrow'⟩
    | _ => cases haction

/-- Whatever the row was, a form that was accepted has replaced its data, unless the power level was left blank and
the row has one. -/
theorem formUpdate_replaces_iff (hcrud : env.crud.Documented) (haxum : env.axum.Documented) {s : Service}
    {past : List Service} (hrun : Service.Run env (s :: past))
    (hserves : (Request.web .update req).Serves env s.shared w' response) (hdone : w'.log ≠ s.shared.log)
    (hid : env.axum.pathId req.path = .ok id) (hform : env.axum.form req = .ok fields) {row : Model}
    (hrow : s.shared.repo.rows.get? id = some row) :
    (∃ row', w'.repo.rows.get? id = some row' ∧ Replaced fields row row') ↔
      row.powerLevel = none ∨ trim fields.powerLevel.toList ≠ [] := by
  obtain ⟨row₀, data, stamp, hdata, hrow₀, hrow'⟩ := hserves.webUpdate hcrud haxum hrun.inv hdone hid hform
  rw [hrow] at hrow₀
  cases hrow₀
  rw [← replaced_patch_iff hdata row stamp, hrow']
  simp

end Runs

/-! ### The form of a row -/

/-- The fields of the form, as a browser reads them. -/
def rowForm (row : Model) (token : String) : List (List Char × List Char) :=
  (controls (events (heroRowHtml row token).toList)).map fun control => (decode control.1, decode control.2)

/-- The request sends the form as it was rendered. -/
def Resubmits (row : Model) (token : String) (req : HttpRequest) : Prop :=
  req.body = Url.bytes (FormData.encode (rowForm row token))

/-- `Form<HeroFormFields>`, of a body that has the three fields. -/
def ReadsForm (axum : Axum) (req : HttpRequest) : Prop :=
  ∀ text (fields : HeroFormFields), req.body = Url.bytes text →
    UrlQuery.pairs text = [(Url.bytes "name".toList, Url.bytes fields.name.toList),
      (Url.bytes "powers".toList, Url.bytes fields.powers.toList),
      (Url.bytes "power_level".toList, Url.bytes fields.powerLevel.toList)] →
    axum.form req = .ok fields

/-- What the form of a row shows. -/
def rowFields (row : Model) : HeroFormFields :=
  ⟨row.name.getD "", ", ".intercalate (row.powers.getD []), row.powerLevel.elim "" toString⟩

/-- The request is accepted, and its update leaves the data of the row as it is. -/
def Keeps (env : Env) (row : Model) (req : HttpRequest) : Prop :=
  ∃ data, (Request.web .update req).updateData env = some data ∧ ∀ stamp, row.patch data stamp = { row with updatedAt := stamp }

section Resubmission

variable {env : Env} {row : Model} {token : String} {req : HttpRequest}

theorem form_of_resubmits (htoken : '"' ∉ token.toList) (hreads : ReadsForm env.axum req) (hsends : Resubmits row token req) :
    env.axum.form req = .ok (rowFields row) := by
  refine hreads _ _ hsends ?_
  rw [FormData.pairs_encode, rowForm, controls_heroRowHtml htoken]
  rfl

theorem intoHeroUpdate_rowFields {data : HeroUpdate} : (rowFields row).intoHeroUpdate = .ok data ↔
    ValidText (row.name.getD "") ∧ ValidPowers (parsePowers (", ".intercalate (row.powers.getD []))) ∧
      data = ⟨some (row.name.getD ""), some (parsePowers (", ".intercalate (row.powers.getD []))), row.powerLevel⟩ := by
  rw [HeroFormFields.intoHeroUpdate_eq_ok]
  constructor
  · rintro ⟨level, hlevel, hname, hpowers, rfl⟩
    have hshown := parsePowerLevel_shown row.powerLevel
    rw [show parsePowerLevel (row.powerLevel.elim "" toString) = .ok level from hlevel] at hshown
    cases hshown
    exact ⟨hname, hpowers, rfl⟩
  · rintro ⟨hname, hpowers, rfl⟩
    exact ⟨row.powerLevel, parsePowerLevel_shown _, hname, hpowers, rfl⟩

/-- The update of a form that was sent back unedited changes the powers, or nothing. -/
theorem patch_rowFields_iff (hvalid : row.Valid) {data : HeroUpdate} (hdata : (rowFields row).intoHeroUpdate = .ok data)
    (stamp : DateTime) :
    row.patch data stamp = { row with updatedAt := stamp } ↔ ∀ power ∈ row.powers.getD [], Separable power := by
  obtain ⟨-, -, rfl⟩ := intoHeroUpdate_rowFields.1 hdata
  obtain ⟨name, hname, -⟩ := hvalid.name
  obtain ⟨powers, hpowers, hvalidPowers⟩ := hvalid.powers
  rw [hpowers, Option.getD_some, ← parsePowers_join hvalidPowers]
  constructor
  · intro h
    have hpatched : some (parsePowers (", ".intercalate powers)) = some powers := congrArg Model.powers h
    exact Option.some.inj hpatched
  · intro h
    rw [h, Model.patch, hname, hpowers]
    cases row
    simp_all

end Resubmission

/-- A row that is sent back unedited is kept if and only if its powers hold no comma and no whitespace at their ends. -/
theorem resubmit_keeps_iff [Lowercase] {env : Env} (hcrud : env.crud.Documented) (haxum : env.axum.Documented) {row : Model}
    (hvalid : row.Valid) {token : String} (htoken : '"' ∉ token.toList) {req : HttpRequest} (hreads : ReadsForm env.axum req)
    (hsends : Resubmits row token req) :
    (Keeps env row req ↔ ∀ power ∈ row.powers.getD [], Separable power) ∧
    ∀ (w w' : World) (response : Response), w.repo.Inv → w.repo.rows.get? row.id = some row →
      env.axum.pathId req.path = .ok row.id → (Request.web .update req).Serves env w w' response → w'.log ≠ w.log →
        ((∃ stamp, w'.repo.rows.get? row.id = some { row with updatedAt := stamp }) ↔
          ∀ power ∈ row.powers.getD [], Separable power) := by
  have hform := form_of_resubmits htoken hreads hsends
  have hpayload : (Request.web .update req).updateData env = (rowFields row).intoHeroUpdate.toOption := by
    show formPayload HeroFormFields.intoHeroUpdate (env.axum.form req) = _
    rw [hform]
    rfl
  refine ⟨⟨?_, fun h => ?_⟩, ?_⟩
  · rintro ⟨data, hdata, hkeeps⟩
    rw [hpayload] at hdata
    exact (patch_rowFields_iff hvalid (eq_ok_of_toOption hdata) 0).1 (hkeeps 0)
  · have hjoin : parsePowers (", ".intercalate (row.powers.getD [])) = row.powers.getD [] := by
      obtain ⟨powers, hpowers, hvalidPowers⟩ := hvalid.powers
      rw [hpowers] at h ⊢
      exact (parsePowers_join hvalidPowers).2 h
    have hdata : (rowFields row).intoHeroUpdate = .ok ⟨some (row.name.getD ""), some (row.powers.getD []), row.powerLevel⟩ := by
      obtain ⟨name, hname, hvalidName⟩ := hvalid.name
      obtain ⟨powers, hpowers, hvalidPowers⟩ := hvalid.powers
      refine intoHeroUpdate_rowFields.2 ⟨?_, ?_, by rw [hjoin]⟩
      · rw [hname]
        exact hvalidName
      · rw [hjoin, hpowers]
        exact hvalidPowers
    exact ⟨_, by rw [hpayload, hdata]; rfl, fun stamp => (patch_rowFields_iff hvalid hdata stamp).2 h⟩
  · intro w w' response hinv hrow hid hserves hdone
    obtain ⟨row₀, data, stamp, hdata, hrow₀, hrow'⟩ := hserves.webUpdate hcrud haxum hinv hdone hid hform
    rw [hrow] at hrow₀
    cases hrow₀
    rw [hrow']
    constructor
    · rintro ⟨stamp', heq⟩
      have hpatch := Option.some.inj heq
      have hstamp : stamp = stamp' := congrArg Model.updatedAt hpatch
      subst hstamp
      exact (patch_rowFields_iff hvalid hdata stamp).1 hpatch
    · intro h
      exact ⟨stamp, congrArg some ((patch_rowFields_iff hvalid hdata stamp).2 h)⟩

/-! ### On the reference -/

/-- A form, sent with the maintainer's token. -/
def sendForm (path body : String) : HttpRequest := ⟨"10.0.0.1", ⟨none, none, [], []⟩, path, aliceQuery, ascii body⟩

theorem tokenQuery_reference (query : String) :
    Axum.reference.tokenQuery query = Axum.field "token" (Axum.pairs query.toList) := rfl

/-- An environment that treats such a form as the reference does. -/
structure LikeReference (env : Env) : Prop where
  settings : env.settings = Env.reference.settings
  tokens : env.tokens = Env.reference.tokens
  crud : env.crud = .reference
  tokenQuery : env.axum.tokenQuery = Axum.reference.tokenQuery
  pathId : env.axum.pathId = Axum.reference.pathId
  form : env.axum.form = Axum.reference.form

theorem likeReference : LikeReference .reference := ⟨rfl, rfl, rfl, rfl, rfl, rfl⟩

section LikeReference

variable {env : Env} (henv : LikeReference env)
include henv

theorem LikeReference.passes {route : WebRoute} {path body : String} {op : WriteOp}
    (hasks : (Request.web route (sendForm path body)).Asks env op) (hscoped : op.Scoped "alice") :
    Passes env (.web route (sendForm path body)) op where
  mock := by rw [henv.settings]; rfl
  limit := by rw [henv.settings]; decide
  asks := hasks
  granted := by
    have htoken : (Request.web route (sendForm path body)).token? env = some ("e30." ++ aliceSegment ++ ".s") := by
      show env.axum.tokenQuery aliceQuery = _
      rw [henv.tokenQuery, tokenQuery_reference, alice_token]
    have hroles : (Claims.mk aliceClaims).requireAnyRole env.settings.oidcClientId op.roles = .ok () := by
      have hwrite : (Claims.mk aliceClaims).requireAnyRole "template" heroWriteRoles = .ok () := by decide
      have hdelete : (Claims.mk aliceClaims).requireAnyRole "template" heroDeleteRoles = .ok () := by decide
      rw [henv.settings]
      cases op with
      | delete id ownerId => exact hdelete
      | deleteMany filters includeUnpublished => exact hdelete
      | _ => exact hwrite
    have hvalue : env.oidc.decodeWithoutVerification ("e30." ++ aliceSegment ++ ".s") = some aliceClaims :=
      OidcVerifier.decode_reference henv.tokens splitOn_alice
    exact ⟨_, "alice", htoken, ⟨aliceClaims, hvalue, hroles, rfl⟩, hscoped⟩

theorem LikeReference.target_one (body : String) : (Request.web .update (sendForm "1" body)).target env = some 1 := by
  show (env.axum.pathId "1").toOption = some 1
  rw [henv.pathId]
  decide +kernel

/-- An update of the first hero of the service is made. -/
theorem LikeReference.exists_served [Lowercase] {s : Service} {past : List Service} (hrun : Service.Run env (s :: past))
    {stored : HeroCreate}
    (hrepo : s.shared.repo = .memory ⟨HeroMemoryRepository.new.records.insert 1 (stored.row 1 "alice" 0), 2⟩)
    {body : String} {data : HeroUpdate} (hdata : (Request.web .update (sendForm "1" body)).updateData env = some data) :
    s.shared.repo.rows.get? 1 = some (stored.row 1 "alice" 0) ∧
      ∃ w' response, (Request.web .update (sendForm "1" body)).Serves env s.shared w' response ∧ w'.log ≠ s.shared.log := by
  have hrow : s.shared.repo.rows.get? 1 = some (stored.row 1 "alice" 0) := by
    rw [hrepo]
    exact (OrdMap.get?_insert ..).trans (if_pos rfl)
  have hpasses : Passes env (.web .update (sendForm "1" body)) (.update 1 "alice" data) :=
    henv.passes ⟨rfl, henv.target_one body, hdata⟩ rfl
  have hcrud : env.crud.Documented := henv.crud ▸ Craftainer.reference_documented
  refine ⟨hrow, hpasses.serves hcrud (.inr rfl) hrun.inv ?_ (fun h => by cases h) ⟨_, hrow, rfl, rfl⟩⟩
  rw [hrun.isMemory, henv.settings]
  rfl

end LikeReference

def strongData : HeroCreate := ⟨"Nova", ["flight"], some 5⟩

/-- A service that stores a hero with a power level. -/
theorem Service.exists_strong [Lowercase] : ∃ (s : Service) (past : List Service), Service.Run Env.reference (s :: past) ∧
    s.shared.repo = .memory ⟨HeroMemoryRepository.new.records.insert 1 (strongData.row 1 "alice" 0), 2⟩ := by
  have hpasses : Passes Env.reference (.web .create (sendForm "" "name=Nova&powers=flight&power_level=5"))
      (.create "alice" strongData) := likeReference.passes ⟨rfl, by decide +kernel⟩ rfl
  exact Service.exists_stored Service.initial_fresh Craftainer.reference_documented hpasses

theorem formUpdate_replaces_iff_strong : let _ := Lowercase.ascii
    ∃ (s : Service) (w' : World) (row' : Model), s.shared.repo.rows.get? 1 = some (strongData.row 1 "alice" 0) ∧
      w'.repo.rows.get? 1 = some row' ∧ Replaced ⟨"Astra", "speed", "7"⟩ (strongData.row 1 "alice" 0) row' := by
  intro _
  obtain ⟨s, past, hrun, hrepo⟩ := Service.exists_strong
  have hdata : (Request.web .update (sendForm "1" "name=Astra&powers=speed&power_level=7")).updateData Env.reference =
      some ⟨some "Astra", some ["speed"], some 7⟩ := by decide +kernel
  obtain ⟨hrow, w', response, hserves, hdone⟩ := likeReference.exists_served hrun hrepo hdata
  have hform : Env.reference.axum.form (sendForm "1" "name=Astra&powers=speed&power_level=7") = .ok ⟨"Astra", "speed", "7"⟩ := by
    decide +kernel
  obtain ⟨row', hrow', hreplaced⟩ := (formUpdate_replaces_iff Craftainer.reference_documented Axum.reference_documented hrun
    hserves hdone (by decide +kernel) hform hrow).2 (.inr (by decide +kernel))
  exact ⟨s, w', row', hrow, hrow', hreplaced⟩

/-- The power level of a hero, left blank in its form, stays. -/
theorem not_replaced_blank : let _ := Lowercase.ascii
    ∃ (s : Service) (past : List Service) (w' : World) (response : Response), Service.Run Env.reference (s :: past) ∧
      s.shared.repo.rows.get? 1 = some (strongData.row 1 "alice" 0) ∧
      Env.reference.axum.form (sendForm "1" "name=Nova&powers=flight&power_level=") = .ok ⟨"Nova", "flight", ""⟩ ∧
      (Request.web .update (sendForm "1" "name=Nova&powers=flight&power_level=")).Serves Env.reference s.shared w' response ∧
      w'.log ≠ s.shared.log ∧
      ¬ ∃ row', w'.repo.rows.get? 1 = some row' ∧ Replaced ⟨"Nova", "flight", ""⟩ (strongData.row 1 "alice" 0) row' := by
  intro _
  obtain ⟨s, past, hrun, hrepo⟩ := Service.exists_strong
  have hdata : (Request.web .update (sendForm "1" "name=Nova&powers=flight&power_level=")).updateData Env.reference =
      some ⟨some "Nova", some ["flight"], none⟩ := by decide +kernel
  obtain ⟨hrow, w', response, hserves, hdone⟩ := likeReference.exists_served hrun hrepo hdata
  have hform : Env.reference.axum.form (sendForm "1" "name=Nova&powers=flight&power_level=") = .ok ⟨"Nova", "flight", ""⟩ := by
    decide +kernel
  refine ⟨s, past, w', response, hrun, hrow, hform, hserves, hdone, ?_⟩
  have hid : Env.reference.axum.pathId "1" = .ok 1 := by decide +kernel
  obtain ⟨row, data, stamp, hdata, hrow₀, hrow'⟩ := hserves.webUpdate Craftainer.reference_documented
    Axum.reference_documented hrun.inv hdone hid hform
  rw [hrow] at hrow₀
  cases hrow₀
  rintro ⟨row', hget, hreplaced⟩
  rw [hrow'] at hget
  cases hget
  rcases (replaced_patch_iff hdata _ stamp).1 hreplaced with h | h
  · cases h
  · exact h (by decide +kernel)

/-! A hero as the JSON router stores it. -/

def heroJson : HttpRequest :=
  ⟨"10.0.0.1", ⟨some aliceBearer, none, [], []⟩, "", "", ascii "\x7b\x7d"⟩

/-- The crates as they decode its body. -/
def Env.storing (data : HeroCreate) : Env :=
  { Env.reference with
    axum := { Axum.reference with
      jsonHeroCreate := fun req => if req.body = heroJson.body then .ok data else .error Axum.unsupportedMediaType } }

theorem Axum.storing_documented (data : HeroCreate) : (Env.storing data).axum.Documented :=
  { Axum.reference_documented with
    jsonHeroCreate := fun req response h => by
      have h : (if req.body = heroJson.body then Except.ok data else .error Axum.unsupportedMediaType) = .error response := h
      split at h
      · cases h
      · cases h
        rfl }

theorem Env.storing_run [Lowercase] {data : HeroCreate} (hdata : data.validate = .ok ()) :
    ∃ (s : Service) (past : List Service), Service.Run (Env.storing data) (s :: past) ∧
      s.shared.repo = .memory ⟨HeroMemoryRepository.new.records.insert 1 (data.row 1 "alice" 0), 2⟩ := by
  have hbody : (Env.storing data).axum.jsonHeroCreate heroJson = .ok data := by simp [Env.storing]
  have hcreate : (Request.api .v2Json .post heroJson).createData (Env.storing data) = some data := by
    show payload HeroCreate.validate id (((Env.storing data).axum.jsonHeroCreate heroJson).map .ok) = _
    simp only [hbody, Except.map, payload, hdata, id_eq]
  have htoken : (bearerToken heroJson.headers).toOption = some ("e30." ++ aliceSegment ++ ".s") :=
    congrArg Except.toOption (bearerToken_alice rfl)
  have hrole : (Claims.mk aliceClaims).requireAnyRole "template" heroWriteRoles = .ok () := by decide
  have hpasses : Passes (Env.storing data) (.api .v2Json .post heroJson) (.create "alice" data) :=
    { mock := rfl
      limit := show 1 ≤ 60 by decide
      asks := ⟨rfl, hcreate⟩
      granted := ⟨_, "alice", htoken, ⟨aliceClaims, OidcVerifier.decode_reference rfl splitOn_alice, hrole, rfl⟩, rfl⟩ }
  exact Service.exists_stored ⟨(if_pos rfl).mpr rfl, rfl⟩ Craftainer.reference_documented hpasses

theorem readsForm_of_resubmits {axum : Axum} {row : Model} {token : String} {req : HttpRequest}
    (htoken : '"' ∉ token.toList) (hsends : Resubmits row token req) (hform : axum.form req = .ok (rowFields row)) :
    ReadsForm axum req := by
  intro text fields hbody hpairs
  have htext : text = FormData.encode (rowForm row token) := Url.bytes_injective (hbody.symm.trans hsends)
  rw [htext, FormData.pairs_encode, rowForm, controls_heroRowHtml htoken] at hpairs
  simp only [List.map_cons, List.map_nil, List.cons.injEq, Prod.mk.injEq] at hpairs
  obtain ⟨⟨-, hname⟩, ⟨-, hpowers⟩, ⟨-, hlevel⟩, -⟩ := hpairs
  have hfields : fields = rowFields row := by
    obtain ⟨name, powers, level⟩ := fields
    rw [rowFields, String.toList_injective (Url.bytes_injective hname), String.toList_injective (Url.bytes_injective hpowers),
      String.toList_injective (Url.bytes_injective hlevel)]
  rw [hform, hfields]

theorem resubmits_sendForm {row : Model} {path body : String}
    (h : ascii body = Url.bytes (FormData.encode [("name".toList, (row.name.getD "").toList),
      ("powers".toList, (", ".intercalate (row.powers.getD [])).toList),
      ("power_level".toList, (row.powerLevel.elim "" toString).toList)])) : Resubmits row "" (sendForm path body) := by
  rw [Resubmits, rowForm, controls_heroRowHtml (by simp)]
  exact h

def listedData : HeroCreate := ⟨"Nova", ["flight", "speed"], some (-5)⟩

theorem resubmit_keeps_iff_listed :
    Keeps (.storing listedData) (listedData.row 1 "alice" 0)
      (sendForm "1" "name=Nova&powers=flight%2C+speed&power_level=-5") := by
  let _ := Lowercase.ascii
  have hsends : Resubmits (listedData.row 1 "alice" 0) ""
      (sendForm "1" "name=Nova&powers=flight%2C+speed&power_level=-5") := resubmits_sendForm (by decide +kernel)
  have hform : Axum.reference.form (sendForm "1" "name=Nova&powers=flight%2C+speed&power_level=-5") =
      .ok (rowFields (listedData.row 1 "alice" 0)) := by decide +kernel
  have hvalid : (listedData.row 1 "alice" 0).Valid := HeroCreate.Valid.row (HeroCreate.validate_eq_ok.1 (by decide +kernel)) _ _ _
  refine (resubmit_keeps_iff Craftainer.reference_documented (Axum.storing_documented listedData)
    hvalid (by simp) (readsForm_of_resubmits (by simp) hsends hform) hsends).1.2 ?_
  have hjoin : parsePowers (", ".intercalate listedData.powers) = listedData.powers := by decide +kernel
  intro power hpower
  have hmem : power ∈ listedData.powers := hpower
  rw [← hjoin] at hmem
  exact separable_of_mem_parsePowers hmem

def commaData : HeroCreate := ⟨"Nova", ["a,b"], some (-5)⟩

/-- A power with a comma becomes two. -/
theorem not_keeps_comma : let _ := Lowercase.ascii
    ∃ (s : Service) (past : List Service) (w' : World) (response : Response) (row' : Model),
      Service.Run (.storing commaData) (s :: past) ∧
      s.shared.repo.rows.get? 1 = some (commaData.row 1 "alice" 0) ∧ (commaData.row 1 "alice" 0).Valid ∧
      Resubmits (commaData.row 1 "alice" 0) "" (sendForm "1" "name=Nova&powers=a%2Cb&power_level=-5") ∧
      ReadsForm (Env.storing commaData).axum (sendForm "1" "name=Nova&powers=a%2Cb&power_level=-5") ∧
      (Request.web .update (sendForm "1" "name=Nova&powers=a%2Cb&power_level=-5")).Serves (.storing commaData) s.shared w'
        response ∧
      w'.repo.rows.get? 1 = some row' ∧ row'.powers = some ["a", "b"] := by
  intro _
  have henv : LikeReference (.storing commaData) := ⟨rfl, rfl, rfl, rfl, rfl, rfl⟩
  have hvalid : commaData.validate = .ok () := by decide +kernel
  obtain ⟨s, past, hrun, hrepo⟩ := Env.storing_run hvalid
  have hform : Axum.reference.form (sendForm "1" "name=Nova&powers=a%2Cb&power_level=-5") =
      .ok (rowFields (commaData.row 1 "alice" 0)) := by decide +kernel
  have hinto : (rowFields (commaData.row 1 "alice" 0)).intoHeroUpdate = .ok ⟨some "Nova", some ["a", "b"], some (-5)⟩ := by
    decide +kernel
  have hdata : (Request.web .update (sendForm "1" "name=Nova&powers=a%2Cb&power_level=-5")).updateData
      (.storing commaData) = some ⟨some "Nova", some ["a", "b"], some (-5)⟩ := by
    show formPayload HeroFormFields.intoHeroUpdate (Axum.reference.form _) = _
    rw [hform]
    show (rowFields (commaData.row 1 "alice" 0)).intoHeroUpdate.toOption = _
    rw [hinto]
    rfl
  obtain ⟨hrow, w', response, hserves, hdone⟩ := henv.exists_served hrun hrepo hdata
  have hsends : Resubmits (commaData.row 1 "alice" 0) "" (sendForm "1" "name=Nova&powers=a%2Cb&power_level=-5") :=
    resubmits_sendForm (by decide +kernel)
  have hid : (Env.storing commaData).axum.pathId "1" = .ok 1 := by
    rw [henv.pathId]
    decide +kernel
  obtain ⟨row, data, stamp, hdata', hrow₀, hrow'⟩ := hserves.webUpdate Craftainer.reference_documented
    (Axum.storing_documented commaData) hrun.inv hdone hid hform
  rw [hinto] at hdata'
  cases hdata'
  exact ⟨s, past, w', response, _, hrun, hrow, HeroCreate.Valid.row (HeroCreate.validate_eq_ok.1 hvalid) _ _ _, hsends,
    readsForm_of_resubmits (by simp) hsends hform, hserves,
    hrow', rfl⟩

end TemplateAxum
