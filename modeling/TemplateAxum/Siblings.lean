import TemplateAxum.Lib.Similar
import TemplateAxum.Reference

/-!
# The JSON and XML routers are one API

The v2 JSON and XML handlers are similar programs: a request and its twin make the same calls, and
their responses differ in the representation of the records only. So in any run each request may go
to either router.
-/

namespace TemplateAxum

open Prog

variable {env : Env}

/-! ### Representations -/

/-- The same body, or the JSON and the XML of one view. -/
inductive Body.Represents (env : Env) : Body → Body → Prop
  | same (body : Body) : Represents env body body
  | xml {root text : String} {view : View} (h : env.xml.toStringWithRoot root view = .ok text) :
      Represents env (.json view) (.xml text)
  | json {root text : String} {view : View} (h : env.xml.toStringWithRoot root view = .ok text) :
      Represents env (.xml text) (.json view)

theorem Body.Represents.symm {body body' : Body} (h : body.Represents env body') : body'.Represents env body := by
  cases h with
  | same => exact .same _
  | xml htext => exact .json htext
  | json htext => exact .xml htext

/-- Responses with one status, the same headers but for `content-type`, and bodies of the same records. -/
structure Response.Sibling (env : Env) (response response' : Response) : Prop where
  status : response'.status = response.status
  headers : response'.headers.filter (·.1 ≠ "content-type") = response.headers.filter (·.1 ≠ "content-type")
  body : response.body.Represents env response'.body

namespace Response.Sibling

variable {response response' : Response}

theorem refl (response : Response) : response.Sibling env response := ⟨rfl, rfl, .same _⟩

theorem symm (h : response.Sibling env response') : response'.Sibling env response :=
  ⟨h.status.symm, h.headers.symm, h.body.symm⟩

theorem withStatus (h : response.Sibling env response') (status : Nat) :
    (response.withStatus status).Sibling env (response'.withStatus status) := ⟨rfl, h.headers, h.body⟩

theorem withHeader (h : response.Sibling env response') (name value : String) :
    (response.withHeader name value).Sibling env (response'.withHeader name value) := by
  unfold Response.withHeader
  split
  · refine ⟨h.status, ?_, h.body⟩
    rw [List.filter_cons, List.filter_cons, h.headers]
  · exact refl _

end Response.Sibling

/-- What the crate does to a response is done to either representation alike. -/
structure Craftainer.ForAnyRepresentation (crud : Craftainer) : Prop where
  /-- `not_modified` looks at `If-None-Match`. -/
  notModified : ∀ headers contentType etag, crud.notModified { headers with contentType } etag = crud.notModified headers etag
  /-- `revalidation_headers` are header parts made of the tag. -/
  revalidationHeaders : ∀ etag, (∃ headers, ∀ response : Response,
      crud.revalidationHeaders etag response = { response with headers := headers ++ response.headers }) ∨
    ∃ failed, ∀ response, crud.revalidationHeaders etag response = failed

/-- A serializer that takes every view. -/
def QuickXml.Total (xml : QuickXml) : Prop := ∀ root view, ∃ text, xml.toStringWithRoot root view = .ok text

theorem Response.Sibling.revalidationHeaders {response response' : Response} (h : response.Sibling env response')
    (hany : env.crud.ForAnyRepresentation) (etag : String) :
    (env.crud.revalidationHeaders etag response).Sibling env (env.crud.revalidationHeaders etag response') := by
  rcases hany.revalidationHeaders etag with ⟨headers, heq⟩ | ⟨failed, heq⟩
  · rw [heq, heq]
    refine ⟨h.status, ?_, h.body⟩
    rw [List.filter_append, List.filter_append, h.headers]
  · rw [heq, heq]
    exact refl failed

/-! ### Twins -/

/-- The XML twin of a JSON request: another content type, and a body that decodes to the same payload
where the method has one. -/
structure Twins (env : Env) (method : Method) (json xml : HttpRequest) : Prop where
  same : ∃ contentType body, xml = { json with headers := { json.headers with contentType }, body }
  create : method = .post → ∃ payload : HeroCreate, env.axum.jsonHeroCreate json = .ok payload ∧
    heroesXml.createBody env xml = .ok (.ok payload)
  update : method = .patch → ∃ payload : HeroUpdate, env.axum.jsonHeroUpdate json = .ok payload ∧
    heroesXml.updateBody env xml = .ok (.ok payload)

/-- The handlers of the two routers, at any stage. -/
abbrev Alike (env : Env) : Prog Op Op.Ans Response Response → Prog Op Op.Ans Response Response → Prop :=
  Similar (Response.Sibling env) Eq

theorem alike_respond (hxml : env.xml.Total) (root : String) (view : View) (after : Response → Response)
    (hafter : ∀ response response', response.Sibling env response' → (after response).Sibling env (after response')) :
    Similar (Response.Sibling env) Eq
      (ofExcept (heroes.respond env root view) >>= fun response => pure (heroes.withSunset (after response)) : Handler Response)
      (ofExcept (heroesXml.respond env root view) >>= fun response => pure (heroesXml.withSunset (after response))) := by
  rcases hxml root view with ⟨text, htext⟩
  have hrespond : heroesXml.respond env root view = .ok ⟨200, [("content-type", "application/xml")], .xml text⟩ := by
    show xmlResponse env root view = _
    rw [xmlResponse, htext]
  rw [hrespond]
  exact .ret (hafter _ _ ⟨rfl, rfl, .xml htext⟩)

section Handlers

variable {json : HttpRequest} {contentType : Option HeaderValue} {body : List UInt8}

/-- The twin's headers. -/
abbrev HttpRequest.twin (json : HttpRequest) (contentType : Option HeaderValue) (body : List UInt8) : HttpRequest :=
  { json with headers := { json.headers with contentType }, body }

theorem alike_create (hxml : env.xml.Total) {payload : HeroCreate} (hjson : env.axum.jsonHeroCreate json = .ok payload)
    (hxmlBody : heroesXml.createBody env (json.twin contentType body) = .ok (.ok payload)) :
    Alike env (heroes.create env json) (heroesXml.create env (json.twin contentType body)) := by
  have hbody : heroes.createBody env json = .ok (.ok payload) := by
    show (env.axum.jsonHeroCreate json).map Except.ok = _
    rw [hjson]
    rfl
  unfold ApiRouter.create
  rw [hbody, hxmlBody]
  refine .bind_same _ fun claims => .mapError (E := Eq) ?_ fun e e' he => he ▸ rfl
  refine .bind_same _ fun _ => .bind_same _ fun _ => .bind_same _ fun payload => .bind_same _ fun _ => ?_
  refine .bind_same _ fun ownerId => .bind_same _ fun hero => .bind_same _ fun _ => ?_
  exact alike_respond hxml "hero" _ (Response.withStatus 201) fun _ _ h => h.withStatus 201

theorem alike_update (hxml : env.xml.Total) {payload : HeroUpdate} (hjson : env.axum.jsonHeroUpdate json = .ok payload)
    (hxmlBody : heroesXml.updateBody env (json.twin contentType body) = .ok (.ok payload)) :
    Alike env (heroes.update env json) (heroesXml.update env (json.twin contentType body)) := by
  have hbody : heroes.updateBody env json = .ok (.ok payload) := by
    show (env.axum.jsonHeroUpdate json).map Except.ok = _
    rw [hjson]
    rfl
  unfold ApiRouter.update
  rw [hbody, hxmlBody]
  refine .bind_same _ fun claims => .bind_same _ fun query => .bind_same _ fun rawParams => ?_
  refine .mapError (E := Eq) ?_ fun e e' he => he ▸ rfl
  refine .bind_same _ fun _ => .bind_same _ fun _ => .bind_same _ fun payload => .bind_same _ fun _ => ?_
  refine .bind_same _ fun filters => .bind_same _ fun _ => ?_
  refine .bind_same _ fun ownerId => .bind_same _ fun _ => .bind_same _ fun outcome => ?_
  cases outcome with
  | one hero =>
    refine .bind_same _ fun _ => ?_
    exact alike_respond hxml "hero" _ (Response.withHeader "etag" (env.crud.recordEtag hero)) fun _ _ h => h.withHeader _ _
  | bulk result => exact .bind_same _ fun _ => alike_respond hxml _ _ id fun _ _ h => h

theorem alike_deleteHero (hxml : env.xml.Total) :
    Alike env (heroes.deleteHero env json) (heroesXml.deleteHero env (json.twin contentType body)) := by
  unfold ApiRouter.deleteHero
  refine .bind_same _ fun claims => .bind_same _ fun query => .bind_same _ fun rawParams => ?_
  refine .mapError (E := Eq) ?_ fun e e' he => he ▸ rfl
  refine .bind_same _ fun _ => .bind_same _ fun _ => .bind_same _ fun filters => .bind_same _ fun _ => ?_
  refine .bind_same _ fun includeUnpublished => .bind_same _ fun ownerId => .bind_same _ fun _ => ?_
  refine .bind_same _ fun outcome => ?_
  cases outcome with
  | one => exact .bind_same _ fun _ => .ret (.refl _)
  | bulk result => exact .bind_same _ fun _ => alike_respond hxml _ _ id fun _ _ h => h

theorem alike_listOrGet (hxml : env.xml.Total) (hany : env.crud.ForAnyRepresentation) :
    Alike env (heroes.listOrGet env json) (heroesXml.listOrGet env (json.twin contentType body)) := by
  unfold ApiRouter.listOrGet
  refine .bind_same _ fun claims => .bind_same _ fun query => .bind_same _ fun rawParams => ?_
  refine .mapError (E := Eq) ?_ fun e e' he => he ▸ rfl
  refine .bind_same _ fun _ => .bind_same _ fun archived => .bind_same _ fun filters => .bind_same _ fun sort => ?_
  refine .bind_same _ fun result => ?_
  have hsame := hany.notModified json.headers contentType (readEtag env result)
  dsimp only at hsame ⊢
  rw [hsame]
  cases env.crud.notModified json.headers (readEtag env result) with
  | some unchanged => exact .ret (Response.Sibling.refl _)
  | none =>
    have hafter := fun (response response' : Response) (h : response.Sibling env response') =>
      h.revalidationHeaders hany (readEtag env result)
    cases result with
    | one hero => exact alike_respond hxml "hero" _ _ hafter
    | many heroes => exact alike_respond hxml "heroes" _ _ hafter

end Handlers

/-! ### Requests -/

theorem similar_twins (hxml : env.xml.Total) (hany : env.crud.ForAnyRepresentation) {method : Method}
    {json xml : HttpRequest} (h : Twins env method json xml) :
    Similar (Response.Sibling env) Eq ((Request.api .v2Json method json).handle env)
      ((Request.api .v2Xml method xml).handle env) := by
  have alike : Alike env ((Request.api .v2Json method json).serve env) ((Request.api .v2Xml method xml).serve env) := by
    rcases h.same with ⟨contentType, body, rfl⟩
    cases method with
    | get => exact alike_listOrGet hxml hany
    | post =>
      rcases h.create rfl with ⟨payload, hjson, hbody⟩
      exact alike_create hxml hjson hbody
    | patch =>
      rcases h.update rfl with ⟨payload, hjson, hbody⟩
      exact alike_update hxml hjson hbody
    | delete => exact alike_deleteHero hxml
  refine alike.attempt.bind ?_
  rintro r r' (hsibling | rfl)
  · exact .ret hsibling
  · exact .ret (Response.Sibling.refl _)

/-- A request and a sibling of it; one that has no sibling stands for itself. -/
inductive Request.Sibling (env : Env) : Request → Request → Prop
  | same (request : Request) : Sibling env request request
  | xml {method : Method} {json xml : HttpRequest} (h : Twins env method json xml) :
      Sibling env (.api .v2Json method json) (.api .v2Xml method xml)
  | json {method : Method} {json xml : HttpRequest} (h : Twins env method json xml) :
      Sibling env (.api .v2Xml method xml) (.api .v2Json method json)

theorem Request.Sibling.similar (hxml : env.xml.Total) (hany : env.crud.ForAnyRepresentation) {request request' : Request}
    (h : request.Sibling env request') : Similar (Response.Sibling env) Eq (request.handle env) (request'.handle env) := by
  cases h with
  | same => exact .refl Response.Sibling.refl (fun _ => rfl) _
  | xml h => exact similar_twins hxml hany h
  | json h => exact (similar_twins hxml hany h).symm (fun _ _ h => h.symm) fun _ _ h => h.symm

/-- Served alone from `w`, the request may be answered `response` and leave `w'`. -/
def Request.Serves [Lowercase] (env : Env) (request : Request) (w w' : World) (response : Response) : Prop :=
  ∃ seg, Pool.Plays World.Answers w seg w' ∧ (request.handle env).Returns seg (.ok response)

theorem siblings_one_api [Lowercase] (hxml : env.xml.Total) (hany : env.crud.ForAnyRepresentation) :
    (∀ (request request' : Request) (w w' : World) (response : Response), request.Sibling env request' →
      request.Serves env w w' response → ∃ response', request'.Serves env w w' response' ∧ response.Sibling env response') ∧
    ∀ (swap : Nat → Request → Request) (trace : List Service), (∀ i request, Request.Sibling env request (swap i request)) →
      Service.Run env trace →
      ∃ trace', Service.Run env trace' ∧ List.Forall₂ (Pool.Mirrors swap (Response.Sibling env) Eq) trace trace' := by
  constructor
  · intro request request' w w' response hsibling hserves
    rcases hserves with ⟨seg, hplays, hreturns⟩
    rcases (hsibling.similar hxml hany).returns hreturns with ⟨r', hreturns', hends⟩
    cases hends with
    | ok h => exact ⟨_, ⟨seg, hplays, hreturns'⟩, h⟩
  · intro swap trace hswap hrun
    exact Pool.mirrored (fun i request => Request.Sibling.similar hxml hany (hswap i request)) (fun _ hs => hs.2) hrun

/-! ### A creation in either representation -/

def novaJson : HttpRequest :=
  ⟨"10.0.0.1", ⟨some aliceBearer, none, [], []⟩, "", "", ascii "\x7b\"name\":\"Nova\",\"powers\":[\"flight\"]\x7d"⟩

def novaXml : HttpRequest :=
  { novaJson with body := ascii "<hero><name>Nova</name><powers>flight</powers></hero>" }

/-- The crates as they decode these two bodies. -/
def Env.siblings : Env :=
  { Env.reference with
    axum := { Axum.reference with
      jsonHeroCreate := fun req => if req.body = novaJson.body then .ok novaData else .error Axum.unsupportedMediaType }
    xml := { QuickXml.reference with
      heroCreate := fun text =>
        if text = "<hero><name>Nova</name><powers>flight</powers></hero>" then .ok novaData else .error "unsupported" } }

theorem nova_twins : Twins Env.siblings .post novaJson novaXml where
  same := ⟨none, _, rfl⟩
  create _ := by
    have htext : String.fromUTF8? ⟨novaXml.body.toArray⟩ = some "<hero><name>Nova</name><powers>flight</powers></hero>" := by
      decide +kernel
    have hjson : Env.siblings.axum.jsonHeroCreate novaJson = .ok novaData := by simp [Env.siblings]
    refine ⟨novaData, hjson, ?_⟩
    show (Except.ok (parseXmlBody Env.siblings.xml.heroCreate novaXml.body) : Except Response _) = _
    rw [parseXmlBody, htext]
    rfl
  update h := by cases h

theorem Craftainer.reference_forAnyRepresentation : reference.ForAnyRepresentation where
  notModified _ _ _ := rfl
  revalidationHeaders etag := by
    by_cases h : HeaderValue.accepts etag = true
    · exact .inl ⟨[("etag", etag)], fun response => if_pos h⟩
    · exact .inr ⟨_, fun response => if_neg h⟩

theorem nova_passes : Passes Env.siblings (.api .v2Json .post novaJson) (.create "alice" novaData) where
  mock := rfl
  limit := by decide
  asks := ⟨rfl, by decide +kernel⟩
  granted := ⟨"e30." ++ aliceSegment ++ ".s", "alice", (congrArg Except.toOption (@bearerToken_alice novaJson.headers rfl) :),
    ⟨aliceClaims, OidcVerifier.decode_reference rfl splitOn_alice, by decide, rfl⟩, rfl⟩

theorem siblings_one_api_nova : let _ := Lowercase.ascii
    ∃ w' response response', (Request.api .v2Json .post novaJson).Serves Env.siblings Service.fresh.shared w' response ∧
      (Request.api .v2Xml .post novaXml).Serves Env.siblings Service.fresh.shared w' response' ∧
      response.Sibling Env.siblings response' := by
  intro _
  let hero : Model := novaData.row 1 "alice" 0
  have hwrite : (Repo.memory .new).Answers (.write (.create "alice" novaData)) (.ok hero)
      (.memory ⟨HeroMemoryRepository.new.records.insert 1 hero, 2⟩) := ⟨fun _ => 0, hero, _, rfl, rfl, rfl⟩
  rcases nova_passes.returns Craftainer.reference_documented (.inl rfl) (r := hero) rfl with ⟨addr, response, hret, -⟩
  rcases nova_passes.plays (w := Service.fresh.shared) addr hwrite with ⟨limiter, hplays⟩
  rcases (siblings_one_api (fun root _ => ⟨"<" ++ root ++ "/>", rfl⟩) Craftainer.reference_forAnyRepresentation).1 _ _ _ _ _
    (.xml nova_twins) ⟨_, hplays, hret⟩ with ⟨response', hserves, hsibling⟩
  exact ⟨_, response, response', ⟨_, hplays, hret⟩, hserves, hsibling⟩

end TemplateAxum
