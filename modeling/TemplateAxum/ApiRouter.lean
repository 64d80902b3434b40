import TemplateAxum.Controllers

/-!
# The JSON and XML routers

`heroes.rs`, `heroes_xml.rs`, `heroes_v1.rs` and `heroes_v1_xml.rs` are one family: they differ in
the payload types, in when the body is read, and in how a record is shown. Extraction is part of a
handler: axum runs the extractors in the order of the parameters, and the first rejection is the
response.
-/

namespace TemplateAxum

open Prog

/-- What sets one of the four routers apart. A body is read in two stages: the extractor's, whose
rejection comes before the handler starts, and the handler's own, after the role check. -/
structure ApiRouter where
  Create : Type
  Update : Type
  createBody : Env → HttpRequest → Except Response (Except AppError Create)
  updateBody : Env → HttpRequest → Except Response (Except AppError Update)
  validateCreate : Create → Checked Unit
  validateUpdate : Update → Checked Unit
  toCreate : Create → HeroCreate
  toUpdate : Update → HeroUpdate
  /-- A view under an XML root; the JSON routers have no use for the root. -/
  respond : Env → String → View → Except AppError Response
  hero : Model → View
  heroes : List Model → View
  withSunset : Response → Response

namespace ApiRouter

variable (router : ApiRouter) (env : Env) (req : HttpRequest)

def listOrGet : Prog Op Op.Ans Response Response := do
  let claims ← (authClaims env.oidc req.headers).mapError env.problem
  let query ← ofExcept (env.axum.listQuery req.query)
  let rawParams ← ofExcept (env.axum.rawParams req.query)
  Prog.mapError env.problem do
    ofExcept (claims.requireAnyRole env.settings.oidcClientId heroReadRoles)
    let archived ← orUnprocessable (env.crud.parseArchivedScope rawParams)
    let filters ← orUnprocessable (env.crud.parseFilters heroFieldSpecs rawParams)
    let sort ← orUnprocessable (env.crud.parseSort heroFieldSpecs rawParams)
    let skip := query.skip.getD 0
    let limit := query.limit.getD env.crud.defaultLimit
    let result ← liftCrud AppError.ofCrud (env.crud.resolveListOrGet query.id skip limit archived filters sort)
    let etag := readEtag env result
    match env.crud.notModified req.headers etag with
    | some unchanged => pure (router.withSunset unchanged)
    | none =>
      let response ← ofExcept (match result with
        | .one hero => router.respond env "hero" (router.hero hero)
        | .many heroes => router.respond env "heroes" (router.heroes heroes))
      pure (router.withSunset (env.crud.revalidationHeaders etag response))

def create : Prog Op Op.Ans Response Response := do
  let claims ← (authClaims env.oidc req.headers).mapError env.problem
  let body ← ofExcept (router.createBody env req)
  Prog.mapError env.problem do
    checkRate env req
    ofExcept (claims.requireAnyRole env.settings.oidcClientId heroWriteRoles)
    let payload ← ofExcept body
    orUnprocessable (router.validateCreate payload)
    let ownerId ← ofExcept claims.subject
    let hero ← liftCrud AppError.ofRepo (env.crud.create ownerId (router.toCreate payload))
    publish .create [hero.id]
    let response ← ofExcept (router.respond env "hero" (router.hero hero))
    pure (router.withSunset (response.withStatus 201))

def update : Prog Op Op.Ans Response Response := do
  let claims ← (authClaims env.oidc req.headers).mapError env.problem
  let query ← ofExcept (env.axum.listQuery req.query)
  let rawParams ← ofExcept (env.axum.rawParams req.query)
  let body ← ofExcept (router.updateBody env req)
  Prog.mapError env.problem do
    checkRate env req
    ofExcept (claims.requireAnyRole env.settings.oidcClientId heroWriteRoles)
    let payload ← ofExcept body
    orUnprocessable (router.validateUpdate payload)
    let filters ← orUnprocessable (env.crud.parseFilters heroFieldSpecs rawParams)
    orUnprocessable (env.crud.rejectOnlyArchived rawParams)
    let ownerId ← ofExcept claims.subject
    enforceIfMatch env req.headers query.id rawParams
    match ← liftCrud AppError.ofCrud (env.crud.resolveUpdate query.id ownerId filters (router.toUpdate payload)
        env.settings.bulkActionMaxMatched) with
    | .one hero =>
      publish .update [hero.id]
      let response ← ofExcept (router.respond env "hero" (router.hero hero))
      pure (router.withSunset (response.withHeader "etag" (env.crud.recordEtag hero)))
    | .bulk result =>
      publish .updateMany result.ids
      let response ← ofExcept (router.respond env "bulk_update_result" (.bulk result))
      pure (router.withSunset response)

def deleteHero : Prog Op Op.Ans Response Response := do
  let claims ← (authClaims env.oidc req.headers).mapError env.problem
  let query ← ofExcept (env.axum.listQuery req.query)
  let rawParams ← ofExcept (env.axum.rawParams req.query)
  Prog.mapError env.problem do
    checkRate env req
    ofExcept (claims.requireAnyRole env.settings.oidcClientId heroDeleteRoles)
    let filters ← orUnprocessable (env.crud.parseFilters heroFieldSpecs rawParams)
    orUnprocessable (env.crud.rejectOnlyArchived rawParams)
    let includeUnpublished ← orUnprocessable (env.crud.parseBulkDeleteIncludeUnpublished rawParams)
    let ownerId ← ofExcept claims.subject
    enforceIfMatch env req.headers query.id rawParams
    match ← liftCrud AppError.ofCrud (env.crud.resolveDelete query.id ownerId filters
        env.settings.bulkActionMaxMatched includeUnpublished) with
    | .one =>
      publish .delete query.id.toList
      pure (router.withSunset .noContent)
    | .bulk result =>
      publish .deleteMany result.ids
      let response ← ofExcept (router.respond env "bulk_delete_result" (.bulk result))
      pure (router.withSunset response)

end ApiRouter

/-! ### The four routers -/

/-- `parse_xml_body`. -/
def parseXmlBody {α : Type} (fromStr : String → Except String α) (body : List UInt8) : Except AppError α :=
  match String.fromUTF8? ⟨body.toArray⟩ with
  | none => .error (.unprocessableEntity [⟨"body", "request body is not valid UTF-8"⟩])
  | some text =>
    (fromStr text).mapError fun err => .unprocessableEntity [⟨"body", "invalid XML: " ++ err⟩]

def xmlResponse (env : Env) (root : String) (view : View) : Except AppError Response :=
  match env.xml.toStringWithRoot root view with
  | .ok body => .ok ⟨200, [("content-type", "application/xml")], .xml body⟩
  | .error err => .error (.internal ("xml encode: " ++ err))

/-- `sunset_at` as an HTTP date. -/
def sunsetAt : String := "Fri, 01 Jan 2027 00:00:00 GMT"

/-- `(Sunset::new(sunset_at(), Some(link)), response).into_response()`. -/
def withSunset (link : String) (response : Response) : Response :=
  { response with
    headers := [("deprecation", "true"), ("sunset", sunsetAt), ("link", "<" ++ link ++ ">; rel=\"sunset\"")] ++
      response.headers }

/-- `heroes.rs`. -/
def heroes : ApiRouter where
  Create := HeroCreate
  Update := HeroUpdate
  createBody env req := (env.axum.jsonHeroCreate req).map .ok
  updateBody env req := (env.axum.jsonHeroUpdate req).map .ok
  validateCreate := HeroCreate.validate
  validateUpdate := HeroUpdate.validate
  toCreate payload := payload
  toUpdate payload := payload
  respond _ _ view := .ok (.json view)
  hero hero := .hero (.ofModel hero)
  heroes heroes := .heroes (heroes.map HeroRead.ofModel)
  withSunset response := response

/-- `heroes_xml.rs`. -/
def heroesXml : ApiRouter where
  Create := HeroCreate
  Update := HeroUpdate
  createBody env req := (env.axum.bytes req).map (parseXmlBody env.xml.heroCreate)
  updateBody env req := (env.axum.bytes req).map (parseXmlBody env.xml.heroUpdate)
  validateCreate := HeroCreate.validate
  validateUpdate := HeroUpdate.validate
  toCreate payload := payload
  toUpdate payload := payload
  respond := xmlResponse
  hero hero := .hero (.ofModel hero)
  heroes heroes := .heroes (heroes.map HeroRead.ofModel)
  withSunset response := response

/-- `heroes_v1.rs`. -/
def heroesV1 : ApiRouter where
  Create := HeroCreateV1
  Update := HeroUpdateV1
  createBody env req := (env.axum.jsonHeroCreateV1 req).map .ok
  updateBody env req := (env.axum.jsonHeroUpdateV1 req).map .ok
  validateCreate := HeroCreateV1.validate
  validateUpdate := HeroUpdateV1.validate
  toCreate := HeroCreateV1.toHeroCreate
  toUpdate := HeroUpdateV1.toHeroUpdate
  respond _ _ view := .ok (.json view)
  hero hero := .heroV1 (.ofModel hero)
  heroes heroes := .heroesV1 (heroes.map HeroReadV1.ofModel)
  withSunset := withSunset "/crud/v1/heroes/v2/json"

/-- `heroes_v1_xml.rs`. -/
def heroesV1Xml : ApiRouter where
  Create := HeroCreateV1
  Update := HeroUpdateV1
  createBody env req := (env.axum.bytes req).map (parseXmlBody env.xml.heroCreateV1)
  updateBody env req := (env.axum.bytes req).map (parseXmlBody env.xml.heroUpdateV1)
  validateCreate := HeroCreateV1.validate
  validateUpdate := HeroUpdateV1.validate
  toCreate := HeroCreateV1.toHeroCreate
  toUpdate := HeroUpdateV1.toHeroUpdate
  respond := xmlResponse
  hero hero := .heroV1 (.ofModel hero)
  heroes heroes := .heroesV1 (heroes.map HeroReadV1.ofModel)
  withSunset := withSunset "/crud/v1/heroes/v2/xml"

end TemplateAxum
