import TemplateAxum.Passes

/-!
# Reference crates

Concrete functions for the crates around the program, as far as they matter here: each is documented
in the sense of its interface, so that what is assumed of the crates can be met.
-/

namespace TemplateAxum

open Prog

/-! ### The CRUD crate -/

namespace Craftainer

theorem mutates_raise {ε α : Type} {allowed : WriteOp → Prop} {result : WriteAnswer → α → Prop} (e : ε) :
    Mutates allowed result (raise e : Crud ε α) := rfl

/-- A bulk action counts first, and writes if there are not too many. -/
theorem mutates_bulk {α : Type} (op : WriteOp) {allowed : WriteOp → Prop} {result : WriteAnswer → α → Prop}
    {clauses : List FilterClause} {maxMatched : Nat} {finish : op.Result → α} (hallowed : allowed op)
    (hperf : ∀ r, (op.pack r).performed = true) (hresult : ∀ r, result (op.pack r) (finish r)) :
    Mutates allowed result (do
      checkBulkSize clauses maxMatched
      let r ← (Crud.write op).mapError Crud.ofRepo
      pure (finish r)) := by
  refine ⟨fun _ h => (by cases h), ?_⟩
  rintro (e | matched)
  · exact rfl
  · show Sat _ _ _ _ (((if maxMatched < matched then raise tooMany else pure ()) : Crud CrudError Unit) >>= _)
    split
    · exact rfl
    · refine ⟨?_, ?_⟩
      · rintro o ho
        cases ho
        exact ⟨hallowed, rfl⟩
      · rintro (e | r)
        · exact rfl
        · refine ⟨op, op.pack r, ?_, hallowed, hresult r⟩
          have hsome : RepoCall.written? ⟨.write op, .ok r⟩ = some (op, op.pack r) := if_pos (hperf r)
          exact List.filterMap_cons_some (l := []) hsome

theorem reference_documented : reference.Documented where
  create_eq _ _ := rfl
  get_eq _ _ := rfl
  list_reads opts := by
    refine ⟨fun _ h => (by cases h), ?_⟩
    rintro (e | heroes) <;> trivial
  resolveListOrGet_reads id skip limit scope filters sort := by
    cases id with
    | some id =>
      refine ⟨fun _ h => (by cases h), ?_⟩
      rintro (e | _ | hero) <;> trivial
    | none =>
      refine ⟨fun _ h => (by cases h), ?_⟩
      rintro (e | heroes) <;> trivial
  resolveUpdateById_eq := ⟨_, fun _ _ _ => rfl⟩
  resolveUpdate_byId id ownerId filters data maxMatched := by
    show Mutates _ _ (if filters.isEmpty then _ else _)
    split
    · refine mutates_call (fun e => ⟨_, rfl⟩) ?_ ?_
      · rintro (_ | hero) h
        · cases h
        · exact ⟨_, rfl, hero, rfl, rfl⟩
      · rintro (_ | hero) h
        · exact ⟨_, rfl⟩
        · cases h
    · exact mutates_raise _
  resolveUpdate_bulk ownerId filters data maxMatched := by
    show Mutates _ _ (if filters.isEmpty then _ else _)
    split
    · exact mutates_raise _
    · exact mutates_bulk (.updateMany _ data) ⟨_, rfl, List.mem_cons_self .., List.subset_cons_self _ _⟩
        (fun _ => rfl) fun heroes => ⟨_, rfl, heroes, rfl, rfl⟩
  resolveDelete_byId id ownerId filters maxMatched includeUnpublished := by
    show Mutates _ _ (if filters.isEmpty then _ else _)
    split
    · refine mutates_call (fun e => ⟨_, rfl⟩) ?_ ?_
      · rintro (_ | _) h
        · cases h
        · exact ⟨_, rfl, rfl, rfl⟩
      · rintro (_ | _) h
        · exact ⟨_, rfl⟩
        · cases h
    · exact mutates_raise _
  resolveDelete_bulk ownerId filters maxMatched includeUnpublished := by
    show Mutates _ _ (if filters.isEmpty then _ else _)
    split
    · exact mutates_raise _
    · exact mutates_bulk (.deleteMany _ includeUnpublished)
        ⟨_, _, rfl, List.mem_cons_self .., List.subset_cons_self _ _⟩ (fun _ => rfl) fun heroes => ⟨_, rfl, heroes, rfl, rfl⟩
  resolveDelete_eq := ⟨_, fun _ _ _ _ => rfl⟩
  checkIfMatch_iff values tags tag resource h := by
    have h : (if values.any fun value => value.toStr == some "*" then none
      else some (values.filterMap HeaderValue.toStr)) = some tags := h
    show (if values.any fun value => value.toStr == some "*" then _ else _) = _ ↔ _
    split at h
    · cases h
    · cases h
      rename_i hstar
      rw [if_neg hstar]
      split <;> simp_all
  recordEtag_accepts hero := by
    show HeaderValue.accepts (String.ofList ('"' :: List.replicate hero.updatedAt.toNat '1' ++ ['"'])) = true
    rw [HeaderValue.accepts, String.toList_ofList]
    refine List.all_eq_true.2 fun c hc => ?_
    have : c = '"' ∨ c = '1' := by
      simp only [List.cons_append, List.mem_cons, List.mem_append, List.mem_replicate, List.not_mem_nil, or_false] at hc
      tauto
    rcases this with rfl | rfl <;> decide
  errorResponse_isError err := AppError.isError_intoResponse _ _

end Craftainer
/-! ### axum -/

namespace Axum

def hexValue (c : Char) : Option Nat :=
  if c.isDigit then some (c.toNat - '0'.toNat)
  else if 'a' ≤ c ∧ c ≤ 'f' then some (c.toNat - 'a'.toNat + 10)
  else if 'A' ≤ c ∧ c ≤ 'F' then some (c.toNat - 'A'.toNat + 10)
  else none

/-- One component of a query or a form, for ASCII content. -/
def decodeComponent : List Char → List Char
  | '%' :: hi :: lo :: rest =>
    match hexValue hi, hexValue lo with
    | some x, some y => Char.ofNat (16 * x + y) :: decodeComponent rest
    | _, _ => '%' :: decodeComponent (hi :: lo :: rest)
  | '+' :: rest => ' ' :: decodeComponent rest
  | c :: rest => c :: decodeComponent rest
  | [] => []

/-- The pairs of a query or a form. -/
def pairs (text : List Char) : List (String × String) :=
  ((text.splitOn '&').filter fun pair => !pair.isEmpty).map fun pair =>
    (String.ofList (decodeComponent (pair.takeWhile (· != '='))),
      String.ofList (decodeComponent ((pair.dropWhile (· != '=')).drop 1)))

def field (name : String) (fields : List (String × String)) : Option String :=
  (fields.find? fun field => field.1 == name).map Prod.snd

def rejection (status : Nat) (text : String) : Response := ⟨status, [], .text text⟩

def optional {α : Type} (parse : List Char → Option α) (value : Option String) : Except Response (Option α) :=
  match value with
  | none => .ok none
  | some text =>
    match parse text.toList with
    | some a => .ok (some a)
    | none => .error (rejection 400 "Failed to deserialize query string")

def unsupportedMediaType : Response := rejection 415 "Expected request with `Content-Type: application/json`"

/-- No request has a JSON content type here. -/
def reference : Axum where
  listQuery query :=
    let fields := pairs query.toList
    match optional parseI32 (field "id" fields), optional digitsValue (field "skip" fields),
      optional digitsValue (field "limit" fields) with
    | .ok id, .ok skip, .ok limit => .ok ⟨id, skip, limit⟩
    | .error response, _, _ => .error response
    | _, .error response, _ => .error response
    | _, _, .error response => .error response
  rawParams query := .ok (pairs query.toList)
  tokenQuery query := field "token" (pairs query.toList)
  pathId path :=
    match parseI32 path.toList with
    | some id => .ok id
    | none => .error (rejection 400 "Invalid URL")
  jsonHeroCreate _ := .error unsupportedMediaType
  jsonHeroUpdate _ := .error unsupportedMediaType
  jsonHeroCreateV1 _ := .error unsupportedMediaType
  jsonHeroUpdateV1 _ := .error unsupportedMediaType
  form req :=
    let fields := pairs (req.body.map fun b => Char.ofNat b.toNat)
    .ok ⟨(field "name" fields).getD "", (field "powers" fields).getD "", (field "power_level" fields).getD ""⟩
  bytes req := .ok req.body
  redirectTo uri :=
    if HeaderValue.accepts uri then ⟨303, [("location", uri)], .empty⟩
    else rejection 500 "failed to parse header value"

theorem isError_of_optional {α : Type} {parse : List Char → Option α} {value : Option String} {response : Response}
    (h : optional parse value = .error response) : response.isError = true := by
  unfold optional at h
  split at h
  · cases h
  · split at h
    · cases h
    · cases h; rfl

theorem reference_documented : reference.Documented where
  listQuery query response h := by
    simp only [reference] at h
    split at h
    · cases h
    · rename_i hid
      cases h
      exact isError_of_optional hid
    · rename_i hskip _
      cases h
      exact isError_of_optional hskip
    · rename_i hlimit _ _
      cases h
      exact isError_of_optional hlimit
  rawParams query response h := by cases h
  pathId path response h := by
    have h : (match parseI32 path.toList with
      | some id => Except.ok id
      | none => Except.error (rejection 400 "Invalid URL")) = .error response := h
    split at h
    · cases h
    · cases h; rfl
  jsonHeroCreate req response h := by cases h; rfl
  jsonHeroUpdate req response h := by cases h; rfl
  jsonHeroCreateV1 req response h := by cases h; rfl
  jsonHeroUpdateV1 req response h := by cases h; rfl
  form req response h := by cases h
  bytes req response h := by cases h
  redirectTo_ok uri h := if_pos h
  redirectTo_err uri h := by
    show (if HeaderValue.accepts uri = true then _ else _ : Response).status = 500
    rw [h]; rfl

end Axum

/-! ### The others -/

/-- The crates as they behave on one payload. -/
def TokenCrates.reference (segment : String) (text : List UInt8) (claims : Json) : TokenCrates where
  decodeHeader _ := none
  decodingKey _ := none
  decode _ _ _ _ := none
  base64Url s := if s = segment then some text else none
  fromSlice bytes := if bytes = text then some claims else none

theorem TokenCrates.reference_documented (segment : String) (text : List UInt8) (claims : Json) :
    (reference segment text claims).Documented where
  decode_chars _ _ _ _ _ h := by cases h

theorem OidcVerifier.decode_reference {oidc : OidcVerifier} {segment : String} {text : List UInt8} {claims : Json}
    (h : oidc.crates = .reference segment text claims) {token : String}
    (htoken : (token.toList.splitOn '.')[1]? = some segment.toList) : oidc.decodeWithoutVerification token = some claims := by
  simp [decodeWithoutVerification, h, htoken, TokenCrates.reference]

/-- A serializer that does not fail. -/
def QuickXml.reference : QuickXml where
  heroCreate _ := .error "unsupported"
  heroUpdate _ := .error "unsupported"
  heroCreateV1 _ := .error "unsupported"
  heroUpdateV1 _ := .error "unsupported"
  toStringWithRoot root _ := .ok ("<" ++ root ++ "/>")

/-- The payload of a maintainer's token: segment, text and claims. -/
def aliceSegment : String :=
  "eyJzdWIiOiJhbGljZSIsInJlc291cmNlX2FjY2VzcyI6eyJ0ZW1wbGF0ZSI6eyJyb2xlcyI6WyJtYWludGFpbmVyIl19fX0"

def ascii (text : String) : List UInt8 := text.toList.map fun c => UInt8.ofNat c.toNat

def aliceText : List UInt8 :=
  ascii "\x7b\"sub\":\"alice\",\"resource_access\":\x7b\"template\":\x7b\"roles\":[\"maintainer\"]\x7d\x7d\x7d"

def aliceClaims : Json :=
  .object [("sub", .string "alice"),
    ("resource_access", .object [("template", .object [("roles", .array [.string "maintainer"])])])]

/-- `Mode::Mock` with these crates. -/
def Env.reference : Env where
  settings := ⟨.mock, "template", 60, 100⟩
  resource := ⟨"", ""⟩
  tokens := .reference aliceSegment aliceText aliceClaims
  crud := .reference
  axum := .reference
  xml := .reference

/-- The service right after it has started. -/
def Service.fresh : Service := ⟨⟨.memory .new, .mock fun _ => none, []⟩, []⟩

theorem Service.initial_fresh : Service.Initial Env.reference .fresh := ⟨(if_pos rfl).mpr rfl, rfl⟩

theorem Service.run_fresh [Lowercase] : Service.Run Env.reference [.fresh] := .start initial_fresh

/-- The form that creates a hero, sent to `/heroes?query`. -/
def createForm (query : String) : HttpRequest :=
  ⟨"10.0.0.1", ⟨none, none, [], []⟩, "", query, ascii "name=Nova&powers=flight"⟩

def novaData : HeroCreate := ⟨"Nova", ["flight"], none⟩

theorem createForm_pairs : Axum.pairs ((ascii "name=Nova&powers=flight").map fun b => Char.ofNat b.toNat) =
    [("name", "Nova"), ("powers", "flight")] := by decide +kernel

theorem createForm_data (query : String) :
    (Request.web .create (createForm query)).createData Env.reference = some novaData := by
  have hform : Env.reference.axum.form (createForm query) = .ok ⟨"Nova", "flight", ""⟩ := by
    simp only [Env.reference, Axum.reference, createForm, createForm_pairs]
    rfl
  simp only [Request.createData, hform]
  rfl

theorem createForm_token (query : String) : (Request.web .create (createForm query)).token? Env.reference =
    Axum.field "token" (Axum.pairs query.toList) := rfl

theorem createForm_passes {query token : String} (htoken : Axum.field "token" (Axum.pairs query.toList) = some token)
    (hsegment : (token.toList.splitOn '.')[1]? = some aliceSegment.toList) :
    Passes Env.reference (.web .create (createForm query)) (.create "alice" novaData) where
  mock := rfl
  limit := by decide
  asks := ⟨rfl, createForm_data query⟩
  granted := ⟨token, "alice", htoken, ⟨aliceClaims, OidcVerifier.decode_reference rfl hsegment, by decide, rfl⟩, rfl⟩

/-- A query with the maintainer's token. -/
def aliceQuery : String := "token=e30." ++ aliceSegment ++ ".s"

theorem aliceSegment_toList : ("e30." ++ aliceSegment ++ ".s").toList = "e30.".toList ++ aliceSegment.toList ++ ".s".toList := by
  rw [String.toList_append, String.toList_append]

theorem splitOn_alice : (("e30." ++ aliceSegment ++ ".s").toList.splitOn '.')[1]? = some aliceSegment.toList := by
  rw [aliceSegment_toList, aliceSegment]
  repeat rw [String.toList_ofList]
  decide +kernel

theorem alice_token : Axum.field "token" (Axum.pairs aliceQuery.toList) = some ("e30." ++ aliceSegment ++ ".s") := by
  rw [aliceQuery, String.toList_append, String.toList_append, aliceSegment]
  repeat rw [String.toList_ofList]
  decide +kernel

/-- The same token in a header. -/
def aliceBearer : HeaderValue := ⟨ascii ("Bearer e30." ++ aliceSegment ++ ".s"), by
  rw [ascii, String.toList_append, String.toList_append, aliceSegment]
  repeat rw [String.toList_ofList]
  decide +kernel⟩

theorem toStr_ascii {text : String} (htext : text.toList.all (fun c => decide (c.toNat < 127)) = true) {value : HeaderValue}
    (hbytes : value.bytes = ascii text) : value.toStr = some text := by
  have hchar : ∀ c ∈ text.toList, (UInt8.ofNat c.toNat).toNat = c.toNat := by
    intro c hc
    have := List.all_eq_true.1 htext c hc
    simp only [decide_eq_true_eq] at this
    simp
    omega
  have hall : value.bytes.all (fun b => decide (b.toNat < 127)) = true := by
    rw [hbytes, ascii, List.all_map]
    refine List.all_eq_true.2 fun c hc => ?_
    rw [Function.comp_apply, hchar c hc]
    exact List.all_eq_true.1 htext c hc
  rw [HeaderValue.toStr, if_pos hall, hbytes, ascii, List.map_map]
  have hmap : text.toList.map ((fun b => Char.ofNat b.toNat) ∘ fun c => UInt8.ofNat c.toNat) = text.toList := by
    conv_rhs => rw [← List.map_id text.toList]
    exact List.map_congr_left fun c hc => by simp [hchar c hc]
  rw [hmap, String.ofList_toList]

theorem stripPrefix_append (lead rest : String) : stripPrefix lead (lead ++ rest) = some rest := by
  simp [stripPrefix, String.toList_append, ← String.length_toList]

theorem bearerToken_alice {headers : Headers} (h : headers.authorization = some aliceBearer) :
    bearerToken headers = .ok ("e30." ++ aliceSegment ++ ".s") := by
  have htext : "Bearer e30." ++ aliceSegment ++ ".s" = "Bearer " ++ ("e30." ++ aliceSegment ++ ".s") := by
    have hlead : "Bearer e30." = "Bearer " ++ "e30." := rfl
    rw [hlead, String.append_assoc, String.append_assoc, String.append_assoc]
  have hstr : aliceBearer.toStr = some ("Bearer " ++ ("e30." ++ aliceSegment ++ ".s")) := by
    rw [← htext]
    refine toStr_ascii ?_ (by rw [aliceBearer])
    rw [String.toList_append, String.toList_append, aliceSegment]
    repeat rw [String.toList_ofList]
    decide +kernel
  rw [bearerToken, h, Option.bind_some, hstr]
  simp only [stripPrefix_append]

theorem createForm_alice : Passes Env.reference (.web .create (createForm aliceQuery)) (.create "alice" novaData) :=
  createForm_passes alice_token splitOn_alice

/-- The service stores the hero of the form under the first id. -/
theorem Service.exists_created [Lowercase] {init : Service → Prop} (hinit : init .fresh) :
    ∃ (s s' : Service) (past : List Service), Trace init (Service.Step Env.reference) (s :: past) ∧
      Service.Step Env.reference s s' ∧ s.shared.repo.rows.get? 1 = none ∧
      s'.shared.repo.rows.get? 1 = some (novaData.row 1 "alice" 0) := by
  let hero : Model := novaData.row 1 "alice" 0
  let repo : Repo := .memory ⟨HeroMemoryRepository.new.records.insert 1 hero, 2⟩
  have hwrite : (Repo.memory .new).Answers (.write (.create "alice" novaData)) (.ok hero) repo :=
    ⟨fun _ => 0, hero, _, rfl, rfl, rfl⟩
  have hrun : Trace init (Service.Step Env.reference) _ :=
    (Trace.start hinit).next (.arrive _ (.web .create (createForm aliceQuery)))
  rcases createForm_alice.returns Craftainer.reference_documented (.inl rfl) (r := hero) rfl with ⟨addr, response, hret, -⟩
  rcases createForm_alice.plays_check Service.fresh.shared addr with ⟨limiter, hplays⟩
  rcases Pool.exists_run (i := 0) (g := [_]) hrun rfl hret hplays with ⟨past, q, hrun, hret⟩
  have hans : World.Answers { Service.fresh.shared with limiter } (.repo (.write (.create "alice" novaData))) (.ok hero)
    ⟨repo, limiter, []⟩ := ⟨repo, hwrite, rfl⟩
  rcases Pool.exists_step (i := 0) hrun rfl hret hans with ⟨s', hstep, -, hs'⟩
  exact ⟨_, s', past, hrun, hstep, rfl, by rw [hs']; rfl⟩

end TemplateAxum
