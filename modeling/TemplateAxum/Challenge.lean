import TemplateAxum.Lib.AuthParam
import TemplateAxum.Reference
import TemplateAxum.SecurityTxt
import Mathlib.Data.List.DropRight

/-!
# The challenge of a 401

`ResourceServer::from_lookup` of `config.rs`, whose public URL goes into the `WWW-Authenticate` that
`add_resource_metadata` of `problem_details.rs` puts on every 401.
-/

open Prog

namespace TemplateAxum

open Calendar

/-! ### `config.rs` -/

/-- What `ResourceServer::from_lookup` reads of the settings. -/
structure ResourceSettings where
  appName : String
  mode : Mode
  oidcIssuerUrl : String
  oidcAudience : Option String

/-- `ResourceServer` with what the documents show of it. -/
structure PublicResource extends ResourceServer where
  name : String
  discoveryUrl : String
  scopesSupported : List String
  publicBaseUrl : String
  securityTxt : Option SecurityTxt

namespace PublicResource

def defaultAudience : String := "api"
def defaultPublicBaseUrl : String := "http://localhost:8000"

/-- `trim_end_matches('/')`. -/
def trimSlashes (url : String) : String := String.ofList (url.toList.rdropWhile (· = '/'))

def discoveryUrlFor (issuer : String) : String := trimSlashes issuer ++ "/.well-known/openid-configuration"

/-- What is left of a URL between the scheme and a last slash. -/
def authority (url : String) : Option (List Char) :=
  ((stripPrefix "https://" url).or (stripPrefix "http://" url)).map fun rest =>
    if rest.toList.getLast? = some '/' then rest.toList.dropLast else rest.toList

def isOrigin (url : String) : Bool :=
  (authority url).any fun host =>
    !host.isEmpty && !(host.any fun c => ['/', '?', '#', '@', ' '].contains c) && host.all fun c => !isControl c

/-- The problems of `PUBLIC_BASE_URL`. -/
def urlProblems (production : Bool) (publicBaseUrl : Option String) : List String :=
  (if publicBaseUrl.any fun url => !isOrigin url then ["PUBLIC_BASE_URL must be an http(s) origin with no path"] else []) ++
    if production then
      match publicBaseUrl with
      | none => ["PUBLIC_BASE_URL must be set when MODE=production"]
      | some url => if startsWith url "https://" then [] else ["PUBLIC_BASE_URL must use https:// when MODE=production"]
    else []

def issuerProblems (production : Bool) (issuer discoveryUrl : String) : List String :=
  if production then
    (if startsWith issuer "https://" then [] else ["OIDC_ISSUER_URL/OIDC_ISSUER must use https://"]) ++
      if startsWith discoveryUrl "https://" then [] else ["OIDC_DISCOVERY_URL must use https://"]
  else []

/-- The scopes, with their problems. -/
def scopesFrom (fromStr : String → Option (List String)) (raw : Option String) : List String × List String :=
  match raw with
  | none => (["openid"], [])
  | some raw =>
    match fromStr raw with
    | some scopes => (scopes, [])
    | none => ([], ["OIDC_SCOPES_SUPPORTED must be a JSON list of strings"])

section Lookup

variable (fromStr : String → Option (List String)) (parse : String → Option UtcInstant) (settings : ResourceSettings)
  (get : String → Option String) (now : UtcInstant)

def issuerOf : String := (get "OIDC_ISSUER").getD settings.oidcIssuerUrl

def discoveryUrlOf : String := (get "OIDC_DISCOVERY_URL").getD (discoveryUrlFor (issuerOf settings get))

def audienceOf : String := ((get "OIDC_AUDIENCE").or settings.oidcAudience).getD defaultAudience

/-- The file, with its problems. -/
def securityTxtOf : Option SecurityTxt × List String :=
  match SecurityTxt.fromLookup parse get now with
  | .ok file => (file, [])
  | .error found => (none, found)

def problems : List String :=
  issuerProblems (settings.mode = .production) (issuerOf settings get) (discoveryUrlOf settings get) ++
    (if (audienceOf settings get).isEmpty then ["OIDC_AUDIENCE must not be empty"] else []) ++
    (scopesFrom fromStr (get "OIDC_SCOPES_SUPPORTED")).2 ++
    urlProblems (settings.mode = .production) (get "PUBLIC_BASE_URL") ++ (securityTxtOf parse get now).2

/-- `fromStr` is `serde_json::from_str`, `parse` is `DateTime::parse_from_rfc3339`. -/
def fromLookup : Except String PublicResource :=
  if (problems fromStr parse settings get now).isEmpty then
    .ok
      { name := settings.appName
        issuer := issuerOf settings get
        discoveryUrl := discoveryUrlOf settings get
        audience := audienceOf settings get
        scopesSupported := (scopesFrom fromStr (get "OIDC_SCOPES_SUPPORTED")).1
        publicBaseUrl := trimSlashes ((get "PUBLIC_BASE_URL").getD defaultPublicBaseUrl)
        securityTxt := (securityTxtOf parse get now).1 }
  else .error ("; ".intercalate (problems fromStr parse settings get now))

end Lookup

def resourceMetadataUrl (resource : PublicResource) : String :=
  resource.publicBaseUrl ++ "/.well-known/oauth-protected-resource"

end PublicResource

/-! ### `problem_details.rs` -/

/-- A response with the extension `RejectedToken`. -/
structure Extended where
  response : Response
  rejectedToken : Bool

/-- `into_response`, with the extension. -/
def AppError.intoExtended (dev : Bool) (err : AppError) : Extended :=
  ⟨err.intoResponse dev, match err with | .invalidToken _ => true | _ => false⟩

def bearerChallenge (resourceMetadataUrl : String) (rejectedToken : Bool) : Option String :=
  let challenge := "Bearer resource_metadata=\"" ++ resourceMetadataUrl ++ "\"" ++
    if rejectedToken then ", error=\"invalid_token\"" else ""
  if HeaderValue.accepts challenge then some challenge else none

/-- `HeaderMap::insert`. -/
def Response.insertHeader (name value : String) (response : Response) : Response :=
  { response with headers := (name, value) :: response.headers.filter fun field => field.1 ≠ name }

def addResourceMetadata (resourceMetadataUrl : String) (extended : Extended) : Response :=
  if extended.response.status = 401 then
    match bearerChallenge resourceMetadataUrl extended.rejectedToken with
    | some challenge => extended.response.insertHeader "www-authenticate" challenge
    | none => extended.response
  else extended.response

/-! ### Routes -/

/-- A route as far as the token is concerned: what it does with the claims, or without. Only `decode_bearer_token`
builds an `InvalidToken`, so the response of a handler carries no extension. -/
inductive Route
  | api (handler : Claims → Prog Op Op.Ans Response Response)
  /-- An extractor before the claims may have rejected the request. -/
  | web (rejection : Option Response) (handler : Except Response WebAuthClaims → Prog Op Op.Ans Response Response)
  | unguarded (handler : Prog Op Op.Ans Response Response)

namespace Route

variable (env : Env) (req : HttpRequest)

/-- The response of a handler, however it ends. -/
def own (handler : Prog Op Op.Ans Response Response) : Prog Op Op.Ans Empty Extended := do
  match ← handler.attempt with
  | .ok response => pure ⟨response, false⟩
  | .error response => pure ⟨response, false⟩

def answer : Route → Prog Op Op.Ans Empty Extended
  | api handler => do
    match ← (authClaims env.oidc req.headers).attempt with
    | .ok claims => own (handler claims)
    | .error err => pure (err.intoExtended (env.settings.mode = .dev))
  | web (some rejection) _ => pure ⟨rejection, false⟩
  | web none handler => do
    let auth ← webAuthClaims env.oidc req.headers (env.axum.tokenQuery req.query)
    own (handler auth)
  | unguarded handler => own handler

/-- The token that the request presents to the route. -/
def token? : Route → Option String
  | api _ => (bearerToken req.headers).toOption
  | web .. => webToken req.headers (env.axum.tokenQuery req.query)
  | unguarded _ => none

def isWeb : Route → Bool
  | web .. => true
  | _ => false

/-- The token was presented and rejected: what was seen begins with its verification, which failed. -/
def Rejected (route : Route) (h : History Op Op.Ans) : Prop :=
  ∃ token seg msg, route.token? env req = some token ∧ seg <+: h ∧
    (env.oidc.decodeBearerToken token).Returns seg (.error (.invalidToken msg))

end Route

/-! ### The routes of the heroes -/

theorem attempt_own (handler : Prog Op Op.Ans Response Response) :
    (handler.attempt >>= fun r => match r with | .ok response => pure response | .error response => pure response) =
      (Route.own handler >>= fun extended => pure extended.response : Prog Op Op.Ans Empty Response) := by
  induction handler with
  | ret response => rfl
  | raise response => rfl
  | call op k ih => exact congrArg (call op) (funext ih)

/-- Without the extension, a request to an API is answered by a route that takes claims. -/
theorem handle_api (env : Env) (server : Api) (method : Method) (req : HttpRequest) :
    ∃ handler, (Request.api server method req).handle env =
      (Route.api handler).answer env req >>= fun extended => pure extended.response := by
  have hclaims : ∀ (claims : Handler Claims) (handler : Claims → Prog Op Op.Ans Response Response),
      ((claims.mapError env.problem >>= handler).attempt >>= fun r => match r with
        | .ok response => pure response
        | .error response => pure response : Prog Op Op.Ans Empty Response) =
      (claims.attempt >>= fun r => match r with
        | .ok claims => Route.own (handler claims)
        | .error err => pure (err.intoExtended (env.settings.mode = .dev))) >>= fun extended => pure extended.response := by
    intro claims handler
    induction claims with
    | ret claims => exact attempt_own (handler claims)
    | raise err => rfl
    | call op k ih => exact congrArg (call op) (funext ih)
  cases method <;> exact ⟨_, hclaims (authClaims env.oidc req.headers) _⟩

/-- And a request to the web router by one that takes them or the sign-in page. -/
theorem handle_web (env : Env) (route : WebRoute) (req : HttpRequest) :
    ∃ rejection handler, (Request.web route req).handle env =
      (Route.web rejection handler).answer env req >>= fun extended => pure extended.response := by
  have hauth : ∀ handler : Except Response WebAuthClaims → Prog Op Op.Ans Response Response,
      ((HeroesWeb.claims env req >>= handler).attempt >>= fun r => match r with
        | .ok response => pure response
        | .error response => pure response : Prog Op Op.Ans Empty Response) =
      (Route.web none handler).answer env req >>= fun extended => pure extended.response := by
    intro handler
    rw [HeroesWeb.claims, Route.answer, webAuthClaims, webAuthClaims]
    cases webToken req.headers (env.axum.tokenQuery req.query) with
    | none => exact attempt_own (handler _)
    | some token =>
      dsimp only
      induction env.oidc.decodeBearerToken token with
      | ret claims => exact attempt_own (handler _)
      | raise err => exact attempt_own (handler _)
      | call op k ih => exact congrArg (call op) (funext ih)
  cases route with
  | formPage => exact ⟨none, _, hauth _⟩
  | create => exact ⟨none, _, hauth _⟩
  | update =>
    cases hid : env.axum.pathId req.path with
    | error rejection =>
      exact ⟨some rejection, fun _ => .raise rejection, by rw [Request.handle, Request.serve, HeroesWeb.update, hid]; rfl⟩
    | ok id => exact ⟨none, _, by rw [Request.handle, Request.serve, HeroesWeb.update, hid]; exact hauth _⟩
  | delete =>
    cases hid : env.axum.pathId req.path with
    | error rejection =>
      exact ⟨some rejection, fun _ => .raise rejection, by rw [Request.handle, Request.serve, HeroesWeb.delete, hid]; rfl⟩
    | ok id => exact ⟨none, _, by rw [Request.handle, Request.serve, HeroesWeb.delete, hid]; exact hauth _⟩

/-! ### Runs -/

namespace Route

variable {env : Env} {req : HttpRequest} {h : History Op Op.Ans} {extended : Extended}

theorem rejectedToken_own {handler : Prog Op Op.Ans Response Response} (hr : (own handler).Returns h (.ok extended)) :
    extended.rejectedToken = false := by
  obtain ⟨_, _, r, -, -, hr⟩ := hr.of_bind
  cases r <;> cases hr <;> rfl

theorem rejectedToken_web {rejection : Option Response} {handler : Except Response WebAuthClaims → Prog Op Op.Ans Response Response}
    (hr : ((web rejection handler).answer env req).Returns h (.ok extended)) : extended.rejectedToken = false := by
  cases rejection with
  | some rejection =>
    cases hr
    rfl
  | none =>
    obtain ⟨_, _, _, -, -, hr⟩ := hr.of_bind
    exact rejectedToken_own hr

theorem rejectedToken_api {handler : Claims → Prog Op Op.Ans Response Response}
    (hr : ((api handler).answer env req).Returns h (.ok extended)) :
    extended.rejectedToken = true ↔ (api handler).Rejected env req h := by
  obtain ⟨seg, rest, r, rfl, hclaims, hr⟩ := hr.of_bind
  replace hclaims := hclaims.of_attempt
  unfold authClaims at hclaims
  cases htoken : bearerToken req.headers with
  | error err =>
    rw [htoken] at hclaims
    cases hclaims
    have herr : (err.intoExtended (env.settings.mode = .dev)).rejectedToken = false := by
      unfold bearerToken at htoken
      split at htoken
      · cases htoken
        rfl
      · split at htoken
        · cases htoken
          rfl
        · cases htoken
    cases hr
    rw [herr]
    constructor
    · intro hmark
      cases hmark
    · rintro ⟨_, _, _, hsome, -⟩
      rw [token?, htoken] at hsome
      cases hsome
  | ok token =>
    rw [htoken, ofExcept_ok, ret_bind] at hclaims
    have hrejected : (api handler).Rejected env req (seg ++ rest) ↔ ∃ msg, r = .error (.invalidToken msg) := by
      constructor
      · rintro ⟨token', seg', msg, htoken', hprefix, hdecode⟩
        rw [token?, htoken] at htoken'
        cases htoken'
        exact ⟨msg, hclaims.unique hdecode (List.prefix_append ..) hprefix⟩
      · rintro ⟨msg, rfl⟩
        exact ⟨token, seg, msg, by rw [token?, htoken]; rfl, List.prefix_append .., hclaims⟩
    rw [hrejected]
    cases r with
    | ok claims => simp [rejectedToken_own hr]
    | error err =>
      cases hr
      cases err <;> simp [AppError.intoExtended]

/-- The extension says that the token was rejected, but not when the sign-in page does. -/
theorem rejectedToken_iff {route : Route} (hr : (route.answer env req).Returns h (.ok extended)) :
    (extended.rejectedToken = true ↔ route.Rejected env req h) ↔ ¬ (route.isWeb = true ∧ route.Rejected env req h) := by
  cases route with
  | api handler => simp [rejectedToken_api hr, isWeb]
  | web rejection handler => simp [rejectedToken_web hr, isWeb]
  | unguarded handler =>
    have hnot : ¬ (unguarded handler).Rejected env req h := by
      rintro ⟨_, _, _, htoken, -⟩
      cases htoken
    simp [rejectedToken_own hr, hnot]

end Route

/-! ### The origin -/

/-- An optional port: a colon and digits. -/
def IsPort (text : List Char) : Prop := text = [] ∨ ∃ digits, text = ':' :: digits ∧ ∀ c ∈ digits, c.isDigit = true

/-- A name, or an address in brackets. -/
def IsHost (text : List Char) : Prop :=
  (text ≠ [] ∧ ∀ c ∈ text, c ∉ [':', '/', '?', '#', '@', '[', ']']) ∨
    ∃ address, text = '[' :: (address ++ [']']) ∧ address ≠ [] ∧ ∀ c ∈ address, c ∉ ['/', '?', '#', '@', '[', ']']

/-- `scheme://host[:port]`, without a path, a query, a fragment or user info. -/
def IsOrigin (url : String) : Prop :=
  ∃ scheme ∈ ["https://", "http://"], ∃ host port, url.toList = scheme.toList ++ (host ++ port) ∧ IsHost host ∧ IsPort port

def isPort : List Char → Bool
  | [] => true
  | ':' :: digits => digits.all Char.isDigit
  | _ => false

/-- What an authority has to be for the origin to have a host and a port. -/
def isHostPort (text : List Char) : Bool :=
  match text with
  | '[' :: rest =>
    match rest.dropWhile (· ≠ ']') with
    | ']' :: port => rest.head? ≠ some ']' && !(rest.takeWhile (· ≠ ']')).contains '[' && isPort port
    | _ => false
  | text =>
    let name := text.takeWhile (· ≠ ':')
    name ≠ [] && !name.contains '[' && !name.contains ']' && isPort (text.dropWhile (· ≠ ':'))

theorem isPort_iff {text : List Char} : isPort text = true ↔ IsPort text := by
  unfold isPort IsPort
  split
  · simp
  · simp
  · rename_i hnil hcolon
    simp only [Bool.false_eq_true, false_iff, not_or, not_exists, not_and]
    exact ⟨hnil, fun digits heq => absurd heq (hcolon digits)⟩

theorem takeWhile_append_of_stop {α : Type} {p : α → Bool} {front rest : List α} (hfront : ∀ a ∈ front, p a = true)
    (hrest : ∀ a ∈ rest.head?, p a = false) :
    (front ++ rest).takeWhile p = front ∧ (front ++ rest).dropWhile p = rest := by
  rw [List.takeWhile_append_of_pos hfront, List.dropWhile_append_of_pos hfront]
  cases rest with
  | nil => simp
  | cons a rest =>
    have ha : ¬ p a = true := by simp [hrest a rfl]
    rw [List.takeWhile_cons_of_neg ha, List.dropWhile_cons_of_neg ha, List.append_nil]
    exact ⟨rfl, rfl⟩

theorem IsPort.head {port : List Char} (h : IsPort port) : ∀ c ∈ port.head?, c = ':' := by
  obtain rfl | ⟨digits, rfl, -⟩ := h
  · simp
  · rintro c ⟨⟩
    rfl

theorem isHostPort_of {host port : List Char} (hhost : IsHost host) (hport : IsPort port) : isHostPort (host ++ port) = true := by
  obtain ⟨hne, hchars⟩ | ⟨address, rfl, hne, hchars⟩ := hhost
  · obtain ⟨htake, hdrop⟩ := @takeWhile_append_of_stop _ (fun c => c ≠ ':') host port
      (fun c hc => decide_eq_true fun heq => hchars c hc (by simp [heq])) fun c hc => by simp [hport.head c hc]
    unfold isHostPort
    split
    · rename_i rest heq
      cases host with
      | nil => exact absurd rfl hne
      | cons c host =>
        obtain ⟨rfl, -⟩ := List.cons.inj heq
        exact absurd (by simp) (hchars '[' (List.mem_cons_self ..))
    · have hopen : '[' ∉ host := fun hc => hchars _ hc (by simp)
      have hclose : ']' ∉ host := fun hc => hchars _ hc (by simp)
      simp only [htake, hdrop]
      simp [hne, hopen, hclose, isPort_iff.2 hport]
  · obtain ⟨htake, hdrop⟩ := @takeWhile_append_of_stop _ (fun c => c ≠ ']') address (']' :: port)
      (fun c hc => decide_eq_true fun heq => hchars c hc (by simp [heq])) fun c hc => by cases hc; rfl
    have hopen : '[' ∉ address := fun hc => hchars _ hc (by simp)
    have hhead : (address ++ ']' :: port).head? ≠ some ']' := by
      obtain ⟨c, address, rfl⟩ := List.exists_cons_of_ne_nil hne
      intro heq
      cases heq
      exact hchars ']' (List.mem_cons_self ..) (by simp)
    have happend : '[' :: (address ++ [']']) ++ port = '[' :: (address ++ ']' :: port) := by simp
    rw [happend, isHostPort]
    simp only [htake, hdrop]
    rw [Bool.and_eq_true, Bool.and_eq_true]
    exact ⟨⟨decide_eq_true hhead, by simp [hopen]⟩, isPort_iff.2 hport⟩

theorem of_isHostPort {text : List Char} (hchars : ∀ c ∈ text, c ∉ ['/', '?', '#', '@']) (h : isHostPort text = true) :
    ∃ host port, text = host ++ port ∧ IsHost host ∧ IsPort port := by
  unfold isHostPort at h
  split at h
  · rename_i rest
    split at h
    · rename_i port hdrop
      simp only [Bool.and_eq_true, decide_eq_true_eq, Bool.not_eq_true', ne_eq] at h
      obtain ⟨⟨hhead, hopen⟩, hport⟩ := h
      have hsplit : rest = rest.takeWhile (fun c => c ≠ ']') ++ ']' :: port := by
        rw [← hdrop, List.takeWhile_append_dropWhile]
      refine ⟨'[' :: (rest.takeWhile (fun c => c ≠ ']') ++ [']']), port, ?_, .inr ⟨_, rfl, fun hnil => ?_, fun c hc => ?_⟩,
        isPort_iff.1 hport⟩
      · rw [List.cons_append, List.append_assoc]
        exact congrArg ('[' :: ·) hsplit
      · rw [hnil] at hsplit
        exact hhead (by rw [hsplit]; rfl)
      · have hclose : c ≠ ']' := by simpa using List.mem_takeWhile_imp hc
        have hopen' : c ≠ '[' := fun heq => by
          rw [List.contains_eq_mem, decide_eq_false_iff_not] at hopen
          exact hopen (heq ▸ hc)
        have := hchars c (List.mem_cons_of_mem _ ((List.takeWhile_sublist _).subset hc))
        simp only [List.mem_cons, List.not_mem_nil, or_false, not_or] at this ⊢
        exact ⟨this.1, this.2.1, this.2.2.1, this.2.2.2, hopen', hclose⟩
    · cases h
  · simp only [Bool.and_eq_true, decide_eq_true_eq, Bool.not_eq_true', ne_eq, List.contains_eq_mem, decide_eq_false_iff_not] at h
    obtain ⟨⟨⟨hne, hopen⟩, hclose⟩, hport⟩ := h
    refine ⟨_, _, (List.takeWhile_append_dropWhile (p := fun c => c ≠ ':')).symm, .inl ⟨hne, fun c hc => ?_⟩, isPort_iff.1 hport⟩
    have hcolon : c ≠ ':' := by simpa using List.mem_takeWhile_imp hc
    have := hchars c ((List.takeWhile_sublist _).subset hc)
    simp only [List.mem_cons, List.not_mem_nil, or_false, not_or] at this ⊢
    exact ⟨hcolon, this.1, this.2.1, this.2.2.1, this.2.2.2, fun heq => hopen (heq ▸ hc), fun heq => hclose (heq ▸ hc)⟩

namespace PublicResource

/-- What `is_origin` accepts. -/
structure Accepted (url : String) (host : List Char) : Prop where
  scheme : ∃ scheme ∈ ["https://", "http://"], url.toList = scheme.toList ++ host ∨ url.toList = scheme.toList ++ host ++ ['/']
  nonempty : host ≠ []
  chars : ∀ c ∈ host, c ∉ ['/', '?', '#', '@', ' '] ∧ isControl c = false

/-- The quote and the backslash can stand in the host only. -/
theorem Accepted.mem_url {url : String} {host : List Char} (h : Accepted url host) {c : Char} (hc : c ∈ ['"', '\\']) :
    c ∈ url.toList ↔ c ∈ host := by
  obtain ⟨scheme, hscheme, htext⟩ := h.scheme
  have hnot : c ∉ scheme.toList ∧ c ≠ '/' := by
    rcases List.mem_pair.1 hscheme with rfl | rfl <;> rcases List.mem_pair.1 hc with rfl | rfl <;> decide
  rcases htext with htext | htext <;> simp [htext, hnot]

theorem of_stripPrefix {lead text rest : String} (h : stripPrefix lead text = some rest) :
    text.toList = lead.toList ++ rest.toList := by
  unfold stripPrefix at h
  split at h
  · rename_i hprefix
    obtain ⟨tail, htail⟩ := List.isPrefixOf_iff_prefix.1 hprefix
    cases h
    rw [String.toList_ofList, ← htail, ← String.length_toList, List.drop_left]
  · cases h

theorem accepted_of_isOrigin {url : String} (h : isOrigin url = true) :
    ∃ host, authority url = some host ∧ Accepted url host := by
  obtain ⟨host, hauthority, hhost⟩ := (Option.any_eq_true ..).1 h
  simp only [Bool.and_eq_true, Bool.not_eq_true', List.isEmpty_eq_false_iff, List.any_eq_false, List.all_eq_true,
    List.contains_eq_mem, decide_eq_true_eq] at hhost
  obtain ⟨⟨hne, hchars⟩, hcontrol⟩ := hhost
  refine ⟨host, hauthority, ?_, hne, fun c hc => ⟨hchars c hc, hcontrol c hc⟩⟩
  obtain ⟨rest, hrest, rfl⟩ := Option.map_eq_some_iff.1 hauthority
  obtain ⟨scheme, hscheme, htext⟩ : ∃ scheme ∈ ["https://", "http://"], url.toList = scheme.toList ++ rest.toList := by
    rcases Option.or_eq_some_iff.1 hrest with hrest | ⟨-, hrest⟩
    · exact ⟨_, List.mem_cons_self .., of_stripPrefix hrest⟩
    · exact ⟨_, List.mem_cons_of_mem _ (List.mem_cons_self ..), of_stripPrefix hrest⟩
  refine ⟨scheme, hscheme, ?_⟩
  split
  · rename_i hslash
    right
    rw [htext, List.append_assoc, List.dropLast_append_getLast? _ hslash]
  · exact .inl htext

theorem trimSlashes_of_accepted {url : String} {host : List Char} (h : Accepted url host) :
    ∃ scheme ∈ ["https://", "http://"], (trimSlashes url).toList = scheme.toList ++ host := by
  obtain ⟨scheme, hscheme, htext⟩ := h.scheme
  refine ⟨scheme, hscheme, ?_⟩
  have hlast : ∀ c ∈ (scheme.toList ++ host).getLast?, c ≠ '/' := by
    intro c hc
    rw [List.getLast?_append_of_ne_nil _ h.nonempty] at hc
    rintro rfl
    exact (h.chars '/' (List.mem_of_getLast? hc)).1 (by simp)
  have hkept : (scheme.toList ++ host).rdropWhile (· = '/') = scheme.toList ++ host := by
    refine List.rdropWhile_eq_self_iff.2 fun hne hslash => ?_
    exact hlast _ (List.getLast?_eq_some_getLast hne) (of_decide_eq_true hslash)
  rw [trimSlashes, String.toList_ofList]
  rcases htext with htext | htext
  · rw [htext, hkept]
  · rw [htext, List.rdropWhile_concat_pos _ _ _ (by rfl), hkept]

theorem isOrigin_of_urlProblems {production : Bool} {publicBaseUrl : Option String} (h : urlProblems production publicBaseUrl = []) :
    isOrigin (publicBaseUrl.getD defaultPublicBaseUrl) = true := by
  cases publicBaseUrl with
  | none => decide
  | some url =>
    have horigin := (List.append_eq_nil_iff.1 h).1
    by_contra hnot
    have hany : ((some url).any fun url => !isOrigin url) = true := by simpa using hnot
    rw [if_pos hany] at horigin
    cases horigin

variable {fromStr : String → Option (List String)} {parse : String → Option UtcInstant} {settings : ResourceSettings}
  {get : String → Option String} {now : UtcInstant} {resource : PublicResource}

theorem isOrigin_of_fromLookup (h : fromLookup fromStr parse settings get now = .ok resource) :
    isOrigin ((get "PUBLIC_BASE_URL").getD defaultPublicBaseUrl) = true ∧
      resource.publicBaseUrl = trimSlashes ((get "PUBLIC_BASE_URL").getD defaultPublicBaseUrl) := by
  unfold fromLookup at h
  split at h
  · rename_i hproblems
    cases h
    rw [List.isEmpty_iff, problems, List.append_eq_nil_iff, List.append_eq_nil_iff] at hproblems
    exact ⟨isOrigin_of_urlProblems hproblems.1.2, rfl⟩
  · cases h

/-! ### The rendered challenge -/

/-- The parameters of a challenge. -/
def challengeParams (url : String) (rejectedToken : Bool) : List (List Char × List Char) :=
  ("resource_metadata".toList, url.toList) :: if rejectedToken then [("error".toList, "invalid_token".toList)] else []

theorem bearer_token : "Bearer".toList ≠ [] ∧ ∀ c ∈ "Bearer".toList, AuthParam.isTchar c = true :=
  ⟨by simp, List.all_eq_true.1 (by decide)⟩

theorem resource_metadata_token :
    "resource_metadata".toList ≠ [] ∧ ∀ c ∈ "resource_metadata".toList, AuthParam.isTchar c = true :=
  ⟨by simp, List.all_eq_true.1 (by decide)⟩

theorem challenge_of_qdtext {url : String} (h : ∀ c ∈ url.toList, AuthParam.isQdtext c = true) (rejectedToken : Bool) :
    AuthParam.challenge ("Bearer resource_metadata=\"" ++ url ++ "\"" ++
      if rejectedToken then ", error=\"invalid_token\"" else "").toList =
      some ("Bearer".toList, challengeParams url rejectedToken) := by
  have hurl := AuthParam.unquote_append h
  cases rejectedToken with
  | false =>
    have hone := AuthParam.challenge_one bearer_token resource_metadata_token (hurl [])
    simpa [challengeParams] using hone
  | true =>
    have hname' : "error".toList ≠ [] ∧ ∀ c ∈ "error".toList, AuthParam.isTchar c = true :=
      ⟨by simp, List.all_eq_true.1 (by decide)⟩
    have htwo := AuthParam.challenge_two bearer_token resource_metadata_token hname' (hurl _)
      (AuthParam.unquote_append (List.all_eq_true.1 (by decide : "invalid_token".toList.all AuthParam.isQdtext = true)) [])
    simpa [challengeParams] using htwo

theorem qdtext_of_challenge {url : String} (hlast : url.toList.getLast? ≠ some '\\') {rejectedToken : Bool} {scheme : List Char}
    {params : List (List Char × List Char)}
    (h : AuthParam.challenge ("Bearer resource_metadata=\"" ++ url ++ "\"" ++
      if rejectedToken then ", error=\"invalid_token\"" else "").toList = some (scheme, params))
    (hparam : params.lookup "resource_metadata".toList = some url.toList) : ∀ c ∈ url.toList, AuthParam.isQdtext c = true := by
  have htext : ("Bearer resource_metadata=\"" ++ url ++ "\"" ++ if rejectedToken then ", error=\"invalid_token\"" else "").toList =
      "Bearer".toList ++ ' ' :: ("resource_metadata".toList ++ '=' :: '"' ::
        (url.toList ++ '"' :: (if rejectedToken then ", error=\"invalid_token\"" else "").toList)) := by
    simp
  rw [htext] at h
  obtain ⟨v, rest, more, rfl, hunquote⟩ := AuthParam.challenge_head bearer_token resource_metadata_token h
  rw [List.lookup_cons_self] at hparam
  rw [Option.some.inj hparam] at hunquote
  exact AuthParam.isQdtext_of_unquote hlast hunquote

/-- An accepted URL and what is made of it. -/
structure Serves (resource : PublicResource) (url : String) (host : List Char) : Prop where
  accepted : Accepted url host
  authority : authority url = some host
  stored : ∃ scheme ∈ ["https://", "http://"], resource.publicBaseUrl.toList = scheme.toList ++ host

theorem serves_of_fromLookup (h : fromLookup fromStr parse settings get now = .ok resource) :
    ∃ host, resource.Serves ((get "PUBLIC_BASE_URL").getD defaultPublicBaseUrl) host := by
  obtain ⟨horigin, hstored⟩ := isOrigin_of_fromLookup h
  obtain ⟨host, hauthority, haccepted⟩ := accepted_of_isOrigin horigin
  exact ⟨host, haccepted, hauthority, hstored ▸ trimSlashes_of_accepted haccepted⟩

namespace Serves

variable {url : String} {host : List Char}

theorem metadataUrl (h : resource.Serves url host) : ∃ scheme ∈ ["https://", "http://"],
    resource.resourceMetadataUrl.toList = scheme.toList ++ host ++ "/.well-known/oauth-protected-resource".toList := by
  obtain ⟨scheme, hscheme, hstored⟩ := h.stored
  exact ⟨scheme, hscheme, by rw [resourceMetadataUrl, String.toList_append, hstored]⟩

/-- The literal parts of the URL stand for themselves. -/
theorem qdtext_literal : (["https://", "http://", "/.well-known/oauth-protected-resource"].all fun text =>
    text.toList.all AuthParam.isQdtext) = true := by
  decide

theorem qdtext_iff (h : resource.Serves url host) :
    (∀ c ∈ resource.resourceMetadataUrl.toList, AuthParam.isQdtext c = true) ↔ '"' ∉ url.toList ∧ '\\' ∉ url.toList := by
  have hhost : (∀ c ∈ host, AuthParam.isQdtext c = true) ↔ '"' ∉ host ∧ '\\' ∉ host := by
    constructor
    · exact fun hall => ⟨fun hmem => absurd (hall _ hmem) (by decide), fun hmem => absurd (hall _ hmem) (by decide)⟩
    · rintro ⟨hquote, hback⟩ c hc
      have hvisible : AuthParam.isVisible c = true := by
        have hcontrol := (h.accepted.chars c hc).2
        simp only [isControl, Bool.or_eq_false_iff, Bool.and_eq_false_iff, decide_eq_false_iff_not] at hcontrol
        simp only [AuthParam.isVisible, Bool.or_eq_true, Bool.and_eq_true, decide_eq_true_eq, bne_iff_ne, ne_eq]
        right
        omega
      have hne : c ≠ '"' ∧ c ≠ '\\' := ⟨fun heq => hquote (heq ▸ hc), fun heq => hback (heq ▸ hc)⟩
      simp [AuthParam.isQdtext, hvisible, hne]
  rw [h.accepted.mem_url (by simp), h.accepted.mem_url (by simp), ← hhost]
  obtain ⟨scheme, hscheme, hmetadata⟩ := h.metadataUrl
  have hliteral := List.all_eq_true.1 qdtext_literal
  rw [hmetadata, List.forall_mem_append, List.forall_mem_append]
  refine ⟨fun hall => hall.1.2, fun hall => ⟨⟨List.all_eq_true.1 (hliteral scheme ?_), hall⟩, List.all_eq_true.1 (hliteral _ (by simp))⟩⟩
  rcases List.mem_pair.1 hscheme with rfl | rfl <;> simp

theorem getLast?_metadataUrl (h : resource.Serves url host) : resource.resourceMetadataUrl.toList.getLast? ≠ some '\\' := by
  obtain ⟨scheme, -, hmetadata⟩ := h.metadataUrl
  rw [hmetadata, List.getLast?_append_of_ne_nil _ (by simp)]
  decide

theorem bearerChallenge_eq (h : resource.Serves url host) (rejectedToken : Bool) :
    bearerChallenge resource.resourceMetadataUrl rejectedToken = some ("Bearer resource_metadata=\"" ++
      resource.resourceMetadataUrl ++ "\"" ++ if rejectedToken then ", error=\"invalid_token\"" else "") := by
  have hallows : HeaderValue.accepts ("Bearer resource_metadata=\"" ++ resource.resourceMetadataUrl ++ "\"" ++
      if rejectedToken then ", error=\"invalid_token\"" else "") = true := by
    obtain ⟨scheme, hscheme, hmetadata⟩ := h.metadataUrl
    have hliteral : (["https://", "http://", "/.well-known/oauth-protected-resource", "Bearer resource_metadata=\"", "\"",
        if rejectedToken then ", error=\"invalid_token\"" else ""].all HeaderValue.accepts) = true := by
      cases rejectedToken <;> decide
    have hhost : (host.all fun c => HeaderValue.allows c.toNat) = true := List.all_eq_true.2 fun c hc => by
      have hcontrol := (h.accepted.chars c hc).2
      simp only [isControl, Bool.or_eq_false_iff, Bool.and_eq_false_iff, decide_eq_false_iff_not] at hcontrol
      simp only [HeaderValue.allows, Bool.or_eq_true, Bool.and_eq_true, decide_eq_true_eq, bne_iff_ne, ne_eq]
      left
      omega
    have accepts : ∀ text ∈ _, HeaderValue.accepts text = true := List.all_eq_true.1 hliteral
    have hscheme' : HeaderValue.accepts scheme = true := accepts scheme (by
      rcases List.mem_pair.1 hscheme with rfl | rfl <;> simp)
    simp only [HeaderValue.accepts, String.toList_append, List.all_append, Bool.and_eq_true, hmetadata]
    exact ⟨⟨⟨accepts _ (by simp), ⟨hscheme', hhost⟩, accepts _ (by simp)⟩, accepts _ (by simp)⟩, accepts _ (by simp)⟩
  rw [bearerChallenge]
  exact if_pos hallows

theorem isOrigin_iff (h : resource.Serves url host) : IsOrigin resource.publicBaseUrl ↔ isHostPort host = true := by
  obtain ⟨scheme, hscheme, hstored⟩ := h.stored
  constructor
  · rintro ⟨scheme', hscheme', host', port, htext, hhost, hport⟩
    have hsame : host = host' ++ port := by
      rw [hstored] at htext
      rcases List.mem_pair.1 hscheme with rfl | rfl <;> rcases List.mem_pair.1 hscheme' with rfl | rfl
      · exact List.append_cancel_left htext
      · simp at htext
      · simp at htext
      · exact List.append_cancel_left htext
    rw [hsame]
    exact isHostPort_of hhost hport
  · intro hhostPort
    obtain ⟨host', port, hsplit, hhost, hport⟩ := of_isHostPort (fun c hc hmem => (h.accepted.chars c hc).1 (by
      simp only [List.mem_cons, List.not_mem_nil, or_false] at hmem ⊢
      rcases hmem with rfl | rfl | rfl | rfl <;> simp)) hhostPort
    exact ⟨scheme, hscheme, host', port, by rw [hstored, hsplit], hhost, hport⟩

end Serves
end PublicResource

/-! ### The 401 -/

/-- One `Bearer` challenge, whose `resource_metadata` is the URL and whose `error` says whether a token was rejected. -/
def Response.Challenges (url : String) (rejected : Prop) (response : Response) : Prop :=
  ∃ value params, (response.headers.filter fun field => field.1 = "www-authenticate") = [("www-authenticate", value)] ∧
    AuthParam.challenge value.toList = some ("Bearer".toList, params) ∧ (params.map Prod.fst).Nodup ∧
    params.lookup "resource_metadata".toList = some url.toList ∧
    (params.lookup "error".toList = some "invalid_token".toList ↔ rejected)

/-- What the public URL has to be. -/
def plainUrl (url : String) : Bool :=
  (PublicResource.authority url).any isHostPort && !url.toList.contains '"' && !url.toList.contains '\\'

theorem filter_insertHeader (name value : String) (response : Response) :
    ((response.insertHeader name value).headers.filter fun field => field.1 = name) = [(name, value)] := by
  simp [Response.insertHeader, List.filter_filter]

open PublicResource in
/-- Over every accepted public URL and every 401: the URL is an origin and the challenge says what it should just when
the host is followed by nothing or a port, nothing in the URL ends or escapes a quoted text, and the 401 is not the
sign-in page's for a rejected token. -/
theorem challenged_iff {fromStr : String → Option (List String)} {parse : String → Option UtcInstant}
    {settings : ResourceSettings} {get : String → Option String} {now : UtcInstant} {resource : PublicResource}
    (hlookup : fromLookup fromStr parse settings get now = .ok resource) {env : Env} {req : HttpRequest} {route : Route}
    {h : History Op Op.Ans} {extended : Extended} (hrun : (route.answer env req).Returns h (.ok extended))
    (hstatus : extended.response.status = 401) :
    (IsOrigin resource.publicBaseUrl ∧ (addResourceMetadata resource.resourceMetadataUrl extended).Challenges
      resource.resourceMetadataUrl (route.Rejected env req h)) ↔
      plainUrl ((get "PUBLIC_BASE_URL").getD defaultPublicBaseUrl) = true ∧
        ¬ (route.isWeb = true ∧ route.Rejected env req h) := by
  obtain ⟨host, hserves⟩ := serves_of_fromLookup hlookup
  have hplain : plainUrl ((get "PUBLIC_BASE_URL").getD defaultPublicBaseUrl) = true ↔
      IsOrigin resource.publicBaseUrl ∧ ∀ c ∈ resource.resourceMetadataUrl.toList, AuthParam.isQdtext c = true := by
    rw [hserves.isOrigin_iff, hserves.qdtext_iff, plainUrl, hserves.authority]
    simp [and_assoc]
  have hresponse : addResourceMetadata resource.resourceMetadataUrl extended = extended.response.insertHeader
      "www-authenticate" ("Bearer resource_metadata=\"" ++ resource.resourceMetadataUrl ++ "\"" ++
        if extended.rejectedToken then ", error=\"invalid_token\"" else "") := by
    rw [addResourceMetadata, if_pos hstatus, hserves.bearerChallenge_eq]
  have herror : (challengeParams resource.resourceMetadataUrl extended.rejectedToken).lookup "error".toList =
      some "invalid_token".toList ↔ extended.rejectedToken = true := by
    cases extended.rejectedToken <;> simp [challengeParams, List.lookup_cons]
  rw [hplain, ← Route.rejectedToken_iff hrun, hresponse]
  constructor
  · rintro ⟨horigin, value, params, hheader, hchallenge, -, hmetadata, hrejected⟩
    rw [filter_insertHeader] at hheader
    obtain ⟨-, rfl⟩ := Prod.mk.inj (List.cons.inj hheader).1
    have hqdtext := qdtext_of_challenge hserves.getLast?_metadataUrl hchallenge hmetadata
    rw [challenge_of_qdtext hqdtext] at hchallenge
    obtain ⟨-, rfl⟩ := Prod.mk.inj (Option.some.inj hchallenge)
    exact ⟨⟨horigin, hqdtext⟩, herror.symm.trans hrejected⟩
  · rintro ⟨⟨horigin, hqdtext⟩, hrejected⟩
    refine ⟨horigin, _, _, filter_insertHeader _ _ _, challenge_of_qdtext hqdtext _, ?_, ?_, herror.trans hrejected⟩
    · cases extended.rejectedToken <;> simp [challengeParams]
    · rw [challengeParams, List.lookup_cons_self]

/-- An environment in which only the public URL is set. -/
def onlyUrl (url : String) : String → Option String := fun key => if key = "PUBLIC_BASE_URL" then some url else none

def productionSettings : ResourceSettings := ⟨"template-axum", .production, "https://id.example/realms/r", none⟩

theorem epoch_lt : 0 < 2000000000 := by decide

theorem epoch_leap (h : 1000000000 ≤ 0) : (0 : Int) % 60 = 59 := absurd h (by decide)

def epoch : UtcInstant := ⟨0, 0, epoch_lt, epoch_leap⟩

/-- A request without a token. -/
theorem challenged_iff_missing : ∃ resource extended,
    PublicResource.fromLookup (fun _ => none) (fun _ => none) productionSettings (onlyUrl "https://api.example.com/") epoch =
      .ok resource ∧
    ((Route.api fun _ => .ret .noContent).answer Env.reference ⟨"", ⟨none, none, [], []⟩, "", "", []⟩).Returns [] (.ok extended) ∧
    IsOrigin resource.publicBaseUrl ∧ (addResourceMetadata resource.resourceMetadataUrl extended).Challenges
      "https://api.example.com/.well-known/oauth-protected-resource" False := by
  obtain ⟨resource, hlookup, hurl⟩ : ∃ resource, PublicResource.fromLookup (fun _ => none) (fun _ => none) productionSettings
      (onlyUrl "https://api.example.com/") epoch = .ok resource ∧
      resource.resourceMetadataUrl = "https://api.example.com/.well-known/oauth-protected-resource" :=
    ⟨_, if_pos (by decide), by decide⟩
  let extended := (AppError.unauthorized "Not authenticated").intoExtended false
  have hrun : ((Route.api fun _ => .ret .noContent).answer Env.reference ⟨"", ⟨none, none, [], []⟩, "", "", []⟩).Returns []
      (.ok extended) := .ret _
  obtain ⟨horigin, hchallenges⟩ := (challenged_iff hlookup hrun rfl).2 ⟨by decide, fun h => by cases h.1⟩
  have hnot : (Route.api fun _ => .ret .noContent).Rejected Env.reference ⟨"", ⟨none, none, [], []⟩, "", "", []⟩ [] ↔ False := by
    refine ⟨?_, False.elim⟩
    rintro ⟨_, _, _, htoken, -⟩
    cases htoken
  rw [hurl, propext hnot] at hchallenges
  exact ⟨resource, extended, hlookup, hrun, horigin, hurl ▸ hchallenges⟩

/-- Accepted in production: a port without a host, and a quote that ends the parameter. -/
theorem not_challenged :
    (∃ resource, PublicResource.fromLookup (fun _ => none) (fun _ => none) productionSettings (onlyUrl "https://:443") epoch =
      .ok resource ∧ ¬ IsOrigin resource.publicBaseUrl) ∧
    ∃ resource challenge, PublicResource.fromLookup (fun _ => none) (fun _ => none) productionSettings
      (onlyUrl "https://a\",b=\"c") epoch = .ok resource ∧ bearerChallenge resource.resourceMetadataUrl false = some challenge ∧
      AuthParam.challenge challenge.toList = some ("Bearer".toList, [("resource_metadata".toList, "https://a".toList),
        ("b".toList, "c/.well-known/oauth-protected-resource".toList)]) := by
  constructor
  · refine ⟨_, if_pos (by decide), ?_⟩
    rintro ⟨scheme, hscheme, host, port, htext, hhost, hport⟩
    have hsame : (PublicResource.trimSlashes "https://:443").toList = "https://:443".toList := by decide
    have hstored : "https://:443".toList = scheme.toList ++ (host ++ port) := hsame.symm.trans htext
    have hhostPort : isHostPort (host ++ port) = false := by
      rcases List.mem_pair.1 hscheme with rfl | rfl
      · have hrest : ":443".toList = host ++ port := @List.append_cancel_left _ "https://".toList _ _ hstored
        rw [← hrest]
        decide
      · simp at hstored
    rw [isHostPort_of hhost hport] at hhostPort
    cases hhostPort
  · refine ⟨_, "Bearer resource_metadata=\"https://a\",b=\"c/.well-known/oauth-protected-resource\"", if_pos (by decide), ?_,
      by decide⟩
    decide

end TemplateAxum
