import TemplateAxum.World
import TemplateAxum.Lib.UrlQuery

/-!
# Does production connect encrypted

What `Settings::validate` of `config.rs` takes for the `sslmode` of the connection, and what the
connection options of `db.rs` make of the same DSN. The first reads the text after the first `?`, the
second the query of a URL.
-/

namespace TemplateAxum

/-! ### Modes -/

inductive PostgresSslMode
  | disable | allow | prefer | require | verifyCa | verifyFull
deriving DecidableEq

namespace PostgresSslMode

def name : PostgresSslMode → String
  | disable => "disable"
  | allow => "allow"
  | prefer => "prefer"
  | require => "require"
  | verifyCa => "verify-ca"
  | verifyFull => "verify-full"

/-- `parse`, without its error text, which `effective_sslmode` drops. -/
def parse (raw : String) : Option PostgresSslMode :=
  [disable, allow, prefer, require, verifyCa, verifyFull].find? fun mode => mode.name == raw

def encrypts : PostgresSslMode → Bool
  | require | verifyCa | verifyFull => true
  | _ => false

end PostgresSslMode

/-- The mode of an sqlx connection. -/
inductive PgSslMode
  | disable | allow | prefer | require | verifyCa | verifyFull
deriving DecidableEq

/-- The connection is encrypted or fails. -/
def PgSslMode.encrypts : PgSslMode → Bool
  | require | verifyCa | verifyFull => true
  | _ => false

def sqlxSslMode : PostgresSslMode → PgSslMode
  | .disable => .disable
  | .allow => .allow
  | .prefer => .prefer
  | .require => .require
  | .verifyCa => .verifyCa
  | .verifyFull => .verifyFull

/-! ### `config.rs` -/

namespace Config

/-- Times in seconds. -/
structure DbSettings where
  sslmode : Option PostgresSslMode
  poolSize : Option Nat
  poolMinSize : Option Nat
  poolRecycle : Option Nat
  poolIdleTimeout : Option Nat
  connectTimeout : Option Nat

structure Settings where
  mode : Mode
  allowMockMode : Bool
  postgresUser : String
  postgresPassword : String
  postgresDb : String
  postgresHost : String
  postgresPort : UInt16
  db : DbSettings
  s3EndpointUrl : String
  s3AccessKey : String
  s3SecretKey : String
  redisUrl : String
  oidcIssuerUrl : String

/-- The variables that are read again from the environment; `none` when `env::var` fails. -/
structure Variables where
  databaseUrl : Option String
  oidcIssuer : Option String

def startsWith (lead text : String) : Bool := lead.toList.isPrefixOf text.toList

namespace Settings

variable (settings : Settings) (vars : Variables)

def databaseUrl : String :=
  vars.databaseUrl.getD ("postgres://" ++ settings.postgresUser ++ ":" ++ settings.postgresPassword ++ "@" ++
    settings.postgresHost ++ ":" ++ toString settings.postgresPort.toNat ++ "/" ++ settings.postgresDb)

end Settings

/-- `split_once('?')?.1`. -/
def afterMark (url : List Char) : Option (List Char) := (url.dropWhile (· ≠ '?')).tail?

/-- The value of the first pair that starts with `sslmode=`. -/
def findSslmode (query : List Char) : Option (List Char) :=
  (query.splitOn '&').findSome? fun pair => pair.dropPrefix? "sslmode=".toList

namespace Settings

variable (settings : Settings) (vars : Variables)

def effectiveSslmode : Option PostgresSslMode :=
  settings.db.sslmode.orElse fun _ => do
    let query ← afterMark (settings.databaseUrl vars).toList
    let raw ← findSslmode query
    PostgresSslMode.parse (String.ofList raw)

def defaults : List (String × String × String) :=
  [("POSTGRES_PASSWORD", settings.postgresPassword, "app"),
   ("RUSTFS_ACCESS_KEY/S3_ACCESS_KEY", settings.s3AccessKey, "rustfsadmin"),
   ("RUSTFS_SECRET_KEY/S3_SECRET_KEY", settings.s3SecretKey, "rustfsadmin")]

def leftAtDefault : List String := (settings.defaults.filter fun d => d.2.1 == d.2.2).map Prod.fst

def insecure : List String :=
  (if (settings.effectiveSslmode vars).any PostgresSslMode.encrypts then []
    else ["POSTGRES_SSLMODE must be require, verify-ca, or verify-full"]) ++
  (if startsWith "https://" settings.s3EndpointUrl then [] else ["S3_ENDPOINT_URL must use https://"]) ++
  (if startsWith "rediss://" settings.redisUrl then [] else ["REDIS_URL must use rediss://"]) ++
  (if startsWith "https://" (vars.oidcIssuer.getD settings.oidcIssuerUrl) then []
    else ["OIDC_ISSUER_URL/OIDC_ISSUER must use https://"])

def validate : Except String Unit :=
  if settings.mode = .mock ∧ ¬ settings.allowMockMode then
    .error "MODE=mock requires ALLOW_MOCK_MODE=1 to be set"
  else if settings.mode ≠ .production then .ok ()
  else if settings.leftAtDefault ≠ [] then
    .error (", ".intercalate settings.leftAtDefault ++
      " must not be left at their default value when MODE=production")
  else if settings.insecure vars ≠ [] then
    .error ("; ".intercalate (settings.insecure vars) ++ " when MODE=production")
  else .ok ()

end Settings
end Config

/-! ### `db.rs` and sqlx -/

/-- Of sqlx's `PgConnectOptions` only the mode. -/
structure PgConnectOptions where
  sslMode : PgSslMode
deriving DecidableEq

def applyPgOptions (options : PgConnectOptions) (sslmode : Option PostgresSslMode) : PgConnectOptions :=
  match sslmode with
  | some mode => { options with sslMode := sqlxSslMode mode }
  | none => options

/-- sea-orm's `ConnectOptions`; times in seconds. -/
structure ConnectOptions where
  url : String
  maxConnections : Option Nat
  minConnections : Option Nat
  maxLifetime : Option Nat
  idleTimeout : Option Nat
  connectTimeout : Option Nat
  sqlxLogging : Bool
  mapSqlxPostgresOpts : PgConnectOptions → PgConnectOptions

def connectOptions (settings : Config.Settings) (vars : Config.Variables) : ConnectOptions where
  url := settings.databaseUrl vars
  maxConnections := settings.db.poolSize
  minConnections := settings.db.poolMinSize
  maxLifetime := settings.db.poolRecycle
  idleTimeout := settings.db.poolIdleTimeout
  connectTimeout := settings.db.connectTimeout
  sqlxLogging := false
  mapSqlxPostgresOpts pg := applyPgOptions pg settings.db.sslmode

def utf8 (text : String) : List UInt8 := text.toList.flatMap String.utf8EncodeChar

/-- What sqlx does with a DSN, apart from the mode: whether it takes it, and how it reads a mode. -/
structure Sqlx where
  accepts : String → Bool
  sslMode : List UInt8 → Option PgSslMode

namespace Sqlx

/-- The modes are read by their libpq names. -/
def Documented (sqlx : Sqlx) : Prop := ∀ mode : PostgresSslMode, sqlx.sslMode (utf8 mode.name) = some (sqlxSslMode mode)

variable (sqlx : Sqlx)

def isSslMode (pair : List UInt8 × List UInt8) : Bool := pair.1 == utf8 "sslmode" || pair.1 == utf8 "ssl-mode"

def readPair (options : PgConnectOptions) (pair : List UInt8 × List UInt8) : Option PgConnectOptions :=
  if isSslMode pair then (sqlx.sslMode pair.2).map fun mode => { options with sslMode := mode } else some options

def parse (url : String) : Option PgConnectOptions :=
  if sqlx.accepts url then (UrlQuery.queryPairs url.toList).foldlM sqlx.readPair ⟨.prefer⟩ else none

end Sqlx

/-- The options that a connection is opened with, if the DSN is one. -/
def ConnectOptions.pg (sqlx : Sqlx) (options : ConnectOptions) : Option PgConnectOptions :=
  (sqlx.parse options.url).map options.mapSqlxPostgresOpts

/-! ### When the two agree -/

namespace Config

/-- The pairs of the text after the first `?`, before and after the one that is taken. -/
def pairsBefore (url : List Char) : List (List Char) :=
  (((afterMark url).getD []).splitOn '&').takeWhile fun pair => (pair.dropPrefix? "sslmode=".toList).isNone

def pairsAfter (url : List Char) : List (List Char) :=
  ((((afterMark url).getD []).splitOn '&').dropWhile fun pair => (pair.dropPrefix? "sslmode=".toList).isNone).tail

/-- The text before the pair that is taken, and after it. -/
def textBefore (url : List Char) : List Char :=
  url.takeWhile (· ≠ '?') ++ '?' :: (pairsBefore url).flatMap (· ++ ['&'])

def textAfter (url : List Char) : List Char := (pairsAfter url).flatMap ('&' :: ·)

end Config

/-- The mode of the last pair that has one. -/
def Sqlx.lastMode (sqlx : Sqlx) (pairs : List (List UInt8 × List UInt8)) : Option PgSslMode :=
  (pairs.filter isSslMode).getLast?.bind fun pair => sqlx.sslMode pair.2

/-- The pair that is taken is not in the fragment, and no later pair of the query says otherwise; or it
is in the fragment, and the last pair of the query encrypts. -/
def Sqlx.ReadsAlike (sqlx : Sqlx) (url : List Char) : Prop :=
  if '#' ∈ Config.textBefore url then
    ∃ mode, sqlx.lastMode (UrlQuery.queryPairs (Config.textBefore url)) = some mode ∧ mode.encrypts = true
  else
    ∀ mode, sqlx.lastMode (UrlQuery.queryPairs ('?' :: Config.textAfter url)) = some mode → mode.encrypts = true

/-! ### The scan -/

theorem PostgresSslMode.eq_name_of_parse {raw : String} {mode : PostgresSslMode} (h : parse raw = some mode) :
    raw = mode.name := by
  have hname := List.find?_some (p := fun mode => PostgresSslMode.name mode == raw) h
  exact (beq_iff_eq.1 hname).symm

theorem encrypts_sqlxSslMode (mode : PostgresSslMode) : (sqlxSslMode mode).encrypts = mode.encrypts := by
  cases mode <;> rfl

namespace Config

theorem intercalate_eq (pre : List (List Char)) (f : List Char) (post : List (List Char)) :
    ['&'].intercalate (pre ++ f :: post) = pre.flatMap (· ++ ['&']) ++ (f ++ post.flatMap ('&' :: ·)) := by
  induction pre with
  | nil =>
    induction post generalizing f with
    | nil => simp
    | cons g post ih =>
      have := ih g
      simp only [List.nil_append, List.flatMap_nil] at this ⊢
      rw [List.intercalate_cons_cons, this]
      simp
  | cons p pre ih =>
    rw [List.cons_append, List.intercalate_cons_of_ne_nil (by simp), ih]
    simp

theorem afterMark_eq {url query : List Char} (h : afterMark url = some query) :
    url = url.takeWhile (· ≠ '?') ++ '?' :: query := by
  unfold afterMark at h
  have hhead := List.head?_dropWhile_not (· ≠ '?') url
  have happ := List.takeWhile_append_dropWhile (p := (· ≠ '?')) (l := url)
  cases hdrop : url.dropWhile (· ≠ '?') with
  | nil => rw [hdrop] at h; cases h
  | cons c rest =>
    rw [hdrop] at h hhead happ
    cases h
    have hc : c = '?' := by simpa using hhead
    rw [hc] at happ
    exact happ.symm

/-- Where the pair that is taken stands. -/
theorem scan_split {url query raw : List Char} (hquery : afterMark url = some query) (hraw : findSslmode query = some raw) :
    url = textBefore url ++ ("sslmode=".toList ++ raw ++ textAfter url) := by
  obtain ⟨pre, f, post, hsplit, hf, hpre⟩ := List.findSome?_eq_some_iff.1 hraw
  obtain ⟨lead, hlead, hname⟩ := List.dropPrefix?_eq_some_iff.1 hf
  obtain rfl := beq_iff_eq.1 hname
  have hnone : ∀ p ∈ pre, (p.dropPrefix? "sslmode=".toList).isNone = true := fun p hp => by rw [hpre p hp]; rfl
  have hsome : ¬ (f.dropPrefix? "sslmode=".toList).isNone = true := by rw [hf]; exact Bool.false_ne_true
  have hbefore : pairsBefore url = pre := by
    rw [pairsBefore, hquery, Option.getD_some, hsplit, List.takeWhile_append_of_pos hnone, List.takeWhile_cons,
      if_neg hsome, List.append_nil]
  have hafter : pairsAfter url = post := by
    rw [pairsAfter, hquery, Option.getD_some, hsplit, List.dropWhile_append_of_pos hnone, List.dropWhile_cons,
      if_neg hsome]
    rfl
  rw [textBefore, textAfter, hbefore, hafter, ← hlead, List.append_assoc, List.cons_append, ← intercalate_eq, ← hsplit,
    List.intercalate_splitOn]
  exact afterMark_eq hquery

theorem plain_sslmode (mode : PostgresSslMode) : UrlQuery.Plain ("sslmode=".toList ++ mode.name.toList) := by
  have hblank : ∀ c ∈ "sslmode=".toList ++ mode.name.toList, UrlQuery.isBlank c = false := by
    cases mode <;> simp [PostgresSslMode.name] <;> decide
  cases mode <;> exact ⟨by decide, hblank, by decide, by decide⟩

theorem pair_sslmode (mode : PostgresSslMode) :
    UrlQuery.pair ("sslmode=".toList ++ mode.name.toList) = (utf8 "sslmode", utf8 mode.name) := by
  cases mode <;> decide

theorem textBefore_split (url : List Char) : ∃ x text, textBefore url = x ++ '?' :: text ∧ '?' ∉ x ∧ UrlQuery.Ended text := by
  refine ⟨_, _, rfl, fun h => by simpa using List.mem_takeWhile_imp h, ?_⟩
  rcases List.eq_nil_or_concat (pairsBefore url) with hnil | ⟨pre, last, hlast⟩
  · exact .inl (by rw [hnil]; rfl)
  · exact .inr ⟨pre.flatMap (· ++ ['&']) ++ last, by rw [hlast]; simp⟩

theorem begun_textAfter (url : List Char) : UrlQuery.Begun (textAfter url) := by
  unfold textAfter
  cases pairsAfter url with
  | nil => exact .inl rfl
  | cons pair rest => exact .inr ⟨_, rfl⟩

end Config

namespace Sqlx

variable {sqlx : Sqlx}

/-- The last pair wins. -/
theorem sslMode_of_foldlM {pairs : List (List UInt8 × List UInt8)} {start pg : PgConnectOptions}
    (h : pairs.foldlM sqlx.readPair start = some pg) : pg.sslMode = (sqlx.lastMode pairs).getD start.sslMode := by
  induction pairs using List.reverseRecOn generalizing pg with
  | nil => cases h; rfl
  | append_singleton pairs pair ih =>
    rw [List.foldlM_append] at h
    obtain ⟨mid, hmid, hlast⟩ := Option.bind_eq_some_iff.1 h
    simp only [List.foldlM_cons, List.foldlM_nil, bind_pure, readPair] at hlast
    split at hlast
    · rename_i hnamed
      obtain ⟨mode, hmode, rfl⟩ := Option.map_eq_some_iff.1 hlast
      simp [lastMode, List.filter_append, hnamed, hmode]
    · rename_i hnamed
      cases hlast
      rw [ih hmid]
      simp [lastMode, List.filter_append, hnamed]

end Sqlx

/-! ### Production -/

variable {sqlx : Sqlx} {settings : Config.Settings} {vars : Config.Variables} {pg : PgConnectOptions}

theorem Config.Settings.encrypts_of_validate (hprod : settings.mode = .production) (hvalid : settings.validate vars = .ok ()) :
    ∃ mode, settings.effectiveSslmode vars = some mode ∧ mode.encrypts = true := by
  unfold validate at hvalid
  rw [if_neg (by simp [hprod]), if_neg (by simp [hprod])] at hvalid
  split at hvalid
  · cases hvalid
  · split at hvalid
    · cases hvalid
    · rename_i hsecure
      have hfirst := (List.append_eq_nil_iff.1 (List.append_eq_nil_iff.1 (List.append_eq_nil_iff.1
        (not_not.1 hsecure)).1).1).1
      split at hfirst
      · rename_i hany
        exact (Option.any_eq_true _ _).1 hany
      · cases hfirst

/-- The scan takes the first `sslmode=` after the first `?`, sqlx the last `sslmode` or `ssl-mode` of the query. -/
theorem Sqlx.encrypts_of_scan (hsqlx : sqlx.Documented) {url : String} {query raw : List Char} {mode : PostgresSslMode}
    (hquery : Config.afterMark url.toList = some query) (hraw : Config.findSslmode query = some raw)
    (hmode : PostgresSslMode.parse (String.ofList raw) = some mode) (hencrypts : mode.encrypts = true)
    (hpg : sqlx.parse url = some pg) : pg.sslMode.encrypts = true ↔ sqlx.ReadsAlike url.toList := by
  have hname : raw = mode.name.toList := by
    rw [← PostgresSslMode.eq_name_of_parse hmode, String.toList_ofList]
  have hurl := Config.scan_split hquery hraw
  rw [hname] at hurl
  have hfold : (UrlQuery.queryPairs url.toList).foldlM sqlx.readPair ⟨.prefer⟩ = some pg := by
    unfold parse at hpg
    split at hpg
    · exact hpg
    · cases hpg
  unfold ReadsAlike
  split
  · rename_i hhash
    rw [hurl, UrlQuery.queryPairs_of_hash hhash] at hfold
    rw [sslMode_of_foldlM hfold]
    cases sqlx.lastMode (UrlQuery.queryPairs (Config.textBefore url.toList)) with
    | none => simp [PgSslMode.encrypts]
    | some last => simp
  · rename_i hhash
    obtain ⟨x, text, hbefore, hmark, hended⟩ := Config.textBefore_split url.toList
    rw [hbefore] at hhash hurl
    have hx : '#' ∉ x := fun h => hhash (List.mem_append_left _ h)
    have htext : '#' ∉ text := fun h => hhash (List.mem_append_right _ (List.mem_cons_of_mem _ h))
    rw [hurl, UrlQuery.queryPairs_append hx hmark htext hended (Config.plain_sslmode mode) (Config.begun_textAfter _),
      List.foldlM_append] at hfold
    obtain ⟨start, -, hrest⟩ := Option.bind_eq_some_iff.1 hfold
    have hread : sqlx.readPair start (UrlQuery.pair ("sslmode=".toList ++ mode.name.toList)) = some ⟨sqlxSslMode mode⟩ := by
      have hnamed : isSslMode (utf8 "sslmode", utf8 mode.name) = true := by simp [isSslMode]
      rw [Config.pair_sslmode, readPair, if_pos hnamed, hsqlx mode]
      rfl
    rw [List.foldlM_cons, hread] at hrest
    rw [sslMode_of_foldlM (show List.foldlM sqlx.readPair _ _ = some pg from hrest)]
    cases sqlx.lastMode (UrlQuery.queryPairs ('?' :: Config.textAfter url.toList)) with
    | none => simp [encrypts_sqlxSslMode, hencrypts]
    | some last => simp

theorem encrypts_iff (hsqlx : sqlx.Documented) (hprod : settings.mode = .production)
    (hvalid : settings.validate vars = .ok ()) (hpg : (connectOptions settings vars).pg sqlx = some pg) :
    pg.sslMode.encrypts = true ↔
      settings.db.sslmode.isSome = true ∨ sqlx.ReadsAlike (settings.databaseUrl vars).toList := by
  obtain ⟨mode, heffective, hencrypts⟩ := Config.Settings.encrypts_of_validate hprod hvalid
  obtain ⟨parsed, hparse, rfl⟩ := Option.map_eq_some_iff.1 hpg
  show (applyPgOptions parsed settings.db.sslmode).sslMode.encrypts = true ↔ _
  unfold Config.Settings.effectiveSslmode at heffective
  cases hssl : settings.db.sslmode with
  | some explicit =>
    rw [hssl] at heffective
    cases heffective
    simp [applyPgOptions, encrypts_sqlxSslMode, hencrypts]
  | none =>
    rw [hssl] at heffective
    obtain ⟨query, hquery, heffective⟩ := Option.bind_eq_some_iff.1 heffective
    obtain ⟨raw, hraw, hmode⟩ := Option.bind_eq_some_iff.1 heffective
    rw [Option.isSome_none, show applyPgOptions parsed none = parsed from rfl,
      Sqlx.encrypts_of_scan hsqlx hquery hraw hmode hencrypts hparse]
    simp

/-- Production settings that pass every check but possibly the one of the `sslmode`. -/
def Config.Settings.hardened : Config.Settings :=
  ⟨.production, false, "app", "s3cret", "app", "db", 5432, ⟨none, none, none, none, none, none⟩, "https://s3", "key",
    "secret", "rediss://redis", "https://issuer"⟩

/-- An sqlx that takes every DSN of its scheme. -/
def Sqlx.reference : Sqlx where
  accepts := Config.startsWith "postgres://"
  sslMode bytes := ([.disable, .allow, .prefer, .require, .verifyCa, .verifyFull].find? fun mode : PostgresSslMode =>
    utf8 mode.name == bytes).map sqlxSslMode

theorem Sqlx.reference_documented : Sqlx.reference.Documented := by
  intro mode
  cases mode <;> decide

def twiceVariables : Config.Variables := ⟨some "postgres://u:p@db/app?sslmode=require&sslmode=disable", none⟩

theorem twice_accepted : Config.Settings.hardened.validate twiceVariables = .ok () ∧
    (connectOptions .hardened twiceVariables).pg .reference = some ⟨.disable⟩ := by
  decide +kernel

theorem encrypts_iff_twice : ¬ Sqlx.reference.ReadsAlike (Config.Settings.hardened.databaseUrl twiceVariables).toList := by
  have hiff := encrypts_iff Sqlx.reference_documented rfl twice_accepted.1 twice_accepted.2
  exact fun hread => absurd (hiff.2 (.inr hread)) (by decide)

theorem not_encrypts_twice : ¬ ∀ (sqlx : Sqlx) (settings : Config.Settings) (vars : Config.Variables) (pg : PgConnectOptions),
    sqlx.Documented → settings.mode = .production → settings.validate vars = .ok () →
    (connectOptions settings vars).pg sqlx = some pg → pg.sslMode.encrypts = true := by
  intro hall
  have := hall _ _ _ _ Sqlx.reference_documented rfl twice_accepted.1 twice_accepted.2
  exact absurd this (by decide)

end TemplateAxum
