import TemplateAxum.SslMode
import TemplateAxum.Lib.Url

/-!
# The parts of the DSN

What a postgres URL says: when the one that `database_url` composes says what it was composed of, and
when production connects with the default password.
-/

namespace TemplateAxum

/-! ### Reading -/

structure Dsn where
  user : List UInt8
  password : Option (List UInt8)
  host : List Char
  port : Option Nat
  database : List UInt8
  params : List (List UInt8 × List UInt8)
deriving DecidableEq

namespace Dsn

/-- Of the text behind the `://`. -/
def read (text : List Char) : Dsn where
  user := Url.percentDecode (Url.user (Url.userinfo (Url.authority text)))
  password := (Url.password? (Url.userinfo (Url.authority text))).map Url.percentDecode
  host := Url.host (Url.hostport (Url.authority text))
  port := Url.port? (Url.hostport (Url.authority text))
  database := Url.percentDecode ((Url.path text).drop 1)
  params := ((Url.query? text).map UrlQuery.pairs).getD []

def schemes : List (List Char) := ["postgres".toList, "postgresql".toList]

/-- The parts of RFC 3986; a scheme is the same in either case. -/
def parse (url : List Char) : Option Dsn := do
  let (scheme, text) ← Url.scheme? url
  if scheme.map Char.toLower ∈ schemes then some (read text) else none

/-- As sqlx reads it: the URL Standard first drops what `clean` drops. -/
def parseUrl (url : List Char) : Option Dsn := parse (UrlQuery.clean url)

end Dsn

namespace Config.Settings

variable (settings : Settings)

/-- What `database_url` composes, behind the `postgres://`. -/
def parts : List Char :=
  settings.postgresUser.toList ++ ':' :: (settings.postgresPassword.toList ++ '@' :: (settings.postgresHost.toList ++
    ':' :: (Nat.toDigits 10 settings.postgresPort.toNat ++ '/' :: settings.postgresDb.toList)))

/-- What is meant. -/
def dsn : Dsn where
  user := utf8 settings.postgresUser
  password := some (utf8 settings.postgresPassword)
  host := settings.postgresHost.toList
  port := some settings.postgresPort.toNat
  database := utf8 settings.postgresDb
  params := []

end Config.Settings

theorem parse_composed (text : List Char) : Dsn.parse ("postgres://".toList ++ text) = some (Dsn.read text) := by
  rfl

theorem databaseUrl_composed {settings : Config.Settings} {vars : Config.Variables} (h : vars.databaseUrl = none) :
    (settings.databaseUrl vars).toList = "postgres://".toList ++ settings.parts := by
  rw [Config.Settings.databaseUrl, h, Option.getD_none]
  simp [Config.Settings.parts, String.toList_append]

/-! ### Composed, and read again -/

/-- No part holds a character that ends it, nor an escape. -/
structure Config.Settings.PlainParts (settings : Config.Settings) : Prop where
  user : ∀ c ∈ settings.postgresUser.toList, c ≠ ':' ∧ Url.isDelimiter c = false
  password : ∀ c ∈ settings.postgresPassword.toList, Url.isDelimiter c = false
  db : ∀ c ∈ settings.postgresDb.toList, Url.isPathEnd c = false
  user_literal : ¬ Url.Escaped settings.postgresUser.toList
  password_literal : ¬ Url.Escaped settings.postgresPassword.toList
  db_literal : ¬ Url.Escaped settings.postgresDb.toList

section

variable {settings : Config.Settings} {vars : Config.Variables}

theorem host_clean (hhost : ∀ c ∈ settings.postgresHost.toList, Url.isUnreserved c = true) :
    ∀ c ∈ settings.postgresHost.toList ++ ':' :: Nat.toDigits 10 settings.postgresPort.toNat,
      c ≠ '@' ∧ Url.isDelimiter c = false := by
  intro c hc
  rcases List.mem_append.1 hc with hc | hc
  · exact ⟨(Url.isUnreserved_ne (hhost c hc)).2.1, (Url.isUnreserved_ne (hhost c hc)).2.2.2⟩
  · rcases List.mem_cons.1 hc with rfl | hc
    · exact ⟨by decide, rfl⟩
    · have hdigit : c.isDigit = true := Nat.isDigit_of_mem_toDigits (by decide) (by decide) hc
      have hunreserved : Url.isUnreserved c = true := by simp [Url.isUnreserved, Char.isAlphanum, hdigit]
      exact ⟨(Url.isUnreserved_ne hunreserved).2.1, (Url.isUnreserved_ne hunreserved).2.2.2⟩

theorem reads_parts (hhost : ∀ c ∈ settings.postgresHost.toList, Url.isUnreserved c = true)
    (hplain : settings.PlainParts) :
    Url.Reads settings.parts settings.postgresUser.toList settings.postgresPassword.toList
      (settings.postgresHost.toList ++ ':' :: Nat.toDigits 10 settings.postgresPort.toNat)
      ('/' :: settings.postgresDb.toList) := by
  refine ⟨?_, hplain.user, hplain.password, host_clean hhost, fun c hc => ?_⟩
  · simp [Config.Settings.parts]
  · cases hc
    rfl

theorem read_parts (hhost : ∀ c ∈ settings.postgresHost.toList, Url.isUnreserved c = true)
    (hplain : settings.PlainParts) : Dsn.read settings.parts = settings.dsn := by
  have hreads := reads_parts hhost hplain
  have hend := @Url.takeWhile_stop Url.isPathEnd ('/' :: settings.postgresDb.toList) []
    (List.forall_mem_cons.2 ⟨rfl, hplain.db⟩) (fun c hc => by cases hc)
  rw [List.append_nil] at hend
  have hquery : Url.query? settings.parts = none := by
    rw [Url.query?, hreads.path_eq.2, hend.2]
  rw [Dsn.read, Config.Settings.dsn, hreads.user_eq.1, hreads.user_eq.2, hreads.userinfo_eq.2, hreads.path_eq.1, hend.1,
    hquery, (Url.host_port hhost _).1, (Url.host_port hhost _).2, Url.percentDecode_eq_bytes_iff.2 hplain.user_literal]
  simp [Url.percentDecode_eq_bytes_iff.2 hplain.password_literal, Url.percentDecode_eq_bytes_iff.2 hplain.db_literal,
    utf8, Url.bytes]

theorem plainParts_of_read (hhost : ∀ c ∈ settings.postgresHost.toList, Url.isUnreserved c = true)
    (h : Dsn.read settings.parts = settings.dsn) : settings.PlainParts := by
  have huser := congrArg Dsn.user h
  obtain ⟨p, hpassword, hp⟩ := Option.map_eq_some_iff.1 (congrArg Dsn.password h)
  obtain ⟨host, rest, hreads⟩ := Url.Reads.of_password? hpassword
  change Url.percentDecode (Url.user (Url.userinfo (Url.authority settings.parts))) = _ at huser
  generalize Url.user (Url.userinfo (Url.authority settings.parts)) = u at huser hreads
  have hslash : Url.Stops Url.isDelimiter ('/' :: settings.postgresDb.toList) := fun c hc => by cases hc; rfl
  have hclean := host_clean hhost
  -- the user ends at the first `:`
  have hparts := hreads.eq
  rw [Config.Settings.parts] at hparts
  obtain ⟨hueq, huliteral⟩ := Url.eq_of_percentDecode
    (Url.prefix_of_append_cons (fun hmem => (hreads.user _ hmem).1 rfl) hparts.symm) huser
  rw [hueq] at hparts
  have hafter := (List.cons.inj (List.append_cancel_left hparts)).2
  -- the password at an `@` that is the last before a delimiter
  have hpfront : p <+: settings.postgresPassword.toList := by
    rcases List.append_eq_append_iff.1 hafter with ⟨z, hpeq, hz⟩ | ⟨z, hpeq, -⟩
    · cases z with
      | nil => exact ⟨[], by rw [hpeq, List.append_nil, List.append_nil]⟩
      | cons d z =>
        exfalso
        obtain ⟨rfl, hz⟩ := List.cons.inj hz
        have hzclean : ∀ c ∈ z, Url.isDelimiter c = false := fun c hc => hreads.password c (hpeq ▸ by simp [hc])
        have hhostport : (settings.postgresHost.toList ++ ':' :: Nat.toDigits 10 settings.postgresPort.toNat) =
            z ++ '@' :: host := by
          refine (Url.stop_unique (fun c hc => (hclean c hc).2) hslash (fun c hc => ?_) hreads.rest ?_).1
          · rcases List.mem_append.1 hc with hc | hc
            · exact hzclean c hc
            · rcases List.mem_cons.1 hc with rfl | hc
              · rfl
              · exact (hreads.host c hc).2
          · simpa using hz
        exact (hclean '@' (hhostport ▸ by simp)).1 rfl
    · exact ⟨z, hpeq.symm⟩
  obtain ⟨rfl, hpliteral⟩ := Url.eq_of_percentDecode hpfront hp
  have hbehind := (List.cons.inj (List.append_cancel_left hafter)).2
  obtain ⟨-, rfl⟩ := Url.stop_unique (fun c hc => (hclean c hc).2) hslash
    (fun c hc => (hreads.host c hc).2) hreads.rest
    (show _ = host ++ rest by rw [← hbehind]; simp)
  -- the database where the path ends
  have hpath : (Url.path settings.parts).drop 1 = settings.postgresDb.toList.takeWhile fun c => !Url.isPathEnd c := by
    rw [hreads.path_eq.1]
    rfl
  have hdb := congrArg Dsn.database h
  change Url.percentDecode ((Url.path settings.parts).drop 1) = _ at hdb
  rw [hpath] at hdb
  obtain ⟨hdeq, hdliteral⟩ := Url.eq_of_percentDecode (List.takeWhile_prefix _) hdb
  refine ⟨?_, hreads.password, fun c hc => ?_, huliteral, hpliteral, hdliteral⟩
  · rw [← hueq]
    exact hreads.user
  · rw [← hdeq] at hc
    simpa using List.mem_takeWhile_imp hc

/-- The composed DSN says what it was composed of. -/
theorem parse_databaseUrl_iff (hunset : vars.databaseUrl = none)
    (hhost : ∀ c ∈ settings.postgresHost.toList, Url.isUnreserved c = true) :
    Dsn.parse (settings.databaseUrl vars).toList = some settings.dsn ↔ settings.PlainParts := by
  rw [databaseUrl_composed hunset, parse_composed, Option.some.injEq]
  exact ⟨plainParts_of_read hhost, read_parts hhost⟩

end

def slashSettings : Config.Settings :=
  { Config.Settings.hardened with postgresPassword := "p/w", db := ⟨some .require, none, none, none, none, none⟩ }

theorem plainParts_hardened : Config.Settings.hardened.PlainParts :=
  (@parse_databaseUrl_iff .hardened ⟨none, none⟩ rfl (List.all_eq_true.1 (by decide +kernel))).1 (by decide +kernel)

theorem not_parse_databaseUrl : ¬ ∀ (settings : Config.Settings) (vars : Config.Variables), vars.databaseUrl = none →
    settings.validate vars = .ok () → (∀ c ∈ settings.postgresHost.toList, Url.isUnreserved c = true) →
    Dsn.parse (settings.databaseUrl vars).toList = some settings.dsn := by
  intro hall
  have hvalid : slashSettings.validate ⟨none, none⟩ = .ok () := by decide +kernel
  exact absurd (hall slashSettings ⟨none, none⟩ rfl hvalid (List.all_eq_true.1 (by decide +kernel))) (by decide +kernel)

/-! ### The default password -/

namespace Dsn

variable (dsn : Dsn)

/-- The last `password` of the parameters, else the one of the user information. -/
def passwordParam : Option (List UInt8) :=
  (dsn.params.filter fun pair => pair.1 == utf8 "password").getLast?.map Prod.snd

def connectPassword : Option (List UInt8) := dsn.passwordParam.or dsn.password

end Dsn

namespace Config

/-- Of the texts between the `&` of a query: one that gives a password, and one that gives the default. -/
def namesPassword (pair : List Char) : Prop := Url.Spells "password".toList (pair.takeWhile (· ≠ '='))

def namesDefault (pair : List Char) : Prop :=
  namesPassword pair ∧ Url.Spells "app".toList ((pair.dropWhile (· ≠ '=')).drop 1)

def QueryPassword (query : List Char) : Prop := ∃ pair ∈ query.splitOn '&', namesPassword pair

/-- The last password that a query gives is the default one. -/
def QueryDefault (query : List Char) : Prop :=
  ∃ before pair after, query.splitOn '&' = before ++ pair :: after ∧ namesDefault pair ∧
    ∀ later ∈ after, ¬ namesPassword later

/-- `u:app@h` in front of the path, the query and the fragment, `app` in any spelling. -/
def UserDefault (text : List Char) : Prop :=
  ∃ u p h rest, Url.Reads text u p h rest ∧ Url.Spells "app".toList p

namespace Settings

variable (settings : Settings)

/-- The variables as they are read in a URL: tabs and newlines are dropped, and blanks at its end. -/
def cleaned : Settings :=
  { settings with
    postgresUser := String.ofList (UrlQuery.strip settings.postgresUser.toList)
    postgresPassword := String.ofList (UrlQuery.strip settings.postgresPassword.toList)
    postgresHost := String.ofList (UrlQuery.strip settings.postgresHost.toList)
    postgresDb := String.ofList (UrlQuery.cleanEnd settings.postgresDb.toList) }

/-- What stands behind a variable in the text that is composed. -/
def behindHost : List Char := ':' :: (Nat.toDigits 10 settings.postgresPort.toNat ++ '/' :: settings.postgresDb.toList)

def behindPassword : List Char := '@' :: (settings.postgresHost.toList ++ settings.behindHost)

def behindUser : List Char := ':' :: (settings.postgresPassword.toList ++ settings.behindPassword)

/-- The first of `?` and `#` in the variables is a `?`, and from there on they are a query that is asked for. -/
def Injects (query : List Char → Prop) : Prop :=
  Url.HasQuery query settings.postgresUser.toList settings.behindUser ∨
    Url.Unmarked settings.postgresUser.toList ∧
      (Url.HasQuery query settings.postgresPassword.toList settings.behindPassword ∨
        Url.Unmarked settings.postgresPassword.toList ∧
          (Url.HasQuery query settings.postgresHost.toList settings.behindHost ∨
            Url.Unmarked settings.postgresHost.toList ∧ Url.HasQuery query settings.postgresDb.toList []))

/-- The user and the password have it already, up to a delimiter that one of them holds. -/
def CutShort : Prop :=
  ∃ u p h rest, rest ≠ [] ∧
    Url.Reads (settings.postgresUser.toList ++ ':' :: settings.postgresPassword.toList) u p h rest ∧
    Url.Spells "app".toList p

/-- The password is a spelling of it, and is read whole. -/
def SpelledDefault : Prop :=
  (∀ c ∈ settings.postgresUser.toList, c ≠ ':' ∧ Url.isDelimiter c = false) ∧
    Url.Spells "app".toList settings.postgresPassword.toList ∧ '@' ∉ Url.authority settings.postgresHost.toList

end Settings

/-- The variables have the default password for the connection. -/
def DefaultPassword (settings : Settings) (vars : Variables) : Prop :=
  match vars.databaseUrl with
  | some url =>
    ∃ scheme text, UrlQuery.clean url.toList = scheme ++ "://".toList ++ text ∧ scheme.map Char.toLower ∈ Dsn.schemes ∧
      (Url.HasQuery QueryDefault text [] ∨ ¬ Url.HasQuery QueryPassword text [] ∧ UserDefault text)
  | none =>
    settings.cleaned.Injects QueryDefault ∨
      ¬ settings.cleaned.Injects QueryPassword ∧
        (settings.cleaned.CutShort ∨ settings.postgresPassword ≠ "app" ∧ settings.cleaned.SpelledDefault)

end Config

/-! ### What is read of a text -/

theorem password_pair_iff {pair : List Char} :
    (UrlQuery.pair pair).1 = utf8 "password" ↔ Config.namesPassword pair :=
  Url.decode_eq_iff_spells (by simp; decide) (by decide)

theorem app_pair_iff {pair : List Char} :
    (UrlQuery.pair pair).2 = utf8 "app" ↔ Url.Spells "app".toList ((pair.dropWhile (· ≠ '=')).drop 1) :=
  Url.decode_eq_iff_spells (by simp; decide) (by decide)

theorem ne_nil_of_namesPassword {pair : List Char} (h : Config.namesPassword pair) : pair ≠ [] := by
  rintro rfl
  cases h

/-- The last of the pairs that give a password. -/
theorem passwordParam_pairs {query : List Char} {dsn : Dsn} (hparams : dsn.params = UrlQuery.pairs query) :
    (dsn.passwordParam = some (utf8 "app") ↔ Config.QueryDefault query) ∧
      (dsn.passwordParam = none ↔ ¬ Config.QueryPassword query) := by
  let named : List Char → Bool := fun pair => (UrlQuery.pair pair).1 == utf8 "password"
  have hnamed : ∀ pair, named pair = true ↔ Config.namesPassword pair := fun pair => beq_iff_eq.trans password_pair_iff
  have hparam : dsn.passwordParam = ((query.splitOn '&').reverse.find? named).map fun pair => (UrlQuery.pair pair).2 := by
    have hfilter : ((query.splitOn '&').filter (· ≠ [])).filter named = (query.splitOn '&').filter named := by
      rw [List.filter_filter]
      refine List.filter_congr fun pair _ => ?_
      cases h : named pair with
      | false => rfl
      | true => simp [ne_nil_of_namesPassword ((hnamed pair).1 h)]
    rw [Dsn.passwordParam, hparams, UrlQuery.pairs, List.filter_map, List.getLast?_map, Option.map_map]
    show Option.map _ (((query.splitOn '&').filter (· ≠ [])).filter named).getLast? = _
    rw [hfilter, List.getLast?_filter]
    rfl
  rw [hparam]
  constructor
  · rw [Option.map_eq_some_iff]
    constructor
    · rintro ⟨pair, hfind, happ⟩
      obtain ⟨hpair, after, before, hsplit, hafter⟩ := List.find?_eq_some_iff_append.1 hfind
      refine ⟨before.reverse, pair, after.reverse, ?_, ⟨(hnamed pair).1 hpair, app_pair_iff.1 happ⟩, fun later hlater => ?_⟩
      · rw [← List.reverse_reverse (query.splitOn '&'), hsplit]
        simp
      · have := hafter later (List.mem_reverse.1 hlater)
        rw [← hnamed]
        simpa using this
    · rintro ⟨before, pair, after, hsplit, ⟨hpair, happ⟩, hafter⟩
      refine ⟨pair, List.find?_eq_some_iff_append.2 ⟨(hnamed pair).2 hpair, after.reverse, before.reverse, ?_, ?_⟩,
        app_pair_iff.2 happ⟩
      · rw [hsplit]
        simp
      · intro later hlater
        have := hafter later (List.mem_reverse.1 hlater)
        rw [← hnamed] at this
        simpa using this
  · rw [Option.map_eq_none_iff, List.find?_eq_none, Config.QueryPassword]
    simp only [List.mem_reverse, hnamed]
    constructor
    · rintro h ⟨pair, hmem, hpair⟩
      exact h pair hmem hpair
    · exact fun h pair hmem hpair => h ⟨pair, hmem, hpair⟩

theorem passwordParam_read_iff {text : List Char} :
    ((Dsn.read text).passwordParam = some (utf8 "app") ↔ Url.HasQuery Config.QueryDefault text []) ∧
      ((Dsn.read text).passwordParam = none ↔ ¬ Url.HasQuery Config.QueryPassword text []) := by
  rw [Url.hasQuery_iff, Url.hasQuery_iff]
  cases hquery : Url.query? text with
  | none =>
    have hnone : (Dsn.read text).passwordParam = none := by
      rw [Dsn.passwordParam, Dsn.read, hquery]
      rfl
    simp [hnone]
  | some query =>
    have hparams : (Dsn.read text).params = UrlQuery.pairs query := by
      rw [Dsn.read, hquery]
      rfl
    simpa using passwordParam_pairs hparams

theorem password_read_iff {text : List Char} :
    (Dsn.read text).password = some (utf8 "app") ↔ Config.UserDefault text := by
  have happ : ∀ c ∈ "app".toList, c.utf8Size = 1 := by simp; decide
  constructor
  · intro h
    obtain ⟨p, hpassword, hp⟩ := Option.map_eq_some_iff.1 h
    obtain ⟨host, rest, hreads⟩ := Url.Reads.of_password? hpassword
    exact ⟨_, p, host, rest, hreads, Url.spells_of_percentDecode happ hp⟩
  · rintro ⟨u, p, host, rest, hreads, hp⟩
    show (Url.password? _).map _ = _
    rw [hreads.user_eq.2, Option.map_some, Url.percentDecode_of_spells hp (by decide)]
    rfl

theorem connectPassword_read_iff {text : List Char} : (Dsn.read text).connectPassword = some (utf8 "app") ↔
    Url.HasQuery Config.QueryDefault text [] ∨ ¬ Url.HasQuery Config.QueryPassword text [] ∧ Config.UserDefault text := by
  rw [← passwordParam_read_iff.1, ← passwordParam_read_iff.2, ← password_read_iff, Dsn.connectPassword]
  cases (Dsn.read text).passwordParam with
  | some password => simp
  | none => simp

/-- The scheme of a URL may be written in either case. -/
theorem scheme_clean {scheme : List Char} (h : scheme.map Char.toLower ∈ Dsn.schemes) :
    ∀ c ∈ scheme, (c = ':' || Url.isDelimiter c) = false := by
  intro c hc
  have hlower : ∀ d ∈ scheme.map Char.toLower, (d = ':' || Url.isDelimiter d) = false := by
    have hall : ((scheme.map Char.toLower).all fun d => !(d = ':' || Url.isDelimiter d)) = true := by
      simp only [Dsn.schemes, List.mem_cons, List.not_mem_nil, or_false] at h
      rcases h with h | h <;> rw [h] <;> rfl
    exact fun d hd => by simpa using List.all_eq_true.1 hall d hd
  by_contra hnot
  have hself : c.toLower = c := by
    simp only [Bool.not_eq_false, Bool.or_eq_true, decide_eq_true_eq, Url.isDelimiter] at hnot
    rcases hnot with rfl | rfl | rfl | rfl <;> rfl
  have := hlower c.toLower (List.mem_map_of_mem hc)
  rw [hself] at this
  exact hnot this

theorem parseUrl_bind_iff {α : Type} {url : List Char} {f : Dsn → Option α} {a : α} :
    (Dsn.parseUrl url).bind f = some a ↔ ∃ scheme text, UrlQuery.clean url = scheme ++ "://".toList ++ text ∧
      scheme.map Char.toLower ∈ Dsn.schemes ∧ f (Dsn.read text) = some a := by
  unfold Dsn.parseUrl Dsn.parse
  generalize UrlQuery.clean url = url
  have hslashes : ∀ scheme text : List Char, scheme ++ "://".toList ++ text = scheme ++ ':' :: '/' :: '/' :: text := by
    intro scheme text
    simp
  constructor
  · intro h
    obtain ⟨dsn, hparse, hf⟩ := Option.bind_eq_some_iff.1 h
    obtain ⟨⟨scheme, text⟩, hscheme, hif⟩ := Option.bind_eq_some_iff.1 hparse
    obtain ⟨hmem, rfl⟩ : scheme.map Char.toLower ∈ Dsn.schemes ∧ Dsn.read text = dsn := by simpa using hif
    refine ⟨scheme, text, ?_, hmem, hf⟩
    rw [hslashes]
    exact (Url.scheme?_eq_some_iff (scheme_clean hmem)).1 hscheme
  · rintro ⟨scheme, text, rfl, hmem, hf⟩
    rw [hslashes, (Url.scheme?_eq_some_iff (scheme_clean hmem)).2 rfl]
    simpa [hmem] using hf

/-! ### The text that is composed -/

namespace Config.Settings

variable {settings : Settings}

theorem toDigits_unmarked (n : Nat) : ∀ c ∈ Nat.toDigits 10 n, UrlQuery.isBlank c = false ∧ Url.isDelimiter c = false ∧ c ≠ '@' := by
  intro c hc
  have hdigit : c.isDigit = true := Nat.isDigit_of_mem_toDigits (by decide) (by decide) hc
  have hunreserved : Url.isUnreserved c = true := by simp [Url.isUnreserved, Char.isAlphanum, hdigit]
  refine ⟨?_, (Url.isUnreserved_ne hunreserved).2.2.2, (Url.isUnreserved_ne hunreserved).2.1⟩
  have hge : 48 ≤ c.toNat := (Char.isDigit_iff_toNat.1 hdigit).1
  have hnot : ¬ c.toNat ≤ 32 := by omega
  simpa [UrlQuery.isBlank] using hnot

theorem clean_composed (settings : Settings) :
    UrlQuery.clean ("postgres://".toList ++ settings.parts) = "postgres://".toList ++ settings.cleaned.parts := by
  have hport : UrlQuery.strip (Nat.toDigits 10 settings.postgresPort.toNat) = Nat.toDigits 10 settings.postgresPort.toNat :=
    UrlQuery.strip_eq_self fun c hc => (toDigits_unmarked _ c hc).1
  have hfront : "postgres://".toList ++ settings.parts = "postgres".toList ++ ':' :: (('/' :: '/' ::
      (settings.postgresUser.toList ++ ':' :: (settings.postgresPassword.toList ++ '@' :: (settings.postgresHost.toList ++
        ':' :: Nat.toDigits 10 settings.postgresPort.toNat)))) ++ '/' :: settings.postgresDb.toList) := by
    simp [parts]
  rw [hfront, UrlQuery.clean_append (by decide), UrlQuery.cleanEnd_append (by decide)]
  simp only [UrlQuery.strip_append, UrlQuery.strip_cons (show UrlQuery.isBlank '/' = false by decide),
    UrlQuery.strip_cons (show UrlQuery.isBlank ':' = false by decide),
    UrlQuery.strip_cons (show UrlQuery.isBlank '@' = false by decide), hport]
  simp [parts, cleaned, UrlQuery.cleanStart, UrlQuery.strip, UrlQuery.isBlank, UrlQuery.isTabOrNewline]

theorem parts_eq_user (settings : Settings) : settings.parts = settings.postgresUser.toList ++ settings.behindUser := by
  simp [parts, behindUser, behindPassword, behindHost]

theorem hasQuery_parts_iff {query : List Char → Prop} : Url.HasQuery query settings.parts [] ↔ settings.Injects query := by
  have hcolon : Url.Unmarked [':'] := by simp [Url.Unmarked]; decide
  have hat : Url.Unmarked ['@'] := by simp [Url.Unmarked]; decide
  have hport : Url.Unmarked (':' :: (Nat.toDigits 10 settings.postgresPort.toNat ++ ['/'])) := by
    intro c hc
    simp only [List.mem_cons, List.mem_append, List.not_mem_nil, or_false] at hc
    rcases hc with rfl | hc | rfl
    · rfl
    · have := (toDigits_unmarked _ c hc).2.1
      simp_all [Url.isDelimiter, Url.isPathEnd]
    · rfl
  have hhost : settings.behindHost = (':' :: (Nat.toDigits 10 settings.postgresPort.toNat ++ ['/'])) ++ settings.postgresDb.toList := by
    simp [behindHost]
  rw [parts_eq_user, Url.hasQuery_append_iff, List.append_nil, Injects]
  refine or_congr_right (and_congr_right fun _ => ?_)
  rw [show settings.behindUser = [':'] ++ (settings.postgresPassword.toList ++ settings.behindPassword) from rfl,
    Url.hasQuery_of_unmarked_append_iff hcolon, Url.hasQuery_append_iff, List.append_nil]
  refine or_congr_right (and_congr_right fun _ => ?_)
  rw [show settings.behindPassword = ['@'] ++ (settings.postgresHost.toList ++ settings.behindHost) from rfl,
    Url.hasQuery_of_unmarked_append_iff hat, Url.hasQuery_append_iff, List.append_nil]
  refine or_congr_right (and_congr_right fun _ => ?_)
  rw [hhost, Url.hasQuery_of_unmarked_append_iff hport]

/-- The text that is composed, at the `@` that is put in. -/
theorem parts_eq (settings : Settings) :
    ∃ rest, settings.parts = (settings.postgresUser.toList ++ ':' :: settings.postgresPassword.toList) ++
        '@' :: (settings.postgresHost.toList ++ rest) ∧ '@' ∉ Url.authority rest := by
  refine ⟨settings.behindHost, by simp [parts, behindHost], fun hmem => ?_⟩
  have hdigits : ∀ c ∈ ':' :: Nat.toDigits 10 settings.postgresPort.toNat, Url.isDelimiter c = false ∧ c ≠ '@' := by
    intro c hc
    rcases List.mem_cons.1 hc with rfl | hc
    · exact ⟨rfl, by decide⟩
    · exact (toDigits_unmarked _ c hc).2
  have hauthority := (Url.takeWhile_stop (fun c hc => (hdigits c hc).1) (fun c hc => by cases hc; rfl) :
    _ ∧ (_ ++ '/' :: settings.postgresDb.toList).dropWhile _ = _).1
  rw [behindHost, Url.authority, ← List.cons_append, hauthority] at hmem
  exact (hdigits _ hmem).2 rfl

end Config.Settings

section

variable {settings : Config.Settings} {vars : Config.Variables}

theorem spells_app {p : List Char} (h : Url.Spells "app".toList p) : ':' ∉ p ∧ '@' ∉ p ∧ ∀ c ∈ p, Url.isDelimiter c = false := by
  refine ⟨h.not_mem (by decide) (by decide) (by decide), h.not_mem (by decide) (by decide) (by decide), fun c hc => ?_⟩
  have hslash : c ≠ '/' := fun heq => h.not_mem (by decide) (by decide) (by decide) (heq ▸ hc)
  have hmark : c ≠ '?' := fun heq => h.not_mem (by decide) (by decide) (by decide) (heq ▸ hc)
  have hhash : c ≠ '#' := fun heq => h.not_mem (by decide) (by decide) (by decide) (heq ▸ hc)
  simp [Url.isDelimiter, hslash, hmark, hhash]

theorem userDefault_of_cutShort (h : settings.CutShort) : Config.UserDefault settings.parts := by
  obtain ⟨u, p, host, rest, hne, hreads, hp⟩ := h
  obtain ⟨behind, hparts, -⟩ := settings.parts_eq
  refine ⟨u, p, host, rest ++ '@' :: (settings.postgresHost.toList ++ behind),
    ⟨?_, hreads.user, hreads.password, hreads.host, ?_⟩, hp⟩
  · rw [hparts, hreads.eq]
    simp
  · obtain ⟨c, rest, rfl⟩ := List.exists_cons_of_ne_nil hne
    exact hreads.rest

theorem userDefault_of_spelledDefault (h : settings.SpelledDefault) : Config.UserDefault settings.parts := by
  obtain ⟨huser, hspells, hhost⟩ := h
  obtain ⟨behind, hparts, hbehind⟩ := settings.parts_eq
  obtain ⟨x, rest, htext, hx, hrest, hauthority, -⟩ :=
    Url.exists_stop Url.isDelimiter (settings.postgresHost.toList ++ behind)
  refine ⟨_, _, x, rest, ⟨?_, huser, (spells_app hspells).2.2, fun c hc => ⟨?_, hx c hc⟩, hrest⟩, hspells⟩
  · rw [hparts, htext]
    simp
  · rintro rfl
    rw [← hauthority] at hc
    exact (Url.mem_authority_append hc).elim hhost hbehind

/-- What is read in front of an `@` of the text that is composed stands before the one that is put in, or
ends at it. -/
theorem cutShort_or_spelled (h : Config.UserDefault settings.parts) : settings.CutShort ∨ settings.SpelledDefault := by
  obtain ⟨u, p, h, rest, hreads, hp⟩ := h
  obtain ⟨behind, hparts, -⟩ := settings.parts_eq
  obtain ⟨hcolon, hat, -⟩ := spells_app hp
  have hhost : '@' ∉ h := fun hmem => (hreads.host _ hmem).1 rfl
  have heq : (u ++ ':' :: (p ++ '@' :: h)) ++ rest = (settings.postgresUser.toList ++ ':' :: settings.postgresPassword.toList) ++
      '@' :: (settings.postgresHost.toList ++ behind) := by
    rw [← hparts, hreads.eq]
    simp
  rcases List.append_eq_append_iff.1 heq with ⟨z, hz, hrest⟩ | ⟨z, hz, hrest⟩
  · left
    cases z with
    | nil =>
      rw [List.nil_append] at hrest
      have := hreads.rest '@' (by rw [hrest]; rfl)
      cases this
    | cons c z =>
      have hstops : Url.Stops Url.isDelimiter (c :: z) := fun d hd => hreads.rest d (by rw [hrest]; exact hd)
      exact ⟨u, p, h, c :: z, List.cons_ne_nil c z,
        ⟨by simpa using hz, hreads.user, hreads.password, hreads.host, hstops⟩, hp⟩
  · right
    cases z with
    | nil =>
      have := hreads.rest '@' (by rw [← List.nil_append rest, ← hrest]; rfl)
      cases this
    | cons c z =>
      obtain ⟨rfl, hhostport⟩ := List.cons.inj hrest
      have hinfo : u ++ ':' :: p = settings.postgresUser.toList ++ ':' :: settings.postgresPassword.toList ∧ h = z := by
        have hz' : (u ++ ':' :: p) ++ '@' :: h = (settings.postgresUser.toList ++ ':' :: settings.postgresPassword.toList) ++
            '@' :: z := by simpa using hz
        rcases List.append_eq_append_iff.1 hz' with ⟨w, hw, hbehind⟩ | ⟨w, hw, hbehind⟩
        · cases w with
          | nil => exact ⟨by simpa using hw.symm, (List.cons.inj hbehind).2⟩
          | cons c w =>
            have := (List.cons.inj hbehind).2
            exact absurd (this ▸ by simp) hhost
        · cases w with
          | nil => exact ⟨by simpa using hw, (List.cons.inj hbehind).2.symm⟩
          | cons c w =>
            obtain ⟨rfl, -⟩ := List.cons.inj hbehind
            rw [List.append_assoc, List.cons_append,
              List.append_cons_inj_of_notMem (fun hmem => (hreads.user _ hmem).1 rfl) hcolon] at hw
            exact absurd (hw.2.2 ▸ by simp) hat
      obtain ⟨hinfo, rfl⟩ := hinfo
      rw [List.append_cons_inj_of_notMem (fun hmem => (hreads.user _ hmem).1 rfl) hcolon] at hinfo
      obtain ⟨rfl, -, rfl⟩ := hinfo
      refine ⟨hreads.user, hp, fun hmem => ?_⟩
      have hfront := Url.authority_subset_append settings.postgresHost.toList behind hmem
      rw [hhostport, List.append_eq, Url.authority, (Url.takeWhile_stop (fun c hc => (hreads.host c hc).2) hreads.rest).1] at hfront
      exact hhost hfront

theorem userDefault_parts_iff : Config.UserDefault settings.parts ↔ settings.CutShort ∨ settings.SpelledDefault :=
  ⟨cutShort_or_spelled, fun h => h.elim userDefault_of_cutShort userDefault_of_spelledDefault⟩

theorem postgresPassword_ne_default (hprod : settings.mode = .production) (hvalid : settings.validate vars = .ok ()) :
    settings.postgresPassword ≠ "app" := by
  rintro hdefault
  have hleft : settings.leftAtDefault ≠ [] := by simp [Config.Settings.leftAtDefault, Config.Settings.defaults, hdefault]
  unfold Config.Settings.validate at hvalid
  rw [if_neg (by simp [hprod]), if_neg (by simp [hprod]), if_pos hleft] at hvalid
  cases hvalid

end

example : (Dsn.parseUrl " POSTGRES://app:%61pp@db/app".toList).bind Dsn.connectPassword = some (utf8 "app") := by decide

def defaultVariables : Config.Variables := ⟨some "postgres://app:app@db/app?sslmode=require", none⟩

theorem default_accepted : Config.Settings.hardened.validate defaultVariables = .ok () ∧
    (Dsn.parseUrl (connectOptions .hardened defaultVariables).url.toList).bind Dsn.connectPassword = some (utf8 "app") := by
  decide +kernel

end TemplateAxum
