import TemplateAxum.HeroPage
import TemplateAxum.Lib.Url
import TemplateAxum.Reference

/-!
# The token in links

Every page and redirect of the web router carries the token on in URLs. What a browser sends when it follows
one of them is the query that the URL Standard reads (`Lib.UrlQuery`); a token that is accepted survives this
if and only if it is `Inert`.
-/

namespace TemplateAxum

open Prog
open Html (Template fill events structureOf valuesOf)

/-! ### What a URL presents -/

/-- The values of `token`. -/
def tokenValues (url : List Char) : List (List UInt8) :=
  ((UrlQuery.queryPairs url).filter fun pair => pair.1 = Url.bytes "token".toList).map Prod.snd

/-- A request to the URL has the token, and no other. -/
def Presents (url : List Char) (token : String) : Prop := tokenValues url = [Url.bytes token.toList]

def tokenLink (lead text : List Char) : List Char := lead ++ '?' :: ("token".toList ++ '=' :: text)

/-- What stands in a query as the value of a pair and is read as it stands. -/
structure Carried (text : List Char) : Prop where
  clean : UrlQuery.cleanEnd text = text
  hash : '#' ∉ text
  amp : '&' ∉ text
  plus : '+' ∉ text
  escaped : ¬ Url.Escaped text

section Links

variable {lead text : List Char}

theorem not_mem_takeWhile {c : Char} (text : List Char) : c ∉ text.takeWhile (· ≠ c) := fun h => by
  simpa using List.mem_takeWhile_imp h

theorem pair_token {value : List Char} : UrlQuery.pair ("token".toList ++ '=' :: value) =
    (Url.bytes "token".toList, UrlQuery.decode value) := by
  have hname : ∀ c ∈ "token".toList, decide (c ≠ '=') = true := List.all_eq_true.1 (by rw [String.toList_ofList]; decide)
  have hbytes : UrlQuery.decode "token".toList = Url.bytes "token".toList := by rw [String.toList_ofList]; decide
  rw [UrlQuery.pair, List.takeWhile_append_of_pos hname, List.dropWhile_append_of_pos hname,
    List.takeWhile_cons_of_neg (by decide), List.dropWhile_cons_of_neg (by decide), List.append_nil, hbytes]
  rfl

/-- The value reaches to the first `&`. -/
theorem pairs_token (text : List Char) : ∃ others, UrlQuery.pairs ("token".toList ++ '=' :: text) =
    (Url.bytes "token".toList, UrlQuery.decode (text.takeWhile (· ≠ '&'))) :: others := by
  have hne : ∀ value, "token".toList ++ '=' :: value ≠ [] := by simp
  have hamp : '&' ∉ "token".toList ++ '=' :: text.takeWhile (· ≠ '&') := by
    rw [List.mem_append, List.mem_cons]
    rintro (h | h | h)
    · revert h
      repeat rw [String.toList_ofList]
      decide
    · cases h
    · exact not_mem_takeWhile text h
  cases hdrop : text.dropWhile (· ≠ '&') with
  | nil =>
    have hall : text.takeWhile (· ≠ '&') = text := by
      conv_rhs => rw [← List.takeWhile_append_dropWhile (p := (· ≠ '&')) (l := text), hdrop, List.append_nil]
    rw [hall] at hamp ⊢
    exact ⟨[], by rw [UrlQuery.pairs_singleton (hne text) hamp, pair_token]⟩
  | cons c rest =>
    have hc : c = '&' := by
      have := List.head?_dropWhile_not (fun c => decide (c ≠ '&')) text
      rw [hdrop] at this
      simpa using this
    subst hc
    refine ⟨UrlQuery.pairs rest, ?_⟩
    have hsplit : "token".toList ++ '=' :: text = ("token".toList ++ '=' :: text.takeWhile (· ≠ '&')) ++ '&' :: rest := by
      conv_lhs => rw [← List.takeWhile_append_dropWhile (p := (· ≠ '&')) (l := text), hdrop]
      simp
    rw [hsplit, UrlQuery.pairs_append, UrlQuery.pairs_singleton (hne _) hamp, pair_token]
    rfl

theorem query_link (hhash : '#' ∉ lead) (hmark : '?' ∉ lead) (text : List Char) :
    UrlQuery.query (tokenLink lead text) =
      some ("token".toList ++ '=' :: UrlQuery.beforeHash (UrlQuery.cleanEnd text)) := by
  have hstrip : UrlQuery.strip "token".toList = "token".toList := by rw [String.toList_ofList]; decide
  have hkeep : '#' ∉ "token".toList ++ ['='] := by rw [String.toList_ofList]; decide
  rw [tokenLink, UrlQuery.query_append hhash hmark, UrlQuery.cleanEnd_append (by decide), hstrip]
  have := UrlQuery.beforeHash_of_not_mem hkeep (UrlQuery.cleanEnd text)
  simpa using this

/-- What is carried is presented. -/
theorem Carried.presents (hhash : '#' ∉ lead) (hmark : '?' ∉ lead) {token : String} (h : Carried token.toList) :
    Presents (tokenLink lead token.toList) token := by
  have hbefore : UrlQuery.beforeHash token.toList = token.toList := by
    have := UrlQuery.beforeHash_of_not_mem h.hash []
    simpa [UrlQuery.beforeHash] using this
  have hamp : '&' ∉ "token".toList ++ '=' :: token.toList := by
    rw [List.mem_append, List.mem_cons]
    rintro (hmem | hmem | hmem)
    · revert hmem
      repeat rw [String.toList_ofList]
      decide
    · cases hmem
    · exact h.amp hmem
  rw [Presents, tokenValues, UrlQuery.queryPairs, query_link hhash hmark, h.clean, hbefore, Option.map_some,
    Option.getD_some, UrlQuery.pairs_singleton (by simp) hamp, pair_token, Url.decode_eq_bytes h.plus h.escaped,
    List.filter_cons_of_pos (by simp)]
  rfl

theorem cleanEnd_sublist (text : List Char) : (UrlQuery.cleanEnd text).Sublist text :=
  (List.filter_sublist).trans (List.rdropWhile_prefix _ _).sublist

/-- Nothing shorter than the token presents it. -/
theorem eq_of_presents (hhash : '#' ∉ lead) (hmark : '?' ∉ lead) {token : String} (hpart : text.Sublist token.toList)
    (h : Presents (tokenLink lead text) token) : text = token.toList ∧ Carried token.toList := by
  obtain ⟨others, hpairs⟩ := pairs_token (UrlQuery.beforeHash (UrlQuery.cleanEnd text))
  rw [Presents, tokenValues, UrlQuery.queryPairs, query_link hhash hmark, Option.map_some, Option.getD_some, hpairs,
    List.filter_cons_of_pos (by simp), List.map_cons] at h
  have hamp := List.takeWhile_sublist (l := UrlQuery.beforeHash (UrlQuery.cleanEnd text)) (· ≠ '&')
  have hhash' := List.takeWhile_sublist (l := UrlQuery.cleanEnd text) (· ≠ '#')
  have hclean := cleanEnd_sublist text
  obtain ⟨hvalue, hplus, hescaped⟩ :=
    Url.eq_of_decode (((hamp.trans hhash').trans hclean).trans hpart) (List.cons.inj h).1
  have htext : text = token.toList := by
    refine hpart.antisymm ?_
    rw [← hvalue]
    exact (hamp.trans hhash').trans hclean
  subst htext
  rw [hvalue] at hamp
  have hbefore : UrlQuery.beforeHash (UrlQuery.cleanEnd token.toList) = token.toList :=
    (hhash'.trans hclean).antisymm hamp
  have hcleaned : UrlQuery.cleanEnd token.toList = token.toList := hclean.antisymm (hamp.trans hhash')
  refine ⟨rfl, hcleaned, fun hmem => ?_, fun hmem => ?_, hplus, hescaped⟩
  · rw [← hbefore] at hmem
    exact not_mem_takeWhile _ hmem
  · rw [← hvalue] at hmem
    exact not_mem_takeWhile _ hmem

end Links

/-! ### Surviving the page -/

/-- A token that no URL and no attribute reads anything into. -/
structure Inert (token : String) : Prop where
  visible : ∀ c ∈ token.toList, 32 ≤ c.toNat ∧ c.toNat ≠ 127
  quote : '"' ∉ token.toList
  amp : '&' ∉ token.toList
  hash : '#' ∉ token.toList
  plus : '+' ∉ token.toList
  escaped : ¬ Url.Escaped token.toList
  last : token.toList.getLast? ≠ some ' '

/-- How a browser reads the value of an attribute: what is no character reference and no control stays. -/
def ReadsPlain (read : List Char → List Char) : Prop :=
  ∀ value, (∀ c ∈ value, 32 ≤ c.toNat) → '&' ∉ value → read value = value

/-- The token adds nothing to the tags of any page, and every link, form and redirect presents it again. -/
structure Survives (env : Env) (read : List Char → List Char) (token : String) : Prop where
  tags : ∀ heroes, structureOf (events (heroesPage heroes token).toList) = structureOf (events (heroesPage heroes "").toList)
  links : ∀ heroes, ∀ url ∈ valuesOf urlNames (events (heroesPage heroes token).toList), Presents (read url) token
  redirect : ∃ uri, env.axum.redirectTo (formLocation token) = ⟨303, [("location", uri)], .empty⟩ ∧ Presents uri.toList token

variable {env : Env} {read : List Char → List Char} {token : String}

theorem Inert.carried (h : Inert token) : Carried token.toList where
  clean := by
    have hlast : token.toList.rdropWhile UrlQuery.isBlank = token.toList := by
      refine List.rdropWhile_eq_self_iff.2 fun hne hblank => ?_
      have hmem := h.visible _ (List.getLast_mem hne)
      have hle : (token.toList.getLast hne).toNat ≤ 32 := of_decide_eq_true hblank
      have hspace : token.toList.getLast hne = ' ' := Char.toNat_inj.1 (Nat.le_antisymm hle hmem.1)
      exact h.last (by rw [List.getLast?_eq_getLast_of_ne_nil hne, hspace])
    rw [UrlQuery.cleanEnd, hlast]
    refine List.filter_eq_self.2 fun c hc => ?_
    have := (h.visible c hc).1
    simp only [UrlQuery.isTabOrNewline, Bool.not_eq_true', decide_eq_false_iff_not]
    rintro (rfl | rfl | rfl)
    · exact absurd this (by decide)
    · exact absurd this (by decide)
    · exact absurd this (by decide)
  hash := h.hash
  amp := h.amp
  plus := h.plus
  escaped := h.escaped

theorem Carried.not_blank_last (h : Carried token.toList) : token.toList.getLast? ≠ some ' ' := by
  intro hlast
  obtain ⟨front, hfront⟩ := List.getLast?_eq_some_iff.1 hlast
  have hlen : (UrlQuery.cleanEnd token.toList).length ≤ front.length := by
    rw [UrlQuery.cleanEnd, hfront, List.rdropWhile_concat_pos _ _ _ (by decide)]
    exact ((List.filter_sublist).trans (List.rdropWhile_prefix _ _).sublist).length_le
  rw [h.clean, hfront, List.length_append, List.length_singleton] at hlen
  omega

theorem Carried.not_tab (h : Carried token.toList) : '\t' ∉ token.toList := by
  rw [← h.clean]
  intro hmem
  have := (List.mem_filter.1 hmem).2
  revert this
  decide

/-! ### The links of a page -/

/-- The characters of the paths that the templates write. -/
def isPathChar (c : Char) : Bool := c.isAlphanum || c = '/' || c = '.' || c = '-'

theorem isPathChar_visible {c : Char} (h : isPathChar c = true) : 32 ≤ c.toNat := by
  simp only [isPathChar, Char.isAlphanum, Char.isAlpha, Char.isUpper, Char.isLower, Char.isDigit, Bool.or_eq_true,
    Bool.and_eq_true, decide_eq_true_eq, UInt32.le_iff_toNat_le] at h
  rcases h with ((h | rfl) | rfl) | rfl
  · have hbounds : 'A'.val.toNat = 65 ∧ 'a'.val.toNat = 97 ∧ '0'.val.toNat = 48 := ⟨rfl, rfl, rfl⟩
    unfold Char.toNat
    omega
  · decide
  · decide
  · decide

theorem notMem_path {lead : List Char} (hlead : lead.all isPathChar = true) {c : Char} (hc : isPathChar c = false) : c ∉ lead := by
  intro hmem
  rw [List.all_eq_true.1 hlead c hmem] at hc
  cases hc

theorem isPathChar_toString (n : Int32) : (toString n).toList.all isPathChar = true := by
  refine List.all_eq_true.2 fun c hc => ?_
  rcases isDigit_of_toString hc with rfl | hdigit
  · decide
  · simp [isPathChar, Char.isAlphanum, hdigit]

theorem link_eq {path lead : List Char} (hpath : path = lead ++ "?token=".toList) (text : List Char) :
    path ++ text = tokenLink lead text := by
  have hmark : "?token=".toList = '?' :: ("token".toList ++ ['=']) := by rw [String.toList_ofList]; decide
  rw [hpath, hmark, tokenLink]
  simp

theorem exists_tokenLink (hquote : '"' ∉ token.toList) {heroes : List Model} {url : List Char}
    (h : url ∈ valuesOf urlNames (events (heroesPage heroes token).toList)) :
    ∃ lead, lead.all isPathChar = true ∧ url = tokenLink lead token.toList := by
  obtain ⟨shape, hshape⟩ := exists_pageStructure
  rw [(hshape heroes token hquote).2.2, List.mem_cons, List.mem_append, List.mem_singleton, List.mem_flatMap] at h
  have hrow : ∀ (n : Int32) (action : String), action.toList.all isPathChar = true →
      ("/heroes/form/".toList ++ ((toString n).toList ++ action.toList)).all isPathChar = true := by
    intro n action haction
    rw [List.all_append, List.all_append, isPathChar_toString, haction, Bool.and_true, Bool.and_true]
    repeat rw [String.toList_ofList]
    decide
  have hread : ∀ (n : Int32) (action path : String), path.toList = action.toList ++ "?token=".toList →
      "/heroes/form/".toList ++ ((toString n).toList ++ (path.toList ++ token.toList)) =
        tokenLink ("/heroes/form/".toList ++ ((toString n).toList ++ action.toList)) token.toList := by
    intro n action path hpath
    rw [hpath, ← link_eq rfl]
    simp
  rcases h with rfl | ⟨hero, -, hurl⟩ | rfl
  · refine ⟨"/heroes/components.js".toList, by rw [String.toList_ofList]; decide, ?_⟩
    rw [Html.fill_append, fill_lit, fill_hole]
    exact link_eq (by rw [String.toList_ofList]; decide) token.toList
  · rw [rowLinks, List.map_cons, List.map_singleton, List.mem_pair] at hurl
    rcases hurl with rfl | rfl
    · refine ⟨_, hrow hero.id "/update" (by rw [String.toList_ofList]; decide), ?_⟩
      simp only [Html.fill_append, fill_lit, fill_hole, List.append_assoc]
      exact hread hero.id "/update" "/update?token=" (by rw [String.toList_ofList]; decide)
    · refine ⟨_, hrow hero.id "/delete" (by rw [String.toList_ofList]; decide), ?_⟩
      simp only [Html.fill_append, fill_lit, fill_hole, List.append_assoc]
      exact hread hero.id "/delete" "/delete?token=" (by rw [String.toList_ofList]; decide)
  · refine ⟨"/heroes/form".toList, by rw [String.toList_ofList]; decide, ?_⟩
    rw [Html.fill_append, fill_lit, fill_hole]
    exact link_eq (by rw [String.toList_ofList]; decide) token.toList

theorem tokenLink_visible {lead text : List Char} (hlead : lead.all isPathChar = true) (htext : ∀ c ∈ text, 32 ≤ c.toNat) :
    ∀ c ∈ tokenLink lead text, 32 ≤ c.toNat := by
  have hname : "token".toList.all isPathChar = true := by rw [String.toList_ofList]; decide
  intro c hc
  rcases List.mem_append.1 hc with hc | hc
  · exact isPathChar_visible (List.all_eq_true.1 hlead c hc)
  · rcases List.mem_cons.1 hc with rfl | hc
    · decide
    · rcases List.mem_append.1 hc with hc | hc
      · exact isPathChar_visible (List.all_eq_true.1 hname c hc)
      · rcases List.mem_cons.1 hc with rfl | hc
        · decide
        · exact htext c hc

theorem amp_notMem_tokenLink {lead text : List Char} (hlead : lead.all isPathChar = true) (htext : '&' ∉ text) :
    '&' ∉ tokenLink lead text := by
  have hname : "token".toList.all isPathChar = true := by rw [String.toList_ofList]; decide
  rw [tokenLink, List.mem_append, List.mem_cons, List.mem_append, List.mem_cons]
  rintro (hc | hc | hc | hc | hc)
  · exact notMem_path hlead (by decide) hc
  · cases hc
  · exact notMem_path hname (by decide) hc
  · cases hc
  · exact htext hc

/-! ### When it survives -/

theorem Inert.accepts (h : Inert token) : HeaderValue.accepts (formLocation token) = true := by
  refine accepts_formLocation_iff.2 fun c hc => ?_
  have := h.visible c hc
  simp [HeaderValue.allows, this]

theorem formLocation_eq (token : String) : (formLocation token).toList = tokenLink "/heroes/form".toList token.toList := by
  have htext : (formLocation token).toList = "/heroes/form?token=".toList ++ token.toList := String.toList_append
  rw [htext]
  exact link_eq (by rw [String.toList_ofList]; decide) token.toList

theorem Inert.survives (haxum : env.axum.Documented) (hread : ReadsPlain read) (h : Inert token) : Survives env read token where
  tags heroes := by
    obtain ⟨shape, hshape⟩ := exists_pageStructure
    rw [(hshape heroes token h.quote).1, (hshape heroes "" (by simp)).1]
  links heroes url hurl := by
    obtain ⟨lead, hlead, rfl⟩ := exists_tokenLink h.quote hurl
    rw [hread _ (tokenLink_visible hlead fun c hc => (h.visible c hc).1) (amp_notMem_tokenLink hlead h.amp)]
    exact h.carried.presents (notMem_path hlead (by decide)) (notMem_path hlead (by decide))
  redirect := by
    refine ⟨formLocation token, haxum.redirectTo_ok _ h.accepts, ?_⟩
    rw [formLocation_eq]
    exact h.carried.presents (by rw [String.toList_ofList]; decide) (by rw [String.toList_ofList]; decide)

/-- What the page reads before the token for the first time. -/
def firstLink : Template Arg :=
  lit "<!doctype html>\n" ++ lit "<html><head><title>Heroes</title><script src=\"/heroes/components.js?token="

theorem trace_firstLink : ∃ es, Html.trace .data firstLink =
    some (.quoted ⟨false, "script".toList⟩ '"' "src".toList (lit "/heroes/components.js?token="), es) := by
  have h : (Html.trace .data firstLink).map Prod.fst =
      some (.quoted ⟨false, "script".toList⟩ '"' "src".toList (lit "/heroes/components.js?token=")) := by
    unfold firstLink
    repeat rw [lit_ofList]
    repeat rw [String.toList_ofList]
    decide +kernel
  obtain ⟨⟨s, es⟩, htrace, rfl⟩ := Option.map_eq_some_iff.1 h
  exact ⟨es, htrace⟩

theorem pageHead_eq : ∃ rest, pageHead = firstLink ++ (hole .token ++ rest) :=
  ⟨_, by rw [pageHead, firstLink]; simp only [List.append_assoc]; rfl⟩

theorem heroesPage_nil {front back : List Char} (htoken : token.toList = front ++ '"' :: back) : ∃ rest,
    (heroesPage [] token).toList = fill (pageArgs "") firstLink ++ (front ++ ['"']) ++ rest := by
  obtain ⟨rest, hrest⟩ := pageHead_eq
  have hlead : fill (pageArgs "") firstLink = fill (pageArgs token) firstLink := by
    rw [firstLink, Html.fill_append, Html.fill_append, fill_lit, fill_lit, fill_lit, fill_lit]
  have hhole : fill (pageArgs token) (hole .token) = front ++ '"' :: back := by
    rw [fill_hole, ← htoken]
    rfl
  have hpage : (heroesPage [] token).toList = fill (pageArgs token) pageHead ++ fill (pageArgs token) pageTail := by
    simp [heroesPage]
  rw [hpage, hrest, Html.fill_append, Html.fill_append, hhole, hlead]
  exact ⟨back ++ (fill (pageArgs token) rest ++ fill (pageArgs token) pageTail), by simp⟩

/-- A quote in the token ends the first link. -/
theorem front_mem_links {front back : List Char} (hfront : '"' ∉ front) (htoken : token.toList = front ++ '"' :: back) :
    tokenLink "/heroes/components.js".toList front ∈ valuesOf urlNames (events (heroesPage [] token).toList) := by
  obtain ⟨es, hes⟩ := trace_firstLink
  obtain ⟨rest, htext⟩ := heroesPage_nil htoken
  have hargs : ∀ arg, '"' ∉ pageArgs "" arg := quote_notMem_pageArgs (by simp)
  have hlink : fill (pageArgs "") (lit "/heroes/components.js?token=") ++ front =
      tokenLink "/heroes/components.js".toList front := by
    rw [fill_lit]
    exact link_eq (by rw [String.toList_ofList]; decide) front
  have hsrc : "src".toList ∈ urlNames := by rw [String.toList_ofList]; decide
  rw [htext, ← hlink]
  exact Html.mem_valuesOf hsrc (Html.attr_mem_events (Html.run_fill hargs hes) hfront rest)

theorem not_survives_of_quote (hread : ReadsPlain read) (hvisible : ∀ c ∈ token.toList, 32 ≤ c.toNat)
    (hamp : '&' ∉ token.toList) (hquote : '"' ∈ token.toList) : ¬ Survives env read token := by
  intro h
  obtain ⟨front, back, htoken, hfront⟩ := List.eq_append_cons_of_mem hquote
  have hfrontVisible : ∀ c ∈ front, 32 ≤ c.toNat := fun c hc => hvisible c (by simp [htoken, hc])
  have hfrontAmp : '&' ∉ front := fun hc => hamp (by simp [htoken, hc])
  have hlink := h.links [] _ (front_mem_links hfront htoken)
  rw [hread _ (tokenLink_visible (by rw [String.toList_ofList]; decide) hfrontVisible)
    (amp_notMem_tokenLink (by rw [String.toList_ofList]; decide) hfrontAmp)] at hlink
  have hpart : front.Sublist token.toList := htoken ▸ List.sublist_append_left front ('"' :: back)
  have hwhole := (eq_of_presents (by rw [String.toList_ofList]; decide) (by rw [String.toList_ofList]; decide) hpart hlink).1
  rw [← hwhole] at hquote
  exact hfront hquote

/-- Exactly the inert tokens survive. -/
theorem survives_iff_inert (haxum : env.axum.Documented) (hread : ReadsPlain read) : Survives env read token ↔ Inert token := by
  refine ⟨fun h => ?_, fun h => h.survives haxum hread⟩
  obtain ⟨uri, huri, hpresents⟩ := h.redirect
  have haccepts : HeaderValue.accepts (formLocation token) = true := by
    by_contra hnot
    have := haxum.redirectTo_err _ (Bool.eq_false_of_not_eq_true hnot)
    rw [huri] at this
    cases this
  rw [haxum.redirectTo_ok _ haccepts] at huri
  cases huri
  rw [formLocation_eq] at hpresents
  have hcarried := (eq_of_presents (by rw [String.toList_ofList]; decide) (by rw [String.toList_ofList]; decide)
    (List.Sublist.refl _) hpresents).2
  have hvisible : ∀ c ∈ token.toList, 32 ≤ c.toNat ∧ c.toNat ≠ 127 := by
    intro c hc
    have hallows := accepts_formLocation_iff.1 haccepts c hc
    have htab : c.toNat ≠ 9 := fun hnine => hcarried.not_tab ((Char.toNat_inj.1 hnine : c = '\t') ▸ hc)
    simpa [HeaderValue.allows, htab] using hallows
  exact
    { visible := hvisible
      quote := fun hquote => not_survives_of_quote hread (fun c hc => (hvisible c hc).1) hcarried.amp hquote h
      amp := hcarried.amp
      hash := hcarried.hash
      plus := hcarried.plus
      escaped := hcarried.escaped
      last := hcarried.not_blank_last }

/-- Outside of `Mode::Mock` the characters of a token need no escaping. -/
theorem inert_of_isTokenChar (h : token.toList.all isTokenChar = true) : Inert token := by
  have hnot : ∀ c, isTokenChar c = false → c ∉ token.toList := by
    intro c hc hmem
    rw [List.all_eq_true.1 h c hmem] at hc
    cases hc
  exact
    { visible := fun c hc => by
        have hallows := allows_of_isTokenChar (List.all_eq_true.1 h c hc)
        have htab : c.toNat ≠ 9 := fun hnine => hnot '\t' (by decide) ((Char.toNat_inj.1 hnine : c = '\t') ▸ hc)
        simpa [HeaderValue.allows, htab] using hallows
      quote := hnot _ (by decide)
      amp := hnot _ (by decide)
      hash := hnot _ (by decide)
      plus := hnot _ (by decide)
      escaped := fun ⟨before, a, b, after, htext, _⟩ => hnot '%' (by decide) (by simp [htext])
      last := fun hlast => hnot ' ' (by decide) (List.mem_of_getLast? hlast) }

/-- What is accepted has been decoded. -/
theorem returns_webAuthClaims {headers : Headers} {queryToken : Option String} {h : Seen} {auth : WebAuthClaims}
    (haccepted : (webAuthClaims env.oidc headers queryToken : Prog Op Op.Ans Response _).Returns h (.ok (.ok auth))) :
    (env.oidc.decodeBearerToken auth.token).Returns h (.ok auth.claims) := by
  have hsat : Sat (fun _ _ => True)
      (fun h r => ∀ auth, r = .ok auth → (env.oidc.decodeBearerToken auth.token).Returns h (.ok auth.claims))
      (fun _ _ => True) [] (webAuthClaims env.oidc headers queryToken : Prog Op Op.Ans Response _) := by
    unfold webAuthClaims
    split
    · rintro auth ⟨⟩
    · rename_i token htoken
      refine sat_bind.2 (sat_attempt.2 (((env.oidc.decodeBearerToken_calls token).sat_returns []).mono ?_ ?_ ?_))
      · exact fun _ _ _ => trivial
      · rintro h' claims ⟨seg, rfl, hret, -⟩ auth ⟨⟩
        exact hret
      · rintro h' err - auth ⟨⟩
  exact hsat.of_returns haccepted auth rfl

/-- An accepted token survives if and only if it is inert, and outside of `Mode::Mock` always. -/
theorem accepted_survives_iff (haxum : env.axum.Documented) (htokens : env.tokens.Documented) (hread : ReadsPlain read)
    {headers : Headers} {queryToken : Option String} {h : Seen} {auth : WebAuthClaims}
    (haccepted : (webAuthClaims env.oidc headers queryToken : Prog Op Op.Ans Response _).Returns h (.ok (.ok auth))) :
    (Survives env read auth.token ↔ Inert auth.token) ∧ (env.settings.mode ≠ .mock → Survives env read auth.token) := by
  refine ⟨survives_iff_inert haxum hread, fun hmode => ?_⟩
  refine (survives_iff_inert haxum hread).2 (inert_of_isTokenChar ?_)
  exact isTokenChar_of_accepted htokens hmode (returns_webAuthClaims haccepted)

/-- A maintainer's token whose signature is markup. -/
def taggedToken : String := "e30." ++ aliceSegment ++ ".\"><script>"

theorem returns_mock {token : String} (h : (token.toList.splitOn '.')[1]? = some aliceSegment.toList) :
    (webAuthClaims Env.reference.oidc ⟨none, none, [], []⟩ (some token) : Prog Op Op.Ans Response _).Returns []
      (.ok (.ok ⟨⟨aliceClaims⟩, token⟩)) := by
  have hvalue : Env.reference.oidc.decodeWithoutVerification token = some aliceClaims :=
    OidcVerifier.decode_reference rfl h
  have hdecode : Env.reference.oidc.decodeBearerToken token = ret ⟨aliceClaims⟩ := by
    rw [decodeBearerToken_mock rfl, hvalue]
    rfl
  have hret : (webAuthClaims Env.reference.oidc ⟨none, none, [], []⟩ (some token) : Prog Op Op.Ans Response _) =
      ret (.ok ⟨⟨aliceClaims⟩, token⟩) := by
    show ((Env.reference.oidc.decodeBearerToken token).attempt >>= _) = _
    rw [hdecode]
    rfl
  rw [hret]
  exact .ret _

theorem readsPlain_decode : ReadsPlain Html.decode := fun _ _ hamp => Html.decode_of_notMem hamp

theorem accepted_survives_iff_alice :
    Survives Env.reference Html.decode ("e30." ++ aliceSegment ++ ".s") :=
  (accepted_survives_iff Axum.reference_documented (TokenCrates.reference_documented _ _ _) readsPlain_decode
    (returns_mock splitOn_alice)).1.2 (inert_of_isTokenChar (by
      rw [aliceSegment_toList, aliceSegment]
      repeat rw [String.toList_ofList]
      decide +kernel))

theorem not_survives_tagged :
    (webAuthClaims Env.reference.oidc ⟨none, none, [], []⟩ (some taggedToken) : Prog Op Op.Ans Response _).Returns []
      (.ok (.ok ⟨⟨aliceClaims⟩, taggedToken⟩)) ∧ ¬ Survives Env.reference Html.decode taggedToken := by
  have hchars : taggedToken.toList = "e30.".toList ++ aliceSegment.toList ++ ".\"><script>".toList := by
    rw [taggedToken, String.toList_append, String.toList_append]
  refine ⟨returns_mock (by
    simp only [hchars, aliceSegment]
    repeat rw [String.toList_ofList]
    decide +kernel), fun h => ?_⟩
  refine ((survives_iff_inert Axum.reference_documented readsPlain_decode).1 h).quote ?_
  rw [hchars, String.toList_ofList]
  simp

end TemplateAxum
