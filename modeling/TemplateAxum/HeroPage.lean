import TemplateAxum.HeroesWeb
import TemplateAxum.Lib.Html

/-!
# The pages of the web router

The rendering in `heroes_web.rs`: `escape_html`, `hero_row_html`, `heroes_page` and `bootstrap_page`. A
`format!` is a template of `Lib.Html` whose holes are the arguments that the literal names.
-/

namespace TemplateAxum

open Html (Template fill trace events structureOf valuesOf controls decode decode_cons)

/-- `str::replace` of a character. -/
def replace (c : Char) (text : String) (raw : List Char) : List Char :=
  raw.flatMap fun d => if d = c then text.toList else [d]

def escapeHtml (raw : String) : String :=
  String.ofList (replace '\'' "&#39;" (replace '"' "&quot;" (replace '>' "&gt;" (replace '<' "&lt;" (replace '&' "&amp;" raw.toList)))))

/-- What the literals name. -/
inductive Arg
  | id | name | powers | powerLevel | token | message
deriving DecidableEq

def lit (text : String) : Template Arg := text.toList.map .inl

def hole (arg : Arg) : Template Arg := [.inr arg]

/-! ### The list of heroes -/

def heroRow : Template Arg :=
  lit "<li class=\"hero\" data-hero-id=\"" ++ hole .id ++ lit "\">\n" ++
  lit "  <form class=\"hero-form\" method=\"POST\" action=\"/heroes/form/" ++ hole .id ++ lit "/update?token=" ++ hole .token ++
  lit "\" data-json-action=\"/crud/v1/heroes/v2/json?id=" ++ hole .id ++ lit "\" data-json-method=\"PATCH\">\n" ++
  lit "    <input type=\"text\" name=\"name\" value=\"" ++ hole .name ++ lit "\" required>\n" ++
  lit "    <input type=\"text\" name=\"powers\" value=\"" ++ hole .powers ++ lit "\" required>\n" ++
  lit "    <input type=\"number\" name=\"power_level\" value=\"" ++ hole .powerLevel ++ lit "\">\n" ++
  lit "    <button type=\"submit\">Update</button>\n" ++
  lit "  </form>\n" ++
  lit "  <form class=\"hero-delete-form\" method=\"POST\" action=\"/heroes/form/" ++ hole .id ++ lit "/delete?token=" ++
  hole .token ++ lit "\" data-json-action=\"/crud/v1/heroes/v2/json?id=" ++ hole .id ++
  lit "\" data-json-method=\"DELETE\">\n" ++
  lit "    <button type=\"submit\">Delete</button>\n" ++
  lit "  </form>\n" ++
  lit "</li>"

/-- `heroes_page` up to its rows. -/
def pageHead : Template Arg :=
  lit "<!doctype html>\n" ++
  lit "<html><head><title>Heroes</title><script src=\"/heroes/components.js?token=" ++ hole .token ++
  lit "\" defer></script></head>\n" ++
  lit "<body data-token=\"" ++ hole .token ++ lit "\">\n" ++
  lit "<h1>Heroes</h1>\n" ++
  lit "<ul class=\"hero-list\">\n"

def pageTail : Template Arg :=
  lit "\n</ul>\n" ++
  lit "<h2>Create a hero</h2>\n" ++
  lit "<form class=\"hero-form\" method=\"POST\" action=\"/heroes/form?token=" ++ hole .token ++
  lit "\" data-json-action=\"/crud/v1/heroes/v2/json\" data-json-method=\"POST\">\n" ++
  lit "  <input type=\"text\" name=\"name\" placeholder=\"Name\" required>\n" ++
  lit "  <input type=\"text\" name=\"powers\" placeholder=\"Powers, comma-separated\" required>\n" ++
  lit "  <input type=\"number\" name=\"power_level\" placeholder=\"Power level\">\n" ++
  lit "  <button type=\"submit\">Create</button>\n" ++
  lit "</form>\n" ++
  lit "</body></html>"

/-- The arguments of the row of a hero. -/
def rowArgs (hero : Model) (token : String) : Arg → List Char :=
  let name := escapeHtml (hero.name.getD "")
  let powers := escapeHtml (", ".intercalate (hero.powers.getD []))
  let powerLevel := hero.powerLevel.elim "" toString
  fun
    | .id => (toString hero.id).toList
    | .name => name.toList
    | .powers => powers.toList
    | .powerLevel => powerLevel.toList
    | .token => token.toList
    | _ => []

def heroRowHtml (hero : Model) (token : String) : String := String.ofList (fill (rowArgs hero token) heroRow)

/-- The argument of the page around the rows. -/
def pageArgs (token : String) : Arg → List Char
  | .token => token.toList
  | _ => []

def heroesPage (heroes : List Model) (token : String) : String :=
  let rows := "\n".intercalate (heroes.map fun hero => heroRowHtml hero token)
  String.ofList (fill (pageArgs token) pageHead ++ rows.toList ++ fill (pageArgs token) pageTail)

/-! ### The page that asks for a token -/

def bootstrapPage (message : Option String) : String :=
  let message := message.elim "" fun m => "<p class=\"error\">" ++ escapeHtml m ++ "</p>"
  String.ofList (fill (fun
    | .message => message.toList
    | _ => [])
    (lit "<!doctype html>\n" ++
      lit "<html><head><title>Heroes</title></head>\n" ++
      lit "<body>\n" ++
      lit "<h1>Heroes</h1>\n" ++
      hole .message ++ lit "\n" ++
      lit "<p>Paste a bearer token to continue (under <code>MODE=mock</code>, mint\n" ++
      lit "one via <code>POST /mock/token</code>).</p>\n" ++
      lit "<form method=\"GET\" action=\"/heroes/form\">\n" ++
      lit "  <label>Token <input type=\"text\" name=\"token\" size=\"80\" required></label>\n" ++
      lit "  <button type=\"submit\">Continue</button>\n" ++
      lit "</form>\n" ++
      lit "</body></html>"))

/-- The text of a page. -/
def Page.html : Page → String
  | .bootstrap message => bootstrapPage message
  | .heroes list token => heroesPage list token

/-! ### Escaping -/

/-- What a character is replaced by. -/
def entity (c : Char) : List Char :=
  if c = '&' then "&amp;".toList
  else if c = '<' then "&lt;".toList
  else if c = '>' then "&gt;".toList
  else if c = '"' then "&quot;".toList
  else if c = '\'' then "&#39;".toList
  else [c]

/-- A later replacement leaves what an earlier one has put in. -/
theorem escapeHtml_toList (raw : String) : (escapeHtml raw).toList = raw.toList.flatMap entity := by
  simp only [escapeHtml, String.toList_ofList, replace, List.flatMap_assoc]
  refine List.flatMap_congr fun c _ => ?_
  unfold entity
  repeat rw [String.toList_ofList]
  by_cases hamp : c = '&'
  · subst hamp; decide
  by_cases hlt : c = '<'
  · subst hlt; decide
  by_cases hgt : c = '>'
  · subst hgt; decide
  by_cases hquot : c = '"'
  · subst hquot; decide
  by_cases hapos : c = '\''
  · subst hapos; decide
  simp [hamp, hlt, hgt, hquot, hapos]

theorem quote_notMem_entity (c : Char) : '"' ∉ entity c := by
  unfold entity
  repeat rw [String.toList_ofList]
  split_ifs with hamp hlt hgt hquot hapos
  · decide
  · decide
  · decide
  · decide
  · decide
  · simpa using Ne.symm hquot

theorem quote_notMem_escapeHtml (raw : String) : '"' ∉ (escapeHtml raw).toList := by
  rw [escapeHtml_toList, List.mem_flatMap]
  rintro ⟨c, _, hc⟩
  exact quote_notMem_entity c hc

theorem decode_entity (c : Char) (rest : List Char) : decode (entity c ++ rest) = c :: decode rest := by
  unfold entity
  split_ifs with hamp hlt hgt hquot hapos
  · subst hamp; simp [decode]
  · subst hlt; simp [decode]
  · subst hgt; simp [decode]
  · subst hquot; simp [decode]
  · subst hapos; simp [decode]
  · exact decode_cons hamp rest

/-- Decoding undoes the escape. -/
theorem decode_escapeHtml (raw : String) : decode (escapeHtml raw).toList = raw.toList := by
  rw [escapeHtml_toList]
  induction raw.toList with
  | nil => rfl
  | cons c text ih => rw [List.flatMap_cons, decode_entity, ih]

/-! ### Reading the page -/

def rowValues : List (Template Arg) := [hole .name, hole .powers, hole .powerLevel]

def urlNames : List (List Char) := ["src", "href", "action"].map String.toList

def rowLinks : List (Template Arg) :=
  [lit "/heroes/form/" ++ hole .id ++ lit "/update?token=" ++ hole .token,
    lit "/heroes/form/" ++ hole .id ++ lit "/delete?token=" ++ hole .token]

theorem fill_hole (v : Arg → List Char) (arg : Arg) : fill v (hole arg) = v arg := by simp [fill, hole]

theorem fill_lit (v : Arg → List Char) (text : String) : fill v (lit text) = text.toList := by
  simp [fill, lit, List.flatMap_map]

def rowControls : List (Template Arg × Template Arg) :=
  [(lit "name", hole .name), (lit "powers", hole .powers), (lit "power_level", hole .powerLevel)]

/-- What is read of a template: the values that are shown, the URLs that are linked, the fields of its forms. -/
structure Shows (template : Template Arg) (es : List (Html.Event (Char ⊕ Arg))) (values links : List (Template Arg))
    (fields : List (Template Arg × Template Arg)) : Prop where
  trace_eq : trace .data template = some (.data, es)
  values_eq : valuesOf ["value".toList] es = values
  links_eq : valuesOf urlNames es = links
  controls_eq : controls es = fields

theorem exists_shows {template : Template Arg} {values links : List (Template Arg)}
    {fields : List (Template Arg × Template Arg)}
    (h : (trace .data template).any (fun r => r.1 = .data && valuesOf ["value".toList] r.2 = values &&
      valuesOf urlNames r.2 = links && controls r.2 = fields) = true) : ∃ es, Shows template es values links fields := by
  obtain ⟨⟨s, es⟩, htrace, hread⟩ := (Option.any_eq_true _ _).1 h
  simp only [Bool.and_eq_true, decide_eq_true_eq] at hread
  obtain ⟨⟨⟨rfl, hvalues⟩, hlinks⟩, hfields⟩ := hread
  exact ⟨es, htrace, hvalues, hlinks, hfields⟩

theorem lit_ofList (text : List Char) : lit (String.ofList text) = text.map .inl := by
  rw [lit, String.toList_ofList]

-- a literal is read as the list of its characters: the kernel is slow to decode it
theorem shows_heroRow : ∃ es, Shows heroRow es rowValues rowLinks rowControls := exists_shows (by
  unfold heroRow rowLinks rowControls
  repeat rw [lit_ofList]
  decide +kernel)

theorem shows_pageHead : ∃ es, Shows pageHead es [] [lit "/heroes/components.js?token=" ++ hole .token] [] :=
  exists_shows (by
    unfold pageHead
    repeat rw [lit_ofList]
    decide +kernel)

theorem shows_pageTail : ∃ es, Shows pageTail es [] [lit "/heroes/form?token=" ++ hole .token]
    [(lit "name", []), (lit "powers", []), (lit "power_level", [])] :=
  exists_shows (by
    unfold pageTail
    repeat rw [lit_ofList]
    decide +kernel)

/-- `i32` as a numeral. -/
theorem toString_toList (n : Int32) : (toString n).toList =
    if n.toInt < 0 then '-' :: Nat.toDigits 10 n.toInt.natAbs else Nat.toDigits 10 n.toInt.natAbs := by
  show (toString n.toInt).toList = _
  cases n.toInt with
  | ofNat m =>
    rw [if_neg (show ¬ Int.ofNat m < 0 from Int.not_lt.2 (Int.natCast_nonneg m))]
    show (Nat.repr m).toList = _
    simp [Nat.repr]
  | negSucc m =>
    rw [if_pos (Int.negSucc_lt_zero m)]
    show ("-" ++ Nat.repr (m + 1)).toList = _
    simp [Nat.repr]

theorem isDigit_of_toString {n : Int32} {c : Char} (h : c ∈ (toString n).toList) : c = '-' ∨ c.isDigit = true := by
  have hdigits : c ∈ Nat.toDigits 10 n.toInt.natAbs → c.isDigit = true :=
    Nat.isDigit_of_mem_toDigits (by decide) (by decide)
  rw [toString_toList] at h
  split at h
  · rcases List.mem_cons.1 h with rfl | h
    · exact .inl rfl
    · exact .inr (hdigits h)
  · exact .inr (hdigits h)

theorem notMem_toString {c : Char} (hsign : c ≠ '-') (hdigit : c.isDigit = false) (n : Int32) : c ∉ (toString n).toList := by
  intro h
  rcases isDigit_of_toString h with h | h
  · exact hsign h
  · rw [hdigit] at h
    cases h

theorem notMem_powerLevel {c : Char} (hsign : c ≠ '-') (hdigit : c.isDigit = false) (level : Option Int32) :
    c ∉ (level.elim "" toString).toList := by
  cases level with
  | none => simp
  | some n => exact notMem_toString hsign hdigit n

variable {token : String}

theorem quote_notMem_rowArgs (htoken : '"' ∉ token.toList) (hero : Model) (arg : Arg) : '"' ∉ rowArgs hero token arg := by
  cases arg with
  | id => exact notMem_toString (by decide) (by decide) hero.id
  | name => exact quote_notMem_escapeHtml _
  | powers => exact quote_notMem_escapeHtml _
  | powerLevel => exact notMem_powerLevel (by decide) (by decide) hero.powerLevel
  | token => exact htoken
  | message => exact List.not_mem_nil

theorem quote_notMem_pageArgs (htoken : '"' ∉ token.toList) (arg : Arg) : '"' ∉ pageArgs token arg := by
  cases arg with
  | token => exact htoken
  | _ => exact List.not_mem_nil

theorem decode_name (hero : Model) (token : String) :
    decode (fill (rowArgs hero token) (hole .name)) = (hero.name.getD "").toList := by
  rw [fill_hole]
  exact decode_escapeHtml _

theorem decode_powers (hero : Model) (token : String) :
    decode (fill (rowArgs hero token) (hole .powers)) = (", ".intercalate (hero.powers.getD [])).toList := by
  rw [fill_hole]
  exact decode_escapeHtml _

theorem decode_powerLevel (hero : Model) (token : String) :
    decode (fill (rowArgs hero token) (hole .powerLevel)) = (hero.powerLevel.elim "" toString).toList := by
  rw [fill_hole]
  exact Html.decode_of_notMem (notMem_powerLevel (by decide) (by decide) hero.powerLevel)

/-- The page of heroes, read: what it shows, what it links to, and that its tags depend on the number of the
rows only. -/
theorem exists_pageStructure : ∃ shape : Nat → List (Html.Event Unit), ∀ (heroes : List Model) (token : String),
    '"' ∉ token.toList →
      structureOf (events (heroesPage heroes token).toList) = shape heroes.length ∧
      valuesOf ["value".toList] (events (heroesPage heroes token).toList) =
        heroes.flatMap (fun hero => rowValues.map (fill (rowArgs hero token))) ∧
      valuesOf urlNames (events (heroesPage heroes token).toList) =
        fill (pageArgs token) (lit "/heroes/components.js?token=" ++ hole .token) ::
          (heroes.flatMap (fun hero => rowLinks.map (fill (rowArgs hero token))) ++
            [fill (pageArgs token) (lit "/heroes/form?token=" ++ hole .token)]) := by
  obtain ⟨head, hhead⟩ := shows_pageHead
  obtain ⟨row, hrow⟩ := shows_heroRow
  obtain ⟨tail, htail⟩ := shows_pageTail
  refine ⟨fun n => structureOf head ++ [.char '\n'].intercalate (List.replicate n (structureOf row)) ++ structureOf tail,
    fun heroes token htoken => ?_⟩
  have hsep : Html.run .data ['\n'] = (.data, [.char '\n']) := rfl
  have hrows := Html.run_intercalate hsep heroes fun hero _ =>
    Html.run_fill (quote_notMem_rowArgs htoken hero) hrow.trace_eq
  have htext : (heroesPage heroes token).toList = fill (pageArgs token) pageHead ++
      ['\n'].intercalate (heroes.map fun hero => fill (rowArgs hero token) heroRow) ++ fill (pageArgs token) pageTail := by
    simp [heroesPage, heroRowHtml, String.toList_intercalate, Function.comp_def]
  have hargs := quote_notMem_pageArgs htoken
  have hrun := Html.run_trans (Html.run_trans (Html.run_fill hargs hhead.trace_eq) hrows) (Html.run_fill hargs htail.trace_eq)
  have hevents : events (heroesPage heroes token).toList = head.map (Html.Event.fill (pageArgs token)) ++
      [.char '\n'].intercalate (heroes.map fun hero => row.map (Html.Event.fill (rowArgs hero token))) ++
      tail.map (Html.Event.fill (pageArgs token)) := by
    rw [events, htext]
    exact congrArg Prod.snd hrun
  have hbreak : ∀ names, valuesOf names [(.char '\n' : Html.Event Char)] = [] := fun _ => rfl
  rw [hevents]
  refine ⟨?_, ?_, ?_⟩
  · simp only [Html.structureOf_append, Html.structureOf_fill, Html.structureOf_intercalate, List.map_const']
    rfl
  · simp only [Html.valuesOf_append, Html.valuesOf_fill, hhead.values_eq, htail.values_eq,
      Html.valuesOf_intercalate (hbreak _), hrow.values_eq]
    simp
  · simp only [Html.valuesOf_append, Html.valuesOf_fill, hhead.links_eq, htail.links_eq,
      Html.valuesOf_intercalate (hbreak _), hrow.links_eq]
    simp

/-- The form of a row, decoded, has the fields of the hero. -/
theorem controls_heroRowHtml (htoken : '"' ∉ token.toList) (hero : Model) :
    (controls (events (heroRowHtml hero token).toList)).map (fun control => (decode control.1, decode control.2)) =
      [("name".toList, (hero.name.getD "").toList), ("powers".toList, (", ".intercalate (hero.powers.getD [])).toList),
        ("power_level".toList, (hero.powerLevel.elim "" toString).toList)] := by
  obtain ⟨row, hrow⟩ := shows_heroRow
  have hrun := Html.run_fill (quote_notMem_rowArgs htoken hero) hrow.trace_eq
  have hevents : events (heroRowHtml hero token).toList = row.map (Html.Event.fill (rowArgs hero token)) := by
    rw [events, heroRowHtml, String.toList_ofList]
    exact congrArg Prod.snd hrun
  have hlit : ∀ text : String, '&' ∉ text.toList → decode (fill (rowArgs hero token) (lit text)) = text.toList := by
    intro text htext
    rw [fill_lit, Html.decode_of_notMem htext]
  rw [hevents, Html.controls_fill, hrow.controls_eq, rowControls]
  simp only [List.map_cons, List.map_nil]
  rw [hlit "name" (by decide +kernel), hlit "powers" (by decide +kernel), hlit "power_level" (by decide +kernel),
    decode_name, decode_powers, decode_powerLevel]

theorem quote_notMem_of_isTokenChar (h : token.toList.all isTokenChar = true) : '"' ∉ token.toList := by
  intro hmem
  have hquote : isTokenChar '"' = true := List.all_eq_true.1 h _ hmem
  revert hquote
  decide

/-- Names and powers are text whatever they are: the tags do not depend on them, and a browser reads them back. -/
theorem heroesPage_inert (htoken : token.toList.all isTokenChar = true) (heroes heroes' : List Model)
    (hlen : heroes.length = heroes'.length) :
    structureOf (events (heroesPage heroes token).toList) = structureOf (events (heroesPage heroes' token).toList) ∧
    (valuesOf ["value".toList] (events (heroesPage heroes token).toList)).map decode =
      heroes.flatMap fun hero => [(hero.name.getD "").toList, (", ".intercalate (hero.powers.getD [])).toList,
        (hero.powerLevel.elim "" toString).toList] := by
  have hquote := quote_notMem_of_isTokenChar htoken
  obtain ⟨shape, hshape⟩ := exists_pageStructure
  obtain ⟨hstructure, hvalues, _⟩ := hshape heroes token hquote
  refine ⟨?_, ?_⟩
  · rw [hstructure, (hshape heroes' token hquote).1, hlen]
  · rw [hvalues, List.map_flatMap]
    refine List.flatMap_congr fun hero _ => ?_
    simp only [rowValues, List.map_cons, List.map_nil, decode_name, decode_powers, decode_powerLevel]

/-- A hero whose texts are markup, and a plain one. -/
def tagged : Model := ⟨1, some "\"><script>", some ["a&amp;b", "'"], some (-5), "alice", none, 0, 0⟩

def plain : Model := ⟨1, some "Ace", some ["Speed"], some (-5), "alice", none, 0, 0⟩

theorem heroesPage_inert_tagged :
    structureOf (events (heroesPage [tagged] "e30.e30.").toList) = structureOf (events (heroesPage [plain] "e30.e30.").toList) ∧
    (valuesOf ["value".toList] (events (heroesPage [tagged] "e30.e30.").toList)).map decode =
      ["\"><script>".toList, "a&amp;b, '".toList, "-5".toList] := by
  have hvalues : ([tagged].flatMap fun hero => [(hero.name.getD "").toList, (", ".intercalate (hero.powers.getD [])).toList,
      (hero.powerLevel.elim "" toString).toList]) = ["\"><script>".toList, "a&amp;b, '".toList, "-5".toList] := by
    decide +kernel
  rw [← hvalues]
  exact heroesPage_inert (by decide +kernel) [tagged] [plain] rfl

end TemplateAxum
