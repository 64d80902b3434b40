import TemplateAxum.Lib.Calendar
import TemplateAxum.Views

/-!
# `security.txt`

`SecurityTxt` of `config.rs`: read from the environment and rendered. The values go into the file line by
line; what is accepted makes one line for each field, which reads back as it was configured.
-/

namespace TemplateAxum

open Calendar

/-- `char::is_control`. -/
def isControl (c : Char) : Bool := c.toNat < 0x20 || 0x7f ≤ c.toNat && c.toNat < 0xa0

/-- `str::starts_with`. -/
def startsWith (text literal : String) : Bool := literal.toList.isPrefixOf text.toList

structure SecurityTxt where
  contact : String
  expires : UtcInstant
  policy : Option String
  preferredLanguages : Option String
  canonical : Option String

namespace SecurityTxt

def maxAheadDays : Nat := 366

def isBlank (value : String) : Bool := trim value.toList = [] || value.toList.any isControl

/-- The problem that a check of a value adds. -/
def unlessLine (key : String) (value : Option String) : List String :=
  if value.any isBlank then [key ++ " must be a single line of text"] else []

/-- What `SECURITY_TXT_EXPIRES` gives, with its problems. -/
def expiresFrom (parse : String → Option UtcInstant) (raw : Option String) (now : UtcInstant) : List String × Option UtcInstant :=
  match raw with
  | none => (["SECURITY_TXT_EXPIRES must be set when SECURITY_TXT_CONTACT is"], none)
  | some raw =>
    match parse raw with
    | none => (["SECURITY_TXT_EXPIRES must be an RFC 3339 timestamp with a time zone"], none)
    | some at_ =>
      if ¬ now.Before at_ ∨ (now.addDays maxAheadDays).Before at_ then
        (["SECURITY_TXT_EXPIRES must be in the future and at most one year ahead"], some at_)
      else ([], some at_)

/-- The problems of the other values. -/
def valueProblems (contact : String) (policy canonical preferredLanguages : Option String) : List String :=
  unlessLine "SECURITY_TXT_CONTACT" contact ++ unlessLine "SECURITY_TXT_POLICY" policy ++
    unlessLine "SECURITY_TXT_CANONICAL" canonical ++ unlessLine "SECURITY_TXT_PREFERRED_LANGUAGES" preferredLanguages ++
    (if ["https://", "mailto:", "tel:"].any (startsWith contact) then []
      else ["SECURITY_TXT_CONTACT must be an https:, mailto: or tel: URI"]) ++
    (if [policy, canonical].any fun v => v.any fun v => !startsWith v "https://" then
      ["SECURITY_TXT_POLICY and SECURITY_TXT_CANONICAL must be https:// URLs"] else [])

/-- `parse` is `DateTime::parse_from_rfc3339`, in UTC. -/
def fromLookup (parse : String → Option UtcInstant) (get : String → Option String) (now : UtcInstant) :
    Except (List String) (Option SecurityTxt) :=
  match get "SECURITY_TXT_CONTACT" with
  | none => .ok none
  | some contact =>
    let policy := get "SECURITY_TXT_POLICY"
    let canonical := get "SECURITY_TXT_CANONICAL"
    let preferredLanguages := get "SECURITY_TXT_PREFERRED_LANGUAGES"
    let (found, expires) := expiresFrom parse (get "SECURITY_TXT_EXPIRES") now
    let problems := valueProblems contact policy canonical preferredLanguages ++ found
    match expires with
    | some expires =>
      if problems.isEmpty then .ok (some { contact, expires, policy, preferredLanguages, canonical }) else .error problems
    | none => .error problems

variable (file : SecurityTxt)

/-- The optional fields. -/
def optional : List (String × Option String) :=
  [("Preferred-Languages", file.preferredLanguages), ("Policy", file.policy), ("Canonical", file.canonical)]

def lines : List String :=
  ["Contact: " ++ file.contact, "Expires: " ++ String.ofList file.expires.format] ++
    file.optional.filterMap fun (field, value) => value.map fun value => field ++ ": " ++ value

def render : String := "\n".intercalate file.lines ++ "\n"

/-! ### Reading -/

/-- A line at its first `": "`. -/
def splitField : List Char → Option (List Char × List Char)
  | [] => none
  | c :: rest =>
    if c = ':' ∧ rest.head? = some ' ' then some ([], rest.tail)
    else (splitField rest).map fun (name, value) => (c :: name, value)

/-- The lines of a text, each as the name and the value of a field. -/
def fields (text : String) : List (Option (String × String)) :=
  (text.toList.splitOn '\n').map fun line => (splitField line).map fun (name, value) => (String.ofList name, String.ofList value)

theorem splitField_append {name value : List Char} (h : ':' ∉ name) :
    splitField (name ++ (':' :: ' ' :: value)) = some (name, value) := by
  induction name with
  | nil => rfl
  | cons c name ih =>
    rw [List.mem_cons, not_or] at h
    rw [List.cons_append, splitField, if_neg fun hc => h.1 hc.1.symm, ih h.2]
    rfl

/-- A field on one line. -/
structure OneLine (field : String × String) : Prop where
  name : ':' ∉ field.1.toList
  visible : ∀ c ∈ (field.1 ++ ": " ++ field.2).toList, isControl c = false

theorem intercalate_concat_nil (sep : List Char) {parts : List (List Char)} (h : parts ≠ []) :
    sep.intercalate (parts ++ [[]]) = sep.intercalate parts ++ sep := by
  induction parts with
  | nil => exact absurd rfl h
  | cons part parts ih =>
    cases parts with
    | nil => simp [List.intercalate_cons_cons]
    | cons part' parts =>
      rw [List.cons_append, List.cons_append, List.intercalate_cons_cons, ← List.cons_append, ih (by simp),
        List.intercalate_cons_cons]
      simp

theorem mem_intercalate {sep : List Char} {parts : List (List Char)} {c : Char} (h : c ∈ sep.intercalate parts) :
    c ∈ sep ∨ ∃ part ∈ parts, c ∈ part := by
  induction parts with
  | nil => cases h
  | cons part parts ih =>
    cases parts with
    | nil => exact .inr ⟨part, List.mem_singleton_self _, by simpa using h⟩
    | cons part' parts =>
      rw [List.intercalate_cons_cons, List.append_assoc, List.mem_append, List.mem_append] at h
      rcases h with h | h | h
      · exact .inr ⟨part, List.mem_cons_self, h⟩
      · exact .inl h
      · exact (ih h).imp_right fun ⟨p, hp, hc⟩ => ⟨p, List.mem_cons_of_mem _ hp, hc⟩

/-- Lines of one field each are read as these fields. -/
theorem fields_intercalate {list : List (String × String)} (hne : list ≠ []) (h : ∀ field ∈ list, OneLine field) :
    fields ("\n".intercalate (list.map fun field => field.1 ++ ": " ++ field.2) ++ "\n") = list.map some ++ [none] := by
  have hbreak : ∀ field ∈ list, '\n' ∉ (field.1 ++ ": " ++ field.2).toList := fun field hfield hmem =>
    absurd ((h field hfield).visible _ hmem) (by decide)
  have htext : ("\n".intercalate (list.map fun field => field.1 ++ ": " ++ field.2) ++ "\n").toList =
      ['\n'].intercalate (list.map (fun field => (field.1 ++ ": " ++ field.2).toList) ++ [[]]) := by
    rw [intercalate_concat_nil _ (by simpa using hne), String.toList_append, String.toList_intercalate, List.map_map]
    rfl
  rw [fields, htext, List.splitOn_intercalate '\n' ?_ (by simp), List.map_append, List.map_map]
  · refine congrArg₂ (· ++ ·) (List.map_congr_left fun field hfield => ?_) rfl
    show (splitField (field.1 ++ ": " ++ field.2).toList).map _ = _
    rw [String.toList_append, String.toList_append, List.append_assoc]
    rw [show (": " : String).toList ++ field.2.toList = ':' :: ' ' :: field.2.toList from rfl, splitField_append (h field hfield).name]
    simp
  · intro part hpart
    rcases List.mem_append.1 hpart with hpart | hpart
    · obtain ⟨field, hfield, rfl⟩ := List.mem_map.1 hpart
      exact hbreak field hfield
    · rw [List.mem_singleton.1 hpart]
      exact List.not_mem_nil

/-! ### What is accepted -/

theorem not_blank_of_unlessLine {key : String} {value : Option String} (h : unlessLine key value = []) :
    ∀ v ∈ value, ∀ c ∈ v.toList, isControl c = false := by
  unfold unlessLine at h
  split at h
  · cases h
  · rename_i hblank
    intro v hv c hc
    have hnot : isBlank v = false := by simpa [Option.mem_def.1 hv] using hblank
    rw [isBlank, Bool.or_eq_false_iff] at hnot
    simpa using List.any_eq_false.1 hnot.2 c hc

/-- The configured fields, with the text of the expiry. -/
def configured (get : String → Option String) (contact expires : String) : List (String × String) :=
  ("Contact", contact) :: ("Expires", expires) ::
    [("Preferred-Languages", get "SECURITY_TXT_PREFERRED_LANGUAGES"), ("Policy", get "SECURITY_TXT_POLICY"),
      ("Canonical", get "SECURITY_TXT_CANONICAL")].filterMap fun (field, value) => value.map fun value => (field, value)

/-- An accepted file. -/
structure Accepted (parse : String → Option UtcInstant) (get : String → Option String) (now : UtcInstant)
    (file : SecurityTxt) : Prop where
  contact : get "SECURITY_TXT_CONTACT" = some file.contact
  policy : get "SECURITY_TXT_POLICY" = file.policy
  canonical : get "SECURITY_TXT_CANONICAL" = file.canonical
  preferredLanguages : get "SECURITY_TXT_PREFERRED_LANGUAGES" = file.preferredLanguages
  expires : ∃ raw, get "SECURITY_TXT_EXPIRES" = some raw ∧ parse raw = some file.expires
  future : now.Before file.expires
  near : ¬ (now.addDays maxAheadDays).Before file.expires
  visible : ∀ value, some value ∈ [some file.contact, file.policy, file.canonical, file.preferredLanguages] →
    ∀ c ∈ value.toList, isControl c = false

section

variable {parse : String → Option UtcInstant} {get : String → Option String} {now : UtcInstant} {file : SecurityTxt}

theorem expiresFrom_eq_nil {raw : Option String} {expires : UtcInstant} (h : expiresFrom parse raw now = ([], some expires)) :
    (∃ text, raw = some text ∧ parse text = some expires) ∧ now.Before expires ∧ ¬ (now.addDays maxAheadDays).Before expires := by
  unfold expiresFrom at h
  split at h
  · simp at h
  · rename_i text
    split at h
    · simp at h
    · rename_i at_ hparse
      split at h
      · simp at h
      · rename_i hrange
        cases h
        rw [not_or, not_not] at hrange
        exact ⟨⟨text, rfl, hparse⟩, hrange⟩

theorem accepted_of_ok (h : fromLookup parse get now = .ok (some file)) : Accepted parse get now file := by
  unfold fromLookup at h
  cases hcontact : get "SECURITY_TXT_CONTACT" with
  | none => simp [hcontact] at h
  | some contact =>
    cases hexpires : expiresFrom parse (get "SECURITY_TXT_EXPIRES") now with
    | mk found expires =>
      cases expires with
      | none => simp [hcontact, hexpires] at h
      | some expires =>
        simp only [hcontact, hexpires] at h
        split at h
        · rename_i hproblems
          rw [List.isEmpty_iff, List.append_eq_nil_iff] at hproblems
          obtain ⟨hvalues, rfl⟩ := hproblems
          obtain ⟨⟨⟨⟨⟨hcontactLine, hpolicy⟩, hcanonical⟩, hlanguages⟩, -⟩, -⟩ := by
            simpa only [valueProblems, List.append_eq_nil_iff] using hvalues
          obtain rfl := Option.some.inj (Except.ok.inj h)
          obtain ⟨hraw, hfuture, hnear⟩ := expiresFrom_eq_nil hexpires
          refine ⟨hcontact, rfl, rfl, rfl, hraw, hfuture, hnear, fun value hvalue => ?_⟩
          simp only [List.mem_cons, List.not_mem_nil, or_false] at hvalue
          rcases hvalue with hvalue | hvalue | hvalue | hvalue
          · exact not_blank_of_unlessLine hcontactLine value hvalue.symm
          · exact not_blank_of_unlessLine hpolicy value hvalue.symm
          · exact not_blank_of_unlessLine hcanonical value hvalue.symm
          · exact not_blank_of_unlessLine hlanguages value hvalue.symm
        · cases h

theorem not_isControl_of_isMark {c : Char} (h : IsMark c) : isControl c = false := by
  rcases h with h | h
  · have hdigit : 48 ≤ c.toNat ∧ c.toNat ≤ 57 := Char.isDigit_iff_toNat.1 h
    simp only [isControl, Bool.or_eq_false_iff, Bool.and_eq_false_iff, decide_eq_false_iff_not]
    omega
  · have hmarks : (['-', '+', 'T', ':', 'Z'].all fun c => !isControl c) = true := by decide
    exact Bool.not_eq_true' _ ▸ List.all_eq_true.1 hmarks c h

theorem oneLine_of_visible {name value : String} (hname : (name.toList.all fun c => c ≠ ':' ∧ isControl c = false) = true)
    (hvalue : ∀ c ∈ value.toList, isControl c = false) : OneLine (name, value) where
  name h := (of_decide_eq_true (List.all_eq_true.1 hname _ h)).1 rfl
  visible c hc := by
    rw [String.toList_append, String.toList_append, List.mem_append, List.mem_append] at hc
    rcases hc with (hc | hc) | hc
    · exact (of_decide_eq_true (List.all_eq_true.1 hname c hc)).2
    · have hsep : (": ".toList.all fun c => !isControl c) = true := by decide
      exact Bool.not_eq_true' _ ▸ List.all_eq_true.1 hsep c hc
    · exact hvalue c hc

theorem oneLine_configured (h : Accepted parse get now file) :
    ∀ field ∈ configured get file.contact (String.ofList file.expires.format), OneLine field := by
  rw [configured, List.forall_mem_cons, List.forall_mem_cons]
  refine ⟨oneLine_of_visible (by decide) (h.visible _ (by simp)), oneLine_of_visible (by decide) fun c hc => ?_, ?_⟩
  · rw [String.toList_ofList] at hc
    exact not_isControl_of_isMark (file.expires.isMark_format c hc)
  · intro field hfield
    obtain ⟨⟨name, value⟩, hmem, hsome⟩ := List.mem_filterMap.1 hfield
    obtain ⟨value, rfl, rfl⟩ := Option.map_eq_some_iff.1 hsome
    simp only [h.policy, h.canonical, h.preferredLanguages, List.mem_cons, Prod.mk.injEq, List.not_mem_nil, or_false] at hmem
    rcases hmem with ⟨rfl, hvalue⟩ | ⟨rfl, hvalue⟩ | ⟨rfl, hvalue⟩
    · exact oneLine_of_visible (by decide) (h.visible value (by simp [hvalue]))
    · exact oneLine_of_visible (by decide) (h.visible value (by simp [hvalue]))
    · exact oneLine_of_visible (by decide) (h.visible value (by simp [hvalue]))

theorem render_eq (h : Accepted parse get now file) : file.render =
    "\n".intercalate ((configured get file.contact (String.ofList file.expires.format)).map fun field =>
      field.1 ++ ": " ++ field.2) ++ "\n" := by
  rw [render, lines, optional, configured, h.policy, h.canonical, h.preferredLanguages, List.map_cons, List.map_cons,
    List.map_filterMap]
  refine congrArg (fun lines => "\n".intercalate lines ++ "\n") (congrArg₂ List.cons rfl (congrArg₂ List.cons rfl ?_))
  refine congrArg (List.filterMap · _) (funext fun field => ?_)
  rw [Option.map_map]
  rfl

/-- A file that is accepted has one line for each configured field and no other, and the lines give back
what was configured, the expiry to the second. -/
theorem securityTxt_readsBack (h : fromLookup parse get now = .ok (some file)) :
    (∃ contact raw expires text, get "SECURITY_TXT_CONTACT" = some contact ∧ get "SECURITY_TXT_EXPIRES" = some raw ∧
      parse raw = some expires ∧ now.Before expires ∧ ¬ (now.addDays maxAheadDays).Before expires ∧
      UtcInstant.read text.toList = some expires.truncated ∧
      fields file.render = (configured get contact text).map some ++ [none]) ∧
    ∀ c ∈ file.render.toList, isControl c = true → c = '\n' := by
  have haccepted := accepted_of_ok h
  obtain ⟨raw, hraw, hparse⟩ := haccepted.expires
  have hlines := oneLine_configured haccepted
  refine ⟨⟨file.contact, raw, file.expires, String.ofList file.expires.format, haccepted.contact, hraw, hparse,
    haccepted.future, haccepted.near, ?_, ?_⟩, fun c hc hcontrol => ?_⟩
  · rw [String.toList_ofList]
    exact file.expires.read_format
  · rw [render_eq haccepted]
    exact fields_intercalate (List.cons_ne_nil _ _) hlines
  · rw [render_eq haccepted, String.toList_append, String.toList_intercalate, List.mem_append] at hc
    rcases hc with hc | hc
    · rcases mem_intercalate hc with hc | ⟨line, hline, hc⟩
      · exact List.mem_singleton.1 hc
      · obtain ⟨text, htext, rfl⟩ := List.mem_map.1 hline
        obtain ⟨field, hfield, rfl⟩ := List.mem_map.1 htext
        rw [(hlines field hfield).visible c hc] at hcontrol
        cases hcontrol
    · exact List.mem_singleton.1 hc

end

/-- A contact, and an expiry in a day. -/
def contactOnly (key : String) : Option String :=
  if key = "SECURITY_TXT_CONTACT" then some "tel:1" else if key = "SECURITY_TXT_EXPIRES" then some "1970-01-02T00:00:00Z" else none

theorem securityTxt_readsBack_contactOnly :
    ∃ text, UtcInstant.read text.toList = some ⟨86400, 0, by decide, by decide⟩ ∧
      fields (render ⟨"tel:1", ⟨86400, 0, by decide, by decide⟩, none, none, none⟩) =
        [some ("Contact", "tel:1"), some ("Expires", text), none] := by
  obtain ⟨⟨contact, raw, expires, text, hcontact, hraw, hparse, -, -, hread, hfields⟩, -⟩ :=
    @securityTxt_readsBack (fun _ => some ⟨86400, 0, by decide, by decide⟩) contactOnly ⟨0, 0, by decide, by decide⟩
      ⟨"tel:1", ⟨86400, 0, by decide, by decide⟩, none, none, none⟩ (by rfl)
  cases hcontact
  cases hparse
  exact ⟨text, hread, hfields⟩

end SecurityTxt
end TemplateAxum
