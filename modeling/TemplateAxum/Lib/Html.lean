import Mathlib.Data.List.Basic

/-!
# The tags of an HTML text

The tokenizer of the HTML Standard as a transducer: it reads one character at a time and reports text, the
start of a tag, its attributes and its end. A declaration or comment is read to the next `>`. The text is
read as it stands: that the Standard first takes a carriage return for a line feed, and a NUL for the
replacement character, is left out.

A template is a text with holes. Where the holes stand in quoted attribute values, what is read of the
template says what is read of every text that fills it without quotes.
-/

namespace Html

structure Tag where
  closing : Bool
  name : List Char
deriving DecidableEq

/-- What is read; the values of attributes are texts or templates. -/
inductive Event (β : Type)
  | char (c : Char)
  | opened (tag : Tag)
  | attr (name : List Char) (value : List β)
  | closed
deriving DecidableEq

/-- Inside a tag the attribute that is being read is `attr`, its value so far is `value`. -/
inductive State (β : Type)
  | data
  | raw (name : List Char)
  | rawTag (name seen : List Char)
  | tagOpen
  | endTagOpen
  | declaration
  | tagName (tag : Tag)
  | beforeName (tag : Tag)
  | attrName (tag : Tag) (attr : List Char)
  | afterName (tag : Tag) (attr : List Char)
  | beforeValue (tag : Tag) (attr : List Char)
  | quoted (tag : Tag) (quote : Char) (attr : List Char) (value : List β)
  | unquoted (tag : Tag) (attr : List Char) (value : List β)
  | afterQuoted (tag : Tag)
  | selfClosing (tag : Tag)
deriving DecidableEq

def isSpace (c : Char) : Bool := c = ' ' || c = '\n' || c = '\t' || c = '\r' || c = '\x0c'

/-- The elements whose content is no markup. -/
def rawElements : List (List Char) :=
  ["script", "style", "title", "textarea", "iframe", "xmp", "noembed", "noframes"].map String.toList

section
variable {β : Type} (emb : Char → β)

/-- Where a tag ends. -/
def finish (tag : Tag) : State β := if tag.closing = false ∧ rawElements.contains tag.name then .raw tag.name else .data

def beforeName (tag : Tag) (c : Char) : State β × List (Event β) :=
  if isSpace c then (.beforeName tag, [])
  else if c = '/' then (.selfClosing tag, [])
  else if c = '>' then (finish tag, [.closed])
  else (.attrName tag [c.toLower], [])

/-- The end tag of an element with raw content; whatever else starts with `<` there is text. -/
def rawTag (name seen : List Char) (c : Char) : State β × List (Event β) :=
  if seen = '/' :: name ∧ c = '>' then (.data, [.opened ⟨true, name⟩, .closed])
  else if seen = '/' :: name ∧ isSpace c then (.beforeName ⟨true, name⟩, [.opened ⟨true, name⟩])
  else if seen = '/' :: name ∧ c = '/' then (.selfClosing ⟨true, name⟩, [.opened ⟨true, name⟩])
  else if seen ++ [c.toLower] <+: '/' :: name then (.rawTag name (seen ++ [c.toLower]), [])
  else if c = '<' then (.rawTag name [], ('<' :: seen).map .char)
  else (.raw name, ('<' :: seen ++ [c]).map .char)

/-- One character; `emb` puts it into a value. -/
def step : State β → Char → State β × List (Event β)
  | .data, c => if c = '<' then (.tagOpen, []) else (.data, [.char c])
  | .raw name, c => if c = '<' then (.rawTag name [], []) else (.raw name, [.char c])
  | .rawTag name seen, c => rawTag name seen c
  | .tagOpen, c =>
    if c = '/' then (.endTagOpen, [])
    else if c = '!' ∨ c = '?' then (.declaration, [])
    else if c.isAlpha then (.tagName ⟨false, [c.toLower]⟩, [])
    else if c = '<' then (.tagOpen, [.char '<'])
    else (.data, [.char '<', .char c])
  | .endTagOpen, c =>
    if c = '>' then (.data, []) else if c.isAlpha then (.tagName ⟨true, [c.toLower]⟩, []) else (.declaration, [])
  | .declaration, c => if c = '>' then (.data, []) else (.declaration, [])
  | .tagName tag, c =>
    if isSpace c then (.beforeName tag, [.opened tag])
    else if c = '/' then (.selfClosing tag, [.opened tag])
    else if c = '>' then (finish tag, [.opened tag, .closed])
    else (.tagName { tag with name := tag.name ++ [c.toLower] }, [])
  | .beforeName tag, c => beforeName tag c
  | .attrName tag attr, c =>
    if isSpace c then (.afterName tag attr, [])
    else if c = '/' then (.selfClosing tag, [.attr attr []])
    else if c = '>' then (finish tag, [.attr attr [], .closed])
    else if c = '=' then (.beforeValue tag attr, [])
    else (.attrName tag (attr ++ [c.toLower]), [])
  | .afterName tag attr, c =>
    if isSpace c then (.afterName tag attr, [])
    else if c = '/' then (.selfClosing tag, [.attr attr []])
    else if c = '=' then (.beforeValue tag attr, [])
    else if c = '>' then (finish tag, [.attr attr [], .closed])
    else (.attrName tag [c.toLower], [.attr attr []])
  | .beforeValue tag attr, c =>
    if isSpace c then (.beforeValue tag attr, [])
    else if c = '"' ∨ c = '\'' then (.quoted tag c attr [], [])
    else if c = '>' then (finish tag, [.attr attr [], .closed])
    else (.unquoted tag attr [emb c], [])
  | .quoted tag quote attr value, c =>
    if c = quote then (.afterQuoted tag, [.attr attr value]) else (.quoted tag quote attr (value ++ [emb c]), [])
  | .unquoted tag attr value, c =>
    if isSpace c then (.beforeName tag, [.attr attr value])
    else if c = '>' then (finish tag, [.attr attr value, .closed])
    else (.unquoted tag attr (value ++ [emb c]), [])
  | .afterQuoted tag, c => beforeName tag c
  | .selfClosing tag, c => if c = '>' then (.data, [.closed]) else beforeName tag c

end

/-! ### Texts -/

def run : State Char → List Char → State Char × List (Event Char)
  | s, [] => (s, [])
  | s, c :: text => ((run (step id s c).1 text).1, (step id s c).2 ++ (run (step id s c).1 text).2)

/-- What a text reports from the start of a document. -/
def events (text : List Char) : List (Event Char) := (run .data text).2

/-- The same event whatever the value of an attribute is. -/
def Event.erase {β : Type} : Event β → Event Unit
  | .char c => .char c
  | .opened tag => .opened tag
  | .attr name _ => .attr name []
  | .closed => .closed

/-- Tags, names of attributes and text, without the values of the attributes. -/
def structureOf {β : Type} (events : List (Event β)) : List (Event Unit) := events.map Event.erase

/-- The values of the attributes with these names, in order. -/
def valuesOf {β : Type} (names : List (List Char)) (events : List (Event β)) : List (List β) :=
  events.filterMap fun event =>
    match event with
    | .attr name value => if names.contains name then some value else none
    | _ => none

def leadingAttrs {β : Type} : List (Event β) → List (List Char × List β)
  | .attr name value :: es => (name, value) :: leadingAttrs es
  | _ => []

/-- The tags with their attributes. -/
def tags {β : Type} : List (Event β) → List (Tag × List (List Char × List β))
  | [] => []
  | .opened tag :: es => (tag, leadingAttrs es) :: tags es
  | _ :: es => tags es

/-- The names and values of the `input` elements. -/
def controls {β : Type} (es : List (Event β)) : List (List β × List β) :=
  (tags es).filterMap fun element =>
    if element.1 = ⟨false, "input".toList⟩ then
      (element.2.lookup "name".toList).map fun name => (name, (element.2.lookup "value".toList).getD [])
    else none

variable {s s' s'' : State Char} {text text' : List Char} {es es' : List (Event Char)}

theorem run_append (s : State Char) (text text' : List Char) :
    run s (text ++ text') = ((run (run s text).1 text').1, (run s text).2 ++ (run (run s text).1 text').2) := by
  induction text generalizing s with
  | nil => rfl
  | cons c text ih =>
    rw [List.cons_append, run, run, ih]
    simp

/-- One reading after another. -/
theorem run_trans (h : run s text = (s', es)) (h' : run s' text' = (s'', es')) : run s (text ++ text') = (s'', es ++ es') := by
  rw [run_append, h, h']

/-- A value goes on to the next quote. -/
theorem run_quoted {tag : Tag} {quote : Char} {attr value : List Char} (h : quote ∉ text) :
    run (.quoted tag quote attr value) text = (.quoted tag quote attr (value ++ text), []) := by
  induction text generalizing value with
  | nil => simp [run]
  | cons c text ih =>
    obtain ⟨hc, htext⟩ := List.ne_and_not_mem_of_not_mem_cons h
    have hstep : step id (.quoted tag quote attr value) c = (.quoted tag quote attr (value ++ [c]), []) := if_neg (Ne.symm hc)
    rw [run, hstep, ih htext]
    simp

theorem run_value {tag : Tag} {quote : Char} {attr value : List Char} (h : quote ∉ text) :
    run (.quoted tag quote attr value) (text ++ [quote]) = (.afterQuoted tag, [.attr attr (value ++ text)]) := by
  have hquote : run (.quoted tag quote attr (value ++ text)) [quote] = (.afterQuoted tag, [.attr attr (value ++ text)]) := by
    simp [run, step]
  exact run_trans (run_quoted h) hquote

/-- Where a quoted value begins, it is reported up to the next quote. -/
theorem attr_mem_events {tag : Tag} {quote : Char} {attr value : List Char} {lead : List Char}
    (hlead : run .data lead = (.quoted tag quote attr value, es)) (h : quote ∉ text) (rest : List Char) :
    .attr attr (value ++ text) ∈ events (lead ++ (text ++ [quote]) ++ rest) := by
  rw [events, run_append, run_trans hlead (run_value h)]
  exact List.mem_append_left _ (List.mem_append_right _ (List.mem_singleton_self _))

theorem mem_valuesOf {β : Type} {names : List (List Char)} {es : List (Event β)} {name : List Char} {value : List β}
    (hname : name ∈ names) (h : .attr name value ∈ es) : value ∈ valuesOf names es :=
  List.mem_filterMap.2 ⟨_, h, if_pos (List.contains_iff_mem.2 hname)⟩

theorem structureOf_append {β : Type} (es es' : List (Event β)) :
    structureOf (es ++ es') = structureOf es ++ structureOf es' := List.map_append

theorem valuesOf_append {β : Type} (names : List (List Char)) (es es' : List (Event β)) :
    valuesOf names (es ++ es') = valuesOf names es ++ valuesOf names es' := List.filterMap_append

section
variable {γ : Type} {sep : List Char} {sepEvents : List (Event Char)} {f : γ → List Char} {g : γ → List (Event Char)}

/-- Texts that each begin and end outside of tags. -/
theorem run_intercalate (hsep : run .data sep = (.data, sepEvents)) (xs : List γ) (h : ∀ x ∈ xs, run .data (f x) = (.data, g x)) :
    run .data (sep.intercalate (xs.map f)) = (.data, sepEvents.intercalate (xs.map g)) := by
  induction xs with
  | nil => rfl
  | cons x xs ih =>
    obtain ⟨hx, hxs⟩ := List.forall_mem_cons.1 h
    cases xs with
    | nil => simpa using hx
    | cons y ys =>
      rw [List.map_cons, List.map_cons, List.map_cons, List.map_cons, List.intercalate_cons_cons,
        List.intercalate_cons_cons]
      exact run_trans (run_trans hx hsep) (ih hxs)

end

theorem structureOf_intercalate {β γ : Type} (sep : List (Event β)) (xs : List γ) (g : γ → List (Event β)) :
    structureOf (sep.intercalate (xs.map g)) = (structureOf sep).intercalate (xs.map fun x => structureOf (g x)) := by
  induction xs with
  | nil => rfl
  | cons x xs ih =>
    cases xs with
    | nil => simp
    | cons y ys =>
      rw [List.map_cons, List.map_cons, List.map_cons, List.map_cons, List.intercalate_cons_cons,
        List.intercalate_cons_cons, structureOf_append, structureOf_append]
      rw [List.map_cons, List.map_cons] at ih
      rw [ih]

theorem valuesOf_intercalate {β γ : Type} {names : List (List Char)} {sep : List (Event β)} (hsep : valuesOf names sep = [])
    (xs : List γ) (g : γ → List (Event β)) :
    valuesOf names (sep.intercalate (xs.map g)) = xs.flatMap fun x => valuesOf names (g x) := by
  induction xs with
  | nil => rfl
  | cons x xs ih =>
    cases xs with
    | nil => simp
    | cons y ys =>
      rw [List.map_cons] at ih
      rw [List.map_cons, List.map_cons, List.intercalate_cons_cons, valuesOf_append, valuesOf_append, hsep, ih]
      simp

/-! ### Templates -/

/-- A text with holes of `α`. -/
abbrev Template (α : Type) := List (Char ⊕ α)

variable {α : Type} {v : α → List Char}

def fill (v : α → List Char) (template : Template α) : List Char := template.flatMap (Sum.elim (fun c => [c]) v)

def Event.fill (v : α → List Char) : Event (Char ⊕ α) → Event Char
  | .char c => .char c
  | .opened tag => .opened tag
  | .attr name value => .attr name (Html.fill v value)
  | .closed => .closed

def State.fill (v : α → List Char) : State (Char ⊕ α) → State Char
  | .data => .data
  | .raw name => .raw name
  | .rawTag name seen => .rawTag name seen
  | .tagOpen => .tagOpen
  | .endTagOpen => .endTagOpen
  | .declaration => .declaration
  | .tagName tag => .tagName tag
  | .beforeName tag => .beforeName tag
  | .attrName tag attr => .attrName tag attr
  | .afterName tag attr => .afterName tag attr
  | .beforeValue tag attr => .beforeValue tag attr
  | .quoted tag quote attr value => .quoted tag quote attr (Html.fill v value)
  | .unquoted tag attr value => .unquoted tag attr (Html.fill v value)
  | .afterQuoted tag => .afterQuoted tag
  | .selfClosing tag => .selfClosing tag

/-- The reading of a template: a hole is allowed between double quotes only. -/
def trace : State (Char ⊕ α) → Template α → Option (State (Char ⊕ α) × List (Event (Char ⊕ α)))
  | s, [] => some (s, [])
  | s, .inl c :: template => (trace (step .inl s c).1 template).map fun r => (r.1, (step .inl s c).2 ++ r.2)
  | .quoted tag '"' attr value, .inr a :: template => trace (.quoted tag '"' attr (value ++ [.inr a])) template
  | _, .inr _ :: _ => none

theorem fill_append (v : α → List Char) (t t' : Template α) : fill v (t ++ t') = fill v t ++ fill v t' := List.flatMap_append

/-- A step and what is filled in are independent. -/
def Agrees (v : α → List Char) (r : State (Char ⊕ α) × List (Event (Char ⊕ α))) (r' : State Char × List (Event Char)) : Prop :=
  r' = (r.1.fill v, r.2.map (Event.fill v))

theorem agrees_ite {p : Prop} [Decidable p] {r₁ r₂ : State (Char ⊕ α) × List (Event (Char ⊕ α))}
    {r₁' r₂' : State Char × List (Event Char)} (h₁ : Agrees v r₁ r₁') (h₂ : Agrees v r₂ r₂') :
    Agrees v (if p then r₁ else r₂) (if p then r₁' else r₂') := by
  split
  · exact h₁
  · exact h₂

theorem fill_finish (tag : Tag) : (finish tag : State (Char ⊕ α)).fill v = finish tag := by
  unfold finish
  split <;> rfl

theorem agrees_finish (tag : Tag) (es : List (Event (Char ⊕ α))) :
    Agrees v (finish tag, es) (finish tag, es.map (Event.fill v)) := by
  rw [Agrees, fill_finish]

theorem agrees_beforeName (tag : Tag) (c : Char) : Agrees v (beforeName tag c) (beforeName tag c) :=
  agrees_ite rfl (agrees_ite rfl (agrees_ite (agrees_finish tag [.closed]) rfl))

theorem agrees_rawTag (name seen : List Char) (c : Char) : Agrees v (rawTag name seen c) (rawTag name seen c) := by
  refine agrees_ite rfl (agrees_ite rfl (agrees_ite rfl (agrees_ite rfl (agrees_ite ?_ ?_))))
  · simp [Agrees, State.fill, Event.fill, Function.comp_def]
  · simp [Agrees, State.fill, Event.fill, Function.comp_def]

/-- What is filled in does not change how the text around it is read. -/
theorem agrees_step (s : State (Char ⊕ α)) (c : Char) : Agrees v (step .inl s c) (step id (s.fill v) c) := by
  cases s with
  | data => exact agrees_ite rfl rfl
  | raw name => exact agrees_ite rfl rfl
  | rawTag name seen => exact agrees_rawTag name seen c
  | tagOpen => exact agrees_ite rfl (agrees_ite rfl (agrees_ite rfl (agrees_ite rfl rfl)))
  | endTagOpen => exact agrees_ite rfl (agrees_ite rfl rfl)
  | declaration => exact agrees_ite rfl rfl
  | tagName tag => exact agrees_ite rfl (agrees_ite rfl (agrees_ite (agrees_finish tag [.opened tag, .closed]) rfl))
  | beforeName tag => exact agrees_beforeName tag c
  | attrName tag attr =>
    exact agrees_ite rfl (agrees_ite rfl (agrees_ite (agrees_finish tag [.attr attr [], .closed]) (agrees_ite rfl rfl)))
  | afterName tag attr =>
    exact agrees_ite rfl (agrees_ite rfl (agrees_ite rfl (agrees_ite (agrees_finish tag [.attr attr [], .closed]) rfl)))
  | beforeValue tag attr =>
    exact agrees_ite rfl (agrees_ite rfl (agrees_ite (agrees_finish tag [.attr attr [], .closed]) rfl))
  | quoted tag quote attr value =>
    refine agrees_ite rfl ?_
    simp [Agrees, State.fill, fill]
  | unquoted tag attr value =>
    refine agrees_ite rfl (agrees_ite (agrees_finish tag [.attr attr value, .closed]) ?_)
    simp [Agrees, State.fill, fill]
  | afterQuoted tag => exact agrees_beforeName tag c
  | selfClosing tag => exact agrees_ite rfl (agrees_beforeName tag c)

/-- The reading of a template is the reading of every text that fills it without double quotes. -/
theorem run_fill (hv : ∀ a, '"' ∉ v a) {s s' : State (Char ⊕ α)} {template : Template α}
    {es : List (Event (Char ⊕ α))} (h : trace s template = some (s', es)) :
    run (s.fill v) (fill v template) = (s'.fill v, es.map (Event.fill v)) := by
  induction template generalizing s es with
  | nil => cases h; rfl
  | cons x template ih =>
    cases x with
    | inl c =>
      rw [trace, Option.map_eq_some_iff] at h
      obtain ⟨r, hr, heq⟩ := h
      cases heq
      show run (s.fill v) ([c] ++ fill v template) = _
      have hstep := agrees_step (v := v) s c
      rw [Agrees] at hstep
      rw [List.singleton_append, run, hstep, ih hr, List.map_append]
    | inr a =>
      cases s with
      | quoted tag quote attr value =>
        by_cases hquote : quote = '"'
        · subst hquote
          have htail := ih h
          rw [State.fill, fill_append] at htail
          have hvalue : fill v [.inr a] = v a := by simp [fill]
          rw [hvalue] at htail
          exact run_trans (run_quoted (hv a)) htail
        · rw [trace] at h
          · cases h
          · rintro _ _ _ ⟨⟩
            exact hquote rfl
      | _ => cases h

theorem structureOf_fill (v : α → List Char) (es : List (Event (Char ⊕ α))) :
    structureOf (es.map (Event.fill v)) = structureOf es := by
  rw [structureOf, List.map_map]
  refine List.map_congr_left fun event _ => ?_
  cases event <;> rfl

theorem valuesOf_fill (v : α → List Char) (names : List (List Char)) (es : List (Event (Char ⊕ α))) :
    valuesOf names (es.map (Event.fill v)) = (valuesOf names es).map (fill v) := by
  induction es with
  | nil => rfl
  | cons event es ih =>
    cases event with
    | attr name value =>
      by_cases hname : name ∈ names
      · simpa [valuesOf, Event.fill, hname] using ih
      · simpa [valuesOf, Event.fill, hname] using ih
    | _ => exact ih

theorem leadingAttrs_fill (v : α → List Char) (es : List (Event (Char ⊕ α))) :
    leadingAttrs (es.map (Event.fill v)) = (leadingAttrs es).map fun attr => (attr.1, fill v attr.2) := by
  induction es with
  | nil => rfl
  | cons event es ih =>
    cases event with
    | attr name value => exact congrArg ((name, fill v value) :: ·) ih
    | _ => rfl

theorem tags_fill (v : α → List Char) (es : List (Event (Char ⊕ α))) :
    tags (es.map (Event.fill v)) =
      (tags es).map fun element => (element.1, element.2.map fun attr => (attr.1, fill v attr.2)) := by
  induction es with
  | nil => rfl
  | cons event es ih =>
    cases event with
    | opened tag =>
      show (tag, leadingAttrs (es.map (Event.fill v))) :: tags (es.map (Event.fill v)) = _
      rw [leadingAttrs_fill, ih]
      rfl
    | _ => exact ih

theorem lookup_map {β γ : Type} (f : β → γ) (name : List Char) (attrs : List (List Char × β)) :
    (attrs.map fun attr => (attr.1, f attr.2)).lookup name = (attrs.lookup name).map f := by
  induction attrs with
  | nil => rfl
  | cons attr attrs ih =>
    rw [List.map_cons, List.lookup_cons, List.lookup_cons, ih]
    cases name == attr.1 <;> rfl

theorem controls_fill (v : α → List Char) (es : List (Event (Char ⊕ α))) :
    controls (es.map (Event.fill v)) = (controls es).map fun control => (fill v control.1, fill v control.2) := by
  rw [controls, tags_fill, controls, List.filterMap_map, List.map_filterMap]
  refine List.filterMap_congr fun element _ => ?_
  by_cases htag : element.1 = ⟨false, "input".toList⟩
  · simp only [Function.comp_apply, htag, if_true, lookup_map]
    cases element.2.lookup "name".toList with
    | none => rfl
    | some name => cases element.2.lookup "value".toList <;> rfl
  · simp only [Function.comp_apply, htag, if_false, Option.map_none]

/-! ### Entities -/

/-- The five entities that an HTML escape uses, read once from the left. -/
def decode : List Char → List Char
  | '&' :: 'a' :: 'm' :: 'p' :: ';' :: rest => '&' :: decode rest
  | '&' :: 'l' :: 't' :: ';' :: rest => '<' :: decode rest
  | '&' :: 'g' :: 't' :: ';' :: rest => '>' :: decode rest
  | '&' :: 'q' :: 'u' :: 'o' :: 't' :: ';' :: rest => '"' :: decode rest
  | '&' :: '#' :: '3' :: '9' :: ';' :: rest => '\'' :: decode rest
  | c :: rest => c :: decode rest
  | [] => []

theorem decode_cons {c : Char} (hc : c ≠ '&') (rest : List Char) : decode (c :: rest) = c :: decode rest := by
  rw [decode]
  all_goals
    intro _ h
    exact absurd h hc

theorem decode_of_notMem {text : List Char} (h : '&' ∉ text) : decode text = text := by
  induction text with
  | nil => rfl
  | cons c text ih =>
    obtain ⟨hc, htext⟩ := List.ne_and_not_mem_of_not_mem_cons h
    rw [decode_cons (Ne.symm hc), ih htext]

end Html
