import Mathlib.Data.List.TakeWhile

/-!
# Authentication challenges

The challenge of RFC 9110, 11.3: a scheme and its parameters, each a name with a token or a quoted text. A
character that is not ASCII stands for its bytes, which are opaque text.
-/

namespace AuthParam

/-! ### The grammar -/

/-- `tchar`. -/
def isTchar (c : Char) : Bool := c.isAlphanum || "!#$%&'*+-.^_`|~".toList.contains c

def isBlank (c : Char) : Bool := c = ' ' || c = '\t'

/-- What may stand behind a backslash. -/
def isVisible (c : Char) : Bool := c = '\t' || (0x20 ≤ c.toNat && c.toNat != 0x7f)

/-- `qdtext`: what stands for itself between quotes. -/
def isQdtext (c : Char) : Bool := isVisible c && c != '"' && c != '\\'

/-- The text behind an opening quote: what it stands for, and what comes behind the closing one. -/
def unquote : List Char → Option (List Char × List Char)
  | [] => none
  | '"' :: rest => some ([], rest)
  | '\\' :: c :: rest => if isVisible c then (unquote rest).map fun r => (c :: r.1, r.2) else none
  | c :: rest => if isQdtext c then (unquote rest).map fun r => (c :: r.1, r.2) else none

def token (text : List Char) : Option (List Char × List Char) :=
  if text.takeWhile isTchar = [] then none else some (text.takeWhile isTchar, text.dropWhile isTchar)

/-- `auth-param`, and what comes behind it. -/
def authParam (text : List Char) : Option ((List Char × List Char) × List Char) := do
  let (name, rest) ← token text
  match rest.dropWhile isBlank with
  | '=' :: rest =>
    match rest.dropWhile isBlank with
    | '"' :: rest => (unquote rest).map fun r => ((name, r.1), r.2)
    | rest => (token rest).map fun r => ((name, r.1), r.2)
  | _ => none

/-- One or more, with commas between them. -/
def authParams : Nat → List Char → Option (List (List Char × List Char))
  | 0, _ => none
  | fuel + 1, text => do
    let (param, rest) ← authParam text
    match rest.dropWhile isBlank with
    | [] => some [param]
    | ',' :: rest => (authParams fuel (rest.dropWhile isBlank)).map (param :: ·)
    | _ => none

/-- One `challenge` and no more. -/
def challenge (text : List Char) : Option (List Char × List (List Char × List Char)) := do
  let (scheme, rest) ← token text
  match rest with
  | [] => some (scheme, [])
  | ' ' :: rest => (authParams rest.length (rest.dropWhile (· = ' '))).map (scheme, ·)
  | _ => none

example : challenge "Basic realm=\"a \\\"b\\\"\" , charset=UTF-8".toList =
    some ("Basic".toList, [("realm".toList, "a \"b\"".toList), ("charset".toList, "UTF-8".toList)]) := by decide

/-! ### Quoted texts -/

theorem unquote_cons {c : Char} {text : List Char} (h : isQdtext c = true) :
    unquote (c :: text) = (unquote text).map fun r => (c :: r.1, r.2) := by
  have hquote : c ≠ '"' := by rintro rfl; cases h
  have hback : c ≠ '\\' := by rintro rfl; cases h
  rw [unquote.eq_4 _ _ hquote fun _ _ hc => absurd hc hback, if_pos h]

theorem unquote_append {text : List Char} (h : ∀ c ∈ text, isQdtext c = true) (rest : List Char) :
    unquote (text ++ '"' :: rest) = some (text, rest) := by
  induction text with
  | nil => rfl
  | cons c text ih =>
    obtain ⟨hc, htext⟩ := List.forall_mem_cons.1 h
    rw [List.cons_append, unquote_cons hc, ih htext]
    rfl

theorem unquote_backslash {c : Char} {text v rest : List Char} (h : unquote ('\\' :: c :: text) = some (v, rest)) :
    ∃ v', v = c :: v' ∧ unquote text = some (v', rest) := by
  rw [unquote] at h
  split at h
  · obtain ⟨⟨v', rest'⟩, hunquote, heq⟩ := Option.map_eq_some_iff.1 h
    obtain ⟨rfl, rfl⟩ := Prod.mk.inj heq
    exact ⟨v', rfl, hunquote⟩
  · cases h

theorem isQdtext_of_head {c : Char} {text v rest : List Char} (hquote : c ≠ '"') (hback : c ≠ '\\')
    (h : unquote (c :: text) = some (v, rest)) : isQdtext c = true := by
  rw [unquote.eq_4 _ _ hquote fun _ _ hc => absurd hc hback] at h
  split at h
  · assumption
  · cases h

/-- What a text stands for is no longer than the text before the closing quote. -/
theorem length_le_of_unquote {rest rest' : List Char} : ∀ {text v : List Char}, text.getLast? ≠ some '\\' →
    unquote (text ++ '"' :: rest) = some (v, rest') → v.length ≤ text.length
  | [], v, _, h => by
    obtain ⟨rfl, -⟩ := Prod.mk.inj (Option.some.inj h)
    exact Nat.le_refl _
  | [c], v, hlast, h => by
    by_cases hquote : c = '"'
    · subst hquote
      obtain ⟨rfl, -⟩ := Prod.mk.inj (Option.some.inj h)
      exact Nat.zero_le _
    · have hback : c ≠ '\\' := fun hc => hlast (by rw [hc]; rfl)
      rw [List.singleton_append, unquote_cons (isQdtext_of_head hquote hback h)] at h
      obtain ⟨rfl, -⟩ := Prod.mk.inj (Option.some.inj h)
      exact Nat.le_refl _
  | c :: c' :: text, v, hlast, h => by
    by_cases hquote : c = '"'
    · subst hquote
      obtain ⟨rfl, -⟩ := Prod.mk.inj (Option.some.inj h)
      exact Nat.zero_le _
    rw [List.getLast?_cons_cons] at hlast
    by_cases hback : c = '\\'
    · subst hback
      obtain ⟨v', rfl, htext⟩ := unquote_backslash h
      have hlast' : text.getLast? ≠ some '\\' := fun htext => hlast (by rw [List.getLast?_cons, htext]; rfl)
      have := length_le_of_unquote hlast' htext
      simp only [List.length_cons]
      omega
    · rw [List.cons_append, unquote_cons (isQdtext_of_head hquote hback h)] at h
      obtain ⟨⟨v', r⟩, hunquote, heq⟩ := Option.map_eq_some_iff.1 h
      obtain ⟨rfl, rfl⟩ := Prod.mk.inj heq
      have := length_le_of_unquote hlast hunquote
      simpa using this

/-- Only what stands for itself is the same between quotes. -/
theorem isQdtext_of_unquote {text rest rest' : List Char} (hlast : text.getLast? ≠ some '\\')
    (h : unquote (text ++ '"' :: rest) = some (text, rest')) : ∀ c ∈ text, isQdtext c = true := by
  induction text with
  | nil => simp
  | cons c text ih =>
    have hquote : c ≠ '"' := by
      rintro rfl
      cases (Prod.mk.inj (Option.some.inj h)).1
    have hback : c ≠ '\\' := by
      rintro rfl
      cases text with
      | nil => exact hlast rfl
      | cons c' text =>
        -- a pair stands for one character, so the rest would have to stand for more than it is
        obtain ⟨v, hv, h⟩ := unquote_backslash h
        obtain ⟨-, rfl⟩ := List.cons.inj hv
        have hlast' : text.getLast? ≠ some '\\' := fun htext => hlast (by
          rw [List.getLast?_cons_cons, List.getLast?_cons, htext]
          rfl)
        have := length_le_of_unquote hlast' h
        simp only [List.length_cons] at this
        omega
    have hc := isQdtext_of_head hquote hback h
    rw [List.cons_append, unquote_cons hc] at h
    obtain ⟨⟨v, r⟩, hunquote, heq⟩ := Option.map_eq_some_iff.1 h
    obtain ⟨htext, rfl⟩ := Prod.mk.inj heq
    obtain ⟨-, rfl⟩ := List.cons.inj htext
    have hlast' : v.getLast? ≠ some '\\' := fun hv => hlast (by rw [List.getLast?_cons, hv]; rfl)
    exact List.forall_mem_cons.2 ⟨hc, ih hlast' hunquote⟩

/-! ### Parameters -/

theorem token_append {name rest : List Char} {c : Char} (hne : name ≠ []) (hname : ∀ c ∈ name, isTchar c = true)
    (hc : isTchar c = false) : token (name ++ c :: rest) = some (name, c :: rest) := by
  have hcons : isTchar c ≠ true := by simp [hc]
  rw [token, List.takeWhile_append_of_pos hname, List.dropWhile_append_of_pos hname, List.takeWhile_cons_of_neg hcons,
    List.dropWhile_cons_of_neg hcons, List.append_nil, if_neg hne]

theorem authParam_quoted {name text : List Char} (hne : name ≠ []) (hname : ∀ c ∈ name, isTchar c = true) :
    authParam (name ++ '=' :: '"' :: text) = (unquote text).map fun r => ((name, r.1), r.2) := by
  rw [authParam, token_append hne hname (by decide)]
  rfl

section Challenge

variable {scheme name text v : List Char}

theorem challenge_quoted (hscheme : scheme ≠ [] ∧ ∀ c ∈ scheme, isTchar c = true) (hname : name ≠ [] ∧ ∀ c ∈ name, isTchar c = true) :
    ∃ fuel, text.length ≤ fuel ∧ challenge (scheme ++ ' ' :: (name ++ '=' :: '"' :: text)) =
      (authParams (fuel + 1) (name ++ '=' :: '"' :: text)).map (scheme, ·) := by
  obtain ⟨c, name', rfl⟩ := List.exists_cons_of_ne_nil hname.1
  refine ⟨(name' ++ '=' :: '"' :: text).length, by simp; omega, ?_⟩
  have hc : c ≠ ' ' := by
    rintro rfl
    cases hname.2 ' ' (List.mem_cons_self ..)
  rw [challenge, token_append hscheme.1 hscheme.2 (by decide)]
  simp [hc]

theorem challenge_head {scheme' : List Char} {params : List (List Char × List Char)}
    (hscheme : scheme ≠ [] ∧ ∀ c ∈ scheme, isTchar c = true) (hname : name ≠ [] ∧ ∀ c ∈ name, isTchar c = true)
    (h : challenge (scheme ++ ' ' :: (name ++ '=' :: '"' :: text)) = some (scheme', params)) :
    ∃ v rest more, params = (name, v) :: more ∧ unquote text = some (v, rest) := by
  obtain ⟨fuel, -, hchallenge⟩ := challenge_quoted hscheme hname
  rw [hchallenge, authParams, authParam_quoted hname.1 hname.2] at h
  cases hunquote : unquote text with
  | none =>
    rw [hunquote] at h
    cases h
  | some r =>
    rw [hunquote] at h
    refine ⟨r.1, r.2, ?_⟩
    simp only [Option.map_some, Option.bind_eq_bind, Option.bind_some] at h
    split at h
    · cases h
      exact ⟨[], rfl, rfl⟩
    · obtain ⟨params', hparams, hpair⟩ := Option.map_eq_some_iff.1 h
      obtain ⟨more, -, rfl⟩ := Option.map_eq_some_iff.1 hparams
      cases hpair
      exact ⟨more, rfl, rfl⟩
    · cases h

theorem challenge_one (hscheme : scheme ≠ [] ∧ ∀ c ∈ scheme, isTchar c = true)
    (hname : name ≠ [] ∧ ∀ c ∈ name, isTchar c = true) (h : unquote text = some (v, [])) :
    challenge (scheme ++ ' ' :: (name ++ '=' :: '"' :: text)) = some (scheme, [(name, v)]) := by
  obtain ⟨fuel, -, hchallenge⟩ := challenge_quoted hscheme hname
  rw [hchallenge, authParams, authParam_quoted hname.1 hname.2, h]
  rfl

theorem challenge_two {name' text' v' : List Char} (hscheme : scheme ≠ [] ∧ ∀ c ∈ scheme, isTchar c = true)
    (hname : name ≠ [] ∧ ∀ c ∈ name, isTchar c = true) (hname' : name' ≠ [] ∧ ∀ c ∈ name', isTchar c = true)
    (h : unquote text = some (v, ',' :: ' ' :: (name' ++ '=' :: '"' :: text'))) (h' : unquote text' = some (v', [])) :
    challenge (scheme ++ ' ' :: (name ++ '=' :: '"' :: text)) = some (scheme, [(name, v), (name', v')]) := by
  obtain ⟨fuel, hfuel, hchallenge⟩ := @challenge_quoted _ _ text hscheme hname
  obtain ⟨fuel, rfl⟩ : ∃ n, fuel = n + 1 := by
    cases text with
    | nil => cases h
    | cons c text => exact ⟨fuel - 1, by simp only [List.length_cons] at hfuel; omega⟩
  have hblank : (name' ++ '=' :: '"' :: text').dropWhile isBlank = name' ++ '=' :: '"' :: text' := by
    obtain ⟨c, name', rfl⟩ := List.exists_cons_of_ne_nil hname'.1
    have hc : isBlank c ≠ true := fun hc => by
      have htchar := hname'.2 c (List.mem_cons_self ..)
      rw [isBlank, Bool.or_eq_true, decide_eq_true_eq, decide_eq_true_eq] at hc
      rcases hc with rfl | rfl <;> cases htchar
    exact List.dropWhile_cons_of_neg hc
  have hmore : authParams (fuel + 1) (name' ++ '=' :: '"' :: text') = some [(name', v')] := by
    rw [authParams, authParam_quoted hname'.1 hname'.2, h']
    rfl
  rw [hchallenge, authParams, authParam_quoted hname.1 hname.2, h]
  show ((authParams (fuel + 1) ((' ' :: (name' ++ '=' :: '"' :: text')).dropWhile isBlank)).map ((name, v) :: ·)).map (scheme, ·) = _
  rw [List.dropWhile_cons_of_pos (by rfl), hblank, hmore]
  rfl

end Challenge
end AuthParam
