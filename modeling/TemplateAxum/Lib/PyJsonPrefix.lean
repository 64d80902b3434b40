import TemplateAxum.Lib.PyJson

/-!
# A JSON text that was cut off

What `json.loads` reads of the beginning of a text (`loads_of_begun`): the value is read back as soon as its last character is
there, and before that nothing is. The text that is printed is ASCII, so that its bytes are cut off as its characters are
(`prefix_encode_iff`).
-/

namespace PyJson

/-! ### What was read does not change when more text follows -/

/-- What follows a value inside of a container: no character that would continue a number. -/
def Stops (rest : List Char) : Prop := ∃ c t, rest = c :: t ∧ c.isDigit = false ∧ c ≠ '.' ∧ c ≠ 'e' ∧ c ≠ 'E'

/-- A reader whose answer stands when more text follows. -/
structure Extendable {α : Type} (read : List Char → Option (α × List Char)) : Prop where
  nil : read [] = none
  append : ∀ ⦃text a rest⦄ more, read text = some (a, rest) → Stops rest → read (text ++ more) = some (a, rest ++ more)

theorem Stops.ne_nil {rest : List Char} (h : Stops rest) : rest ≠ [] := by
  obtain ⟨c, t, rfl, -⟩ := h
  exact List.cons_ne_nil c t

theorem units_append {text rest : List Char} {s : Str} (more : List Char) (h : units text = some (s, rest)) :
    units (text ++ more) = some (s, rest ++ more) := by
  induction text using units.induct generalizing s rest with
  | case1 => simp [units] at h
  | case2 rest' =>
    rw [units] at h
    obtain ⟨rfl, rfl⟩ := Prod.mk.inj (Option.some.inj h)
    rfl
  | case3 a b c d rest' ih =>
    rw [units] at h
    simp only [Option.bind_eq_bind, Option.bind_eq_some_iff] at h
    obtain ⟨n, hn, ⟨s', rest''⟩, hrest, heq⟩ := h
    obtain ⟨rfl, rfl⟩ := Prod.mk.inj (Option.some.inj heq)
    simp only [List.cons_append]
    rw [units, hn, ih hrest]
    rfl
  | case4 c rest' hnot ih =>
    rw [units] at h
    · simp only [Option.bind_eq_bind, Option.bind_eq_some_iff] at h
      obtain ⟨n, hn, ⟨s', rest''⟩, hrest, heq⟩ := h
      obtain ⟨rfl, rfl⟩ := Prod.mk.inj (Option.some.inj heq)
      have hu : c ≠ 'u' := by
        rintro rfl
        simp [escaped?, shortEscapes] at hn
      simp only [List.cons_append]
      rw [units, hn, ih hrest]
      · rfl
      · rintro a b c' d rest₁ heq'
        exact absurd heq' hu
    · exact hnot
  | case5 c rest' hquote hu hslash hcontrol =>
    rw [units, if_pos hcontrol] at h
    · cases h
    · exact hquote
    · exact hu
    · exact hslash
  | case6 c rest' hquote hu hslash hcontrol ih =>
    have hc : c ≠ '\\' := by
      rintro rfl
      cases rest' with
      | nil => simp [units] at h
      | cons d rest' => exact hslash d rest' rfl rfl
    rw [units_plain hquote hc (by omega)] at h
    obtain ⟨⟨s', rest''⟩, hrest, heq⟩ := Option.map_eq_some_iff.1 h
    obtain ⟨rfl, rfl⟩ := Prod.mk.inj heq
    rw [List.cons_append, units_plain hquote hc (by omega), ih hrest]
    rfl

theorem string_append {text rest : List Char} {s : Str} (more : List Char) (h : string text = some (s, rest)) :
    string (text ++ more) = some (s, rest ++ more) := by
  obtain ⟨⟨s', rest'⟩, hunits, heq⟩ := Option.map_eq_some_iff.1 h
  obtain ⟨rfl, rfl⟩ := Prod.mk.inj heq
  rw [string, units_append more hunits]
  rfl

/-! ### Numbers -/

theorem digits_append {text : List Char} (more : List Char) (h : text.dropWhile Char.isDigit ≠ []) :
    digits (text ++ more) = digits text ∧
      (text ++ more).dropWhile Char.isDigit = text.dropWhile Char.isDigit ++ more := by
  have hempty : (text.dropWhile Char.isDigit).isEmpty = false := List.isEmpty_eq_false_iff.2 h
  have hlen : (text.takeWhile Char.isDigit).length ≠ text.length := fun heq => h (by
    have hself : text.takeWhile Char.isDigit = text := (List.takeWhile_prefix _).eq_of_length heq
    rw [List.dropWhile_eq_nil_iff]
    exact List.takeWhile_eq_self_iff.1 hself)
  refine ⟨?_, ?_⟩
  · rw [digits, List.takeWhile_append, if_neg hlen]
    rfl
  · rw [List.dropWhile_append, if_neg (by simp [hempty])]

theorem integer_append {text whole rest : List Char} (more : List Char) (h : integer text = some (whole, rest))
    (hrest : rest ≠ []) : integer (text ++ more) = some (whole, rest ++ more) := by
  unfold integer at h
  split at h
  · obtain ⟨rfl, rfl⟩ := Prod.mk.inj (Option.some.inj h)
    rfl
  · rename_i c rest' hzero
    split at h
    · rename_i hdigit
      obtain ⟨rfl, rfl⟩ := Prod.mk.inj (Option.some.inj h)
      obtain ⟨hdigits, hdrop⟩ := digits_append more hrest
      rw [List.cons_append, integer, if_pos hdigit, hdigits, hdrop]
      exact hzero
    · cases h
  · cases h

theorem fraction_append {text part rest : List Char} (more : List Char) (h : fraction text = (part, rest))
    (hrest : rest ≠ []) (hpoint : rest.head? ≠ some '.') : fraction (text ++ more) = (part, rest ++ more) := by
  unfold fraction at h
  split at h
  · rename_i rest'
    split at h
    · obtain ⟨rfl, rfl⟩ := Prod.mk.inj h
      exact absurd rfl hpoint
    · rename_i hne
      obtain ⟨rfl, rfl⟩ := Prod.mk.inj h
      obtain ⟨hdigits, hdrop⟩ := digits_append more hrest
      rw [List.cons_append, fraction, hdigits, if_neg hne, hdrop]
  · obtain ⟨rfl, rfl⟩ := Prod.mk.inj h
    obtain ⟨c, t, rfl⟩ := List.exists_cons_of_ne_nil hrest
    have hc : c ≠ '.' := fun heq => hpoint (by rw [heq]; rfl)
    rw [List.cons_append, fraction]
    rintro rest' heq
    exact absurd (List.cons.inj heq).1 hc

theorem exponentSign_append {text : List Char} (more : List Char) (h : text ≠ []) :
    exponentSign (text ++ more) = ((exponentSign text).1, (exponentSign text).2 ++ more) := by
  obtain ⟨c, t, rfl⟩ := List.exists_cons_of_ne_nil h
  unfold exponentSign
  split
  · rename_i rest heq
    obtain ⟨rfl, rfl⟩ := List.cons.inj heq
    rfl
  · rename_i rest heq
    obtain ⟨rfl, rfl⟩ := List.cons.inj heq
    rfl
  · rename_i hplus hminus
    split
    · rename_i rest' heq
      exact absurd (by rw [(List.cons.inj heq).1]; rfl) (hplus (t ++ more))
    · rename_i rest' heq
      exact absurd (by rw [(List.cons.inj heq).1]; rfl) (hminus (t ++ more))
    · rfl

theorem exponent_append {text power rest : List Char} (more : List Char) (h : exponent text = (power, rest))
    (hrest : Stops rest) : exponent (text ++ more) = (power, rest ++ more) := by
  have hne := hrest.ne_nil
  obtain ⟨d, t, hd, -, -, hlower, hupper⟩ := hrest
  unfold exponent at h
  split at h
  · rename_i c rest'
    split at h
    · rename_i he
      dsimp only at h
      split at h
      · obtain ⟨rfl, rfl⟩ := Prod.mk.inj h
        obtain ⟨rfl, -⟩ := List.cons.inj hd
        exact absurd he (not_or.2 ⟨hlower, hupper⟩)
      · rename_i hdigits
        obtain ⟨rfl, rfl⟩ := Prod.mk.inj h
        have hnil : rest' ≠ [] := by
          rintro rfl
          exact hdigits rfl
        obtain ⟨hdigits', hdrop⟩ := digits_append more hne
        rw [List.cons_append, exponent, if_pos he, exponentSign_append more hnil]
        dsimp only
        rw [hdigits', if_neg hdigits, hdrop]
    · rename_i he
      obtain ⟨rfl, rfl⟩ := Prod.mk.inj h
      rw [List.cons_append, exponent, if_neg he]
  · obtain ⟨rfl, rfl⟩ := Prod.mk.inj h
    exact absurd rfl hne

/-- Where the exponent stops, the fraction did. -/
theorem ne_nil_of_exponent {text power rest : List Char} (h : exponent text = (power, rest)) (hrest : Stops rest) :
    text ≠ [] ∧ text.head? ≠ some '.' := by
  obtain ⟨c, t, rfl, -, hpoint, -⟩ := hrest
  refine ⟨?_, fun hhead => ?_⟩
  · rintro rfl
    simp [exponent] at h
  · cases text with
    | nil => cases hhead
    | cons d t' =>
      obtain rfl : d = '.' := Option.some.inj hhead
      simp only [exponent, Char.reduceEq, or_self, if_false, Prod.mk.injEq, List.cons.injEq] at h
      exact hpoint h.2.1.symm

theorem unsigned_append {text literal rest : List Char} (more : List Char) (h : unsigned text = some (literal, rest))
    (hrest : Stops rest) : unsigned (text ++ more) = some (literal, rest ++ more) := by
  unfold unsigned at h
  obtain ⟨⟨whole, rest₁⟩, hwhole, h⟩ := Option.bind_eq_some_iff.1 h
  rcases hpart : fraction rest₁ with ⟨part, rest₂⟩
  rcases hpower : exponent rest₂ with ⟨power, rest₃⟩
  simp only [hpart, hpower] at h
  split at h
  · cases h
  · rename_i hlong
    obtain ⟨rfl, rfl⟩ := Prod.mk.inj (Option.some.inj h)
    obtain ⟨hne₂, hpoint⟩ := ne_nil_of_exponent hpower hrest
    have hne₁ : rest₁ ≠ [] := by
      rintro rfl
      exact hne₂ (Prod.mk.inj hpart).2.symm
    rw [unsigned, integer_append more hwhole hne₁]
    simp only [Option.bind_eq_bind, Option.bind_some, fraction_append more hpart hne₂ hpoint,
      exponent_append more hpower hrest, if_neg hlong]

/-- A number starts with a digit, which a minus may stand in front of. -/
def Starts (text : List Char) : Prop :=
  ∃ c t, text = c :: t ∧ (c.isDigit = true ∨ c = '-' ∧ ∃ d t', t = d :: t' ∧ d.isDigit = true)

theorem unsigned_start {text literal rest : List Char} (h : unsigned text = some (literal, rest)) :
    ∃ c t, text = c :: t ∧ c.isDigit = true := by
  obtain ⟨⟨whole, rest'⟩, hwhole, -⟩ := Option.bind_eq_some_iff.1 h
  unfold integer at hwhole
  split at hwhole
  · exact ⟨'0', _, rfl, rfl⟩
  · rename_i c rest'' _
    split at hwhole
    · exact ⟨c, rest'', rfl, ‹_›⟩
    · cases hwhole
  · cases hwhole

theorem number_append {text literal rest : List Char} (more : List Char) (h : number text = some (literal, rest))
    (hrest : Stops rest) : Starts text ∧ number (text ++ more) = some (literal, rest ++ more) := by
  unfold number at h
  split at h
  · obtain ⟨⟨literal', rest'⟩, hunsigned, heq⟩ := Option.map_eq_some_iff.1 h
    obtain ⟨rfl, rfl⟩ := Prod.mk.inj heq
    refine ⟨⟨'-', _, rfl, .inr ⟨rfl, unsigned_start hunsigned⟩⟩, ?_⟩
    rw [List.cons_append, number, unsigned_append more hunsigned hrest]
    rfl
  · rename_i hminus
    obtain ⟨c, t, rfl, hc⟩ := unsigned_start h
    refine ⟨⟨c, t, rfl, .inl hc⟩, ?_⟩
    rw [List.cons_append, number, ← List.cons_append, unsigned_append more h hrest]
    rintro rest' heq
    exact hminus t (by rw [(List.cons.inj heq).1])

theorem scalar_of_starts {text : List Char} (h : Starts text) :
    scalar text = (number text).map fun p => (.num p.1, p.2) := by
  obtain ⟨c, t, rfl, hc⟩ := h
  have hinf : ∀ rest, t = 'I' :: rest → c ≠ '-' := by
    rintro rest rfl rfl
    rcases hc with hc | ⟨-, d, t', heq, hd⟩
    · exact absurd hc (by decide)
    · obtain ⟨rfl, -⟩ := List.cons.inj heq
      exact absurd hd (by decide)
  have hfirst : c.isDigit = true ∨ c = '-' := hc.imp_right And.left
  rw [scalar]
  all_goals
    rintro rest heq
    obtain ⟨rfl, ht⟩ := List.cons.inj heq
    first
    | exact absurd hfirst (by decide)
    | exact hinf _ ht rfl

theorem Starts.append {text : List Char} (h : Starts text) (more : List Char) : Starts (text ++ more) := by
  obtain ⟨c, t, rfl, hc⟩ := h
  refine ⟨c, t ++ more, rfl, hc.imp_right ?_⟩
  rintro ⟨hminus, d, t', rfl, hd⟩
  exact ⟨hminus, d, t' ++ more, rfl, hd⟩

theorem scalar_append {text rest : List Char} {v : Value} (more : List Char) (h : scalar text = some (v, rest))
    (hrest : Stops rest) : scalar (text ++ more) = some (v, rest ++ more) := by
  unfold scalar at h
  split at h
  case h_1 =>
    obtain ⟨⟨s, rest'⟩, hstring, heq⟩ := Option.map_eq_some_iff.1 h
    obtain ⟨rfl, rfl⟩ := Prod.mk.inj heq
    rw [List.cons_append, scalar, string_append more hstring]
    rfl
  case h_8 =>
    obtain ⟨⟨literal, rest'⟩, hnumber, heq⟩ := Option.map_eq_some_iff.1 h
    obtain ⟨rfl, rfl⟩ := Prod.mk.inj heq
    obtain ⟨hstarts, happend⟩ := number_append more hnumber hrest
    rw [scalar_of_starts (hstarts.append more), happend]
    rfl
  all_goals
    obtain ⟨rfl, rfl⟩ := Prod.mk.inj (Option.some.inj h)
    rfl

/-! ### Containers -/

theorem skip_append {text : List Char} (more : List Char) (h : skip text ≠ []) : skip (text ++ more) = skip text ++ more := by
  rw [skip, List.dropWhile_append, ← skip, if_neg fun hempty => h (List.isEmpty_iff.1 hempty)]

theorem skip_append_cons {text rest : List Char} {c : Char} (more : List Char) (h : skip text = c :: rest) :
    skip (text ++ more) = c :: (rest ++ more) := by
  rw [skip_append more (by rw [h]; exact List.cons_ne_nil c rest), h, List.cons_append]

/-- A comma or a closing bracket ends a number. -/
theorem stops_of_skip {text rest : List Char} {c : Char} (h : skip text = c :: rest)
    (hc : c.isDigit = false ∧ c ≠ '.' ∧ c ≠ 'e' ∧ c ≠ 'E') : Stops text := by
  cases text with
  | nil => cases h
  | cons d t =>
    refine ⟨d, t, rfl, ?_⟩
    by_cases hspace : isSpace d = true
    · simp only [isSpace, decide_eq_true_eq] at hspace
      rcases hspace with rfl | rfl | rfl | rfl <;> decide
    · rw [skip_cons (by simpa using hspace)] at h
      obtain ⟨rfl, -⟩ := List.cons.inj h
      exact hc

section

variable {α : Type} {element : List Char → Option (α × List Char)} {close : Char}

theorem sequence_nil (h : Extendable element) (n : Nat) : sequence element close n [] = none := by
  cases n with
  | zero => rfl
  | succ n =>
    rw [sequence, h.nil]
    rfl

theorem sequence_append (h : Extendable element) (hclose : close = ']' ∨ close = '}') {n m : Nat} {text rest : List Char}
    {as : List α} (more : List Char) (hseq : sequence element close n text = some (as, rest)) (hn : n ≤ m) :
    sequence element close m (text ++ more) = some (as, rest ++ more) := by
  induction n generalizing m text as with
  | zero => cases hseq
  | succ n ih =>
    obtain ⟨m, rfl⟩ : ∃ k, m = k + 1 := ⟨m - 1, by omega⟩
    rw [sequence] at hseq
    obtain ⟨⟨a, rest₁⟩, helem, hseq⟩ := Option.bind_eq_some_iff.1 hseq
    dsimp only at hseq
    split at hseq
    · cases hseq
    · rename_i c rest₂ hskip
      have hstop : c = close ∨ c = ',' → Stops rest₁ := by
        rintro (rfl | rfl)
        · refine stops_of_skip hskip ?_
          rcases hclose with rfl | rfl <;> decide
        · exact stops_of_skip hskip (by decide)
      have hmore := skip_append_cons more hskip
      split at hseq
      · rename_i hc
        obtain ⟨rfl, rfl⟩ := Prod.mk.inj (Option.some.inj hseq)
        rw [sequence, h.append more helem (hstop (.inl hc))]
        simp only [Option.bind_eq_bind, Option.bind_some, hmore, if_pos hc]
      · rename_i hc
        split at hseq
        · rename_i hcomma
          obtain ⟨⟨as', rest'⟩, hrec, heq⟩ := Option.map_eq_some_iff.1 hseq
          obtain ⟨rfl, rfl⟩ := Prod.mk.inj heq
          have hne : skip rest₂ ≠ [] := by
            intro hnil
            rw [hnil, sequence_nil h] at hrec
            cases hrec
          have hih := ih hrec (Nat.le_of_succ_le_succ hn)
          rw [← skip_append more hne] at hih
          rw [sequence, h.append more helem (hstop (.inr hcomma))]
          simp only [Option.bind_eq_bind, Option.bind_some, hmore, if_neg hc, if_pos hcomma, hih, Option.map_some]
        · cases hseq

/-- A bracket closes a container, so that nothing behind it can change what is read. -/
theorem enclosed_append (h : Extendable element) (hclose : close = ']' ∨ close = '}') {text rest : List Char} {as : List α}
    (more : List Char) (henc : enclosed element close text = some (as, rest)) :
    enclosed element close (text ++ more) = some (as, rest ++ more) := by
  unfold enclosed at henc
  split at henc
  · cases henc
  · rename_i c rest₁ hskip
    rw [enclosed, skip_append_cons more hskip]
    dsimp only
    split at henc
    · rename_i hc
      obtain ⟨rfl, rfl⟩ := Prod.mk.inj (Option.some.inj henc)
      rw [if_pos hc]
    · rename_i hc
      rw [if_neg hc, ← List.cons_append]
      exact sequence_append h hclose more henc (by simp)

end

theorem extendable_member {read : List Char → Option (Value × List Char)} (h : Extendable read) : Extendable (member read) := by
  refine ⟨rfl, fun text m rest more hmember hrest => ?_⟩
  unfold member at hmember
  split at hmember
  · obtain ⟨⟨name, rest₁⟩, hname, hmember⟩ := Option.bind_eq_some_iff.1 hmember
    dsimp only at hmember
    split at hmember
    · rename_i rest₂ hskip
      obtain ⟨⟨v, rest₃⟩, hvalue, heq⟩ := Option.bind_eq_some_iff.1 hmember
      obtain ⟨rfl, rfl⟩ := Prod.mk.inj (Option.some.inj heq)
      have hmore := skip_append_cons more hskip
      have hne : skip rest₂ ≠ [] := by
        intro hnil
        rw [hnil, h.nil] at hvalue
        cases hvalue
      rw [List.cons_append, member, string_append more hname]
      simp only [Option.bind_eq_bind, Option.bind_some, hmore, skip_append more hne, h.append more hvalue hrest]
      rfl
    · cases hmember
  · cases hmember

theorem value_array (depth : Nat) (rest : List Char) :
    value (depth + 1) ('[' :: rest) = (enclosed (value depth) ']' rest).map fun p => (.arr p.1, p.2) := by
  rw [value]

theorem value_object (depth : Nat) (rest : List Char) :
    value (depth + 1) ('{' :: rest) = (enclosed (member (value depth)) '}' rest).map fun p => (.obj p.1, p.2) := by
  rw [value]

theorem extendable_value (depth : Nat) : Extendable (value depth) := by
  induction depth with
  | zero =>
    refine ⟨rfl, fun text v rest more hvalue hrest => ?_⟩
    cases text with
    | nil => cases hvalue
    | cons c t =>
      rw [value] at hvalue
      split at hvalue
      · cases hvalue
      · rename_i hopen
        have hopen' : ¬((c :: t ++ more).head? = some '[' ∨ (c :: t ++ more).head? = some '{') := hopen
        rw [value, if_neg hopen', scalar_append more hvalue hrest]
  | succ depth ih =>
    refine ⟨rfl, fun text v rest more hvalue hrest => ?_⟩
    unfold value at hvalue
    split at hvalue
    · obtain ⟨⟨items, rest'⟩, hitems, heq⟩ := Option.map_eq_some_iff.1 hvalue
      obtain ⟨rfl, rfl⟩ := Prod.mk.inj heq
      rw [List.cons_append, value_array, enclosed_append ih (.inl rfl) more hitems]
      rfl
    · obtain ⟨⟨members, rest'⟩, hmembers, heq⟩ := Option.map_eq_some_iff.1 hvalue
      obtain ⟨rfl, rfl⟩ := Prod.mk.inj heq
      rw [List.cons_append, value_object, enclosed_append (extendable_member ih) (.inr rfl) more hmembers]
      rfl
    · rename_i harr hobj
      cases text with
      | nil => cases hvalue
      | cons c t =>
        have hc : c ≠ '[' ∧ c ≠ '{' := ⟨fun heq => harr t (by rw [heq]), fun heq => hobj t (by rw [heq])⟩
        rw [List.cons_append, value_eq_scalar _ hc.1 hc.2, ← List.cons_append, scalar_append more hvalue hrest]

/-- Nothing that follows a container changes it. -/
theorem value_append_of_open {depth : Nat} {c : Char} (hc : c = '[' ∨ c = '{') {t rest : List Char} {v : Value}
    (more : List Char) (h : value depth (c :: t) = some (v, rest)) : value depth (c :: t ++ more) = some (v, rest ++ more) := by
  cases depth with
  | zero =>
    rw [value, if_pos (by simpa using hc)] at h
    cases h
  | succ depth =>
    rcases hc with rfl | rfl
    · rw [value_array] at h
      obtain ⟨⟨items, rest'⟩, hitems, heq⟩ := Option.map_eq_some_iff.1 h
      obtain ⟨rfl, rfl⟩ := Prod.mk.inj heq
      rw [List.cons_append, value_array, enclosed_append (extendable_value depth) (.inl rfl) more hitems]
      rfl
    · rw [value_object] at h
      obtain ⟨⟨members, rest'⟩, hmembers, heq⟩ := Option.map_eq_some_iff.1 h
      obtain ⟨rfl, rfl⟩ := Prod.mk.inj heq
      rw [List.cons_append, value_object,
        enclosed_append (extendable_member (extendable_value depth)) (.inr rfl) more hmembers]
      rfl

/-! ### A text that was cut off -/

def Value.isContainer : Value → Bool
  | .arr _ | .obj _ => true
  | _ => false

theorem dumps_open {v : Value} (h : v.isContainer = true) (level : Nat) :
    ∃ c t, dumps level v = c :: t ∧ (c = '[' ∨ c = '{') := by
  cases v with
  | arr items =>
    cases items with
    | nil => exact ⟨_, _, by rw [dumps], .inl rfl⟩
    | cons v items => exact ⟨_, _, by rw [dumps], .inl rfl⟩
  | obj members =>
    cases members with
    | nil => exact ⟨_, _, by rw [dumps], .inr rfl⟩
    | cons m members => exact ⟨_, _, by rw [dumps], .inr rfl⟩
  | null => cases h
  | bool b => cases h
  | num literal => cases h
  | str s => cases h

/-- What was cut off inside of a printed container is not read as any value. -/
theorem loads_truncated {depth : Nat} {v : Value} (h : Textual depth v) (hv : v.isContainer = true)
    {trailing seen : List Char} (hseen : seen <+: dumps 0 v ++ trailing) (hcut : ¬dumps 0 v <+: seen) :
    loads depth seen = none := by
  cases hloads : loads depth seen with
  | none => rfl
  | some w =>
    refine absurd ?_ hcut
    obtain ⟨⟨w', rest⟩, hvalue, -⟩ := Option.bind_eq_some_iff.1 hloads
    obtain ⟨more, hmore⟩ := hseen
    obtain ⟨c, t, heq, hc⟩ := dumps_open hv 0
    cases seen with
    | nil => cases (extendable_value depth).nil.symm.trans hvalue
    | cons d seen =>
      obtain rfl : d = c := by
        rw [heq, List.cons_append, List.cons_append] at hmore
        exact (List.cons.inj hmore).1
      have hspace : isSpace d = false := by rcases hc with rfl | rfl <;> decide
      rw [skip_cons hspace] at hvalue
      have hwhole := value_append_of_open hc more hvalue
      rw [hmore, value_dumps depth 0 v h trailing] at hwhole
      have hrest : trailing = rest ++ more := (Prod.mk.inj (Option.some.inj hwhole)).2
      refine List.prefix_of_prefix_length_le (List.prefix_append _ trailing) ⟨more, hmore⟩ ?_
      have hlen := congrArg List.length hmore
      rw [List.length_append, List.length_append, hrest, List.length_append] at hlen
      omega

/-- A beginning of what was printed is read if and only if the value is all there. -/
theorem loads_of_begun {depth : Nat} {v : Value} (h : Textual depth v) (hv : v.isContainer = true) {trailing seen : List Char}
    (hspace : skip trailing = []) (hseen : seen <+: dumps 0 v ++ trailing) {w : Value} :
    loads depth seen = some w ↔ dumps 0 v <+: seen ∧ w = v := by
  have hwhole : dumps 0 v <+: seen → loads depth seen = some v := by
    rintro ⟨t, rfl⟩
    obtain ⟨more, rfl⟩ := (List.prefix_append_right_inj (dumps 0 v)).1 hseen
    rw [skip, List.dropWhile_eq_nil_iff, List.forall_mem_append] at hspace
    exact loads_dumps h (List.dropWhile_eq_nil_iff.2 hspace.1)
  constructor
  · intro hloads
    have hfull : dumps 0 v <+: seen := by
      by_contra hcut
      cases (loads_truncated h hv hseen hcut).symm.trans hloads
    exact ⟨hfull, Option.some.inj (hloads.symm.trans (hwhole hfull))⟩
  · rintro ⟨hfull, rfl⟩
    exact hwhole hfull

/-! ### Bytes -/

def IsAscii (text : List Char) : Prop := ∀ c ∈ text, c.toNat < 0x80

theorem isAscii_of_all {text : List Char} (h : (text.all fun c => decide (c.toNat < 0x80)) = true) : IsAscii text := by
  simpa [IsAscii] using h

theorem isAscii_append {text more : List Char} : IsAscii (text ++ more) ↔ IsAscii text ∧ IsAscii more :=
  List.forall_mem_append

theorem isAscii_cons {c : Char} {text : List Char} : IsAscii (c :: text) ↔ c.toNat < 0x80 ∧ IsAscii text :=
  List.forall_mem_cons

theorem isAscii_flatMap {α : Type} {as : List α} {f : α → List Char} (h : ∀ a ∈ as, IsAscii (f a)) :
    IsAscii (as.flatMap f) := by
  intro c hc
  obtain ⟨a, ha, hc⟩ := List.mem_flatMap.1 hc
  exact h a ha c hc

theorem isAscii_newline (level : Nat) : IsAscii (newline level) := by
  refine isAscii_cons.2 ⟨by decide, fun c hc => ?_⟩
  rw [List.eq_of_mem_replicate hc]
  decide

theorem hexDigit_ascii : ∀ n < 16, (hexDigit n).toNat < 0x80 := by decide

theorem isAscii_escapeUnit {n : Nat} (h : n < 0x10000) : IsAscii (escapeUnit n) := by
  simp only [escapeUnit, isAscii_cons]
  refine ⟨by decide, by decide, hexDigit_ascii _ (by omega), hexDigit_ascii _ (by omega), hexDigit_ascii _ (by omega),
    hexDigit_ascii _ (by omega), ?_⟩
  exact fun c hc => absurd hc List.not_mem_nil

theorem isAscii_escape {n : Nat} (h : n < 0x110000) : IsAscii (escape n) := by
  unfold escape
  split
  · rename_i e hfind
    have hshort : ∀ e ∈ shortEscapes, e.2.toNat < 0x80 := by decide
    refine isAscii_cons.2 ⟨by decide, fun c hc => ?_⟩
    rw [List.mem_singleton.1 hc]
    exact hshort e (List.mem_of_find?_eq_some hfind)
  · split
    · rename_i hprint
      rintro c hc
      rw [List.mem_singleton.1 hc, toNat_ofNat_ascii hprint.2]
      omega
    · split
      · exact isAscii_escapeUnit ‹_›
      · exact isAscii_append.2 ⟨isAscii_escapeUnit (by omega), isAscii_escapeUnit (by omega)⟩

theorem isAscii_quote {s : Str} (h : ∀ n ∈ s, IsScalar n) : IsAscii (quote s) := by
  refine isAscii_cons.2 ⟨by decide, isAscii_append.2 ⟨isAscii_flatMap fun n hn => isAscii_escape ?_, ?_⟩⟩
  · have hscalar := h n hn
    unfold IsScalar at hscalar
    omega
  · exact isAscii_of_all (by decide)

theorem isAscii_leaf {v : Value} (h : Textual 0 v) (level : Nat) : IsAscii (dumps level v) := by
  cases v with
  | null =>
    rw [dumps]
    exact isAscii_of_all (by decide)
  | bool b =>
    cases b with
    | false =>
      rw [dumps]
      exact isAscii_of_all (by decide)
    | true =>
      rw [dumps]
      exact isAscii_of_all (by decide)
  | str s =>
    rw [dumps]
    exact isAscii_quote h
  | num literal => exact h.elim
  | arr items => exact h.elim
  | obj members => exact h.elim

theorem isAscii_dumps {depth : Nat} {v : Value} (h : Textual depth v) (level : Nat) : IsAscii (dumps level v) := by
  induction depth generalizing level v with
  | zero => exact isAscii_leaf h level
  | succ depth ih =>
    cases v with
    | arr items =>
      cases items with
      | nil =>
        rw [dumps]
        exact isAscii_of_all (by decide)
      | cons v items =>
        obtain ⟨hv, hitems⟩ := List.forall_mem_cons.1 h
        rw [dumps, dumpsItems_eq]
        simp only [isAscii_cons, isAscii_append]
        refine ⟨by decide, ⟨⟨⟨isAscii_newline _, ih hv _⟩, isAscii_flatMap fun w hw => ?_⟩, isAscii_newline _⟩, by decide, ?_⟩
        · exact isAscii_cons.2 ⟨by decide, isAscii_append.2 ⟨isAscii_newline _, ih (hitems w hw) _⟩⟩
        · exact fun c hc => absurd hc List.not_mem_nil
    | obj members =>
      cases members with
      | nil =>
        rw [dumps]
        exact isAscii_of_all (by decide)
      | cons m members =>
        have hmember : ∀ b ∈ m :: members, IsAscii (dumpsMember (level + 1) b) := fun b hb =>
          isAscii_append.2 ⟨isAscii_quote (h b hb).1, isAscii_append.2 ⟨isAscii_of_all (by decide), ih (h b hb).2 _⟩⟩
        rw [dumps_obj]
        simp only [isAscii_cons, isAscii_append]
        refine ⟨by decide, isAscii_newline _, hmember m List.mem_cons_self, isAscii_flatMap fun b hb => ?_,
          isAscii_newline _, by decide, ?_⟩
        · exact isAscii_cons.2 ⟨by decide, isAscii_append.2 ⟨isAscii_newline _, hmember b (List.mem_cons_of_mem m hb)⟩⟩
        · exact fun c hc => absurd hc List.not_mem_nil
    | null => exact isAscii_leaf (v := .null) trivial level
    | bool b => exact isAscii_leaf (v := .bool b) trivial level
    | str s => exact isAscii_leaf (v := .str s) h level
    | num literal => exact h.elim

def encode (text : List Char) : List UInt8 := text.flatMap String.utf8EncodeChar

theorem fromUTF8?_encode (text : List Char) : String.fromUTF8? ⟨(encode text).toArray⟩ = some (String.ofList text) := by
  have hbytes : (⟨(encode text).toArray⟩ : ByteArray) = text.utf8Encode :=
    ByteArray.ext (List.data_toByteArray).symm
  have hvalid : (⟨(encode text).toArray⟩ : ByteArray).IsValidUTF8 := ⟨text, hbytes⟩
  rw [String.fromUTF8?, dif_pos hvalid]
  refine congrArg some (String.toByteArray_inj.1 ?_)
  rw [String.toByteArray_ofList]
  exact hbytes

theorem encode_ascii {text : List Char} (h : IsAscii text) : encode text = text.map fun c => UInt8.ofNat c.toNat := by
  induction text with
  | nil => rfl
  | cons c text ih =>
    obtain ⟨hc, htext⟩ := isAscii_cons.1 h
    have hchar : String.utf8EncodeChar c = [UInt8.ofNat c.toNat] := by
      unfold String.utf8EncodeChar
      exact if_pos (Nat.le_of_lt_succ hc)
    rw [encode, List.flatMap_cons, hchar]
    exact congrArg _ (ih htext)

/-- The bytes at the beginning of a text are those of its first characters. -/
theorem prefix_encode_iff {text : List Char} (h : IsAscii text) {seen : List UInt8} (hseen : seen <+: encode text) :
    ∃ begun, seen = encode begun ∧ begun <+: text ∧ ∀ whole, whole <+: text → (encode whole <+: seen ↔ whole <+: begun) := by
  have hascii : ∀ {part : List Char}, part <+: text → encode part = part.map fun c => UInt8.ofNat c.toNat :=
    fun hpart => encode_ascii fun c hc => h c (hpart.subset hc)
  have hbegun : text.take seen.length <+: text := List.take_prefix _ text
  have heq : seen = encode (text.take seen.length) := by
    rw [hascii hbegun, List.map_take, ← encode_ascii h]
    exact List.prefix_iff_eq_take.1 hseen
  refine ⟨text.take seen.length, heq, hbegun, fun whole hwhole => ⟨fun hpre => ?_, fun hpre => ?_⟩⟩
  · refine List.prefix_of_prefix_length_le hwhole hbegun ?_
    have hlen := hpre.length_le
    rw [heq, hascii hwhole, hascii hbegun, List.length_map, List.length_map] at hlen
    exact hlen
  · rw [heq, hascii hwhole, hascii hbegun]
    exact hpre.map _

end PyJson
