import TemplateAxum.HeroPage
import TemplateAxum.Validity
import TemplateAxum.Lib.Trim

/-!
# Reading the form

What `views/hero_form.rs` makes of texts: numerals are read as they are printed, powers that are joined by
`", "` are found again unless one of them holds a comma or begins or ends with whitespace, and a form is
accepted for what its fields say.
-/

namespace TemplateAxum

/-! ### Numerals -/

theorem digitsValue_toDigits (n : Nat) : digitsValue (Nat.toDigits 10 n) = some n := by
  have hdigits : (Nat.toDigits 10 n).all Char.isDigit = true :=
    List.all_eq_true.2 fun c hc => Nat.isDigit_of_mem_toDigits (by decide) (by decide) hc
  have hvalue : (Nat.toDigits 10 n).foldl (fun n c => 10 * n + (c.toNat - '0'.toNat)) 0 = n :=
    Nat.ofDigitChars_toDigits (by decide) (by decide)
  unfold digitsValue
  split
  · rename_i h
    exact absurd h Nat.toDigits_ne_nil
  · rw [if_pos hdigits, hvalue]

/-- The `i32` of a value, in range. -/
def i32 (v : Int) : Option Int32 := if Int32.minValue.toInt ≤ v ∧ v ≤ Int32.maxValue.toInt then some (Int32.ofInt v) else none

theorem i32_toInt (n : Int32) : i32 n.toInt = some n := by
  rw [i32, if_pos ⟨Int32.minValue_le_toInt n, Int32.toInt_le n⟩, Int32.ofInt_toInt]

theorem parseI32_minus (digits : List Char) : parseI32 ('-' :: digits) = (digitsValue digits).bind fun n => i32 (-(n : Int)) := by
  cases h : digitsValue digits <;> simp [parseI32, h, i32]

theorem parseI32_plus (digits : List Char) : parseI32 ('+' :: digits) = (digitsValue digits).bind fun n => i32 n := by
  cases h : digitsValue digits <;> simp [parseI32, h, i32]

theorem parseI32_digits {digits : List Char} (hsign : ∀ c ∈ digits.head?, c ≠ '-' ∧ c ≠ '+') :
    parseI32 digits = (digitsValue digits).bind fun n => i32 n := by
  unfold parseI32
  split
  · exact absurd rfl (hsign '-' rfl).1
  · exact absurd rfl (hsign '+' rfl).2
  · cases h : digitsValue digits <;> simp [i32]

/-- A numeral is read as it is printed. -/
theorem parseI32_toString (n : Int32) : parseI32 (toString n).toList = some n := by
  rw [toString_toList]
  split
  · rename_i hneg
    have habs : -((n.toInt.natAbs : Nat) : Int) = n.toInt := by omega
    rw [parseI32_minus, digitsValue_toDigits, Option.bind_some, habs, i32_toInt]
  · rename_i hpos
    have habs : ((n.toInt.natAbs : Nat) : Int) = n.toInt := by omega
    have hsign : ∀ c ∈ (Nat.toDigits 10 n.toInt.natAbs).head?, c ≠ '-' ∧ c ≠ '+' := by
      intro c hc
      have hdigit : c.isDigit = true := Nat.isDigit_of_mem_toDigits (by decide) (by decide) (List.mem_of_head? hc)
      constructor
      · rintro rfl
        cases hdigit
      · rintro rfl
        cases hdigit
    rw [parseI32_digits hsign, digitsValue_toDigits, Option.bind_some, habs, i32_toInt]

/-! ### The power level -/

theorem trim_eq (text : List Char) : trim text = Trim.trim isWhitespace text := rfl

theorem trim_toString (n : Int32) : trim (toString n).toList = (toString n).toList := by
  have hnot : ∀ c ∈ (toString n).toList, isWhitespace c = false := by
    intro c hc
    rcases isDigit_of_toString hc with rfl | hdigit
    · decide
    · have hrange : 48 ≤ c.toNat ∧ c.toNat ≤ 57 := Char.isDigit_iff_toNat.1 hdigit
      simp only [isWhitespace, Bool.or_eq_false_iff, Bool.and_eq_false_iff, decide_eq_false_iff_not, beq_eq_false_iff_ne]
      omega
  rw [trim_eq]
  exact Trim.trim_eq_self ⟨fun c hc => hnot c (List.mem_of_head? hc), fun c hc => hnot c (List.mem_of_getLast? hc)⟩

theorem toString_ne_nil (n : Int32) : (toString n).toList ≠ [] := by
  rw [toString_toList]
  split
  · exact List.cons_ne_nil _ _
  · exact Nat.toDigits_ne_nil

theorem parsePowerLevel_blank {raw : String} (h : trim raw.toList = []) : parsePowerLevel raw = .ok none := by
  simp [parsePowerLevel, h]

/-- Only a blank field has no power level. -/
theorem parsePowerLevel_eq_none_iff {raw : String} : parsePowerLevel raw = .ok none ↔ trim raw.toList = [] := by
  refine ⟨fun h => ?_, parsePowerLevel_blank⟩
  by_contra hne
  rw [parsePowerLevel, if_neg (by simpa using hne)] at h
  split at h <;> cases h

/-- The field that shows a power level is read as that power level. -/
theorem parsePowerLevel_shown (level : Option Int32) : parsePowerLevel (level.elim "" toString) = .ok level := by
  cases level with
  | none => exact parsePowerLevel_blank rfl
  | some n =>
    have hne : (trim (toString n).toList).isEmpty = false := by simpa [trim_toString] using toString_ne_nil n
    show parsePowerLevel (toString n) = _
    rw [parsePowerLevel, hne, trim_toString, parseI32_toString]
    rfl

/-! ### The powers -/

/-- A power that can be written into the field. -/
structure Separable (power : String) : Prop where
  comma : ',' ∉ power.toList
  trimmed : Trim.Trimmed isWhitespace power.toList

theorem comma_notMem_splitOn {text part : List Char} (h : part ∈ text.splitOn ',') : ',' ∉ part := by
  induction text generalizing part with
  | nil =>
    rw [List.splitOn_nil] at h
    rw [List.mem_singleton.1 h]
    exact List.not_mem_nil
  | cons c text ih =>
    rw [List.splitOn_cons_eq_if_modifyHead] at h
    split at h
    · rcases List.mem_cons.1 h with rfl | h
      · exact List.not_mem_nil
      · exact ih h
    · rename_i hc
      cases hparts : text.splitOn ',' with
      | nil => exact absurd hparts (List.splitOn_ne_nil _ _)
      | cons first rest =>
        rw [hparts, List.modifyHead_cons] at h
        rw [hparts] at ih
        rcases List.mem_cons.1 h with rfl | h
        · rw [List.mem_cons, not_or]
          exact ⟨fun heq => hc (by rw [← heq]; rfl), ih List.mem_cons_self⟩
        · exact ih (List.mem_cons_of_mem _ h)

/-- Whatever is read from the field can be written into it. -/
theorem separable_of_mem_parsePowers {raw power : String} (h : power ∈ parsePowers raw) : Separable power := by
  obtain ⟨text, htext, rfl⟩ := List.mem_map.1 h
  obtain ⟨part, hpart, rfl⟩ := List.mem_map.1 (List.mem_of_mem_filter htext)
  obtain ⟨before, after, hsplit, -, -⟩ := Trim.exists_eq isWhitespace part
  constructor
  · intro hcomma
    rw [String.toList_ofList, trim_eq] at hcomma
    refine comma_notMem_splitOn hpart ?_
    rw [hsplit]
    exact List.mem_append_right _ (List.mem_append_left _ hcomma)
  · rw [String.toList_ofList, trim_eq]
    exact Trim.trimmed_trim _ _

/-- The blank of the separator belongs to the power behind it. -/
theorem intercalate_blank (front : List Char) (rest : List (List Char)) :
    [',', ' '].intercalate (front :: rest) = [','].intercalate (front :: rest.map fun power => ' ' :: power) := by
  induction rest generalizing front with
  | nil => simp
  | cons power rest ih =>
    rw [List.map_cons, List.intercalate_cons_cons, List.intercalate_cons_cons, List.intercalate_cons_cons_left, ih]
    simp

theorem splitOn_join {power : String} {rest : List String} (hcomma : ∀ p ∈ power :: rest, ',' ∉ p.toList) :
    (", ".intercalate (power :: rest)).toList.splitOn ',' = power.toList :: rest.map fun p => ' ' :: p.toList := by
  have hjoin : (", ".intercalate (power :: rest)).toList =
      [','].intercalate (power.toList :: (rest.map String.toList).map fun p => ' ' :: p) := by
    rw [String.toList_intercalate, List.map_cons]
    exact intercalate_blank _ _
  rw [hjoin, List.map_map]
  refine List.splitOn_intercalate ',' (fun text htext => ?_) (by simp)
  rcases List.mem_cons.1 htext with rfl | htext
  · exact hcomma power List.mem_cons_self
  · obtain ⟨p, hp, rfl⟩ := List.mem_map.1 htext
    rw [Function.comp_apply, List.mem_cons, not_or]
    exact ⟨by decide, hcomma p (List.mem_cons_of_mem _ hp)⟩

/-- Powers that are joined are found again if and only if each of them can be written. -/
theorem parsePowers_join {powers : List String} (hvalid : ValidPowers powers) :
    parsePowers (", ".intercalate powers) = powers ↔ ∀ power ∈ powers, Separable power := by
  refine ⟨fun h power hpower => separable_of_mem_parsePowers (h.symm ▸ hpower), fun h => ?_⟩
  obtain ⟨power, rest, rfl⟩ := List.exists_cons_of_ne_nil hvalid.1
  have htrim : ∀ p ∈ power :: rest, trim p.toList = p.toList := fun p hp => Trim.trim_eq_self (h p hp).trimmed
  have hblank : ∀ p ∈ rest, trim (' ' :: p.toList) = p.toList := by
    intro p hp
    have hspace : ∀ c ∈ [' '], isWhitespace c = true := List.forall_mem_singleton.2 (by decide)
    have happend := Trim.trim_append hspace p.toList
    rw [trim_eq]
    exact happend.trans (htrim p (List.mem_cons_of_mem _ hp))
  have htexts : (power.toList :: rest.map fun p => ' ' :: p.toList).map trim = (power :: rest).map String.toList := by
    rw [List.map_cons, List.map_cons, htrim power List.mem_cons_self, List.map_map]
    exact congrArg _ (List.map_congr_left hblank)
  have hne : ∀ text ∈ (power :: rest).map String.toList, (!text.isEmpty) = true := by
    intro text htext
    obtain ⟨p, hp, rfl⟩ := List.mem_map.1 htext
    have := (hvalid.2 p hp).1
    cases htext : p.toList with
    | nil =>
      rw [← String.length_toList, htext] at this
      exact absurd this (by decide)
    | cons c text => rfl
  rw [parsePowers, splitOn_join fun p hp => (h p hp).comma, htexts, List.filter_eq_self.2 hne, List.map_map]
  exact (List.map_congr_left fun p _ => String.ofList_toList).trans (List.map_id _)

/-! ### Accepted fields -/

/-- The end of `into_hero_create` and `into_hero_update`. -/
theorem accept_eq_ok {α : Type} {errors : List FieldError} {a b : α} (verdict : Checked Unit)
    (hverdict : ∀ errors', verdict = .error errors' → errors' ≠ []) :
    (let fieldErrors := match verdict with | .ok () => errors | .error errors' => errors ++ errors'
      if fieldErrors.isEmpty then Except.ok a else .error fieldErrors) = .ok b ↔
      errors = [] ∧ verdict = .ok () ∧ b = a := by
  cases verdict with
  | error errors' =>
    have hne := hverdict errors' rfl
    simp [hne]
  | ok _ =>
    cases errors with
    | nil => simp [eq_comm]
    | cons err errors => simp

namespace HeroFormFields
variable {fields : HeroFormFields}

/-- What a form becomes: its name and powers, and its power level, `None` when blank. -/
theorem intoHeroUpdate_eq_ok {data : HeroUpdate} : fields.intoHeroUpdate = .ok data ↔
    ∃ level, parsePowerLevel fields.powerLevel = .ok level ∧ ValidText fields.name ∧ ValidPowers (parsePowers fields.powers) ∧
      data = ⟨some fields.name, some (parsePowers fields.powers), level⟩ := by
  rw [intoHeroUpdate, parsed]
  cases hlevel : parsePowerLevel fields.powerLevel with
  | error err =>
    refine (accept_eq_ok (HeroUpdate.validate _) fun _ => ne_nil_of_checked).trans ?_
    simp
  | ok level =>
    refine (accept_eq_ok (HeroUpdate.validate _) fun _ => ne_nil_of_checked).trans ?_
    rw [HeroUpdate.validate_eq_ok]
    constructor
    · rintro ⟨-, hvalid, rfl⟩
      exact ⟨level, rfl, hvalid.name _ rfl, hvalid.powers _ rfl, rfl⟩
    · rintro ⟨_, ⟨⟩, hname, hpowers, rfl⟩
      exact ⟨rfl, ⟨by rintro _ ⟨⟩; exact hname, by rintro _ ⟨⟩; exact hpowers⟩, rfl⟩

theorem intoHeroCreate_eq_ok {data : HeroCreate} : fields.intoHeroCreate = .ok data ↔
    ∃ level, parsePowerLevel fields.powerLevel = .ok level ∧ ValidText fields.name ∧ ValidPowers (parsePowers fields.powers) ∧
      data = ⟨fields.name, parsePowers fields.powers, level⟩ := by
  rw [intoHeroCreate, parsed]
  cases hlevel : parsePowerLevel fields.powerLevel with
  | error err =>
    refine (accept_eq_ok (HeroCreate.validate _) fun _ => ne_nil_of_checked).trans ?_
    simp
  | ok level =>
    refine (accept_eq_ok (HeroCreate.validate _) fun _ => ne_nil_of_checked).trans ?_
    rw [HeroCreate.validate_eq_ok]
    constructor
    · rintro ⟨-, hvalid, rfl⟩
      exact ⟨level, rfl, hvalid.name, hvalid.powers, rfl⟩
    · rintro ⟨_, ⟨⟩, hname, hpowers, rfl⟩
      exact ⟨rfl, ⟨hname, hpowers⟩, rfl⟩

end HeroFormFields
end TemplateAxum
