import Mathlib
import TemplateAxum.HeroForm
import TemplateAxum.Manifest
import TemplateAxum.Lib.JsNumber

/-!
# The form with and without its script

`heroes_web_components.js` reads the controls of a form itself and sends JSON to the API; without it the form is
posted as it is. The texts are read twice, by `payloadFrom` in JavaScript and by `HeroFormFields` in Rust: this is
when they come to the same payload.
-/

namespace TemplateAxum

open Serde

/-! ### `heroes_web_components.js` -/

/-- The powers of `payloadFrom`. -/
def powersFrom (raw : String) : List String :=
  (((raw.toList.splitOn ',').map Js.trim).filter fun power => !power.isEmpty).map String.ofList

/-- The power level of `payloadFrom`, as `JSON.stringify` writes it. -/
def powerLevelFrom (raw : String) : JsonValue :=
  let trimmed := Js.trim raw.toList
  if trimmed.isEmpty then .null else (Js.number trimmed).toJson

/-- `JSON.stringify(payloadFrom(form))`, for a form with all three controls. -/
def payloadFrom (form : HeroFormFields) : JsonValue :=
  .obj [("name", .str form.name), ("powers", .arr ((powersFrom form.powers).map .str)),
    ("power_level", powerLevelFrom form.powerLevel)]

/-! ### `Deserialize` of an update -/

/-- An `Option` reads `null` as nothing. -/
def Serde.optional? {α : Type} (read? : JsonValue → Option α) : JsonValue → Option (Option α)
  | .null => some none
  | v => (read? v).map some

namespace HeroUpdate

/-- The fields read so far. -/
structure Fields where
  name : Option (Option String)
  powers : Option (Option (List String))
  powerLevel : Option (Option Int32)

/-- A member with any other name is ignored. -/
def visitMember (fields : Fields) (m : String × JsonValue) : Option Fields :=
  if m.1 = "name" then (fill fields.name (optional? string? m.2)).map fun name => { fields with name }
  else if m.1 = "powers" then (fill fields.powers (optional? strings? m.2)).map fun powers => { fields with powers }
  else if m.1 = "power_level" then (fill fields.powerLevel (level? m.2)).map fun powerLevel => { fields with powerLevel }
  else some fields

/-- A field that is not there is left as it is. -/
def visitMap (members : List (String × JsonValue)) : Option HeroUpdate :=
  (members.foldlM visitMember ⟨none, none, none⟩).map fun fields =>
    ⟨fields.name.getD none, fields.powers.getD none, fields.powerLevel.getD none⟩

/-- As a sequence, the last fields may be missing. -/
def visitSeq : List JsonValue → Option HeroUpdate
  | [] => some ⟨none, none, none⟩
  | [name] => do pure ⟨← optional? string? name, none, none⟩
  | [name, powers] => do pure ⟨← optional? string? name, ← optional? strings? powers, none⟩
  | [name, powers, level] => do pure ⟨← optional? string? name, ← optional? strings? powers, ← level? level⟩
  | _ => none

def deserialize : JsonValue → Option HeroUpdate
  | .obj members => visitMap members
  | .arr items => visitSeq items
  | _ => none

end HeroUpdate

/-- What `POST` accepts of a body: decoded, then validated. -/
def HeroCreate.accept (v : JsonValue) : Option HeroCreate :=
  (HeroCreate.deserialize v).bind fun payload => payload.validate.toOption.map fun _ => payload

/-- What `PATCH` accepts of a body. -/
def HeroUpdate.accept (v : JsonValue) : Option HeroUpdate :=
  (HeroUpdate.deserialize v).bind fun payload => payload.validate.toOption.map fun _ => payload

/-! ### Trimming twice -/

/-- A text without characters that one of the two removes is trimmed for it. -/
theorem trimmed_of_not {p : Char → Bool} {text : List Char} (h : ∀ c ∈ text, p c = false) : Trim.Trimmed p text where
  head c hc := h c (List.mem_of_head? hc)
  last c hc := h c (List.mem_of_getLast? hc)

theorem not_whitespace_of_visible {c : Char} (h : Js.IsVisible c) : isWhitespace c = false ∧ Js.isWhiteSpace c = false := by
  unfold Js.IsVisible at h
  constructor
  · simp only [isWhitespace, Bool.or_eq_false_iff, Bool.and_eq_false_iff, decide_eq_false_iff_not, beq_eq_false_iff_ne]
    omega
  · simp only [Js.isWhiteSpace, Bool.or_eq_false_iff, Bool.and_eq_false_iff, decide_eq_false_iff_not, beq_eq_false_iff_ne]
    omega

/-! ### The powers -/

/-- The two lists are the same just when every part is trimmed to the same text. -/
theorem parsePowers_eq_iff {raw : String} :
    parsePowers raw = powersFrom raw ↔ ∀ part ∈ raw.toList.splitOn ',', trim part = Js.trim part := by
  have hinj : Function.Injective (List.map String.ofList) := List.map_injective_iff.2 fun _ _ => String.ofList_injective
  exact hinj.eq_iff.trans Trim.kept_eq_iff

/-! ### The power level -/

theorem digit?_of_isDigit {c : Char} (h : c.isDigit = true) : Js.digit? 10 c = some (c.toNat - '0'.toNat) := by
  have hrange : 48 ≤ c.toNat ∧ c.toNat ≤ 57 := Char.isDigit_iff_toNat.1 h
  have hlt : decide (c.toNat - 48 < 10) = true := decide_eq_true (by omega)
  simp only [Js.digit?, hrange, and_self, if_true]
  rw [Option.filter_some, if_pos hlt]
  rfl

theorem digits?_of_digitsValue {text : List Char} {n : Nat} (h : digitsValue text = some n) : Js.digits? 10 text = some n := by
  unfold digitsValue at h
  split at h
  · cases h
  · rename_i hne
    split at h
    · rename_i hall
      have hdigit : ∀ c ∈ text, Js.digit? 10 c = some (c.toNat - '0'.toNat) := fun c hc =>
        digit?_of_isDigit (List.all_eq_true.1 hall c hc)
      have hjs : text.all (Js.isDigit 10) = true :=
        List.all_eq_true.2 fun c hc => by rw [Js.isDigit, hdigit c hc]; rfl
      have hvalue : Js.value 10 text = n := by
        rw [Js.value, ← Option.some.inj h]
        exact List.foldl_ext _ _ _ fun k c hc => by rw [hdigit c hc]; rfl
      rw [Js.digits?, if_pos ⟨hne, hjs⟩, hvalue]
    · cases h

theorem i32_eq_some {v : Int} {n : Int32} : i32 v = some n ↔ v = n.toInt := by
  constructor
  · intro h
    unfold i32 at h
    split at h
    · rename_i hrange
      rw [← Option.some.inj h, Int32.toInt_ofInt_of_le hrange.1 (Int.lt_add_one_of_le hrange.2)]
    · cases h
  · rintro rfl
    exact i32_toInt n

theorem natAbs_toInt_lt (n : Int32) : n.toInt.natAbs < 2 ^ 53 := by
  have hlow := Int32.minValue_le_toInt n
  have hhigh := Int32.toInt_le n
  have hmin : Int32.minValue.toInt = -2147483648 := rfl
  have hmax : Int32.maxValue.toInt = 2147483647 := rfl
  omega

/-- The text of an integer of 32 bits is that number in JavaScript too. -/
theorem literal_of_parseI32 {text : List Char} {n : Int32} (h : parseI32 text = some n) :
    Js.literal text = .finite n.toInt := by
  have hpos : ∀ {k : Nat}, i32 k = some n → Js.ofRat k = .finite n.toInt := by
    intro k hk
    have hint := i32_eq_some.1 hk
    have hlt := natAbs_toInt_lt n
    rw [Js.ofRat_natCast (by omega), ← hint, Int.cast_natCast]
  by_cases hminus : ∃ digits, text = '-' :: digits
  · obtain ⟨digits, rfl⟩ := hminus
    rw [parseI32_minus] at h
    obtain ⟨k, hk, hn⟩ := Option.bind_eq_some_iff.1 h
    have hint := i32_eq_some.1 hn
    have hlt := natAbs_toInt_lt n
    rw [Js.literal_minus (digits?_of_digitsValue hk), Js.ofRat_natCast (by omega), ← hint]
    push_cast
    rfl
  by_cases hplus : ∃ digits, text = '+' :: digits
  · obtain ⟨digits, rfl⟩ := hplus
    rw [parseI32_plus] at h
    obtain ⟨k, hk, hn⟩ := Option.bind_eq_some_iff.1 h
    rw [Js.literal_plus (digits?_of_digitsValue hk)]
    exact hpos hn
  · have hsign : ∀ c ∈ text.head?, c ≠ '-' ∧ c ≠ '+' := by
      intro c hc
      obtain ⟨rest, hrest⟩ := List.head?_eq_some_iff.1 hc
      exact ⟨fun heq => hminus ⟨rest, heq ▸ hrest⟩, fun heq => hplus ⟨rest, heq ▸ hrest⟩⟩
    rw [parseI32_digits hsign] at h
    obtain ⟨k, hk, hn⟩ := Option.bind_eq_some_iff.1 h
    rw [Js.literal_of_digits? (digits?_of_digitsValue hk)]
    exact hpos hn

theorem int32?_int {z : ℤ} {n : Int32} : int32? (.int (z < 0) z.natAbs) = some n ↔ z = n.toInt := by
  have hvalue : (if decide (z < 0) = true then -(z.natAbs : Int) else (z.natAbs : Int)) = z := by
    split
    · rename_i hneg
      have := of_decide_eq_true hneg
      omega
    · rename_i hpos
      have : ¬ z < 0 := fun h => hpos (decide_eq_true h)
      omega
  have hzero : ¬ (decide (z < 0) = true ∧ z.natAbs = 0) := by
    rintro ⟨hneg, habs⟩
    have := of_decide_eq_true hneg
    omega
  have hlow := Int32.minValue_le_toInt n
  have hhigh := Int32.toInt_le n
  have hmin : Int32.minValue.toInt = -2 ^ 31 := rfl
  have hmax : Int32.maxValue.toInt = 2 ^ 31 - 1 := rfl
  simp only [int32?, hvalue, if_neg hzero]
  constructor
  · intro h
    split at h
    · rename_i hrange
      rw [← Option.some.inj h, Int32.toInt_ofInt_of_le hrange.1 (by omega)]
    · cases h
  · rintro rfl
    rw [if_pos ⟨by omega, by omega⟩, Int32.ofInt_toInt]

/-- An integer is written so that it is read. -/
theorem int32?_jsonNumber {x : ℚ} {n : Int32} : int32? (Js.jsonNumber x) = some n ↔ x = n.toInt := by
  by_cases h : x.den = 1 ∧ |x| < 10 ^ 21
  · have hx : x = x.num := (Rat.den_eq_one_iff x).1 h.1 |>.symm
    have hnum : |x.num| < 10 ^ 21 := by
      have := h.2
      rw [hx] at this
      exact_mod_cast this
    rw [hx, Js.jsonNumber_intCast hnum, int32?_int]
    norm_cast
  · rw [Js.jsonNumber, if_neg h]
    refine iff_of_false (by simp [int32?]) ?_
    rintro rfl
    refine h ⟨Rat.den_intCast _, ?_⟩
    have hlt := natAbs_toInt_lt n
    have hnum : |n.toInt| < 10 ^ 21 := abs_lt.2 ⟨by omega, by omega⟩
    exact_mod_cast hnum

/-! ### The two readings of a level -/

theorem number_trim (text : List Char) : Js.number (Js.trim text) = Js.number text := by
  unfold Js.number Js.trim
  rw [Trim.trim_trim]

/-- A number that is no integer of 32 bits. -/
def NoI32 (raw : String) : Prop := ∃ x, Js.number raw.toList = .finite x ∧ ∀ n : Int32, x ≠ n.toInt

theorem level?_number {raw : String} {number : Js.Number} (hne : Js.trim raw.toList ≠ [])
    (h : Js.number raw.toList = number) : level? (powerLevelFrom raw) = level? number.toJson := by
  rw [powerLevelFrom, if_neg (by simpa using hne), number_trim, h]

theorem level?_blank {raw : String} (h : Js.trim raw.toList = []) : level? (powerLevelFrom raw) = some none := by
  rw [powerLevelFrom, if_pos (by simpa using h)]
  rfl

theorem number_blank {raw : String} (h : Js.trim raw.toList = []) : Js.number raw.toList = .finite 0 := by
  rw [Js.number, h]
  rfl

theorem level?_finite {x : ℚ} : level? (Js.Number.finite x).toJson = (int32? (Js.jsonNumber x)).map some := rfl

/-- The API refuses a level for one reason. -/
theorem level?_eq_none_iff {raw : String} : level? (powerLevelFrom raw) = none ↔ NoI32 raw := by
  by_cases hne : Js.trim raw.toList = []
  · rw [level?_blank hne]
    refine iff_of_false nofun ?_
    rintro ⟨x, hx, hno⟩
    rw [number_blank hne] at hx
    cases hx
    exact hno 0 (by rw [Int32.toInt_zero, Int.cast_zero])
  · cases hnumber : Js.number raw.toList with
    | finite x =>
      rw [level?_number hne hnumber, level?_finite, Option.map_eq_none_iff, Option.eq_none_iff_forall_ne_some]
      simp only [ne_eq, int32?_jsonNumber, NoI32, hnumber, Js.Number.finite.injEq, exists_eq_left']
    | nan =>
      rw [level?_number hne hnumber]
      exact iff_of_false nofun (by simp [NoI32, hnumber])
    | infinite negative =>
      rw [level?_number hne hnumber]
      exact iff_of_false nofun (by simp [NoI32, hnumber])

theorem level?_eq_some_iff {raw : String} {n : Int32} :
    level? (powerLevelFrom raw) = some (some n) ↔ Js.trim raw.toList ≠ [] ∧ Js.number raw.toList = .finite n.toInt := by
  by_cases hne : Js.trim raw.toList = []
  · rw [level?_blank hne]
    exact iff_of_false nofun fun h => h.1 hne
  · refine Iff.trans ?_ (and_iff_right hne).symm
    cases hnumber : Js.number raw.toList with
    | finite x =>
      rw [level?_number hne hnumber, level?_finite]
      simp only [Option.map_eq_some_iff, Option.some.injEq, exists_eq_right, int32?_jsonNumber, Js.Number.finite.injEq]
    | nan =>
      rw [level?_number hne hnumber]
      exact iff_of_false nofun nofun
    | infinite negative =>
      rw [level?_number hne hnumber]
      exact iff_of_false nofun nofun

theorem trimmed_of_literal {text : List Char} (h : Js.literal text ≠ .nan) :
    Trim.Trimmed isWhitespace text ∧ Trim.Trimmed Js.isWhiteSpace text :=
  ⟨trimmed_of_not fun c hc => (not_whitespace_of_visible (Js.visible_of_literal h c hc)).1,
    trimmed_of_not fun c hc => (not_whitespace_of_visible (Js.visible_of_literal h c hc)).2⟩

/-- Whatever else is blank for Rust is not a number. -/
theorem level?_of_blank {raw : String} (h : trim raw.toList = []) : level? (powerLevelFrom raw) = some none := by
  by_cases hne : Js.trim raw.toList = []
  · exact level?_blank hne
  · have hnan : Js.number raw.toList = .nan := by
      by_contra hnot
      obtain ⟨c, hc⟩ := List.exists_mem_of_ne_nil _ hne
      have hblank := Trim.trim_eq_nil_iff.1 h c (Trim.mem_of_mem_trim hc)
      rw [(not_whitespace_of_visible (Js.visible_of_literal hnot c hc)).1] at hblank
      cases hblank
    rw [level?_number hne hnan]
    rfl

/-- When the two readings of a level agree: on a blank text, on an integer of 32 bits with nothing around it that only
one of the languages takes for white space, and on a number that is none. -/
def SameLevel (raw : String) : Prop :=
  trim raw.toList = [] ∨
  ((parseI32 (trim raw.toList)).isSome ∧ trim raw.toList = Js.trim raw.toList) ∨
  (trim raw.toList ≠ [] ∧ parseI32 (trim raw.toList) = none ∧ NoI32 raw)

theorem level_eq_iff {raw : String} : (parsePowerLevel raw).toOption = level? (powerLevelFrom raw) ↔ SameLevel raw := by
  unfold SameLevel
  by_cases hblank : trim raw.toList = []
  · rw [parsePowerLevel_blank hblank, level?_of_blank hblank]
    exact iff_of_true rfl (.inl hblank)
  have hempty : (trim raw.toList).isEmpty = false := by simpa using hblank
  cases hparse : parseI32 (trim raw.toList) with
  | none =>
    have hplain : (parsePowerLevel raw).toOption = none := by
      rw [parsePowerLevel, hempty, hparse]
      rfl
    rw [hplain, eq_comm, level?_eq_none_iff]
    simp [hblank]
  | some n =>
    have hplain : (parsePowerLevel raw).toOption = some (some n) := by
      rw [parsePowerLevel, hempty, hparse]
      rfl
    have hliteral := literal_of_parseI32 hparse
    rw [hplain, eq_comm, level?_eq_some_iff]
    constructor
    · rintro ⟨-, hnumber⟩
      have hjs : Js.literal (Js.trim raw.toList) = .finite n.toInt := hnumber
      refine .inr (.inl ⟨rfl, Trim.trim_eq_trim (trimmed_of_literal ?_).2 (trimmed_of_literal ?_).1⟩)
      · exact hliteral.trans_ne (by simp)
      · exact hjs.trans_ne (by simp)
    · rintro (h | ⟨-, h⟩ | ⟨-, h, -⟩)
      · exact absurd h hblank
      · have hnumber : Js.number raw.toList = Js.literal (Js.trim raw.toList) := rfl
        rw [hnumber, ← h]
        exact ⟨hblank, hliteral⟩
      · cases h

/-! ### The two paths -/

/-- The powers are none, or one of them is too long. -/
def Unfit (trim : List Char → List Char) (raw : String) : Prop :=
  (∀ part ∈ raw.toList.splitOn ',', trim part = []) ∨ ∃ part ∈ raw.toList.splitOn ',', maxLen < (trim part).length

theorem not_validPowers_iff (p : Char → Bool) {raw : String} :
    ¬ ValidPowers ((Trim.kept p (raw.toList.splitOn ',')).map String.ofList) ↔ Unfit (Trim.trim p) raw := by
  have hempty : (Trim.kept p (raw.toList.splitOn ',')).map String.ofList = [] ↔
      ∀ part ∈ raw.toList.splitOn ',', Trim.trim p part = [] := by
    simp [Trim.kept, List.filter_eq_nil_iff]
  have hvalid : (∀ power ∈ (Trim.kept p (raw.toList.splitOn ',')).map String.ofList, ValidText power) ↔
      ∀ part ∈ raw.toList.splitOn ',', (Trim.trim p part).length ≤ maxLen := by
    simp only [Trim.kept, List.forall_mem_map, List.mem_filter, ValidText, String.length_ofList]
    constructor
    · intro h part hpart
      by_cases hne : Trim.trim p part = []
      · rw [hne]
        exact Nat.zero_le _
      · exact (h _ ⟨List.mem_map_of_mem hpart, by simpa using hne⟩).2
    · rintro h text ⟨htext, hne⟩
      obtain ⟨part, hpart, rfl⟩ := List.mem_map.1 htext
      exact ⟨List.length_pos_iff.2 (by simpa using hne), h part hpart⟩
  rw [ValidPowers, ne_eq, hempty, hvalid, Unfit, not_and_or, not_not]
  push Not
  rfl

instance (value : String) : Decidable (ValidText value) := inferInstanceAs (Decidable (_ ∧ _))

instance (powers : List String) : Decidable (ValidPowers powers) := inferInstanceAs (Decidable (_ ∧ _))

/-- What is accepted of a name, powers and a level. -/
def accepted (name : String) (powers : List String) (level : Option (Option Int32)) : Option (List String × Option Int32) :=
  if ValidText name ∧ ValidPowers powers then level.map fun level => (powers, level) else none

theorem accepted_eq_some {name : String} {powers : List String} {level : Option (Option Int32)}
    {payload : List String × Option Int32} : accepted name powers level = some payload ↔
      ValidText name ∧ ValidPowers powers ∧ level = some payload.2 ∧ payload.1 = powers := by
  unfold accepted
  split
  · rename_i h
    simp [h, Prod.ext_iff, eq_comm, and_comm]
  · rename_i h
    simp only [reduceCtorEq, false_iff]
    exact fun h' => h ⟨h'.1, h'.2.1⟩

theorem toOption_eq_some {ε α : Type} {e : Except ε α} {a : α} : e.toOption = some a ↔ e = .ok a := by
  cases e <;> simp [Except.toOption]

/-- The payload of a form that is posted as it is. -/
theorem toOption_intoHeroCreate (form : HeroFormFields) : form.intoHeroCreate.toOption =
    (accepted form.name (parsePowers form.powers) (parsePowerLevel form.powerLevel).toOption).map fun payload =>
      ⟨form.name, payload.1, payload.2⟩ := by
  refine Option.ext fun data => ?_
  rw [toOption_eq_some, HeroFormFields.intoHeroCreate_eq_ok]
  simp only [Option.map_eq_some_iff, accepted_eq_some, toOption_eq_some]
  constructor
  · rintro ⟨level, hlevel, hname, hpowers, rfl⟩
    exact ⟨(_, level), ⟨hname, hpowers, hlevel, rfl⟩, rfl⟩
  · rintro ⟨⟨_, level⟩, ⟨hname, hpowers, hlevel, rfl⟩, rfl⟩
    exact ⟨level, hlevel, hname, hpowers, rfl⟩

theorem toOption_intoHeroUpdate (form : HeroFormFields) : form.intoHeroUpdate.toOption =
    (accepted form.name (parsePowers form.powers) (parsePowerLevel form.powerLevel).toOption).map fun payload =>
      ⟨some form.name, some payload.1, payload.2⟩ := by
  refine Option.ext fun data => ?_
  rw [toOption_eq_some, HeroFormFields.intoHeroUpdate_eq_ok]
  simp only [Option.map_eq_some_iff, accepted_eq_some, toOption_eq_some]
  constructor
  · rintro ⟨level, hlevel, hname, hpowers, rfl⟩
    exact ⟨(_, level), ⟨hname, hpowers, hlevel, rfl⟩, rfl⟩
  · rintro ⟨⟨_, level⟩, ⟨hname, hpowers, hlevel, rfl⟩, rfl⟩
    exact ⟨level, hlevel, hname, hpowers, rfl⟩

theorem strings?_map_str (strings : List String) : strings? (.arr (strings.map .str)) = some strings := by
  rw [strings?, List.mapM_map]
  induction strings with
  | nil => rfl
  | cons s strings ih =>
    rw [List.mapM_cons, ih]
    rfl

theorem deserialize_create (form : HeroFormFields) : HeroCreate.deserialize (payloadFrom form) =
    (level? (powerLevelFrom form.powerLevel)).map fun level => ⟨form.name, powersFrom form.powers, level⟩ := by
  have hpowers := strings?_map_str (powersFrom form.powers)
  cases hlevel : level? (powerLevelFrom form.powerLevel) <;>
    simp [payloadFrom, HeroCreate.deserialize, deserializeStruct, visitMap, visitMember, fill, string?, hpowers, hlevel]

theorem deserialize_update (form : HeroFormFields) : HeroUpdate.deserialize (payloadFrom form) =
    (level? (powerLevelFrom form.powerLevel)).map fun level => ⟨some form.name, some (powersFrom form.powers), level⟩ := by
  have hpowers := strings?_map_str (powersFrom form.powers)
  cases hlevel : level? (powerLevelFrom form.powerLevel) <;>
    simp [payloadFrom, HeroUpdate.deserialize, HeroUpdate.visitMap, HeroUpdate.visitMember, fill, optional?, string?, hpowers,
      hlevel]

/-- The payload of a form that is sent as JSON. -/
theorem accept_create (form : HeroFormFields) : HeroCreate.accept (payloadFrom form) =
    (accepted form.name (powersFrom form.powers) (level? (powerLevelFrom form.powerLevel))).map fun payload =>
      ⟨form.name, payload.1, payload.2⟩ := by
  refine Option.ext fun data => ?_
  simp only [HeroCreate.accept, deserialize_create, Option.bind_eq_some_iff, Option.map_eq_some_iff, accepted_eq_some,
    toOption_eq_some]
  constructor
  · rintro ⟨_, ⟨level, hlevel, rfl⟩, _, hok, rfl⟩
    have hvalid := HeroCreate.validate_eq_ok.1 hok
    exact ⟨(_, level), ⟨hvalid.name, hvalid.powers, hlevel, rfl⟩, rfl⟩
  · rintro ⟨⟨_, level⟩, ⟨hname, hpowers, hlevel, rfl⟩, rfl⟩
    exact ⟨_, ⟨level, hlevel, rfl⟩, (), HeroCreate.validate_eq_ok.2 ⟨hname, hpowers⟩, rfl⟩

theorem accept_update (form : HeroFormFields) : HeroUpdate.accept (payloadFrom form) =
    (accepted form.name (powersFrom form.powers) (level? (powerLevelFrom form.powerLevel))).map fun payload =>
      ⟨some form.name, some payload.1, payload.2⟩ := by
  refine Option.ext fun data => ?_
  simp only [HeroUpdate.accept, deserialize_update, Option.bind_eq_some_iff, Option.map_eq_some_iff, accepted_eq_some,
    toOption_eq_some]
  constructor
  · rintro ⟨_, ⟨level, hlevel, rfl⟩, _, hok, rfl⟩
    have hvalid := HeroUpdate.validate_eq_ok.1 hok
    exact ⟨(_, level), ⟨hvalid.name _ rfl, hvalid.powers _ rfl, hlevel, rfl⟩, rfl⟩
  · rintro ⟨⟨_, level⟩, ⟨hname, hpowers, hlevel, rfl⟩, rfl⟩
    have hvalid : HeroUpdate.Valid ⟨some form.name, some (powersFrom form.powers), level⟩ :=
      ⟨by rintro _ ⟨⟩; exact hname, by rintro _ ⟨⟩; exact hpowers⟩
    exact ⟨_, ⟨level, hlevel, rfl⟩, (), HeroUpdate.validate_eq_ok.2 hvalid, rfl⟩

theorem accepted_eq_none {name : String} {powers : List String} {level : Option (Option Int32)} (hname : ValidText name) :
    accepted name powers level = none ↔ ¬ ValidPowers powers ∨ level = none := by
  unfold accepted
  split
  · rename_i h
    simp [h.2]
  · rename_i h
    exact iff_of_true rfl (.inl fun hpowers => h ⟨hname, hpowers⟩)

/-- Two readings of powers and level come to the same: both are refused, or they are the same. -/
theorem accepted_eq_iff {name : String} {powers powers' : List String} {level level' : Option (Option Int32)} :
    accepted name powers level = accepted name powers' level' ↔
      ¬ ValidText name ∨ (powers = powers' ∧ level = level') ∨
        ((¬ ValidPowers powers ∨ level = none) ∧ (¬ ValidPowers powers' ∨ level' = none)) := by
  by_cases hname : ValidText name
  · rw [← accepted_eq_none hname, ← accepted_eq_none hname]
    constructor
    · intro h
      cases hpayload : accepted name powers level with
      | none => exact .inr (.inr ⟨rfl, h ▸ hpayload⟩)
      | some payload =>
        have hfirst := accepted_eq_some.1 hpayload
        have hsecond := accepted_eq_some.1 (h ▸ hpayload)
        exact .inr (.inl ⟨hfirst.2.2.2.symm.trans hsecond.2.2.2, hfirst.2.2.1.trans hsecond.2.2.1.symm⟩)
    · rintro (h | ⟨rfl, rfl⟩ | ⟨h, h'⟩)
      · exact absurd hname h
      · rfl
      · rw [h, h']
  · refine iff_of_true ?_ (.inl hname)
    rw [accepted, accepted, if_neg fun h => hname h.1, if_neg fun h => hname h.1]

namespace HeroFormFields

/-- When a form comes to the same with and without the script. -/
def Alike (form : HeroFormFields) : Prop :=
  ¬ ValidText form.name ∨
  ((∀ part ∈ form.powers.toList.splitOn ',', trim part = Js.trim part) ∧ SameLevel form.powerLevel) ∨
  ((Unfit Js.trim form.powers ∨ NoI32 form.powerLevel) ∧
    (Unfit trim form.powers ∨ trim form.powerLevel.toList ≠ [] ∧ parseI32 (trim form.powerLevel.toList) = none))

theorem toOption_parsePowerLevel_eq_none {raw : String} :
    (parsePowerLevel raw).toOption = none ↔ trim raw.toList ≠ [] ∧ parseI32 (trim raw.toList) = none := by
  by_cases hblank : trim raw.toList = []
  · rw [parsePowerLevel_blank hblank]
    exact iff_of_false nofun fun h => h.1 hblank
  · have hempty : (trim raw.toList).isEmpty = false := by simpa using hblank
    rw [parsePowerLevel, hempty]
    cases parseI32 (trim raw.toList) <;> simp [Except.toOption, hblank]

theorem accepted_eq_iff_alike {form : HeroFormFields} :
    accepted form.name (powersFrom form.powers) (level? (powerLevelFrom form.powerLevel)) =
      accepted form.name (parsePowers form.powers) (parsePowerLevel form.powerLevel).toOption ↔ form.Alike := by
  have hjs := @not_validPowers_iff Js.isWhiteSpace form.powers
  have hrust := @not_validPowers_iff isWhitespace form.powers
  rw [accepted_eq_iff, eq_comm, parsePowers_eq_iff, @eq_comm _ (level? _), level_eq_iff, level?_eq_none_iff,
    toOption_parsePowerLevel_eq_none]
  exact or_congr_right (or_congr_right (and_congr (or_congr_left hjs) (or_congr_left hrust)))

/-- The create form and the row form, with and without the script: the two accepted payloads, or refusals, are the same
exactly when the texts are read alike. -/
theorem enhanced_eq_plain_iff {form : HeroFormFields} :
    (HeroCreate.accept (payloadFrom form) = form.intoHeroCreate.toOption ↔ form.Alike) ∧
    (HeroUpdate.accept (payloadFrom form) = form.intoHeroUpdate.toOption ↔ form.Alike) := by
  rw [accept_create, accept_update, toOption_intoHeroCreate, toOption_intoHeroUpdate]
  constructor
  · refine Iff.trans (Option.map_injective ?_).eq_iff accepted_eq_iff_alike
    rintro ⟨powers, level⟩ ⟨powers', level'⟩ h
    cases h
    rfl
  · refine Iff.trans (Option.map_injective ?_).eq_iff accepted_eq_iff_alike
    rintro ⟨powers, level⟩ ⟨powers', level'⟩ h
    cases h
    rfl

end HeroFormFields
end TemplateAxum
