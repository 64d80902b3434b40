import Mathlib
import TemplateAxum.Lib.JsonSchema
import TemplateAxum.Lib.Trim

/-!
# Numbers of JavaScript

What `Number` makes of a text and what `JSON.stringify` writes for it: the literal's exact value is rounded to the
nearest binary64, and what is not finite is written as `null`.
-/

namespace Js

/-- `WhiteSpace` and `LineTerminator`, which `trim` removes. -/
def isWhiteSpace (c : Char) : Bool :=
  let n := c.toNat
  (9 ≤ n && n ≤ 13) || n == 0x20 || n == 0xA0 || n == 0x1680 || (0x2000 ≤ n && n ≤ 0x200A) || n == 0x2028 ||
    n == 0x2029 || n == 0x202F || n == 0x205F || n == 0x3000 || n == 0xFEFF

def trim (text : List Char) : List Char := Trim.trim isWhiteSpace text

/-! ### Rounding -/

/-- The nearest integer, of two the even one. -/
def roundEven (x : ℚ) : ℤ := if (round x : ℚ) - x = 1 / 2 ∧ round x % 2 = 1 then round x - 1 else round x

/-- The distance of the binary64 around `x`. -/
def ulp (x : ℚ) : ℚ := 2 ^ max (Int.log 2 |x| - 52) (-1074)

/-- The nearest binary64, none where that is an infinity. -/
def roundDouble (x : ℚ) : Option ℚ :=
  let y := roundEven (x / ulp x) * ulp x
  if |y| < 2 ^ 1024 then some y else none

theorem roundEven_intCast (n : ℤ) : roundEven n = n := by
  rw [roundEven, round_intCast, sub_self, if_neg (by norm_num)]

/-- An integer of at most 53 bits is a binary64. -/
theorem roundDouble_intCast {n : ℤ} (h : |n| < 2 ^ 53) : roundDouble n = some (n : ℚ) := by
  have hint : ∃ k : ℤ, (n : ℚ) / ulp n = k := by
    obtain rfl | hn := eq_or_ne n 0
    · exact ⟨0, by simp⟩
    · have hlog : Int.log 2 |(n : ℚ)| < 53 :=
        (Int.lt_zpow_iff_log_lt (by norm_num) (by positivity)).1 (by exact_mod_cast h)
      obtain ⟨k, hk⟩ : ∃ k : ℕ, max (Int.log 2 |(n : ℚ)| - 52) (-1074) = -(k : ℤ) :=
        ⟨(max (Int.log 2 |(n : ℚ)| - 52) (-1074)).natAbs, by omega⟩
      refine ⟨n * 2 ^ k, ?_⟩
      rw [ulp, hk, zpow_neg, div_inv_eq_mul, zpow_natCast]
      push_cast
      rfl
  obtain ⟨k, hk⟩ := hint
  have hpos : ulp n ≠ 0 := by
    unfold ulp
    positivity
  have hself : (k : ℚ) * ulp n = n := by rw [← hk, div_mul_cancel₀ _ hpos]
  have hlt : |(n : ℚ)| < 2 ^ 1024 := by
    have hlt53 : |(n : ℚ)| < 2 ^ 53 := by exact_mod_cast h
    exact hlt53.trans (pow_lt_pow_right₀ (by norm_num) (by norm_num))
  simp only [roundDouble, hk, roundEven_intCast, hself]
  rw [if_pos hlt]

/-! ### `Number` -/

/-- A number, but for the sign of a zero, which `JSON.stringify` does not write. -/
inductive Number
  | nan
  | infinite (negative : Bool)
  | finite (value : ℚ)
deriving DecidableEq

def Number.neg : Number → Number
  | nan => nan
  | infinite negative => infinite !negative
  | finite value => finite (-value)

def ofRat (x : ℚ) : Number :=
  match roundDouble x with
  | some y => .finite y
  | none => .infinite (x < 0)

def digit? (base : ℕ) (c : Char) : Option ℕ :=
  let n := c.toNat
  let value := if 48 ≤ n ∧ n ≤ 57 then some (n - 48)
    else if 97 ≤ n ∧ n ≤ 102 then some (n - 87)
    else if 65 ≤ n ∧ n ≤ 70 then some (n - 55)
    else none
  value.filter (· < base)

def isDigit (base : ℕ) (c : Char) : Bool := (digit? base c).isSome

def value (base : ℕ) (digits : List Char) : ℕ := digits.foldl (fun n c => base * n + (digit? base c).getD 0) 0

/-- `DecimalDigits` and its like in other bases: at least one digit. -/
def digits? (base : ℕ) (text : List Char) : Option ℕ :=
  if text ≠ [] ∧ text.all (isDigit base) then some (value base text) else none

/-- `SignedInteger` -/
def signed? : List Char → Option ℤ
  | '+' :: text => (digits? 10 text).map Int.ofNat
  | '-' :: text => (digits? 10 text).map fun n : ℕ => -(n : ℤ)
  | text => (digits? 10 text).map Int.ofNat

/-- Cut at the first character that `p` holds of, which is left out. -/
def cut (p : Char → Bool) (text : List Char) : List Char × Option (List Char) :=
  match text.dropWhile fun c => !p c with
  | [] => (text, none)
  | _ :: rest => (text.takeWhile fun c => !p c, some rest)

def exponent? : Option (List Char) → Option ℤ
  | none => some 0
  | some text => signed? text

/-- `StrUnsignedDecimalLiteral` but for `Infinity`: digits before or behind the point, and an exponent. -/
def decimal? (text : List Char) : Option ℚ :=
  let (mantissa, exponent) := cut (fun c => c = 'e' ∨ c = 'E') text
  let (whole, fraction) := cut (· = '.') mantissa
  let fraction := fraction.getD []
  match digits? 10 (whole ++ fraction), exponent? exponent with
  | some digits, some exponent => some (digits * 10 ^ (exponent - fraction.length))
  | _, _ => none

def unsigned (text : List Char) : Number :=
  if text = "Infinity".toList then .infinite false else ((decimal? text).map ofRat).getD .nan

/-- The prefix of a `NonDecimalIntegerLiteral`. -/
def radix? : List Char → Option (ℕ × List Char)
  | '0' :: 'x' :: digits | '0' :: 'X' :: digits => some (16, digits)
  | '0' :: 'o' :: digits | '0' :: 'O' :: digits => some (8, digits)
  | '0' :: 'b' :: digits | '0' :: 'B' :: digits => some (2, digits)
  | _ => none

/-- `StringNumericLiteral` -/
def literal (text : List Char) : Number :=
  match text with
  | [] => .finite 0
  | '+' :: rest => unsigned rest
  | '-' :: rest => (unsigned rest).neg
  | _ =>
    match radix? text with
    | some (base, digits) => ((digits? base digits).map fun n : ℕ => ofRat n).getD .nan
    | none => unsigned text

/-- `Number` of a string. -/
def number (text : List Char) : Number := literal (trim text)

/-! ### What a numeral is made of -/

/-- The characters of numerals are visible ASCII characters. -/
abbrev IsVisible (c : Char) : Prop := 0x21 ≤ c.toNat ∧ c.toNat ≤ 0x7E

theorem isVisible_of_digit {base : ℕ} {c : Char} (h : isDigit base c = true) : IsVisible c := by
  simp only [isDigit, digit?, Option.isSome_filter, Option.any_eq_true] at h
  obtain ⟨n, hn, -⟩ := h
  unfold IsVisible
  split at hn
  · omega
  · split at hn
    · omega
    · split at hn
      · omega
      · cases hn

theorem visible_of_digits? {base n : ℕ} {text : List Char} (h : digits? base text = some n) : ∀ c ∈ text, IsVisible c := by
  unfold digits? at h
  split at h
  · rename_i hdigits
    exact fun c hc => isVisible_of_digit (List.all_eq_true.1 hdigits.2 c hc)
  · cases h

theorem visible_cons {c : Char} {text : List Char} (hc : IsVisible c) (h : ∀ d ∈ text, IsVisible d) :
    ∀ d ∈ c :: text, IsVisible d := List.forall_mem_cons.2 ⟨hc, h⟩

theorem visible_of_signed? {n : ℤ} {text : List Char} (h : signed? text = some n) : ∀ c ∈ text, IsVisible c := by
  unfold signed? at h
  split at h
  all_goals obtain ⟨k, hk, -⟩ := Option.map_eq_some_iff.1 h
  · exact visible_cons (by decide) (visible_of_digits? hk)
  · exact visible_cons (by decide) (visible_of_digits? hk)
  · exact visible_of_digits? hk

/-- The parts that a text is cut into, and the character between them. -/
theorem mem_of_cut {p : Char → Bool} {text before : List Char} {behind : Option (List Char)} (h : cut p text = (before, behind))
    {c : Char} (hc : c ∈ text) : c ∈ before ∨ p c = true ∨ c ∈ behind.getD [] := by
  unfold cut at h
  split at h
  · obtain ⟨rfl, -⟩ := Prod.mk.inj h
    exact .inl hc
  · rename_i d rest hdrop
    obtain ⟨rfl, rfl⟩ := Prod.mk.inj h
    rw [← @List.takeWhile_append_dropWhile _ (fun c => !p c) text, hdrop] at hc
    rcases List.mem_append.1 hc with hc | hc
    · exact .inl hc
    · rcases List.mem_cons.1 hc with rfl | hc
      · have hhead := List.head?_dropWhile_not (fun c => !p c) text
        rw [hdrop] at hhead
        exact .inr (.inl (by simpa using hhead))
      · exact .inr (.inr hc)

theorem visible_of_exponent? {n : ℤ} {text : Option (List Char)} (h : exponent? text = some n) :
    ∀ c ∈ text.getD [], IsVisible c := by
  cases text with
  | none => exact fun c hc => absurd hc List.not_mem_nil
  | some text => exact visible_of_signed? h

theorem visible_of_decimal? {x : ℚ} {text : List Char} (h : decimal? text = some x) : ∀ c ∈ text, IsVisible c := by
  unfold decimal? at h
  cases hexp : cut (fun c => c = 'e' ∨ c = 'E') text with
  | mk mantissa exponent =>
    cases hpoint : cut (· = '.') mantissa with
    | mk whole fraction =>
      simp only [hexp, hpoint] at h
      split at h
      · rename_i digits n hdigits hn
        intro c hc
        rcases mem_of_cut hexp hc with hc | hc | hc
        · rcases mem_of_cut hpoint hc with hc | hc | hc
          · exact visible_of_digits? hdigits c (List.mem_append_left _ hc)
          · rw [of_decide_eq_true hc]
            decide
          · exact visible_of_digits? hdigits c (List.mem_append_right _ hc)
        · rcases of_decide_eq_true hc with rfl | rfl <;> decide
        · exact visible_of_exponent? hn c hc
      · cases h

theorem visible_of_unsigned {text : List Char} (h : unsigned text ≠ .nan) : ∀ c ∈ text, IsVisible c := by
  unfold unsigned at h
  split at h
  · rename_i htext
    rw [htext]
    have hall : ("Infinity".toList.all fun c => decide (IsVisible c)) = true := by decide
    exact fun c hc => of_decide_eq_true (List.all_eq_true.1 hall c hc)
  · cases hvalue : decimal? text with
    | none => simp [hvalue] at h
    | some x => exact visible_of_decimal? hvalue

theorem visible_of_radix? {base : ℕ} {text digits : List Char} (h : radix? text = some (base, digits))
    (hdigits : ∀ c ∈ digits, IsVisible c) : ∀ c ∈ text, IsVisible c := by
  unfold radix? at h
  split at h
  case h_7 => cases h
  all_goals
    obtain ⟨-, rfl⟩ := Prod.mk.inj (Option.some.inj h)
    exact visible_cons (by decide) (visible_cons (by decide) hdigits)

/-- What is not `NaN` is a numeral. -/
theorem visible_of_literal {text : List Char} (h : literal text ≠ .nan) : ∀ c ∈ text, IsVisible c := by
  unfold literal at h
  split at h
  · exact fun c hc => absurd hc List.not_mem_nil
  · exact visible_cons (by decide) (visible_of_unsigned h)
  · refine visible_cons (by decide) (visible_of_unsigned fun hnan => h ?_)
    rw [hnan]
    rfl
  · split at h
    · rename_i base digits hradix
      cases hvalue : digits? base digits with
      | none => simp [hvalue] at h
      | some n => exact visible_of_radix? hradix (visible_of_digits? hvalue)
    · exact visible_of_unsigned h

/-! ### Digits -/

theorem cut_eq_self {p : Char → Bool} {text : List Char} (h : ∀ c ∈ text, p c = false) : cut p text = (text, none) := by
  have hdrop : text.dropWhile (fun c => !p c) = [] := List.dropWhile_eq_nil_iff.2 fun c hc => by simp [h c hc]
  unfold cut
  rw [hdrop]

theorem digit_of_digits? {base n : ℕ} {text : List Char} (h : digits? base text = some n) :
    ∀ c ∈ text, isDigit base c = true := by
  unfold digits? at h
  split at h
  · rename_i hdigits
    exact List.all_eq_true.1 hdigits.2
  · cases h

theorem ne_of_isDigit {c d : Char} (hc : isDigit 10 c = true) (hd : isDigit 10 d = false) : c ≠ d := by
  rintro rfl
  rw [hc] at hd
  cases hd

theorem decimal?_of_digits? {n : ℕ} {text : List Char} (h : digits? 10 text = some n) : decimal? text = some (n : ℚ) := by
  have hexp : cut (fun c => c = 'e' ∨ c = 'E') text = (text, none) := by
    refine cut_eq_self fun c hc => ?_
    have hdigit := digit_of_digits? h c hc
    simp [ne_of_isDigit hdigit (d := 'e') (by decide), ne_of_isDigit hdigit (d := 'E') (by decide)]
  have hpoint : cut (· = '.') text = (text, none) :=
    cut_eq_self fun c hc => decide_eq_false (ne_of_isDigit (digit_of_digits? h c hc) (by decide))
  unfold decimal?
  simp only [hexp, hpoint, Option.getD_none, List.append_nil, h, exponent?]
  simp

theorem unsigned_of_digits? {n : ℕ} {text : List Char} (h : digits? 10 text = some n) : unsigned text = ofRat n := by
  have hne : text ≠ "Infinity".toList := by
    rintro rfl
    exact absurd (digit_of_digits? h 'I' (by decide)) (by decide)
  rw [unsigned, if_neg hne, decimal?_of_digits? h]
  rfl

/-- Digits are read as decimal ones: no prefix of another base is made of digits only. -/
theorem literal_of_digits? {n : ℕ} {text : List Char} (h : digits? 10 text = some n) : literal text = ofRat n := by
  have hdigit := digit_of_digits? h
  have hradix : radix? text = none := by
    unfold radix?
    split
    case h_7 => rfl
    all_goals exact absurd (hdigit _ (List.mem_cons_of_mem _ List.mem_cons_self)) (by decide)
  unfold literal
  split
  · cases h
  · exact absurd (hdigit _ List.mem_cons_self) (by decide)
  · exact absurd (hdigit _ List.mem_cons_self) (by decide)
  · rw [hradix]
    exact unsigned_of_digits? h

theorem literal_plus {n : ℕ} {text : List Char} (h : digits? 10 text = some n) : literal ('+' :: text) = ofRat n :=
  unsigned_of_digits? h

theorem literal_minus {n : ℕ} {text : List Char} (h : digits? 10 text = some n) : literal ('-' :: text) = (ofRat n).neg :=
  congrArg Number.neg (unsigned_of_digits? h)

theorem ofRat_natCast {n : ℕ} (h : n < 2 ^ 53) : ofRat n = .finite n := by
  have hround := roundDouble_intCast (n := n) (by rw [Nat.abs_cast]; exact_mod_cast h)
  rw [Int.cast_natCast] at hround
  rw [ofRat, hround]

/-! ### `JSON.stringify` -/

/-- An integer is written in digits below `1e21`. -/
def jsonNumber (x : ℚ) : JsonNumber :=
  if x.den = 1 ∧ |x| < 10 ^ 21 then .int (x < 0) x.num.natAbs else .float x

def Number.toJson : Number → JsonValue
  | nan | infinite _ => .null
  | finite value => .num (jsonNumber value)

theorem jsonNumber_intCast {n : ℤ} (h : |n| < 10 ^ 21) : jsonNumber n = .int (n < 0) n.natAbs := by
  have hlt : |(n : ℚ)| < 10 ^ 21 := by exact_mod_cast h
  rw [jsonNumber, if_pos ⟨Rat.den_intCast n, hlt⟩, Rat.num_intCast]
  simp

end Js
