import Mathlib.Data.Nat.Digits.Defs
import Mathlib.Data.List.Basic
import Mathlib.Tactic.SplitIfs

/-!
# Civil dates and times

The proleptic Gregorian calendar over the days since 1970, and instants of UTC, with leap seconds, written
out to the second (`2026-03-01T00:00:00Z`) and read back.
-/

namespace Calendar

structure Date where
  year : Int
  month : Nat
  day : Nat
deriving DecidableEq

/-- The days since 1 January 1970. The year is taken to begin in March, so that a leap day ends it. -/
def Date.toDays (date : Date) : Int :=
  let year := if date.month ≤ 2 then date.year - 1 else date.year
  let month := if date.month ≤ 2 then date.month + 9 else date.month - 3
  365 * year + year / 4 - year / 100 + year / 400 + (153 * month + 2) / 5 + date.day - 719469

/-- The day after so many cycles of 400 years, centuries, groups of four years, years and days from March on. -/
def Date.ofParts (cycle : Int) (century group yearOfGroup inYear : Nat) : Date :=
  let month := (5 * inYear + 2) / 153
  let year := 400 * cycle + (100 * century + 4 * group + yearOfGroup : Nat)
  { year := if month < 10 then year else year + 1
    month := if month < 10 then month + 3 else month - 9
    day := inYear - (153 * month + 2) / 5 + 1 }

def Date.ofDays (days : Int) : Date :=
  let inCycle := ((days + 719468) % 146097).toNat
  let century := min (inCycle / 36524) 3
  let inCentury := inCycle - 36524 * century
  let yearOfGroup := min (inCentury % 1461 / 365) 3
  .ofParts ((days + 719468) / 146097) century (inCentury / 1461) yearOfGroup (inCentury % 1461 - 365 * yearOfGroup)

example : Date.ofDays 0 = ⟨1970, 1, 1⟩ := by decide

example : Date.ofDays 11016 = ⟨2000, 2, 29⟩ := by decide

theorem Date.ofParts_spec {cycle : Int} {century group yearOfGroup inYear : Nat} (hc : century ≤ 3) (hg : group ≤ 24)
    (hy : yearOfGroup ≤ 3) (hd : inYear ≤ 365) :
    (ofParts cycle century group yearOfGroup inYear).toDays =
        146097 * cycle + 36524 * century + 1461 * group + 365 * yearOfGroup + inYear - 719468 ∧
      (ofParts cycle century group yearOfGroup inYear).month ≤ 12 ∧
      (ofParts cycle century group yearOfGroup inYear).day ≤ 31 := by
  have hmonth : (5 * inYear + 2) / 153 ≤ 11 := by omega
  have hday : (153 * ((5 * inYear + 2) / 153) + 2) / 5 ≤ inYear ∧
      inYear ≤ (153 * ((5 * inYear + 2) / 153) + 2) / 5 + 30 := by omega
  unfold ofParts toDays
  generalize (5 * inYear + 2) / 153 = month at *
  have hfours : (400 * cycle + (100 * century + 4 * group + yearOfGroup : Nat)) / 4 = 100 * cycle + (25 * century + group) := by
    omega
  have hhundreds : (400 * cycle + (100 * century + 4 * group + yearOfGroup : Nat)) / 100 = 4 * cycle + century := by omega
  have hcycles : (400 * cycle + (100 * century + 4 * group + yearOfGroup : Nat)) / 400 = cycle := by omega
  dsimp only
  by_cases hspring : month < 10
  · simp only [if_pos hspring, if_neg (show ¬ month + 3 ≤ 2 by omega), Nat.add_sub_cancel, hfours, hhundreds, hcycles]
    exact ⟨by omega, by omega, by omega⟩
  · simp only [if_neg hspring, if_pos (show month - 9 ≤ 2 by omega), Nat.sub_add_cancel (show 9 ≤ month by omega),
      Int.add_sub_cancel, hfours, hhundreds, hcycles]
    exact ⟨by omega, by omega, by omega⟩

theorem Date.ofDays_spec (days : Int) : (ofDays days).toDays = days ∧ (ofDays days).month ≤ 12 ∧ (ofDays days).day ≤ 31 := by
  have hcycle := Int.mul_ediv_add_emod (days + 719468) 146097
  have hnonneg : 0 ≤ (days + 719468) % 146097 := Int.emod_nonneg _ (by decide)
  have hlt : (days + 719468) % 146097 < 146097 := Int.emod_lt_of_pos _ (by decide)
  have hin : days + 719468 = 146097 * ((days + 719468) / 146097) + (((days + 719468) % 146097).toNat : Int) ∧
      ((days + 719468) % 146097).toNat < 146097 := by omega
  unfold ofDays
  generalize ((days + 719468) % 146097).toNat = inCycle at *
  have hcentury : 36524 * min (inCycle / 36524) 3 ≤ inCycle ∧ inCycle - 36524 * min (inCycle / 36524) 3 ≤ 36524 := by omega
  have hgroup : (inCycle - 36524 * min (inCycle / 36524) 3) / 1461 ≤ 24 := by omega
  have hinCentury := Nat.div_add_mod (inCycle - 36524 * min (inCycle / 36524) 3) 1461
  have hinGroup : (inCycle - 36524 * min (inCycle / 36524) 3) % 1461 < 1461 := Nat.mod_lt _ (by decide)
  have hyear : 365 * min ((inCycle - 36524 * min (inCycle / 36524) 3) % 1461 / 365) 3 ≤
        (inCycle - 36524 * min (inCycle / 36524) 3) % 1461 ∧
      (inCycle - 36524 * min (inCycle / 36524) 3) % 1461 -
        365 * min ((inCycle - 36524 * min (inCycle / 36524) 3) % 1461 / 365) 3 ≤ 365 := by omega
  obtain ⟨hdays, hmonth, hday⟩ := @ofParts_spec ((days + 719468) / 146097) _ _ _ _ (Nat.min_le_right (inCycle / 36524) 3) hgroup
    (Nat.min_le_right _ 3) hyear.2
  exact ⟨hdays.trans (by omega), hmonth, hday⟩

/-! ### Instants -/

/-- Seconds since 1970 and a part of a second. A leap second is the second part of the last second of a minute. -/
structure UtcInstant where
  secs : Int
  nanos : Nat
  lt : nanos < 2000000000
  leap : 1000000000 ≤ nanos → secs % 60 = 59
deriving DecidableEq

namespace UtcInstant

def Before (t u : UtcInstant) : Prop := t.secs < u.secs ∨ t.secs = u.secs ∧ t.nanos < u.nanos

instance (t u : UtcInstant) : Decidable (t.Before u) := inferInstanceAs (Decidable (_ ∨ _))

/-- So many days later; a leap second has none after it. -/
def addDays (t : UtcInstant) (days : Nat) : UtcInstant where
  secs := t.secs + 86400 * days
  nanos := t.nanos % 1000000000
  lt := by omega
  leap := by omega

/-- Without the fraction of the second. -/
def truncated (t : UtcInstant) : UtcInstant where
  secs := t.secs
  nanos := t.nanos / 1000000000 * 1000000000
  lt := by have := t.lt; omega
  leap h := t.leap (by omega)

end UtcInstant

/-! ### Written out -/

def pad2 (n : Nat) : List Char := [Nat.digitChar (n / 10), Nat.digitChar (n % 10)]

/-- Four digits at least, with a sign outside the years that have four. -/
def formatYear (year : Int) : List Char :=
  (if 0 ≤ year ∧ year < 10000 then [] else if year < 0 then ['-'] else ['+']) ++ (Nat.toDigits 10 year.natAbs).leftpad 4 '0'

/-- `%Y-%m-%dT%H:%M:%SZ`. -/
def UtcInstant.format (t : UtcInstant) : List Char :=
  let date := Date.ofDays (t.secs / 86400)
  let time := (t.secs % 86400).toNat
  formatYear date.year ++ '-' :: pad2 date.month ++ '-' :: pad2 date.day ++ 'T' :: pad2 (time / 3600) ++
    ':' :: pad2 (time / 60 % 60) ++ ':' :: pad2 (time % 60 + t.nanos / 1000000000) ++ ['Z']

/-! ### Read -/

def digit? (c : Char) : Option Nat := if c.isDigit then some (c.toNat - '0'.toNat) else none

def read2 (a b : Char) : Option Nat := do
  let tens ← digit? a
  let ones ← digit? b
  pure (10 * tens + ones)

def readDigits (digits : List Char) : Option Int :=
  if digits.all Char.isDigit then some (Int.ofNat (Nat.ofDigitChars 10 digits 0)) else none

def readYear (text : List Char) : Option Int :=
  match text with
  | '-' :: digits => (readDigits digits).map fun year => -year
  | '+' :: digits => readDigits digits
  | digits => readDigits digits

/-- The second 60 is a leap second. -/
def UtcInstant.ofCivil (date : Date) (hour minute second : Nat) : Option UtcInstant :=
  let start := 86400 * date.toDays + 3600 * hour + 60 * minute
  if second < 60 then some ⟨start + second, 0, by decide, fun h => absurd h (by decide)⟩
  else if second = 60 then some ⟨start + 59, 1000000000, by decide, fun _ => by omega⟩
  else none

/-- What stands after the year has a fixed length, and is read from the end. -/
def UtcInstant.read (text : List Char) : Option UtcInstant :=
  match text.reverse with
  | 'Z' :: s₀ :: s₁ :: ':' :: i₀ :: i₁ :: ':' :: h₀ :: h₁ :: 'T' :: d₀ :: d₁ :: '-' :: m₀ :: m₁ :: '-' :: year => do
    let year ← readYear year.reverse
    let month ← read2 m₁ m₀
    let day ← read2 d₁ d₀
    let hour ← read2 h₁ h₀
    let minute ← read2 i₁ i₀
    let second ← read2 s₁ s₀
    ofCivil ⟨year, month, day⟩ hour minute second
  | _ => none

theorem digit?_digitChar {n : Nat} (h : n < 10) : digit? (Nat.digitChar n) = some n := by
  have hall : ∀ n < 10, digit? (Nat.digitChar n) = some n := by decide
  exact hall n h

theorem read2_digitChar {n : Nat} (h : n < 100) : read2 (Nat.digitChar (n / 10)) (Nat.digitChar (n % 10)) = some n := by
  rw [read2, digit?_digitChar (by omega), digit?_digitChar (Nat.mod_lt _ (by decide))]
  exact congrArg some (Nat.div_add_mod n 10)

theorem isDigit_of_mem_leftpad {n : Nat} {c : Char} (h : c ∈ (Nat.toDigits 10 n).leftpad 4 '0') : c.isDigit = true := by
  rw [List.leftpad, List.mem_append, List.mem_replicate] at h
  rcases h with ⟨-, rfl⟩ | h
  · rfl
  · exact Nat.isDigit_of_mem_toDigits (by decide) (by decide) h

theorem ofDigitChars_leftpad (n : Nat) : Nat.ofDigitChars 10 ((Nat.toDigits 10 n).leftpad 4 '0') 0 = n := by
  rw [List.leftpad]
  generalize 4 - (Nat.toDigits 10 n).length = zeros
  induction zeros with
  | zero => exact Nat.ofDigitChars_toDigits (by decide) (by decide)
  | succ zeros ih =>
    rw [List.replicate_succ, List.cons_append, Nat.ofDigitChars_cons]
    exact ih

theorem readDigits_leftpad (n : Nat) : readDigits ((Nat.toDigits 10 n).leftpad 4 '0') = some (n : Int) := by
  rw [readDigits, if_pos (List.all_eq_true.2 fun c hc => isDigit_of_mem_leftpad hc), ofDigitChars_leftpad]
  rfl

theorem readYear_formatYear (year : Int) : readYear (formatYear year) = some year := by
  have hdigits := readDigits_leftpad year.natAbs
  unfold formatYear
  split_ifs with hfour hneg
  · have hyear : ((year.natAbs : Nat) : Int) = year := by omega
    rw [hyear] at hdigits
    rw [List.nil_append]
    unfold readYear
    -- a sign is no digit
    split
    · rename_i digits heq
      exact absurd (isDigit_of_mem_leftpad (heq ▸ List.mem_cons_self : '-' ∈ _)) (by decide)
    · rename_i digits heq
      exact absurd (isDigit_of_mem_leftpad (heq ▸ List.mem_cons_self : '+' ∈ _)) (by decide)
    · exact hdigits
  · simp only [List.cons_append, List.nil_append, readYear, hdigits, Option.map_some]
    exact congrArg some (by omega)
  · simp only [List.cons_append, List.nil_append, readYear, hdigits]
    exact congrArg some (by omega)

theorem UtcInstant.ofCivil_format (t : UtcInstant) :
    ofCivil (.ofDays (t.secs / 86400)) ((t.secs % 86400).toNat / 3600) ((t.secs % 86400).toNat / 60 % 60)
      ((t.secs % 86400).toNat % 60 + t.nanos / 1000000000) = some t.truncated := by
  have hdays := (Date.ofDays_spec (t.secs / 86400)).1
  have hlt := t.lt
  have hleap := t.leap
  unfold ofCivil truncated
  dsimp only
  by_cases hfraction : t.nanos < 1000000000
  · have hzero : t.nanos / 1000000000 = 0 := by omega
    rw [if_pos (by omega), Option.some_inj, UtcInstant.mk.injEq, hdays, hzero]
    exact ⟨by omega, rfl⟩
  · have hone : t.nanos / 1000000000 = 1 := by omega
    rw [if_neg (by omega), if_pos (by omega), Option.some_inj, UtcInstant.mk.injEq, hdays, hone]
    exact ⟨by omega, rfl⟩

/-- An instant is read to the second. -/
theorem UtcInstant.read_format (t : UtcInstant) : read t.format = some t.truncated := by
  obtain ⟨-, hmonth, hday⟩ := Date.ofDays_spec (t.secs / 86400)
  have hlt := t.lt
  have hreverse : ∀ (year : List Char) (month day hour minute second : Nat),
      (year ++ '-' :: pad2 month ++ '-' :: pad2 day ++ 'T' :: pad2 hour ++ ':' :: pad2 minute ++ ':' :: pad2 second ++ ['Z']).reverse =
        'Z' :: Nat.digitChar (second % 10) :: Nat.digitChar (second / 10) :: ':' :: Nat.digitChar (minute % 10) ::
          Nat.digitChar (minute / 10) :: ':' :: Nat.digitChar (hour % 10) :: Nat.digitChar (hour / 10) :: 'T' ::
          Nat.digitChar (day % 10) :: Nat.digitChar (day / 10) :: '-' :: Nat.digitChar (month % 10) ::
          Nat.digitChar (month / 10) :: '-' :: year.reverse := by
    intros
    simp [pad2]
  unfold read format
  dsimp only
  rw [hreverse]
  simp only [List.reverse_reverse, readYear_formatYear]
  rw [read2_digitChar (by omega), read2_digitChar (by omega), read2_digitChar (by omega), read2_digitChar (by omega),
    read2_digitChar (by omega)]
  exact t.ofCivil_format

theorem isDigit_of_mem_pad2 {n : Nat} {c : Char} (hn : n < 100) (h : c ∈ pad2 n) : c.isDigit = true := by
  have hall : ∀ n < 10, (Nat.digitChar n).isDigit = true := by decide
  rcases List.mem_pair.1 h with rfl | rfl
  · exact hall _ (by omega)
  · exact hall _ (Nat.mod_lt _ (by decide))

/-- The characters that an instant is written with. -/
def IsMark (c : Char) : Prop := c.isDigit = true ∨ c ∈ ['-', '+', 'T', ':', 'Z']

theorem isMark_formatYear {year : Int} : ∀ c ∈ formatYear year, IsMark c := by
  intro c hc
  rcases List.mem_append.1 hc with hc | hc
  · split_ifs at hc
    · cases hc
    · rw [List.mem_singleton.1 hc]
      exact .inr (by decide)
    · rw [List.mem_singleton.1 hc]
      exact .inr (by decide)
  · exact .inl (isDigit_of_mem_leftpad hc)

theorem UtcInstant.isMark_format (t : UtcInstant) : ∀ c ∈ t.format, IsMark c := by
  obtain ⟨-, hmonth, hday⟩ := Date.ofDays_spec (t.secs / 86400)
  have hlt := t.lt
  have hpad : ∀ n < 100, ∀ c ∈ pad2 n, IsMark c := fun n hn c hc => .inl (isDigit_of_mem_pad2 hn hc)
  have hmark : ∀ c ∈ ['-', '+', 'T', ':', 'Z'], IsMark c := fun c hc => .inr hc
  have hm := hpad (Date.ofDays (t.secs / 86400)).month (by omega)
  have hd := hpad (Date.ofDays (t.secs / 86400)).day (by omega)
  have hh := hpad ((t.secs % 86400).toNat / 3600) (by omega)
  have hi := hpad ((t.secs % 86400).toNat / 60 % 60) (by omega)
  have hs := hpad ((t.secs % 86400).toNat % 60 + t.nanos / 1000000000) (by omega)
  unfold format
  dsimp only
  generalize (t.secs % 86400).toNat / 60 % 60 = minute at *
  generalize (t.secs % 86400).toNat % 60 + t.nanos / 1000000000 = second at *
  generalize (t.secs % 86400).toNat / 3600 = hour at *
  simp only [List.forall_mem_append, List.forall_mem_cons] at hmark ⊢
  obtain ⟨hminus, -, hT, hcolon, hZ, -⟩ := hmark
  exact ⟨⟨⟨⟨⟨⟨isMark_formatYear, hminus, hm⟩, hminus, hd⟩, hT, hh⟩, hcolon, hi⟩, hcolon, hs⟩, hZ, by simp⟩

end Calendar
