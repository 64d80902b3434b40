import Mathlib.Data.List.TakeWhile
import Mathlib.Data.List.Infix
import Mathlib.Tactic.IntervalCases

/-!
# The `json` module of Python

`json.dumps` with an indentation and `json.loads`, as the C scanner reads: a nesting limit, whitespace between the
tokens, `\u` escapes that pair up to one code point. What is written is read back (`loads_dumps`).
-/

namespace PyJson

/-- A string by its code points, among which a lone `\u` escape can put a surrogate. -/
abbrev Str := List Nat

def str (s : String) : Str := s.toList.map Char.toNat

/-- The members of an object are listed as they are written; a number is kept as its literal. -/
inductive Value
  | null
  | bool (b : Bool)
  | num (literal : List Char)
  | str (s : Str)
  | arr (items : List Value)
  | obj (members : List (Str × Value))

/-- The last member of a name counts. -/
def lookup (name : Str) (members : List (Str × Value)) : Option Value :=
  (members.reverse.find? fun m => m.1 = name).map Prod.snd

/-! ### Writing -/

def hexDigit (n : Nat) : Char := Char.ofNat (if n < 10 then 48 + n else 87 + n)

/-- `\uXXXX` -/
def escapeUnit (n : Nat) : List Char :=
  ['\\', 'u', hexDigit (n / 4096), hexDigit (n / 256 % 16), hexDigit (n / 16 % 16), hexDigit (n % 16)]

/-- The characters that have an escape of their own. -/
def shortEscapes : List (Nat × Char) := [(0x22, '"'), (0x5C, '\\'), (8, 'b'), (9, 't'), (10, 'n'), (12, 'f'), (13, 'r')]

def escape (n : Nat) : List Char :=
  match shortEscapes.find? fun e => e.1 = n with
  | some e => ['\\', e.2]
  | none =>
    if 0x20 ≤ n ∧ n ≤ 0x7E then [Char.ofNat n]
    else if n < 0x10000 then escapeUnit n
    else escapeUnit (0xD800 + (n - 0x10000) / 0x400) ++ escapeUnit (0xDC00 + (n - 0x10000) % 0x400)

def quote (s : Str) : List Char := '"' :: s.flatMap escape ++ ['"']

def newline (level : Nat) : List Char := '\n' :: List.replicate (2 * level) ' '

mutual

/-- `json.dumps(…, indent=2)`, inside of `level` containers. -/
def dumps (level : Nat) : Value → List Char
  | .null => ['n', 'u', 'l', 'l']
  | .bool true => ['t', 'r', 'u', 'e']
  | .bool false => ['f', 'a', 'l', 's', 'e']
  | .num literal => literal
  | .str s => quote s
  | .arr [] => ['[', ']']
  | .arr (v :: items) => '[' :: (newline (level + 1) ++ dumps (level + 1) v ++ dumpsItems (level + 1) items ++ newline level ++ [']'])
  | .obj [] => ['{', '}']
  | .obj ((name, v) :: members) =>
    '{' :: (newline (level + 1) ++ quote name ++ [':', ' '] ++ dumps (level + 1) v ++ dumpsMembers (level + 1) members ++
      newline level ++ ['}'])

def dumpsItems (level : Nat) : List Value → List Char
  | [] => []
  | v :: items => ',' :: (newline level ++ dumps level v ++ dumpsItems level items)

def dumpsMembers (level : Nat) : List (Str × Value) → List Char
  | [] => []
  | (name, v) :: members => ',' :: (newline level ++ quote name ++ [':', ' '] ++ dumps level v ++ dumpsMembers level members)

end

/-! ### Reading -/

def isSpace (c : Char) : Bool := c = ' ' ∨ c = '\t' ∨ c = '\n' ∨ c = '\r'

def skip (text : List Char) : List Char := text.dropWhile isSpace

def hexDigit? (c : Char) : Option Nat :=
  let n := c.toNat
  if 48 ≤ n ∧ n ≤ 57 then some (n - 48) else if 97 ≤ n ∧ n ≤ 102 then some (n - 87)
  else if 65 ≤ n ∧ n ≤ 70 then some (n - 55) else none

def unit? (a b c d : Char) : Option Nat := do
  return 4096 * (← hexDigit? a) + 256 * (← hexDigit? b) + 16 * (← hexDigit? c) + (← hexDigit? d)

def escaped? (c : Char) : Option Nat := if c = '/' then some 0x2F else (shortEscapes.find? fun e => e.2 = c).map Prod.fst

/-- A string behind its opening quote, every `\u` escape by itself. -/
def units : List Char → Option (Str × List Char)
  | [] => none
  | '"' :: rest => some ([], rest)
  | '\\' :: 'u' :: a :: b :: c :: d :: rest => do
    let n ← unit? a b c d
    let (s, rest) ← units rest
    return (n :: s, rest)
  | '\\' :: c :: rest => do
    let n ← escaped? c
    let (s, rest) ← units rest
    return (n :: s, rest)
  | c :: rest =>
    if c.toNat < 0x20 then none
    else do
      let (s, rest) ← units rest
      return (c.toNat :: s, rest)

def isHigh (n : Nat) : Bool := 0xD800 ≤ n ∧ n ≤ 0xDBFF

def isLow (n : Nat) : Bool := 0xDC00 ≤ n ∧ n ≤ 0xDFFF

/-- Pairs of surrogates become one code point. -/
def join : Str → Str
  | high :: low :: s =>
    if isHigh high ∧ isLow low then (0x10000 + (high - 0xD800) * 0x400 + (low - 0xDC00)) :: join s
    else high :: join (low :: s)
  | s => s

def string (text : List Char) : Option (Str × List Char) := (units text).map fun (s, rest) => (join s, rest)

/-- The digits in front of a text. -/
def digits (text : List Char) : List Char := text.takeWhile Char.isDigit

def integer : List Char → Option (List Char × List Char)
  | '0' :: rest => some (['0'], rest)
  | c :: rest => if c.isDigit then some (c :: digits rest, rest.dropWhile Char.isDigit) else none
  | [] => none

def fraction (text : List Char) : List Char × List Char :=
  match text with
  | '.' :: rest => if digits rest = [] then ([], text) else ('.' :: digits rest, rest.dropWhile Char.isDigit)
  | _ => ([], text)

def exponentSign : List Char → List Char × List Char
  | '+' :: rest => (['+'], rest)
  | '-' :: rest => (['-'], rest)
  | rest => ([], rest)

def exponent (text : List Char) : List Char × List Char :=
  match text with
  | c :: rest =>
    if c = 'e' ∨ c = 'E' then
      let (sign, rest) := exponentSign rest
      if digits rest = [] then ([], text) else (c :: sign ++ digits rest, rest.dropWhile Char.isDigit)
    else ([], text)
  | [] => ([], text)

/-- `sys.get_int_max_str_digits()` -/
def maxStrDigits : Nat := 4300

def unsigned (text : List Char) : Option (List Char × List Char) := do
  let (whole, rest) ← integer text
  let (part, rest) := fraction rest
  let (power, rest) := exponent rest
  if part = [] ∧ power = [] ∧ maxStrDigits < whole.length then none else some (whole ++ part ++ power, rest)

def number : List Char → Option (List Char × List Char)
  | '-' :: rest => (unsigned rest).map fun (literal, rest) => ('-' :: literal, rest)
  | text => unsigned text

def scalar : List Char → Option (Value × List Char)
  | '"' :: rest => (string rest).map fun (s, rest) => (.str s, rest)
  | 'n' :: 'u' :: 'l' :: 'l' :: rest => some (.null, rest)
  | 't' :: 'r' :: 'u' :: 'e' :: rest => some (.bool true, rest)
  | 'f' :: 'a' :: 'l' :: 's' :: 'e' :: rest => some (.bool false, rest)
  | 'N' :: 'a' :: 'N' :: rest => some (.num "NaN".toList, rest)
  | 'I' :: 'n' :: 'f' :: 'i' :: 'n' :: 'i' :: 't' :: 'y' :: rest => some (.num "Infinity".toList, rest)
  | '-' :: 'I' :: 'n' :: 'f' :: 'i' :: 'n' :: 'i' :: 't' :: 'y' :: rest => some (.num "-Infinity".toList, rest)
  | text => (number text).map fun (literal, rest) => (.num literal, rest)

section

variable {α : Type} (element : List Char → Option (α × List Char)) (close : Char)

/-- The elements of a container that is not empty, of which there are at most `n`, and its closing bracket. -/
def sequence : Nat → List Char → Option (List α × List Char)
  | 0, _ => none
  | n + 1, text => do
    let (a, rest) ← element text
    match skip rest with
    | [] => none
    | c :: rest =>
      if c = close then some ([a], rest)
      else if c = ',' then (sequence n (skip rest)).map fun (as, rest) => (a :: as, rest)
      else none

/-- A container behind its opening bracket. -/
def enclosed (text : List Char) : Option (List α × List Char) :=
  match skip text with
  | [] => none
  | c :: rest => if c = close then some ([], rest) else sequence element close (c :: rest).length (c :: rest)

end

def member (value : List Char → Option (Value × List Char)) : List Char → Option ((Str × Value) × List Char)
  | '"' :: text => do
    let (name, rest) ← string text
    match skip rest with
    | ':' :: rest => do
      let (v, rest) ← value (skip rest)
      return ((name, v), rest)
    | _ => none
  | _ => none

/-- A value inside of which `depth` containers may be nested. -/
def value : Nat → List Char → Option (Value × List Char)
  | 0, text => if text.head? = some '[' ∨ text.head? = some '{' then none else scalar text
  | depth + 1, text =>
    match text with
    | '[' :: rest => (enclosed (value depth) ']' rest).map fun (items, rest) => (.arr items, rest)
    | '{' :: rest => (enclosed (member (value depth)) '}' rest).map fun (members, rest) => (.obj members, rest)
    | text => scalar text

/-- `json.loads`; none is whatever it raises. -/
def loads (depth : Nat) (text : List Char) : Option Value := do
  let (v, rest) ← value depth (skip text)
  if skip rest = [] then some v else none

/-! ### Strings -/

/-- A code point that is no surrogate. -/
def IsScalar (n : Nat) : Prop := n < 0xD800 ∨ 0xDFFF < n ∧ n < 0x110000

theorem isScalar_str (s : String) : ∀ n ∈ str s, IsScalar n := by
  intro n hn
  obtain ⟨c, -, rfl⟩ := List.mem_map.1 hn
  exact c.valid

theorem str_injective {s t : String} (h : str s = str t) : s = t :=
  String.toList_inj.1 (List.map_injective_iff.2 (fun _ _ => Char.toNat_inj.1) h)

/-- The escapes that a code point is written with. -/
def split (n : Nat) : Str :=
  if n < 0x10000 then [n] else [0xD800 + (n - 0x10000) / 0x400, 0xDC00 + (n - 0x10000) % 0x400]

theorem hexDigit?_hexDigit : ∀ n < 16, hexDigit? (hexDigit n) = some n := by decide

theorem unit?_hexDigit {n : Nat} (h : n < 0x10000) :
    unit? (hexDigit (n / 4096)) (hexDigit (n / 256 % 16)) (hexDigit (n / 16 % 16)) (hexDigit (n % 16)) = some n := by
  rw [unit?, hexDigit?_hexDigit _ (by omega), hexDigit?_hexDigit _ (by omega), hexDigit?_hexDigit _ (by omega),
    hexDigit?_hexDigit _ (by omega)]
  simp only [Option.bind_eq_bind, Option.bind_some, Option.pure_def, Option.some.injEq]
  omega

theorem units_escapeUnit {n : Nat} (h : n < 0x10000) (rest : List Char) :
    units (escapeUnit n ++ rest) = (units rest).map fun p => (n :: p.1, p.2) := by
  rw [escapeUnit]
  simp only [List.cons_append, List.nil_append]
  rw [units, unit?_hexDigit h]
  cases units rest <;> rfl

theorem units_plain {c : Char} (hquote : c ≠ '"') (hslash : c ≠ '\\') (hcontrol : 0x20 ≤ c.toNat) (rest : List Char) :
    units (c :: rest) = (units rest).map fun p => (c.toNat :: p.1, p.2) := by
  rw [units]
  · rw [if_neg (by omega)]
    cases units rest <;> rfl
  · rintro rfl
    exact absurd rfl hquote
  · rintro a b c' d rest' rfl
    exact absurd rfl hslash
  · rintro c' rest' rfl
    exact absurd rfl hslash

theorem toNat_ofNat_ascii {n : Nat} (h : n ≤ 0x7E) : (Char.ofNat n).toNat = n := by
  rw [Char.ofNat, dif_pos (.inl (by omega))]
  rfl

theorem units_escape {n : Nat} (h : n < 0x110000) (rest : List Char) :
    units (escape n ++ rest) = (units rest).map fun p => (split n ++ p.1, p.2) := by
  unfold escape
  split
  · rename_i e hfind
    have hmem := List.mem_of_find?_eq_some hfind
    have heq : e.1 = n := by simpa using List.find?_some hfind
    subst heq
    simp only [shortEscapes, List.mem_cons, List.not_mem_nil, or_false] at hmem
    rcases hmem with rfl | rfl | rfl | rfl | rfl | rfl | rfl
    all_goals
      simp only [List.cons_append, List.nil_append]
      rw [units]
      · cases units rest <;> rfl
      · simp
  · rename_i hnone
    have hother : n ≠ 0x22 ∧ n ≠ 0x5C := by
      simp only [shortEscapes, List.find?_eq_none, List.forall_mem_cons, decide_eq_true_eq] at hnone
      omega
    split
    · rename_i hprint
      have hnat := toNat_ofNat_ascii hprint.2
      rw [List.singleton_append, units_plain ?_ ?_ (by omega), hnat, PyJson.split, if_pos (by omega)]
      · rfl
      · intro heq
        rw [heq] at hnat
        exact hother.1 hnat.symm
      · intro heq
        rw [heq] at hnat
        exact hother.2 hnat.symm
    · split
      · rename_i hunit
        rw [units_escapeUnit hunit, PyJson.split, if_pos hunit]
        rfl
      · rename_i hpair
        rw [List.append_assoc, units_escapeUnit (by omega), units_escapeUnit (by omega), PyJson.split, if_neg hpair,
          Option.map_map]
        rfl

theorem join_split {n : Nat} (h : IsScalar n) (s : Str) : join (split n ++ s) = n :: join s := by
  unfold split
  split
  · have hhigh : isHigh n = false := by
      simp only [isHigh, decide_eq_false_iff_not]
      unfold IsScalar at h
      omega
    cases s with
    | nil => rfl
    | cons low s => simp [join, hhigh]
  · rename_i hpair
    unfold IsScalar at h
    have hhigh : isHigh (0xD800 + (n - 0x10000) / 0x400) = true := decide_eq_true (by omega)
    have hlow : isLow (0xDC00 + (n - 0x10000) % 0x400) = true := decide_eq_true (by omega)
    have hpoint : 0x10000 + (0xD800 + (n - 0x10000) / 0x400 - 0xD800) * 0x400 +
        (0xDC00 + (n - 0x10000) % 0x400 - 0xDC00) = n := by omega
    rw [List.cons_append, List.cons_append, List.nil_append, join, if_pos ⟨hhigh, hlow⟩, hpoint]

/-- A string is read as it is written. -/
theorem string_quote {s : Str} (h : ∀ n ∈ s, IsScalar n) (rest : List Char) :
    string (s.flatMap escape ++ '"' :: rest) = some (s, rest) := by
  have hunits : units (s.flatMap escape ++ '"' :: rest) = some (s.flatMap split, rest) := by
    induction s with
    | nil => rfl
    | cons n s ih =>
      obtain ⟨hn, hs⟩ := List.forall_mem_cons.1 h
      rw [List.flatMap_cons, List.append_assoc, units_escape (by unfold IsScalar at hn; omega), ih hs]
      rfl
  have hjoin : join (s.flatMap split) = s := by
    clear hunits
    induction s with
    | nil => rfl
    | cons n s ih =>
      obtain ⟨hn, hs⟩ := List.forall_mem_cons.1 h
      rw [List.flatMap_cons, join_split hn, ih hs]
  rw [string, hunits, Option.map_some]
  dsimp only
  rw [hjoin]

/-! ### What is written is read back -/

@[simp] theorem skip_nil : skip [] = [] := rfl

theorem skip_cons {c : Char} (h : isSpace c = false) (rest : List Char) : skip (c :: rest) = c :: rest := by
  rw [skip, List.dropWhile_cons_of_neg (by simp [h])]

@[simp] theorem skip_newline (level : Nat) (rest : List Char) : skip (newline level ++ rest) = skip rest := by
  have hspace : ∀ c ∈ newline level, isSpace c = true := by
    intro c hc
    rcases List.mem_cons.1 hc with rfl | hc
    · rfl
    · rw [List.eq_of_mem_replicate hc]
      rfl
  exact List.dropWhile_append_of_pos hspace

section

variable {α : Type} {element : List Char → Option (α × List Char)} {close : Char} {write : α → List Char}

/-- The element is read back from what is written for it, which starts with what is neither a space nor a bracket that
closes. -/
structure ReadsBack (element : List Char → Option (α × List Char)) (close : Char) (write : α → List Char) (a : α) : Prop where
  start : ∃ c t, write a = c :: t ∧ isSpace c = false ∧ c ≠ close
  element : ∀ rest, element (write a ++ rest) = some (a, rest)

theorem ReadsBack.skip_append {a : α} (h : ReadsBack element close write a) (rest : List Char) :
    skip (write a ++ rest) = write a ++ rest := by
  obtain ⟨c, t, heq, hspace, -⟩ := h.start
  rw [heq, List.cons_append, skip_cons hspace]

theorem sequence_writes (hclose : isSpace close = false) (hcomma : close ≠ ',') {a : α} {as : List α}
    (h : ∀ b ∈ a :: as, ReadsBack element close write b) (level : Nat) (rest : List Char) {n : Nat} (hn : as.length < n) :
    sequence element close n (write a ++ (as.flatMap (fun b => ',' :: (newline (level + 1) ++ write b)) ++
      (newline level ++ close :: rest))) = some (a :: as, rest) := by
  induction as generalizing a n with
  | nil =>
    obtain ⟨n, rfl⟩ : ∃ k, n = k + 1 := ⟨n - 1, by omega⟩
    rw [sequence, (h a List.mem_cons_self).element]
    simp only [Option.bind_eq_bind, Option.bind_some, List.flatMap_nil, List.nil_append, skip_newline, skip_cons hclose,
      if_true]
  | cons b as ih =>
    obtain ⟨n, rfl⟩ : ∃ k, n = k + 1 := ⟨n - 1, by omega⟩
    have hrest := List.forall_mem_cons.1 h
    have hb := hrest.2 b List.mem_cons_self
    rw [sequence, hrest.1.element]
    simp only [Option.bind_eq_bind, Option.bind_some, List.flatMap_cons, List.cons_append, List.append_assoc]
    rw [skip_cons (by decide)]
    simp only [if_neg (Ne.symm hcomma), if_true, skip_newline]
    rw [hb.skip_append, ih hrest.2 (by simpa using hn)]
    rfl

theorem length_le_flatMap (level : Nat) (as : List α) :
    as.length ≤ (as.flatMap fun b => ',' :: (newline level ++ write b)).length := by
  induction as with
  | nil => exact Nat.le_refl 0
  | cons b as ih =>
    simp only [List.flatMap_cons, List.length_append, List.length_cons]
    omega

theorem enclosed_nil (hclose : isSpace close = false) (rest : List Char) :
    enclosed element close (close :: rest) = some ([], rest) := by
  rw [enclosed, skip_cons hclose]
  dsimp only
  rw [if_pos rfl]

theorem enclosed_writes (hclose : isSpace close = false) (hcomma : close ≠ ',') {a : α} {as : List α}
    (h : ∀ b ∈ a :: as, ReadsBack element close write b) (level : Nat) (rest : List Char) :
    enclosed element close (newline (level + 1) ++ (write a ++ (as.flatMap (fun b => ',' :: (newline (level + 1) ++ write b)) ++
      (newline level ++ close :: rest)))) = some (a :: as, rest) := by
  have ha := h a List.mem_cons_self
  have hseq := sequence_writes hclose hcomma h level rest (n := (write a ++ (as.flatMap (fun b =>
    ',' :: (newline (level + 1) ++ write b)) ++ (newline level ++ close :: rest))).length) (by
      have hlen : as.length ≤ (as.flatMap fun b => ',' :: (newline (level + 1) ++ write b)).length :=
        length_le_flatMap (level + 1) as
      simp only [List.length_append, List.length_cons]
      omega)
  rw [enclosed, skip_newline, ha.skip_append]
  obtain ⟨c, t, heq, -, hne⟩ := ha.start
  rw [heq, List.cons_append] at hseq ⊢
  dsimp only
  rw [if_neg hne, hseq]

end

/-- A value of strings, constants and containers, nested at most so deep. -/
def Textual : Nat → Value → Prop
  | _, .null | _, .bool _ => True
  | _, .num _ => False
  | _, .str s => ∀ n ∈ s, IsScalar n
  | 0, .arr _ | 0, .obj _ => False
  | depth + 1, .arr items => ∀ v ∈ items, Textual depth v
  | depth + 1, .obj members => ∀ m ∈ members, (∀ n ∈ m.1, IsScalar n) ∧ Textual depth m.2

theorem dumpsItems_eq (level : Nat) (items : List Value) :
    dumpsItems level items = items.flatMap fun v => ',' :: (newline level ++ dumps level v) := by
  induction items with
  | nil => rfl
  | cons v items ih =>
    rw [dumpsItems, ih, List.flatMap_cons]
    simp only [List.cons_append, List.append_assoc]

def dumpsMember (level : Nat) (m : Str × Value) : List Char := quote m.1 ++ ([':', ' '] ++ dumps level m.2)

theorem dumpsMembers_eq (level : Nat) (members : List (Str × Value)) :
    dumpsMembers level members = members.flatMap fun m => ',' :: (newline level ++ dumpsMember level m) := by
  induction members with
  | nil => rfl
  | cons m members ih =>
    rw [dumpsMembers, ih, List.flatMap_cons]
    simp only [dumpsMember, List.cons_append, List.append_assoc, List.nil_append]

theorem dumps_obj (level : Nat) (m : Str × Value) (members : List (Str × Value)) :
    dumps level (.obj (m :: members)) = '{' :: (newline (level + 1) ++ (dumpsMember (level + 1) m ++
      (members.flatMap (fun b => ',' :: (newline (level + 1) ++ dumpsMember (level + 1) b)) ++ (newline level ++ ['}'])))) := by
  rw [dumps, dumpsMembers_eq]
  simp only [dumpsMember, List.append_assoc, List.cons_append, List.nil_append]

theorem dumps_start {depth : Nat} {v : Value} (h : Textual depth v) (level : Nat) :
    ∃ c t, dumps level v = c :: t ∧ isSpace c = false ∧ c ≠ ']' ∧ c ≠ '}' := by
  cases v with
  | null => exact ⟨_, _, by rw [dumps], by decide, by decide, by decide⟩
  | bool b =>
    cases b with
    | false => exact ⟨_, _, by rw [dumps], by decide, by decide, by decide⟩
    | true => exact ⟨_, _, by rw [dumps], by decide, by decide, by decide⟩
  | num literal => simp [Textual] at h
  | str s => exact ⟨_, _, by rw [dumps, quote]; rfl, by decide, by decide, by decide⟩
  | arr items =>
    cases items with
    | nil => exact ⟨_, _, by rw [dumps], by decide, by decide, by decide⟩
    | cons v items => exact ⟨_, _, by rw [dumps], by decide, by decide, by decide⟩
  | obj members =>
    cases members with
    | nil => exact ⟨_, _, by rw [dumps], by decide, by decide, by decide⟩
    | cons m members => exact ⟨_, _, by rw [dumps], by decide, by decide, by decide⟩

theorem skip_dumps {depth : Nat} {v : Value} (h : Textual depth v) (level : Nat) (rest : List Char) :
    skip (dumps level v ++ rest) = dumps level v ++ rest := by
  obtain ⟨c, t, heq, hspace, -⟩ := dumps_start h level
  rw [heq, List.cons_append, skip_cons hspace]

theorem value_eq_scalar (depth : Nat) {c : Char} (harr : c ≠ '[') (hobj : c ≠ '{') (rest : List Char) :
    value depth (c :: rest) = scalar (c :: rest) := by
  cases depth with
  | zero => simp [value, harr, hobj]
  | succ depth =>
    rw [value]
    · rintro rest' heq
      exact absurd (List.cons.inj heq).1 harr
    · rintro rest' heq
      exact absurd (List.cons.inj heq).1 hobj

theorem value_quote (depth : Nat) {s : Str} (h : ∀ n ∈ s, IsScalar n) (rest : List Char) :
    value depth (quote s ++ rest) = some (.str s, rest) := by
  have hquote : quote s ++ rest = '"' :: (s.flatMap escape ++ '"' :: rest) := by
    simp only [quote, List.cons_append, List.append_assoc, List.nil_append]
  rw [hquote, value_eq_scalar depth (by decide) (by decide), scalar, string_quote h]
  rfl

theorem member_dumpsMember {read : List Char → Option (Value × List Char)} {level : Nat} {m : Str × Value}
    (hname : ∀ n ∈ m.1, IsScalar n) (hskip : ∀ rest, skip (dumps level m.2 ++ rest) = dumps level m.2 ++ rest)
    (hread : ∀ rest, read (dumps level m.2 ++ rest) = some (m.2, rest)) (rest : List Char) :
    member read (dumpsMember level m ++ rest) = some (m, rest) := by
  have htext : dumpsMember level m ++ rest = '"' :: (m.1.flatMap escape ++ '"' :: ':' :: ' ' :: (dumps level m.2 ++ rest)) := by
    simp only [dumpsMember, quote, List.cons_append, List.append_assoc, List.nil_append]
  have hspace : skip (' ' :: (dumps level m.2 ++ rest)) = dumps level m.2 ++ rest := by
    rw [skip, List.dropWhile_cons_of_pos (by decide)]
    exact hskip rest
  rw [htext, member, string_quote hname]
  simp only [Option.bind_eq_bind, Option.bind_some]
  rw [skip_cons (by decide)]
  simp only [hspace, hread, Option.bind_some]
  rfl

/-- What is no container is read at any depth. -/
theorem value_dumps_leaf (depth level : Nat) {v : Value} (h : Textual 0 v) (rest : List Char) :
    value depth (dumps level v ++ rest) = some (v, rest) := by
  cases v with
  | null =>
    rw [dumps, List.cons_append, value_eq_scalar depth (by decide) (by decide)]
    rfl
  | bool b =>
    cases b with
    | true =>
      rw [dumps, List.cons_append, value_eq_scalar depth (by decide) (by decide)]
      rfl
    | false =>
      rw [dumps, List.cons_append, value_eq_scalar depth (by decide) (by decide)]
      rfl
  | str s =>
    rw [dumps]
    exact value_quote depth h rest
  | num literal => exact h.elim
  | arr items => exact h.elim
  | obj members => exact h.elim

theorem value_dumps (depth level : Nat) (v : Value) (h : Textual depth v) (rest : List Char) :
    value depth (dumps level v ++ rest) = some (v, rest) := by
  induction depth generalizing level v rest with
  | zero => exact value_dumps_leaf 0 level h rest
  | succ depth ih =>
    cases v with
    | arr items =>
      cases items with
      | nil =>
        rw [dumps, List.cons_append, value, List.singleton_append, enclosed_nil (by decide)]
        rfl
      | cons v items =>
        have hreads : ∀ b ∈ v :: items, ReadsBack (value depth) ']' (dumps (level + 1)) b := fun b hb => by
          obtain ⟨c, t, heq, hspace, hne, -⟩ := dumps_start (h b hb) (level + 1)
          exact ⟨⟨c, t, heq, hspace, hne⟩, ih (level + 1) b (h b hb)⟩
        rw [dumps, dumpsItems_eq, List.cons_append, value]
        simp only [List.append_assoc, List.singleton_append]
        rw [enclosed_writes (by decide) (by decide) hreads level rest]
        rfl
    | obj members =>
      cases members with
      | nil =>
        rw [dumps, List.cons_append, value, List.singleton_append, enclosed_nil (by decide)]
        rfl
      | cons m members =>
        have hreads : ∀ b ∈ m :: members, ReadsBack (member (value depth)) '}' (dumpsMember (level + 1)) b := fun b hb => by
          refine ⟨⟨'"', _, rfl, by decide, by decide⟩, ?_⟩
          exact member_dumpsMember (h b hb).1 (skip_dumps (h b hb).2 (level + 1)) (ih (level + 1) b.2 (h b hb).2)
        rw [dumps_obj, List.cons_append, value]
        simp only [List.append_assoc, List.singleton_append]
        rw [enclosed_writes (by decide) (by decide) hreads level rest]
        rfl
    | null => exact value_dumps_leaf (depth + 1) level (v := .null) trivial rest
    | bool b => exact value_dumps_leaf (depth + 1) level (v := .bool b) trivial rest
    | str s => exact value_dumps_leaf (depth + 1) level (v := .str s) h rest
    | num literal => exact h.elim

/-- A value that was printed is read back, whatever spaces follow it. -/
theorem loads_dumps {depth : Nat} {v : Value} (h : Textual depth v) {trailing : List Char} (hspace : skip trailing = []) :
    loads depth (dumps 0 v ++ trailing) = some v := by
  rw [loads, skip_dumps h, value_dumps depth 0 v h trailing]
  simp only [Option.bind_eq_bind, Option.bind_some, if_pos hspace]

end PyJson
