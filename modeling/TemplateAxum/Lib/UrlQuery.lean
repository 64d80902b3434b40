import Mathlib.Data.List.DropRight
import Mathlib.Data.List.TakeWhile

/-!
# The query of a URL

What the URL Standard says of the query of a URL with a scheme: blanks and controls at the ends are
not read, nor tabs and newlines anywhere; the query stands between the first `?` and the first `#`;
its pairs are separated by `&`, and the names and values of a pair are percent-encoded bytes.
-/

namespace UrlQuery

/-! ### What is read -/

/-- A C0 control or a space. -/
def isBlank (c : Char) : Bool := c.toNat ≤ 32

def isTabOrNewline (c : Char) : Bool := c = '\t' ∨ c = '\n' ∨ c = '\r'

def strip (text : List Char) : List Char := text.filter fun c => !isTabOrNewline c

/-- What the parser reads of its input. -/
def clean (input : List Char) : List Char := strip ((input.dropWhile isBlank).rdropWhile isBlank)

/-- Of the start of an input, and of its end. -/
def cleanStart (start : List Char) : List Char := strip (start.dropWhile isBlank)

def cleanEnd (rest : List Char) : List Char := strip (rest.rdropWhile isBlank)

theorem strip_append (x y : List Char) : strip (x ++ y) = strip x ++ strip y := List.filter_append ..

theorem strip_cons {c : Char} (hc : isBlank c = false) (x : List Char) : strip (c :: x) = c :: strip x := by
  have htab : isTabOrNewline c = false := by
    simp only [isTabOrNewline, decide_eq_false_iff_not]
    rintro (rfl | rfl | rfl) <;> cases hc
  exact List.filter_cons_of_pos (by simp [htab])

theorem strip_eq_self {x : List Char} (hx : ∀ c ∈ x, isBlank c = false) : strip x = x := by
  induction x with
  | nil => rfl
  | cons c x ih =>
    obtain ⟨hc, hrest⟩ := List.forall_mem_cons.1 hx
    rw [strip_cons hc, ih hrest]

theorem mem_strip {c : Char} (hc : isBlank c = false) {x : List Char} : c ∈ strip x ↔ c ∈ x := by
  constructor
  · exact fun h => (List.mem_filter.1 h).1
  · intro h
    obtain ⟨before, after, rfl⟩ := List.append_of_mem h
    rw [strip_append, strip_cons hc]
    simp

theorem dropWhile_append_cons {α : Type} {p : α → Bool} {c : α} (hc : p c = false) (x y : List α) :
    (x ++ c :: y).dropWhile p = x.dropWhile p ++ c :: y := by
  induction x with
  | nil => simp [hc]
  | cons d x ih =>
    by_cases hd : p d = true
    · simp [hd, ih]
    · simp [hd]

/-- A character that is no blank keeps the trimming on its side. -/
theorem clean_append {c : Char} (hc : isBlank c = false) (x y : List Char) :
    clean (x ++ c :: y) = cleanStart x ++ c :: cleanEnd y := by
  have hend : ∀ x : List Char, (x ++ c :: y).rdropWhile isBlank = x ++ c :: y.rdropWhile isBlank := by
    intro x
    rw [List.rdropWhile, List.reverse_append, List.reverse_cons, List.append_assoc, List.singleton_append,
      dropWhile_append_cons hc]
    simp [List.rdropWhile]
  rw [clean, dropWhile_append_cons hc, hend, strip_append, strip_cons hc]
  rfl

theorem cleanEnd_append {c : Char} (hc : isBlank c = false) (x y : List Char) :
    cleanEnd (x ++ c :: y) = strip x ++ c :: cleanEnd y := by
  rw [cleanEnd, List.rdropWhile, List.reverse_append, List.reverse_cons, List.append_assoc, List.singleton_append,
    dropWhile_append_cons hc]
  simp [strip_append, strip_cons hc, cleanEnd, List.rdropWhile]

theorem mem_cleanStart {c : Char} (hc : isBlank c = false) {x : List Char} : c ∈ cleanStart x ↔ c ∈ x := by
  rw [cleanStart, mem_strip hc]
  constructor
  · exact fun h => (List.dropWhile_sublist _).subset h
  · intro h
    obtain ⟨before, after, rfl⟩ := List.append_of_mem h
    rw [dropWhile_append_cons hc]
    simp

/-! ### The query -/

def beforeHash (text : List Char) : List Char := text.takeWhile (· ≠ '#')

/-- The query, if there is one. -/
def query (url : List Char) : Option (List Char) :=
  match (beforeHash (clean url)).dropWhile (· ≠ '?') with
  | [] => none
  | _ :: text => some text

theorem takeWhile_append_cons {α : Type} {p : α → Bool} {c : α} (hc : p c = false) (x y : List α) :
    (x ++ c :: y).takeWhile p = x.takeWhile p := by
  induction x with
  | nil => simp [hc]
  | cons d x ih =>
    by_cases hd : p d = true
    · simp [hd, ih]
    · simp [hd]

/-- Behind a `#` nothing is read. -/
theorem beforeHash_append {x : List Char} (hx : '#' ∈ x) (y : List Char) :
    beforeHash (clean (x ++ y)) = beforeHash (clean x) := by
  obtain ⟨before, after, rfl⟩ := List.append_of_mem hx
  rw [List.append_assoc, List.cons_append, clean_append (by decide), clean_append (by decide), beforeHash, beforeHash,
    takeWhile_append_cons (by decide), takeWhile_append_cons (by decide)]

/-- What follows the first `?`. -/
theorem query_append {x : List Char} (hhash : '#' ∉ x) (hmark : '?' ∉ x) (y : List Char) :
    query (x ++ '?' :: y) = some (beforeHash (cleanEnd y)) := by
  have htake : beforeHash (cleanStart x ++ '?' :: cleanEnd y) = cleanStart x ++ '?' :: beforeHash (cleanEnd y) := by
    rw [beforeHash, List.takeWhile_append_of_pos fun c hc => by
      have : c ≠ '#' := fun heq => hhash ((mem_cleanStart (by decide)).1 (heq ▸ hc))
      simpa using this]
    simp [beforeHash]
  have hdrop : (cleanStart x).dropWhile (· ≠ '?') = [] := by
    refine List.dropWhile_eq_nil_iff.2 fun c hc => ?_
    have : c ≠ '?' := fun heq => hmark ((mem_cleanStart (by decide)).1 (heq ▸ hc))
    simpa using this
  rw [query, clean_append (by decide), htake, dropWhile_append_cons (by decide), hdrop]
  rfl

/-! ### The pairs -/

def hexDigit? (c : Char) : Option UInt8 :=
  if '0' ≤ c ∧ c ≤ '9' then some (UInt8.ofNat (c.toNat - '0'.toNat))
  else if 'a' ≤ c ∧ c ≤ 'f' then some (UInt8.ofNat (c.toNat - 'a'.toNat + 10))
  else if 'A' ≤ c ∧ c ≤ 'F' then some (UInt8.ofNat (c.toNat - 'A'.toNat + 10))
  else none

/-- The bytes that are meant: `+` is a space, `%` and two hex digits a byte. -/
def decode : List Char → List UInt8
  | [] => []
  | '+' :: rest => 32 :: decode rest
  | '%' :: a :: b :: rest =>
    match hexDigit? a, hexDigit? b with
    | some high, some low => (high * 16 + low) :: decode rest
    | _, _ => 37 :: decode (a :: b :: rest)
  | c :: rest => String.utf8EncodeChar c ++ decode rest

/-- `name=value`; what has no `=` is a name. -/
def pair (text : List Char) : List UInt8 × List UInt8 :=
  (decode (text.takeWhile (· ≠ '=')), decode ((text.dropWhile (· ≠ '=')).drop 1))

def pairs (query : List Char) : List (List UInt8 × List UInt8) :=
  ((query.splitOn '&').filter (· ≠ [])).map pair

/-- The pairs of a URL, in order. -/
def queryPairs (url : List Char) : List (List UInt8 × List UInt8) := ((query url).map pairs).getD []

theorem pairs_append (x y : List Char) : pairs (x ++ '&' :: y) = pairs x ++ pairs y := by
  rw [pairs, List.splitOn_append_cons_self, List.filter_append, List.map_append]
  rfl

theorem pairs_singleton {f : List Char} (hne : f ≠ []) (hamp : '&' ∉ f) : pairs f = [pair f] := by
  rw [pairs, List.splitOn_eq_singleton hamp]
  simp [hne]

/-! ### A pair in its place -/

/-- What is written as a pair is read as it stands. -/
structure Plain (f : List Char) : Prop where
  ne_nil : f ≠ []
  not_blank : ∀ c ∈ f, isBlank c = false
  hash : '#' ∉ f
  amp : '&' ∉ f

/-- A list of pairs that others follow ends with the separator, one that follows others begins with it. -/
def Ended (text : List Char) : Prop := text = [] ∨ ∃ rest, text = rest ++ ['&']

def Begun (text : List Char) : Prop := text = [] ∨ ∃ rest, text = '&' :: rest

theorem Plain.cleanEnd {f : List Char} (hf : Plain f) (x y : List Char) :
    cleanEnd (x ++ (f ++ y)) = strip x ++ (f ++ UrlQuery.cleanEnd y) := by
  obtain ⟨start, last, rfl⟩ := (List.eq_nil_or_concat f).resolve_left hf.ne_nil
  have hstart : strip start = start := strip_eq_self fun c hc => hf.not_blank c (by simp [hc])
  rw [List.concat_eq_append, List.append_assoc, List.singleton_append, ← List.append_assoc,
    cleanEnd_append (hf.not_blank last (by simp)), strip_append, hstart]
  simp

theorem pairs_begun {f rest : List Char} (hf : Plain f) (hrest : Begun rest) : pairs (f ++ rest) = pair f :: pairs rest := by
  rcases hrest with rfl | ⟨rest, rfl⟩
  · rw [List.append_nil, pairs_singleton hf.ne_nil hf.amp]
    rfl
  · rw [pairs_append, pairs_singleton hf.ne_nil hf.amp, ← List.nil_append ('&' :: rest), pairs_append]
    rfl

theorem pairs_ended {text : List Char} (htext : Ended text) (rest : List Char) :
    pairs (text ++ rest) = pairs text ++ pairs rest := by
  rcases htext with rfl | ⟨text, rfl⟩
  · rfl
  · rw [List.append_assoc, List.singleton_append, pairs_append, pairs_append]
    simp [pairs]

theorem Begun.beforeHash {rest : List Char} (h : Begun rest) : Begun (beforeHash (cleanEnd rest)) := by
  rcases h with rfl | ⟨rest, rfl⟩
  · exact .inl rfl
  · refine .inr ⟨UrlQuery.beforeHash (cleanEnd rest), ?_⟩
    rw [← List.nil_append ('&' :: rest), cleanEnd_append (by decide)]
    rfl

theorem Ended.strip {text : List Char} (h : Ended text) : Ended (strip text) := by
  rcases h with rfl | ⟨text, rfl⟩
  · exact .inl rfl
  · exact .inr ⟨UrlQuery.strip text, strip_append ..⟩

theorem Ended.cleanEnd {text : List Char} (h : Ended text) : cleanEnd text = UrlQuery.strip text := by
  rcases h with rfl | ⟨text, rfl⟩
  · rfl
  · rw [cleanEnd_append (by decide), strip_append]
    rfl

theorem beforeHash_of_not_mem {x : List Char} (hx : '#' ∉ x) (y : List Char) : beforeHash (x ++ y) = x ++ beforeHash y := by
  rw [beforeHash, List.takeWhile_append_of_pos fun c hc => by
    have : c ≠ '#' := fun heq => hx (heq ▸ hc)
    simpa using this]
  rfl

/-- Behind a `#` no pair is read. -/
theorem queryPairs_of_hash {x : List Char} (hx : '#' ∈ x) (y : List Char) : queryPairs (x ++ y) = queryPairs x := by
  rw [queryPairs, queryPairs, query, query, beforeHash_append hx]

/-- Else a pair is read as it stands, after those before it and before those after it. -/
theorem queryPairs_append {x text f rest : List Char} (hx : '#' ∉ x) (hmark : '?' ∉ x) (htext : '#' ∉ text)
    (hended : Ended text) (hf : Plain f) (hbegun : Begun rest) :
    queryPairs (x ++ '?' :: text ++ (f ++ rest)) =
      queryPairs (x ++ '?' :: text) ++ pair f :: queryPairs ('?' :: rest) := by
  have hstrip : '#' ∉ strip text := fun h => htext ((mem_strip (by decide)).1 h)
  have hall : query (x ++ '?' :: (text ++ (f ++ rest))) = some (strip text ++ (f ++ beforeHash (cleanEnd rest))) := by
    rw [query_append hx hmark, hf.cleanEnd, beforeHash_of_not_mem hstrip, beforeHash_of_not_mem hf.hash]
  have hbefore : query (x ++ '?' :: text) = some (strip text) := by
    rw [query_append hx hmark, hended.cleanEnd, ← List.append_nil (strip text), beforeHash_of_not_mem hstrip]
    rfl
  have hafter : query ('?' :: rest) = some (beforeHash (cleanEnd rest)) :=
    query_append List.not_mem_nil List.not_mem_nil rest
  rw [List.append_assoc, List.cons_append, queryPairs, queryPairs, queryPairs, hall, hbefore, hafter]
  show pairs _ = pairs _ ++ pair f :: pairs _
  rw [pairs_ended hended.strip, pairs_begun hf hbegun.beforeHash]

end UrlQuery
