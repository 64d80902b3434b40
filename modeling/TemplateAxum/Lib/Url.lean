import Mathlib.Data.List.DropRight
import TemplateAxum.Lib.UrlQuery

/-!
# The parts of a URL

RFC 3986: `scheme://authority/path?query#fragment`, of the authority `user:password@host:port`. The
user information ends at the last `@`, the user at the first `:`. A `%` that no two hex digits follow
stands for itself.
-/

namespace Url

/-! ### Percent-encoding -/

def percentDecode : List Char → List UInt8
  | [] => []
  | '%' :: a :: b :: rest =>
    match UrlQuery.hexDigit? a, UrlQuery.hexDigit? b with
    | some high, some low => (high * 16 + low) :: percentDecode rest
    | _, _ => 37 :: percentDecode (a :: b :: rest)
  | c :: rest => String.utf8EncodeChar c ++ percentDecode rest

def bytes (text : List Char) : List UInt8 := text.flatMap String.utf8EncodeChar

/-- Two hex digits follow a `%`. -/
def Escaped (text : List Char) : Prop := ∃ before a b after, text = before ++ '%' :: a :: b :: after ∧
  (UrlQuery.hexDigit? a).isSome = true ∧ (UrlQuery.hexDigit? b).isSome = true

theorem percentDecode_escape {a b : Char} {high low : UInt8} (ha : UrlQuery.hexDigit? a = some high)
    (hb : UrlQuery.hexDigit? b = some low) (rest : List Char) :
    percentDecode ('%' :: a :: b :: rest) = (high * 16 + low) :: percentDecode rest := by
  rw [percentDecode, ha, hb]

theorem percentDecode_percent {a b : Char} (h : ¬ ((UrlQuery.hexDigit? a).isSome = true ∧ (UrlQuery.hexDigit? b).isSome = true))
    (rest : List Char) : percentDecode ('%' :: a :: b :: rest) = 37 :: percentDecode (a :: b :: rest) := by
  rw [percentDecode]
  cases ha : UrlQuery.hexDigit? a <;> cases hb : UrlQuery.hexDigit? b <;> simp_all

theorem percentDecode_cons {c : Char} (hc : c ≠ '%') (rest : List Char) :
    percentDecode (c :: rest) = String.utf8EncodeChar c ++ percentDecode rest := by
  rw [percentDecode]
  rintro a b rest rfl
  exact absurd rfl hc

theorem bytes_cons (c : Char) (text : List Char) : bytes (c :: text) = String.utf8EncodeChar c ++ bytes text := rfl

theorem Escaped.cons {text : List Char} (h : Escaped text) (c : Char) : Escaped (c :: text) := by
  obtain ⟨before, a, b, after, rfl, hhex⟩ := h
  exact ⟨c :: before, a, b, after, rfl, hhex⟩

theorem Escaped.of_cons {c : Char} {text : List Char} (h : Escaped (c :: text)) :
    Escaped text ∨ ∃ a b rest, c = '%' ∧ text = a :: b :: rest ∧
      (UrlQuery.hexDigit? a).isSome = true ∧ (UrlQuery.hexDigit? b).isSome = true := by
  obtain ⟨before, a, b, after, htext, ha, hb⟩ := h
  cases before with
  | nil =>
    obtain ⟨rfl, rfl⟩ := List.cons.inj htext
    exact .inr ⟨a, b, after, rfl, rfl, ha, hb⟩
  | cons d before =>
    obtain ⟨rfl, rfl⟩ := List.cons.inj htext
    exact .inl ⟨before, a, b, after, rfl, ha, hb⟩

/-- Decoding makes an escape shorter and changes nothing else. -/
structure Decoded (text : List Char) : Prop where
  length_le : (percentDecode text).length ≤ (bytes text).length
  eq_bytes : ¬ Escaped text → percentDecode text = bytes text
  length_lt : Escaped text → (percentDecode text).length < (bytes text).length

theorem Decoded.cons {c : Char} {rest : List Char} (h : Decoded rest)
    (hcons : percentDecode (c :: rest) = String.utf8EncodeChar c ++ percentDecode rest)
    (hescaped : Escaped (c :: rest) → Escaped rest) : Decoded (c :: rest) := by
  have hlen := h.length_le
  constructor
  · rw [hcons, bytes_cons, List.length_append, List.length_append]
    omega
  · intro hnot
    rw [hcons, bytes_cons, h.eq_bytes fun hrest => hnot (hrest.cons c)]
  · intro hesc
    have := h.length_lt (hescaped hesc)
    rw [hcons, bytes_cons, List.length_append, List.length_append]
    omega

theorem decoded (text : List Char) : Decoded text := by
  fun_induction percentDecode text with
  | case1 => exact ⟨Nat.le_refl _, fun _ => rfl, fun ⟨before, a, b, after, h, _⟩ => by simp at h⟩
  | case2 a b rest low high hb ha ih =>
    have hdecode := percentDecode_escape ha hb rest
    have hbytes : (bytes ('%' :: a :: b :: rest)).length = 1 + (a.utf8Size + (b.utf8Size + (bytes rest).length)) := by
      simp only [bytes_cons, List.length_append, String.length_utf8EncodeChar]
      rfl
    have ha' := Char.utf8Size_pos a
    have hb' := Char.utf8Size_pos b
    have hlt : (percentDecode ('%' :: a :: b :: rest)).length < (bytes ('%' :: a :: b :: rest)).length := by
      have := ih.length_le
      rw [hdecode, hbytes, List.length_cons]
      omega
    have hescaped : Escaped ('%' :: a :: b :: rest) := ⟨[], a, b, rest, rfl, by rw [ha]; rfl, by rw [hb]; rfl⟩
    exact ⟨Nat.le_of_lt hlt, fun hnot => absurd hescaped hnot, fun _ => hlt⟩
  | case3 a b rest hhex ih =>
    have hnot : ¬ ((UrlQuery.hexDigit? a).isSome = true ∧ (UrlQuery.hexDigit? b).isSome = true) := by
      rintro ⟨ha, hb⟩
      obtain ⟨high, ha⟩ := Option.isSome_iff_exists.1 ha
      obtain ⟨low, hb⟩ := Option.isSome_iff_exists.1 hb
      exact hhex high low ha hb
    refine ih.cons (percentDecode_percent hnot rest) fun hesc => ?_
    rcases hesc.of_cons with hrest | ⟨_, _, _, _, htext, hhex'⟩
    · exact hrest
    · obtain ⟨ha, htext⟩ := List.cons.inj htext
      obtain ⟨hb, -⟩ := List.cons.inj htext
      exact absurd (ha ▸ hb ▸ hhex') hnot
  | case4 c rest hc ih =>
    refine ih.cons ?_ fun hesc => ?_
    · rw [percentDecode]
      exact hc
    · rcases hesc.of_cons with hrest | ⟨a, b, after, rfl, rfl, -⟩
      · exact hrest
      · exact (hc a b after rfl rfl).elim

theorem percentDecode_eq_bytes_iff {text : List Char} : percentDecode text = bytes text ↔ ¬ Escaped text := by
  constructor
  · intro heq hesc
    have := (decoded text).length_lt hesc
    rw [heq] at this
    omega
  · exact (decoded text).eq_bytes

theorem bytes_append (x y : List Char) : bytes (x ++ y) = bytes x ++ bytes y := List.flatMap_append

/-- The front of a text does not decode to the text. -/
theorem eq_of_percentDecode {x y : List Char} (hfront : x <+: y) (h : percentDecode x = bytes y) : x = y ∧ ¬ Escaped y := by
  obtain ⟨z, rfl⟩ := hfront
  have hlen := (decoded x).length_le
  rw [h, bytes_append, List.length_append] at hlen
  have hz : z = [] := by
    cases z with
    | nil => rfl
    | cons c z =>
      have := Char.utf8Size_pos c
      rw [bytes_cons, List.length_append, String.length_utf8EncodeChar] at hlen
      omega
  subst hz
  rw [List.append_nil] at h ⊢
  exact ⟨rfl, percentDecode_eq_bytes_iff.1 h⟩

/-! ### Spellings -/

/-- A word of ASCII letters, some of them escaped. -/
inductive Spells : List Char → List Char → Prop
  | nil : Spells [] []
  | plain {word text : List Char} (c : Char) : Spells word text → Spells (c :: word) (c :: text)
  | escape {word text : List Char} {c a b : Char} {high low : UInt8} (ha : UrlQuery.hexDigit? a = some high)
      (hb : UrlQuery.hexDigit? b = some low) (hc : String.utf8EncodeChar c = [high * 16 + low]) :
      Spells word text → Spells (c :: word) ('%' :: a :: b :: text)

theorem Spells.eq {word text : List Char} (h : Spells word text) (hplain : '%' ∉ text) : text = word := by
  induction h with
  | nil => rfl
  | plain c _ ih => rw [ih fun hmem => hplain (List.mem_cons_of_mem _ hmem)]
  | escape => exact absurd List.mem_cons_self hplain

/-- A character is not in a spelling that is not in the word, no hex digit and no `%`. -/
theorem Spells.not_mem {word text : List Char} {c : Char} (h : Spells word text) (hword : c ∉ word) (hpercent : c ≠ '%')
    (hhex : UrlQuery.hexDigit? c = none) : c ∉ text := by
  induction h with
  | nil => exact List.not_mem_nil
  | plain d _ ih =>
    rw [List.mem_cons, not_or] at hword ⊢
    exact ⟨hword.1, ih hword.2⟩
  | @escape word text d a b high low ha hb hd _ ih =>
    intro hmem
    rcases List.mem_cons.1 hmem with rfl | hmem
    · exact hpercent rfl
    · rcases List.mem_cons.1 hmem with rfl | hmem
      · rw [hhex] at ha
        cases ha
      · rcases List.mem_cons.1 hmem with rfl | hmem
        · rw [hhex] at hb
          cases hb
        · exact ih (fun h => hword (List.mem_cons_of_mem _ h)) hmem

theorem eq_of_utf8EncodeChar_append {c d : Char} {x y : List UInt8}
    (h : String.utf8EncodeChar c ++ x = String.utf8EncodeChar d ++ y) : c = d ∧ x = y := by
  have hc := @ByteArray.utf8DecodeChar?_utf8EncodeChar_append x.toByteArray c
  have hd := @ByteArray.utf8DecodeChar?_utf8EncodeChar_append y.toByteArray d
  rw [← List.toByteArray_append, h, List.toByteArray_append, hd] at hc
  cases hc
  exact ⟨rfl, List.append_cancel_left h⟩

theorem percentDecode_of_spells {word text : List Char} (h : Spells word text) (hword : '%' ∉ word) :
    percentDecode text = bytes word := by
  induction h with
  | nil => rfl
  | plain c _ ih =>
    rw [percentDecode_cons fun heq => hword (heq ▸ List.mem_cons_self), bytes_cons,
      ih fun hmem => hword (List.mem_cons_of_mem _ hmem)]
  | escape ha hb hc _ ih =>
    rw [percentDecode_escape ha hb, bytes_cons, hc, ih fun hmem => hword (List.mem_cons_of_mem _ hmem)]
    rfl

theorem percentDecode_cases (text : List Char) : text = [] ∨
    (∃ a b high low rest, text = '%' :: a :: b :: rest ∧ UrlQuery.hexDigit? a = some high ∧
      UrlQuery.hexDigit? b = some low ∧ percentDecode text = (high * 16 + low) :: percentDecode rest) ∨
    ∃ d rest, text = d :: rest ∧ percentDecode text = String.utf8EncodeChar d ++ percentDecode rest := by
  fun_cases percentDecode text with
  | case1 => exact .inl rfl
  | case2 a b rest high low hb ha => exact .inr (.inl ⟨a, b, high, low, rest, rfl, ha, hb, rfl⟩)
  | case3 a b rest hhex => exact .inr (.inr ⟨'%', a :: b :: rest, rfl, rfl⟩)
  | case4 d rest hd => exact .inr (.inr ⟨d, rest, rfl, rfl⟩)

theorem spells_of_percentDecode {word text : List Char} (hword : ∀ c ∈ word, c.utf8Size = 1)
    (h : percentDecode text = bytes word) : Spells word text := by
  induction word generalizing text with
  | nil =>
    rcases percentDecode_cases text with rfl | ⟨a, b, high, low, rest, -, -, -, hdecode⟩ | ⟨d, rest, -, hdecode⟩
    · exact .nil
    · rw [hdecode] at h
      cases h
    · rw [hdecode] at h
      exact absurd (List.append_eq_nil_iff.1 h).1 String.utf8EncodeChar_ne_nil
  | cons c word ih =>
    obtain ⟨hc, hrest⟩ := List.forall_mem_cons.1 hword
    rw [bytes_cons] at h
    rcases percentDecode_cases text with rfl | ⟨a, b, high, low, rest, rfl, ha, hb, hdecode⟩ | ⟨d, rest, rfl, hdecode⟩
    · exact absurd (List.append_eq_nil_iff.1 h.symm).1 String.utf8EncodeChar_ne_nil
    · rw [hdecode, String.utf8EncodeChar_eq_singleton hc] at h
      obtain ⟨hhead, htail⟩ := List.cons.inj h
      exact .escape ha hb (by rw [String.utf8EncodeChar_eq_singleton hc, hhead]) (ih hrest htail)
    · rw [hdecode] at h
      obtain ⟨rfl, htail⟩ := eq_of_utf8EncodeChar_append h
      exact .plain d (ih hrest htail)

/-! ### Query values -/

/-- In a query `+` is a space. -/
def plusToSpace (text : List Char) : List Char := text.map fun c => if c = '+' then ' ' else c

theorem hexDigit?_plusToSpace (c : Char) : UrlQuery.hexDigit? (if c = '+' then ' ' else c) = UrlQuery.hexDigit? c := by
  split
  · rename_i h
    subst h
    rfl
  · rfl

theorem decode_eq (text : List Char) : UrlQuery.decode text = percentDecode (plusToSpace text) := by
  fun_induction UrlQuery.decode text with
  | case1 => rfl
  | case2 rest ih =>
    rw [ih]
    show _ = percentDecode (' ' :: plusToSpace rest)
    rw [percentDecode_cons (by decide)]
    rfl
  | case3 a b rest low high hb ha ih =>
    show _ = percentDecode ('%' :: (if a = '+' then ' ' else a) :: (if b = '+' then ' ' else b) :: plusToSpace rest)
    rw [percentDecode_escape ((hexDigit?_plusToSpace a).trans ha) ((hexDigit?_plusToSpace b).trans hb), ih]
  | case4 a b rest hhex ih =>
    show _ = percentDecode ('%' :: (if a = '+' then ' ' else a) :: (if b = '+' then ' ' else b) :: plusToSpace rest)
    rw [percentDecode_percent, ih]
    · rfl
    · rw [hexDigit?_plusToSpace, hexDigit?_plusToSpace]
      rintro ⟨ha, hb⟩
      obtain ⟨high, ha⟩ := Option.isSome_iff_exists.1 ha
      obtain ⟨low, hb⟩ := Option.isSome_iff_exists.1 hb
      exact hhex high low ha hb
  | case5 c rest hplus hpercent ih =>
    have hstep : plusToSpace (c :: rest) = c :: plusToSpace rest := by
      rw [plusToSpace, List.map_cons, if_neg hplus]
      rfl
    rw [hstep, ih, percentDecode]
    rintro a b after hc hrest
    match rest with
    | [] => cases hrest
    | [d] => cases hrest
    | d :: e :: rest => exact hpercent d e rest hc rfl

theorem bytes_length_plusToSpace (text : List Char) : (bytes (plusToSpace text)).length = (bytes text).length := by
  induction text with
  | nil => rfl
  | cons c text ih =>
    have hcons : plusToSpace (c :: text) = (if c = '+' then ' ' else c) :: plusToSpace text := rfl
    rw [hcons, bytes_cons, bytes_cons, List.length_append, List.length_append, ih]
    split
    · rename_i h
      subst h
      rfl
    · rfl

theorem plusToSpace_eq_self {text : List Char} (h : '+' ∉ text) : plusToSpace text = text := by
  refine (List.map_congr_left fun c hc => ?_).trans (List.map_id text)
  exact if_neg fun (heq : c = '+') => h (heq ▸ hc)

theorem bytes_injective {x y : List Char} (h : bytes x = bytes y) : x = y := by
  induction x generalizing y with
  | nil =>
    cases y with
    | nil => rfl
    | cons d y => exact absurd (List.append_eq_nil_iff.1 h.symm).1 String.utf8EncodeChar_ne_nil
  | cons c x ih =>
    cases y with
    | nil => exact absurd (List.append_eq_nil_iff.1 h).1 String.utf8EncodeChar_ne_nil
    | cons d y =>
      obtain ⟨rfl, hrest⟩ := eq_of_utf8EncodeChar_append h
      rw [ih hrest]

theorem bytes_length_of_sublist {x y : List Char} (h : x.Sublist y) :
    (bytes x).length ≤ (bytes y).length ∧ ((bytes x).length = (bytes y).length → x = y) := by
  induction h with
  | slnil => exact ⟨Nat.le_refl _, fun _ => rfl⟩
  | cons c h ih =>
    have hpos := Char.utf8Size_pos c
    rw [bytes_cons, List.length_append, String.length_utf8EncodeChar]
    exact ⟨by omega, fun heq => by omega⟩
  | cons_cons c h ih =>
    rw [bytes_cons, bytes_cons, List.length_append, List.length_append]
    refine ⟨by omega, fun heq => ?_⟩
    rw [ih.2 (by omega)]

/-- A query value is read as it stands when there is nothing in it to decode. -/
theorem decode_eq_bytes {text : List Char} (hplus : '+' ∉ text) (hescaped : ¬ Escaped text) :
    UrlQuery.decode text = bytes text := by
  rw [decode_eq, plusToSpace_eq_self hplus]
  exact percentDecode_eq_bytes_iff.2 hescaped

/-- Decoding a part of a text does not give the text back. -/
theorem eq_of_decode {x y : List Char} (hpart : x.Sublist y) (h : UrlQuery.decode x = bytes y) :
    x = y ∧ '+' ∉ y ∧ ¬ Escaped y := by
  rw [decode_eq] at h
  obtain ⟨hle, heq⟩ := bytes_length_of_sublist hpart
  have hdecode := (decoded (plusToSpace x)).length_le
  have hlen : (percentDecode (plusToSpace x)).length = (bytes (plusToSpace x)).length := by
    rw [bytes_length_plusToSpace] at hdecode ⊢
    rw [h] at hdecode ⊢
    omega
  have hnot : ¬ Escaped (plusToSpace x) := fun hesc => by
    have := (decoded (plusToSpace x)).length_lt hesc
    omega
  have hxy : x = y := heq (by rw [← bytes_length_plusToSpace x, ← hlen, h])
  subst hxy
  have hself : plusToSpace x = x := bytes_injective (by rw [← h, percentDecode_eq_bytes_iff.2 hnot])
  refine ⟨rfl, fun hplus => ?_, hself ▸ hnot⟩
  have : '+' ∈ plusToSpace x := hself.symm ▸ hplus
  obtain ⟨c, -, hc⟩ := List.mem_map.1 this
  split at hc
  · cases hc
  · contradiction

/-- In a query too a word is spelled with some of its letters escaped. -/
theorem decode_eq_iff_spells {word text : List Char} (hsize : ∀ c ∈ word, c.utf8Size = 1)
    (hplain : ' ' ∉ word ∧ '+' ∉ word ∧ '%' ∉ word) : UrlQuery.decode text = bytes word ↔ Spells word text := by
  rw [decode_eq]
  constructor
  · intro h
    have hspells := spells_of_percentDecode hsize h
    have hspace : ' ' ∉ plusToSpace text := hspells.not_mem hplain.1 (by decide) rfl
    have hplus : '+' ∉ text := fun hmem => hspace (List.mem_map.2 ⟨'+', hmem, rfl⟩)
    rwa [plusToSpace_eq_self hplus] at hspells
  · intro h
    rw [plusToSpace_eq_self (h.not_mem hplain.2.1 (by decide) rfl)]
    exact percentDecode_of_spells h hplain.2.2

/-! ### Splitting -/

/-- The authority ends there. -/
def isDelimiter (c : Char) : Bool := c = '/' ∨ c = '?' ∨ c = '#'

/-- The scheme and what follows its `://`. -/
def scheme? (url : List Char) : Option (List Char × List Char) :=
  match url.dropWhile fun c => !(c = ':' || isDelimiter c) with
  | ':' :: '/' :: '/' :: rest => some (url.takeWhile fun c => !(c = ':' || isDelimiter c), rest)
  | _ => none

def authority (text : List Char) : List Char := text.takeWhile fun c => !isDelimiter c

def isPathEnd (c : Char) : Bool := c = '?' ∨ c = '#'

def path (text : List Char) : List Char :=
  (text.dropWhile fun c => !isDelimiter c).takeWhile fun c => !isPathEnd c

def query? (text : List Char) : Option (List Char) :=
  match text.dropWhile fun c => !isPathEnd c with
  | '?' :: rest => some (rest.takeWhile (· ≠ '#'))
  | _ => none

/-- Of an authority. -/
def userinfo (authority : List Char) : List Char := (authority.rdropWhile (· ≠ '@')).dropLast

def hostport (authority : List Char) : List Char := authority.rtakeWhile (· ≠ '@')

def user (userinfo : List Char) : List Char := userinfo.takeWhile (· ≠ ':')

def password? (userinfo : List Char) : Option (List Char) := (userinfo.dropWhile (· ≠ ':')).tail?

/-- An address in brackets keeps its colons. -/
def host (hostport : List Char) : List Char :=
  if hostport.head? = some '[' then hostport.takeWhile (· ≠ ']') ++ [']'] else hostport.takeWhile (· ≠ ':')

def port? (hostport : List Char) : Option Nat :=
  match hostport.drop (host hostport).length with
  | ':' :: digits => if digits ≠ [] ∧ digits.all Char.isDigit then some (Nat.ofDigitChars 10 digits 0) else none
  | _ => none

theorem scheme?_eq_some_iff {url scheme text : List Char} (hscheme : ∀ c ∈ scheme, (c = ':' || isDelimiter c) = false) :
    scheme? url = some (scheme, text) ↔ url = scheme ++ ':' :: '/' :: '/' :: text := by
  constructor
  · intro h
    unfold scheme? at h
    split at h
    · rename_i rest hdrop
      cases h
      rw [← hdrop]
      exact List.takeWhile_append_dropWhile.symm
    · cases h
  · rintro rfl
    have hall : ∀ c ∈ scheme, (!(c = ':' || isDelimiter c)) = true := fun c hc => by rw [hscheme c hc]; rfl
    unfold scheme?
    rw [List.dropWhile_append_of_pos hall, List.takeWhile_append_of_pos hall]
    simp

/-! ### Where a part ends -/

/-- Nothing, or the end of an authority and what follows it. -/
def Stops (p : Char → Bool) (rest : List Char) : Prop := ∀ c ∈ rest.head?, p c = true

theorem takeWhile_stop {p : Char → Bool} {x rest : List Char} (hx : ∀ c ∈ x, p c = false) (hrest : Stops p rest) :
    (x ++ rest).takeWhile (fun c => !p c) = x ∧ (x ++ rest).dropWhile (fun c => !p c) = rest := by
  have hall : ∀ c ∈ x, (!p c) = true := fun c hc => by rw [hx c hc]; rfl
  rw [List.takeWhile_append_of_pos hall, List.dropWhile_append_of_pos hall]
  cases rest with
  | nil => simp
  | cons c rest => simp [hrest c rfl]

theorem stop_unique {p : Char → Bool} {x y rest rest' : List Char} (hx : ∀ c ∈ x, p c = false) (hrest : Stops p rest)
    (hy : ∀ c ∈ y, p c = false) (hrest' : Stops p rest') (h : x ++ rest = y ++ rest') : x = y ∧ rest = rest' := by
  obtain ⟨htake, hdrop⟩ := takeWhile_stop hx hrest
  obtain ⟨htake', hdrop'⟩ := takeWhile_stop hy hrest'
  rw [h] at htake hdrop
  exact ⟨htake.symm.trans htake', hdrop.symm.trans hdrop'⟩

/-- What stands before the first of a character stands before any of it. -/
theorem prefix_of_append_cons {c : Char} {x x' y y' : List Char} (hc : c ∉ x) (h : x ++ c :: y = x' ++ c :: y') :
    x <+: x' := by
  rcases List.append_eq_append_iff.1 h with ⟨z, hx', -⟩ | ⟨z, hx, hz⟩
  · exact ⟨z, hx'.symm⟩
  · cases z with
    | nil => exact ⟨[], by rw [hx, List.append_nil, List.append_nil]⟩
    | cons d z =>
      obtain ⟨rfl, -⟩ := List.cons.inj hz
      exact absurd (hx ▸ List.mem_append_right _ List.mem_cons_self) hc

theorem exists_stop (p : Char → Bool) (text : List Char) : ∃ x rest, text = x ++ rest ∧ (∀ c ∈ x, p c = false) ∧
    Stops p rest ∧ text.takeWhile (fun c => !p c) = x ∧ text.dropWhile (fun c => !p c) = rest := by
  refine ⟨text.takeWhile fun c => !p c, text.dropWhile fun c => !p c, List.takeWhile_append_dropWhile.symm,
    fun c hc => ?_, fun c hc => ?_, rfl, rfl⟩
  · simpa using List.mem_takeWhile_imp hc
  · have := List.head?_dropWhile_not (fun c => !p c) text
    rw [Option.mem_def.1 hc] at this
    simpa using this

theorem authority_subset_append (x y : List Char) : authority x ⊆ authority (x ++ y) := by
  intro c hc
  rw [authority, List.takeWhile_append]
  split
  · exact List.mem_append_left _ ((List.takeWhile_prefix _).subset hc)
  · exact hc

theorem mem_authority_append {c : Char} {x y : List Char} (h : c ∈ authority (x ++ y)) : c ∈ authority x ∨ c ∈ authority y := by
  rw [authority, List.takeWhile_append] at h
  split at h
  · rw [List.mem_append] at h
    refine h.imp_left fun hx => ?_
    rename_i hlen
    rw [authority, (List.takeWhile_prefix _).eq_of_length hlen]
    exact hx
  · exact .inl h

/-! ### The query of a text in parts -/

/-- Neither a query nor a fragment begins in it. -/
def Unmarked (text : List Char) : Prop := ∀ c ∈ text, isPathEnd c = false

/-- A query begins in the text, and with what is behind the text it is one that is asked for. -/
def HasQuery (p : List Char → Prop) (text behind : List Char) : Prop :=
  ∃ u v, text = u ++ '?' :: v ∧ Unmarked u ∧ p ((v ++ behind).takeWhile (· ≠ '#'))

theorem hasQuery_append_iff {p : List Char → Prop} {x y behind : List Char} : HasQuery p (x ++ y) behind ↔
    HasQuery p x (y ++ behind) ∨ Unmarked x ∧ HasQuery p y behind := by
  constructor
  · rintro ⟨u, v, htext, hu, hp⟩
    rcases List.append_eq_append_iff.1 htext with ⟨z, rfl, hy⟩ | ⟨z, rfl, hz⟩
    · exact .inr ⟨fun c hc => hu c (List.mem_append_left _ hc), z, v, hy, fun c hc => hu c (List.mem_append_right _ hc), hp⟩
    · cases z with
      | nil =>
        rw [List.append_nil]
        exact .inr ⟨hu, [], v, hz.symm, fun c hc => absurd hc List.not_mem_nil, hp⟩
      | cons c z =>
        obtain ⟨rfl, rfl⟩ := List.cons.inj hz
        exact .inl ⟨u, z, rfl, hu, by rwa [List.append_eq, List.append_assoc] at hp⟩
  · rintro (⟨u, v, rfl, hu, hp⟩ | ⟨hx, u, v, rfl, hu, hp⟩)
    · exact ⟨u, v ++ y, by simp, hu, by rwa [List.append_assoc]⟩
    · exact ⟨x ++ u, v, by simp, fun c hc => (List.mem_append.1 hc).elim (hx c) (hu c), hp⟩

theorem hasQuery_of_unmarked_append_iff {p : List Char → Prop} {x y behind : List Char} (hx : Unmarked x) :
    HasQuery p (x ++ y) behind ↔ HasQuery p y behind := by
  rw [hasQuery_append_iff]
  refine ⟨fun h => h.elim ?_ And.right, fun h => .inr ⟨hx, h⟩⟩
  rintro ⟨u, v, rfl, -, -⟩
  exact absurd (hx '?' (by simp)) (by decide)

theorem hasQuery_iff {p : List Char → Prop} {text : List Char} : HasQuery p text [] ↔ ∃ q, query? text = some q ∧ p q := by
  constructor
  · rintro ⟨u, v, rfl, hu, hp⟩
    have hdrop := (@takeWhile_stop isPathEnd u ('?' :: v) hu fun c hc => by cases hc; rfl).2
    rw [List.append_nil] at hp
    refine ⟨_, ?_, hp⟩
    rw [query?, hdrop]
    rfl
  · rintro ⟨q, hquery, hp⟩
    obtain ⟨u, rest, htext, hu, hrest, -, hdrop⟩ := exists_stop isPathEnd text
    rw [query?, hdrop] at hquery
    split at hquery
    · cases hquery
      exact ⟨u, _, htext, hu, by rwa [List.append_nil]⟩
    · cases hquery

/-! ### The user information of a text -/

/-- `u:p@h` stands at the front of a text, up to the end of the authority. -/
structure Reads (text u p h rest : List Char) : Prop where
  eq : text = u ++ ':' :: (p ++ '@' :: (h ++ rest))
  user : ∀ c ∈ u, c ≠ ':' ∧ isDelimiter c = false
  password : ∀ c ∈ p, isDelimiter c = false
  host : ∀ c ∈ h, c ≠ '@' ∧ isDelimiter c = false
  rest : Stops isDelimiter rest

namespace Reads

variable {text u p h rest : List Char}

theorem clean (hreads : Reads text u p h rest) : ∀ c ∈ u ++ ':' :: (p ++ '@' :: h), isDelimiter c = false := by
  intro c hc
  simp only [List.mem_append, List.mem_cons] at hc
  rcases hc with hc | rfl | hc | rfl | hc
  · exact (hreads.user c hc).2
  · rfl
  · exact hreads.password c hc
  · rfl
  · exact (hreads.host c hc).2

theorem authority_eq (hreads : Reads text u p h rest) :
    authority text = u ++ ':' :: (p ++ '@' :: h) ∧ text.dropWhile (fun c => !isDelimiter c) = rest := by
  have htext : text = (u ++ ':' :: (p ++ '@' :: h)) ++ rest := by rw [hreads.eq]; simp
  rw [authority, htext]
  exact takeWhile_stop hreads.clean hreads.rest

end Reads

/-- The last `@` of an authority. -/
theorem split_at {x h : List Char} (hh : '@' ∉ h) : userinfo (x ++ '@' :: h) = x ∧ hostport (x ++ '@' :: h) = h := by
  have hall : ∀ c ∈ h.reverse, decide (c ≠ '@') = true := fun c hc => by
    have : c ≠ '@' := fun heq => hh (by simpa [heq] using hc)
    simpa using this
  have hrev : (x ++ '@' :: h).reverse = h.reverse ++ '@' :: x.reverse := by simp
  constructor
  · rw [userinfo, List.rdropWhile, hrev, List.dropWhile_append_of_pos hall]
    simp
  · rw [hostport, List.rtakeWhile, hrev, List.takeWhile_append_of_pos hall]
    simp

theorem userinfo_of_not_mem {authority : List Char} (h : '@' ∉ authority) : userinfo authority = [] := by
  have hnil : authority.rdropWhile (· ≠ '@') = [] := by
    refine List.rdropWhile_eq_nil_iff.2 fun c hc => ?_
    have : c ≠ '@' := fun heq => h (heq ▸ hc)
    simpa using this
  rw [userinfo, hnil]
  rfl

theorem exists_split_at {authority : List Char} (h : '@' ∈ authority) : ∃ x y, authority = x ++ '@' :: y ∧ '@' ∉ y := by
  obtain ⟨before, after, hrev, hnot⟩ := List.eq_append_cons_of_mem (List.mem_reverse.2 h)
  refine ⟨after.reverse, before.reverse, ?_, fun hmem => hnot (List.mem_reverse.1 hmem)⟩
  rw [← List.reverse_reverse authority, hrev]
  simp

theorem split_colon {u p : List Char} (hu : ':' ∉ u) : user (u ++ ':' :: p) = u ∧ password? (u ++ ':' :: p) = some p := by
  have hall : ∀ c ∈ u, decide (c ≠ ':') = true := fun c hc => by
    have : c ≠ ':' := fun heq => hu (heq ▸ hc)
    simpa using this
  constructor
  · rw [user, List.takeWhile_append_of_pos hall]
    simp
  · rw [password?, List.dropWhile_append_of_pos hall]
    simp

theorem eq_of_password? {userinfo p : List Char} (h : password? userinfo = some p) :
    userinfo = user userinfo ++ ':' :: p ∧ ':' ∉ user userinfo := by
  have hmem : ':' ∈ userinfo := by
    by_contra hnot
    have hnil : userinfo.dropWhile (· ≠ ':') = [] := List.dropWhile_eq_nil_iff.2 fun c hc => by
      have : c ≠ ':' := fun heq => hnot (heq ▸ hc)
      simpa using this
    rw [password?, hnil] at h
    cases h
  obtain ⟨u, q, rfl, hu⟩ := List.eq_append_cons_of_mem hmem
  obtain ⟨huser, hpassword⟩ := split_colon (p := q) hu
  rw [hpassword] at h
  cases h
  rw [huser]
  exact ⟨rfl, hu⟩

namespace Reads

variable {text u p h rest : List Char}

theorem userinfo_eq (hreads : Reads text u p h rest) :
    userinfo (authority text) = u ++ ':' :: p ∧ hostport (authority text) = h := by
  rw [hreads.authority_eq.1]
  have := @split_at (u ++ ':' :: p) h fun hmem => (hreads.host _ hmem).1 rfl
  simpa using this

theorem user_eq (hreads : Reads text u p h rest) :
    Url.user (userinfo (authority text)) = u ∧ password? (userinfo (authority text)) = some p := by
  rw [hreads.userinfo_eq.1]
  exact split_colon fun hmem => (hreads.user _ hmem).1 rfl

/-- What is read as a password stands so. -/
theorem of_password? (hpassword : password? (userinfo (authority text)) = some p) :
    ∃ h rest, Reads text (Url.user (userinfo (authority text))) p h rest := by
  obtain ⟨x, rest, htext, hx, hrest, hauthority, -⟩ := exists_stop isDelimiter text
  have hxeq : authority text = x := hauthority
  rw [hxeq] at hpassword ⊢
  have hat : '@' ∈ x := by
    by_contra hnot
    rw [userinfo_of_not_mem hnot] at hpassword
    cases hpassword
  obtain ⟨info, h, rfl, hh⟩ := exists_split_at hat
  rw [(split_at hh).1] at hpassword ⊢
  obtain ⟨hinfo, hcolon⟩ := eq_of_password? hpassword
  have hclean : ∀ c ∈ info, isDelimiter c = false := fun c hc => hx c (List.mem_append_left _ hc)
  rw [hinfo] at hclean
  refine ⟨h, rest, ?_, fun c hc => ⟨fun heq => hcolon (heq ▸ hc), hclean c (List.mem_append_left _ hc)⟩,
    fun c hc => hclean c (List.mem_append_right _ (List.mem_cons_of_mem _ hc)), fun c hc => ⟨fun heq => hh (heq ▸ hc), ?_⟩,
    hrest⟩
  · rw [htext]
    conv_lhs => rw [hinfo]
    simp
  · exact hx c (List.mem_append_right _ (List.mem_cons_of_mem _ hc))

theorem path_eq (hreads : Reads text u p h rest) :
    path text = rest.takeWhile (fun c => !isPathEnd c) ∧
      text.dropWhile (fun c => !isPathEnd c) = rest.dropWhile (fun c => !isPathEnd c) := by
  constructor
  · rw [path, hreads.authority_eq.2]
  · have hall : ∀ c ∈ u ++ ':' :: (p ++ '@' :: h), (!isPathEnd c) = true := fun c hc => by
      have := hreads.clean c hc
      simp_all [isDelimiter, isPathEnd]
    rw [show text = (u ++ ':' :: (p ++ '@' :: h)) ++ rest by rw [hreads.eq]; simp, List.dropWhile_append_of_pos hall]

end Reads

/-- A host name, of which no character ends anything. -/
def isUnreserved (c : Char) : Bool := c.isAlphanum || c = '-' || c = '.' || c = '_' || c = '~'

theorem isUnreserved_ne {c : Char} (hc : isUnreserved c = true) :
    c ≠ ':' ∧ c ≠ '@' ∧ c ≠ '[' ∧ isDelimiter c = false := by
  refine ⟨?_, ?_, ?_, ?_⟩
  · rintro rfl
    cases hc
  · rintro rfl
    cases hc
  · rintro rfl
    cases hc
  · simp only [isDelimiter, decide_eq_false_iff_not]
    rintro (rfl | rfl | rfl) <;> cases hc

theorem host_port {name : List Char} (hname : ∀ c ∈ name, isUnreserved c = true) (n : Nat) :
    host (name ++ ':' :: Nat.toDigits 10 n) = name ∧ port? (name ++ ':' :: Nat.toDigits 10 n) = some n := by
  have hhost : host (name ++ ':' :: Nat.toDigits 10 n) = name := by
    have hbracket : (name ++ ':' :: Nat.toDigits 10 n).head? ≠ some '[' := by
      cases name with
      | nil => simp
      | cons c name => simpa using (isUnreserved_ne (hname c List.mem_cons_self)).2.2.1
    rw [host, if_neg hbracket, List.takeWhile_append_of_pos fun c hc => by
      simpa using (isUnreserved_ne (hname c hc)).1]
    simp
  refine ⟨hhost, ?_⟩
  have hdigits : Nat.toDigits 10 n ≠ [] ∧ (Nat.toDigits 10 n).all Char.isDigit = true :=
    ⟨Nat.toDigits_ne_nil, List.all_eq_true.2 fun c hc => Nat.isDigit_of_mem_toDigits (by decide) (by decide) hc⟩
  rw [port?, hhost, List.drop_left]
  show (if _ ∧ _ then _ else _) = _
  rw [if_pos hdigits, Nat.ofDigitChars_toDigits (by decide) (by decide)]

end Url
