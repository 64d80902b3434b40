import TemplateAxum.Lib.Url

/-!
# Form data

The `application/x-www-form-urlencoded` serializer of the URL Standard. What it writes is read back pair by
pair by `UrlQuery.pairs`.
-/

namespace FormData

/-- A byte that stands for itself. -/
def isPlain (b : UInt8) : Bool :=
  (48 ≤ b && b ≤ 57) || (65 ≤ b && b ≤ 90) || (97 ≤ b && b ≤ 122) || b == 42 || b == 45 || b == 46 || b == 95

def hexDigit (n : UInt8) : Char := Char.ofNat (if n < 10 then 48 + n.toNat else 55 + n.toNat)

def encodeByte (b : UInt8) : List Char :=
  if isPlain b then [Char.ofNat b.toNat] else if b = 32 then ['+'] else ['%', hexDigit (b / 16), hexDigit (b % 16)]

def encodeBytes (bytes : List UInt8) : List Char := bytes.flatMap encodeByte

def encodePair (pair : List Char × List Char) : List Char :=
  encodeBytes (Url.bytes pair.1) ++ '=' :: encodeBytes (Url.bytes pair.2)

def encode (pairs : List (List Char × List Char)) : List Char := ['&'].intercalate (pairs.map encodePair)

/-- What one byte is written as: it begins neither a pair nor a value, and it is read as the byte. -/
theorem encodeByte_spec : ∀ b : UInt8, '&' ∉ encodeByte b ∧ '=' ∉ encodeByte b ∧
    (isPlain b = true → Char.ofNat b.toNat ≠ '+' ∧ Char.ofNat b.toNat ≠ '%' ∧ String.utf8EncodeChar (Char.ofNat b.toNat) = [b]) ∧
    UrlQuery.hexDigit? (hexDigit (b / 16)) = some (b / 16) ∧ UrlQuery.hexDigit? (hexDigit (b % 16)) = some (b % 16) ∧
    b / 16 * 16 + b % 16 = b := by
  have h : ∀ n : Fin 256, '&' ∉ encodeByte (UInt8.ofNat n) ∧ '=' ∉ encodeByte (UInt8.ofNat n) ∧
      (isPlain (UInt8.ofNat n) = true → Char.ofNat n ≠ '+' ∧ Char.ofNat n ≠ '%' ∧
        String.utf8EncodeChar (Char.ofNat n) = [UInt8.ofNat n]) ∧
      UrlQuery.hexDigit? (hexDigit (UInt8.ofNat n / 16)) = some (UInt8.ofNat n / 16) ∧
      UrlQuery.hexDigit? (hexDigit (UInt8.ofNat n % 16)) = some (UInt8.ofNat n % 16) ∧
      UInt8.ofNat n / 16 * 16 + UInt8.ofNat n % 16 = UInt8.ofNat n := by
    decide +kernel
  intro b
  have := h ⟨b.toNat, b.toNat_lt⟩
  simpa using this

theorem decode_encodeByte (b : UInt8) (rest : List Char) : UrlQuery.decode (encodeByte b ++ rest) = b :: UrlQuery.decode rest := by
  obtain ⟨-, -, hplain, hhigh, hlow, hsum⟩ := encodeByte_spec b
  unfold encodeByte
  split_ifs with h h32
  · obtain ⟨hplus, hpercent, hbytes⟩ := hplain h
    rw [List.singleton_append, UrlQuery.decode, hbytes]
    · rfl
    · exact hplus
    · intro _ _ _ heq
      exact absurd heq hpercent
  · rw [h32]
    rfl
  · show UrlQuery.decode ('%' :: hexDigit (b / 16) :: hexDigit (b % 16) :: rest) = _
    rw [UrlQuery.decode, hhigh, hlow]
    simp only [hsum]

theorem decode_encodeBytes (bytes : List UInt8) : UrlQuery.decode (encodeBytes bytes) = bytes := by
  induction bytes with
  | nil => rfl
  | cons b bytes ih => rw [encodeBytes, List.flatMap_cons, decode_encodeByte, ← encodeBytes, ih]

theorem notMem_encodeBytes {c : Char} (hc : ∀ b, c ∉ encodeByte b) (bytes : List UInt8) : c ∉ encodeBytes bytes := by
  rw [encodeBytes, List.mem_flatMap]
  rintro ⟨b, -, h⟩
  exact hc b h

theorem amp_notMem_encodePair (pair : List Char × List Char) : '&' ∉ encodePair pair := by
  have hamp := notMem_encodeBytes fun b => (encodeByte_spec b).1
  rw [encodePair, List.mem_append, List.mem_cons]
  rintro (h | h | h)
  · exact hamp _ h
  · cases h
  · exact hamp _ h

theorem pair_encodePair (pair : List Char × List Char) :
    UrlQuery.pair (encodePair pair) = (Url.bytes pair.1, Url.bytes pair.2) := by
  have hname : ∀ c ∈ encodeBytes (Url.bytes pair.1), decide (c ≠ '=') = true := by
    intro c hc
    refine decide_eq_true fun heq => ?_
    rw [heq] at hc
    exact notMem_encodeBytes (fun b => (encodeByte_spec b).2.1) _ hc
  rw [UrlQuery.pair, encodePair, List.takeWhile_append_of_pos hname, List.dropWhile_append_of_pos hname,
    List.takeWhile_cons_of_neg (by decide), List.dropWhile_cons_of_neg (by decide), List.append_nil, List.drop_one,
    List.tail_cons, decode_encodeBytes, decode_encodeBytes]

/-- A form is read as it was written. -/
theorem pairs_encode (pairs : List (List Char × List Char)) :
    UrlQuery.pairs (encode pairs) = pairs.map fun pair => (Url.bytes pair.1, Url.bytes pair.2) := by
  cases pairs with
  | nil => rfl
  | cons first rest =>
    have hsplit : (encode (first :: rest)).splitOn '&' = (first :: rest).map encodePair := by
      refine List.splitOn_intercalate '&' (fun text htext => ?_) (by simp)
      obtain ⟨pair, -, rfl⟩ := List.mem_map.1 htext
      exact amp_notMem_encodePair pair
    have hne : ∀ text ∈ (first :: rest).map encodePair, decide (text ≠ []) = true := by
      intro text htext
      obtain ⟨pair, -, rfl⟩ := List.mem_map.1 htext
      simp [encodePair]
    rw [UrlQuery.pairs, hsplit, List.filter_eq_self.2 hne, List.map_map]
    exact List.map_congr_left fun pair _ => pair_encodePair pair

end FormData
