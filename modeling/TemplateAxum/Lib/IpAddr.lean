import Mathlib.Data.List.Basic
import Mathlib.Data.List.Induction
import Mathlib.Logic.Function.Basic

/-!
# IP addresses and their text

`std::net::IpAddr` with its `Display`: dotted decimal for IPv4, and for IPv6 hexadecimal groups with
the first longest run of at least two zero groups left out. An address can be read off its text.
-/

structure Ipv4Addr where
  a : UInt8
  b : UInt8
  c : UInt8
  d : UInt8
deriving DecidableEq

structure Ipv6Addr where
  segments : List UInt16
  length : segments.length = 8
deriving DecidableEq

inductive IpAddr
  | v4 (addr : Ipv4Addr)
  | v6 (addr : Ipv6Addr)
deriving DecidableEq

/-! ### Digits -/

theorem digitChar_inj : ∀ m < 16, ∀ n < 16, Nat.digitChar m = Nat.digitChar n → m = n := by decide

theorem toDigits_inj {b : Nat} (h1 : 1 < b) (hb : b ≤ 16) {m n : Nat} (h : Nat.toDigits b m = Nat.toDigits b n) : m = n := by
  induction m using Nat.strongRecOn generalizing n with
  | ind m ih =>
    have hm := Nat.mod_lt m (show 0 < b by omega)
    have hn := Nat.mod_lt n (show 0 < b by omega)
    have hlen : m < b ↔ n < b := by
      have hdigit := fun k => Nat.length_toDigits_le_iff (n := k) h1 (k := 1) Nat.one_pos
      rw [Nat.pow_one] at hdigit
      rw [← hdigit, ← hdigit, h]
    rw [Nat.toDigits_eq_if h1, Nat.toDigits_eq_if (n := n) h1] at h
    by_cases hmb : m < b
    · rw [if_pos hmb, if_pos (hlen.1 hmb)] at h
      have hnb := hlen.1 hmb
      exact digitChar_inj m (by omega) n (by omega) (List.cons.inj h).1
    · rw [if_neg hmb, if_neg fun hnb => hmb (hlen.2 hnb)] at h
      obtain ⟨hdiv, hmod⟩ := List.append_inj' h rfl
      have hlast := digitChar_inj _ (by omega) _ (by omega) (List.cons.inj hmod).1
      have hfirst := ih (m / b) (Nat.div_lt_self (by omega) h1) hdiv
      rw [← Nat.div_add_mod m b, ← Nat.div_add_mod n b, hlast, hfirst]

theorem mem_toDigits {b : Nat} (h1 : 1 < b) {n : Nat} {c : Char} (h : c ∈ Nat.toDigits b n) : ∃ d < b, c = Nat.digitChar d := by
  induction n using Nat.strongRecOn with
  | ind n ih =>
    rw [Nat.toDigits_eq_if h1] at h
    split at h
    · rename_i hn
      exact ⟨n, hn, List.mem_singleton.1 h⟩
    · rename_i hn
      rcases List.mem_append.1 h with h | h
      · exact ih _ (Nat.div_lt_self (by omega) h1) h
      · exact ⟨n % b, Nat.mod_lt n (by omega), List.mem_singleton.1 h⟩

theorem digitChar_ne : ∀ d < 16, Nat.digitChar d ≠ ':' ∧ Nat.digitChar d ≠ '.' := by decide

/-- Digits are neither of the two separators. -/
theorem not_mem_toDigits {b : Nat} (h1 : 1 < b) (hb : b ≤ 16) (n : Nat) :
    ':' ∉ Nat.toDigits b n ∧ '.' ∉ Nat.toDigits b n := by
  constructor
  · intro h
    obtain ⟨d, hd, heq⟩ := mem_toDigits h1 h
    exact (digitChar_ne d (by omega)).1 heq.symm
  · intro h
    obtain ⟨d, hd, heq⟩ := mem_toDigits h1 h
    exact (digitChar_ne d (by omega)).2 heq.symm

/-! ### IPv4 -/

namespace Ipv4Addr

def octets (addr : Ipv4Addr) : List UInt8 := [addr.a, addr.b, addr.c, addr.d]

/-- `{}.{}.{}.{}`. -/
def display (addr : Ipv4Addr) : List Char :=
  ['.'].intercalate (addr.octets.map fun octet => Nat.toDigits 10 octet.toNat)

theorem splitOn_display (addr : Ipv4Addr) :
    addr.display.splitOn '.' = addr.octets.map fun octet => Nat.toDigits 10 octet.toNat := by
  refine List.splitOn_intercalate '.' ?_ (by simp [octets])
  intro text htext
  obtain ⟨octet, -, rfl⟩ := List.mem_map.1 htext
  exact (not_mem_toDigits (by decide) (by decide) _).2

theorem display_inj {addr addr' : Ipv4Addr} (h : addr.display = addr'.display) : addr = addr' := by
  have hmap := congrArg (List.splitOn '.') h
  rw [splitOn_display, splitOn_display] at hmap
  have hinj : Function.Injective fun octet : UInt8 => Nat.toDigits 10 octet.toNat :=
    fun x y hxy => UInt8.toNat_inj.1 (toDigits_inj (by decide) (by decide) hxy)
  have hoctets : addr.octets = addr'.octets := List.map_injective_iff.2 hinj hmap
  cases addr
  cases addr'
  simpa [octets] using hoctets

theorem mem_display (addr : Ipv4Addr) : '.' ∈ addr.display := by
  simp [display, octets, List.intercalate]

theorem not_mem_display (addr : Ipv4Addr) : ':' ∉ addr.display := by
  have hdigits := fun octet : UInt8 => (not_mem_toDigits (b := 10) (by decide) (by decide) octet.toNat).1
  simp [display, octets, List.intercalate, hdigits]

end Ipv4Addr

/-! ### IPv6 -/

/-- A run of segments. -/
structure Span where
  start : Nat
  len : Nat
deriving DecidableEq

namespace Span

/-- One segment more: the longest run of zeros so far, and the one that ends here. -/
def step (spans : Span × Span) (item : UInt16 × Nat) : Span × Span :=
  let (longest, current) := spans
  let (segment, i) := item
  if segment = 0 then
    let current : Span := ⟨if current.len = 0 then i else current.start, current.len + 1⟩
    (if longest.len < current.len then current else longest, current)
  else (longest, ⟨0, 0⟩)

/-- The first longest run of zeros. -/
def zeroes (segments : List UInt16) : Span := (segments.zipIdx.foldl step (⟨0, 0⟩, ⟨0, 0⟩)).1

/-- All segments of the run are zero. -/
def Zero (segments : List UInt16) (span : Span) : Prop :=
  ∀ i, span.start ≤ i → i < span.start + span.len → segments[i]? = some 0

theorem Zero.append {segments : List UInt16} {span : Span} (h : span.Zero segments) (rest : List UInt16) :
    span.Zero (segments ++ rest) := by
  intro i hstart hlen
  have := h i hstart hlen
  rw [List.getElem?_append_left (List.getElem?_eq_some_iff.1 this).1]
  exact this

theorem zero_step (segments : List UInt16) :
    let spans := segments.zipIdx.foldl step (⟨0, 0⟩, ⟨0, 0⟩)
    spans.1.Zero segments ∧ spans.2.Zero segments ∧ (spans.2.len ≠ 0 → spans.2.start + spans.2.len = segments.length) := by
  induction segments using List.reverseRecOn with
  | nil => exact ⟨fun i _ h => absurd h (by simp), fun i _ h => absurd h (by simp), fun h => absurd rfl h⟩
  | append_singleton segments segment ih =>
    rw [List.zipIdx_append, List.foldl_append]
    generalize segments.zipIdx.foldl step (⟨0, 0⟩, ⟨0, 0⟩) = spans at ih ⊢
    obtain ⟨longest, current⟩ := spans
    obtain ⟨hlongest, hcurrent, hend⟩ := ih
    simp only [Nat.zero_add, List.zipIdx_singleton, List.foldl_cons, List.foldl_nil, step]
    by_cases hzero : segment = 0
    · rw [if_pos hzero]
      have hnew : Zero (segments ++ [segment]) ⟨if current.len = 0 then segments.length else current.start, current.len + 1⟩ := by
        intro i hstart hlen
        by_cases hi : i = segments.length
        · subst hi
          rw [List.getElem?_append_right (Nat.le_refl _), Nat.sub_self, hzero]
          rfl
        · by_cases hcur : current.len = 0
          · simp only [hcur, if_true] at hstart hlen
            omega
          · simp only [hcur, if_false] at hstart hlen
            have := hend hcur
            exact hcurrent.append [segment] i hstart (by simp only at *; omega)
      refine ⟨?_, hnew, fun _ => ?_⟩
      · by_cases hlt : longest.len < current.len + 1
        · rw [if_pos hlt]
          exact hnew
        · rw [if_neg hlt]
          exact hlongest.append [segment]
      · by_cases hcur : current.len = 0
        · simp [hcur]
        · have := hend hcur
          simp only [hcur, if_false, List.length_append, List.length_singleton] at this ⊢
          omega
    · rw [if_neg hzero]
      exact ⟨hlongest.append _, fun i _ h => absurd h (by simp), fun h => absurd rfl h⟩

/-- The segments are what stands before the run, zeros, and what stands after it. -/
theorem eq_of_zero {segments : List UInt16} {span : Span} (h : span.Zero segments) (hlen : span.len ≠ 0) :
    segments = segments.take span.start ++ List.replicate span.len 0 ++ segments.drop (span.start + span.len) := by
  have hend : span.start + span.len ≤ segments.length := by
    have := (List.getElem?_eq_some_iff.1 (h (span.start + span.len - 1) (by omega) (by omega))).1
    omega
  refine List.ext_getElem? fun i => ?_
  by_cases h1 : i < span.start
  · rw [List.append_assoc, List.getElem?_append_left (by rw [List.length_take]; omega), List.getElem?_take_of_lt h1]
  · by_cases h2 : i < span.start + span.len
    · rw [h i (by omega) h2, List.getElem?_append_left (by simp; omega),
        List.getElem?_append_right (by simp; omega), List.getElem?_replicate, if_pos (by simp; omega)]
    · rw [List.getElem?_append_right (by simp; omega), List.getElem?_drop]
      congr 1
      simp
      omega

end Span

namespace Ipv6Addr

/-- `{:x}`. -/
def hex (segment : UInt16) : List Char := Nat.toDigits 16 segment.toNat

/-- `fmt_subslice`. -/
def fmtSubslice (chunk : List UInt16) : List Char := [':'].intercalate (chunk.map hex)

/-- `to_ipv4_mapped`, for `::ffff:a.b.c.d`. -/
def toIpv4Mapped (addr : Ipv6Addr) : Option Ipv4Addr :=
  match addr.segments with
  | [0, 0, 0, 0, 0, 0xffff, ab, cd] => some ⟨(ab >>> 8).toUInt8, ab.toUInt8, (cd >>> 8).toUInt8, cd.toUInt8⟩
  | _ => none

def display (addr : Ipv6Addr) : List Char :=
  match addr.toIpv4Mapped with
  | some ipv4 => "::ffff:".toList ++ ipv4.display
  | none =>
    let zeroes := Span.zeroes addr.segments
    if 1 < zeroes.len then
      fmtSubslice (addr.segments.take zeroes.start) ++ ':' :: ':' :: fmtSubslice (addr.segments.drop (zeroes.start + zeroes.len))
    else fmtSubslice addr.segments

/-! An IPv6 text by its colons. -/

theorem hex_injective : Function.Injective hex :=
  fun _ _ h => UInt16.toNat_inj.1 (toDigits_inj (by decide) (by decide) h)

theorem hex_ne_nil (segment : UInt16) : hex segment ≠ [] := Nat.toDigits_ne_nil

theorem not_mem_hex (segment : UInt16) : ':' ∉ hex segment ∧ '.' ∉ hex segment :=
  not_mem_toDigits (by decide) (by decide) _

theorem splitOn_fmtSubslice (chunk : List UInt16) :
    (fmtSubslice chunk).splitOn ':' = if chunk = [] then [[]] else chunk.map hex := by
  split
  · rename_i hnil
    rw [hnil]
    rfl
  · rename_i hne
    refine List.splitOn_intercalate ':' ?_ (by simpa using hne)
    intro text htext
    obtain ⟨segment, -, rfl⟩ := List.mem_map.1 htext
    exact (not_mem_hex segment).1

theorem not_mem_fmtSubslice (chunk : List UInt16) : '.' ∉ fmtSubslice chunk := by
  induction chunk with
  | nil => simp [fmtSubslice]
  | cons segment chunk ih =>
    cases chunk with
    | nil => simpa [fmtSubslice] using (not_mem_hex segment).2
    | cons next rest =>
      have : fmtSubslice (segment :: next :: rest) = hex segment ++ ':' :: fmtSubslice (next :: rest) := by
        simp [fmtSubslice, List.intercalate_cons_cons]
      rw [this, List.mem_append, List.mem_cons]
      rintro (h | h | h)
      · exact (not_mem_hex segment).2 h
      · cases h
      · exact ih h

/-- The groups before the first empty one, whatever follows it. -/
theorem takeWhile_groups (chunk : List UInt16) (rest : List (List Char)) :
    ((if chunk = [] then [[]] else chunk.map hex) ++ [] :: rest).takeWhile (· ≠ []) = chunk.map hex := by
  split
  · rename_i hnil
    rw [hnil]
    rfl
  · rw [List.takeWhile_append_of_pos fun text htext => ?_]
    · simp
    · obtain ⟨segment, -, rfl⟩ := List.mem_map.1 htext
      simpa using hex_ne_nil segment

theorem map_reverse_groups (chunk : List UInt16) :
    (if chunk = [] then [[]] else chunk.map hex).reverse = if chunk.reverse = [] then [[]] else chunk.reverse.map hex := by
  split
  · rename_i hnil
    rw [hnil]
    rfl
  · rename_i hne
    rw [if_neg (by simpa using hne), List.map_reverse]

/-- Both ends of a compressed text can be read off it. -/
theorem compressed_inj {pre post pre' post' : List UInt16}
    (h : fmtSubslice pre ++ ':' :: ':' :: fmtSubslice post = fmtSubslice pre' ++ ':' :: ':' :: fmtSubslice post') :
    pre = pre' ∧ post = post' := by
  have split := fun pre post : List UInt16 => calc
    (fmtSubslice pre ++ ':' :: ':' :: fmtSubslice post).splitOn ':'
      = (fmtSubslice pre).splitOn ':' ++ (':' :: fmtSubslice post).splitOn ':' := List.splitOn_append_cons_self _ _
    _ = (fmtSubslice pre).splitOn ':' ++ ([] :: (fmtSubslice post).splitOn ':') := by
        rw [← List.nil_append (':' :: fmtSubslice post), List.splitOn_append_cons_self]; rfl
    _ = (if pre = [] then [[]] else pre.map hex) ++ [] :: (if post = [] then [[]] else post.map hex) := by
        rw [splitOn_fmtSubslice, splitOn_fmtSubslice]
  have hsplit := (split pre post).symm.trans ((congrArg (List.splitOn ':') h).trans (split pre' post'))
  constructor
  · have := congrArg (List.takeWhile (· ≠ [])) hsplit
    rw [takeWhile_groups, takeWhile_groups] at this
    exact List.map_injective_iff.2 hex_injective this
  · have := congrArg (fun groups => groups.reverse.takeWhile (· ≠ [])) hsplit
    simp only [List.reverse_append, List.reverse_cons, List.append_assoc, List.singleton_append, map_reverse_groups,
      takeWhile_groups] at this
    exact List.reverse_injective (List.map_injective_iff.2 hex_injective this)

/-- A text with all its groups is not a compressed one. -/
theorem full_ne_compressed {segments pre post : List UInt16} (hne : segments ≠ []) :
    fmtSubslice segments ≠ fmtSubslice pre ++ ':' :: ':' :: fmtSubslice post := by
  intro h
  have hsplit := congrArg (List.splitOn ':') h
  rw [List.splitOn_append_cons_self, ← List.nil_append (':' :: fmtSubslice post), List.splitOn_append_cons_self,
    splitOn_fmtSubslice, if_neg hne] at hsplit
  have hmem : ([] : List Char) ∈ segments.map hex := by
    rw [hsplit]
    simp [List.splitOn_nil]
  obtain ⟨segment, -, hnil⟩ := List.mem_map.1 hmem
  exact hex_ne_nil segment hnil

theorem full_inj {segments segments' : List UInt16} (hne : segments ≠ []) (hne' : segments' ≠ [])
    (h : fmtSubslice segments = fmtSubslice segments') : segments = segments' := by
  have hsplit := congrArg (List.splitOn ':') h
  rw [splitOn_fmtSubslice, splitOn_fmtSubslice, if_neg hne, if_neg hne'] at hsplit
  exact List.map_injective_iff.2 hex_injective hsplit

theorem bytes_inj {x y : UInt16} (hhi : (x >>> 8).toUInt8 = (y >>> 8).toUInt8) (hlo : x.toUInt8 = y.toUInt8) : x = y := by
  have hhi := congrArg UInt8.toNat hhi
  have hlo := congrArg UInt8.toNat hlo
  have hx := x.toNat_lt
  have hy := y.toNat_lt
  simp [UInt16.toNat_shiftRight, Nat.shiftRight_eq_div_pow] at hhi hlo
  exact UInt16.toNat_inj.1 (by omega)

theorem toIpv4Mapped_inj {addr addr' : Ipv6Addr} {ipv4 : Ipv4Addr} (h : addr.toIpv4Mapped = some ipv4)
    (h' : addr'.toIpv4Mapped = some ipv4) : addr = addr' := by
  have shape : ∀ {addr : Ipv6Addr}, addr.toIpv4Mapped = some ipv4 → ∃ ab cd,
      addr.segments = [0, 0, 0, 0, 0, 0xffff, ab, cd] ∧
        ipv4 = ⟨(ab >>> 8).toUInt8, ab.toUInt8, (cd >>> 8).toUInt8, cd.toUInt8⟩ := by
    intro addr h
    unfold toIpv4Mapped at h
    split at h
    · rename_i ab cd hsegments
      cases h
      exact ⟨ab, cd, hsegments, rfl⟩
    · cases h
  obtain ⟨ab, cd, hs, rfl⟩ := shape h
  obtain ⟨ab', cd', hs', heq⟩ := shape h'
  simp only [Ipv4Addr.mk.injEq] at heq
  have hab := bytes_inj heq.1 heq.2.1
  have hcd := bytes_inj heq.2.2.1 heq.2.2.2
  cases addr
  cases addr'
  simp_all

theorem mem_display (addr : Ipv6Addr) : ':' ∈ addr.display := by
  unfold display
  split
  · simp
  · dsimp only
    split
    · simp
    · have hlen := addr.length
      match hs : addr.segments, hlen with
      | a :: b :: rest, _ => simp [fmtSubslice, List.intercalate_cons_cons]

/-- Only a mapped address has a dot. -/
theorem mem_dot_iff (addr : Ipv6Addr) : '.' ∈ addr.display ↔ addr.toIpv4Mapped ≠ none := by
  unfold display
  cases addr.toIpv4Mapped with
  | some ipv4 => simp [ipv4.mem_display]
  | none =>
    dsimp only
    split
    · simp [not_mem_fmtSubslice]
    · simp [not_mem_fmtSubslice]

/-- What the text of an unmapped address shows. -/
theorem display_of_unmapped {addr : Ipv6Addr} (h : addr.toIpv4Mapped = none) :
    addr.display = fmtSubslice addr.segments ∨ ∃ pre post,
      addr.segments = pre ++ List.replicate (8 - pre.length - post.length) 0 ++ post ∧
        addr.display = fmtSubslice pre ++ ':' :: ':' :: fmtSubslice post := by
  unfold display
  rw [h]
  dsimp only
  split
  · rename_i hlen
    have hzero : (Span.zeroes addr.segments).Zero addr.segments := (Span.zero_step addr.segments).1
    have hsegments := Span.eq_of_zero hzero (by omega)
    refine .inr ⟨_, _, ?_, rfl⟩
    have hcount := congrArg List.length hsegments
    simp only [List.length_append, List.length_replicate, addr.length] at hcount
    rw [show 8 - (addr.segments.take _).length - (addr.segments.drop _).length = (Span.zeroes addr.segments).len by omega]
    exact hsegments
  · exact .inl rfl

theorem segments_ne_nil (addr : Ipv6Addr) : addr.segments ≠ [] := by
  intro h
  have := addr.length
  rw [h] at this
  cases this

theorem display_inj {addr addr' : Ipv6Addr} (h : addr.display = addr'.display) : addr = addr' := by
  cases hmap : addr.toIpv4Mapped with
  | some ipv4 =>
    have hdot : '.' ∈ addr'.display := h ▸ (mem_dot_iff addr).2 (by rw [hmap]; exact Option.some_ne_none _)
    obtain ⟨ipv4', hmap'⟩ := Option.ne_none_iff_exists'.1 ((mem_dot_iff addr').1 hdot)
    have htext : ipv4.display = ipv4'.display := by
      simpa [display, hmap, hmap'] using h
    cases Ipv4Addr.display_inj htext
    exact toIpv4Mapped_inj hmap hmap'
  | none =>
    have hmap' : addr'.toIpv4Mapped = none := by
      by_contra hno
      exact (mem_dot_iff addr).1 (h ▸ (mem_dot_iff addr').2 hno) hmap
    have hsegments : addr.segments = addr'.segments := by
      rcases display_of_unmapped hmap with hfull | ⟨pre, post, hs, htext⟩
      · rcases display_of_unmapped hmap' with hfull' | ⟨pre', post', hs', htext'⟩
        · exact full_inj addr.segments_ne_nil addr'.segments_ne_nil (hfull.symm.trans (h.trans hfull'))
        · exact absurd (hfull.symm.trans (h.trans htext')) (full_ne_compressed addr.segments_ne_nil)
      · rcases display_of_unmapped hmap' with hfull' | ⟨pre', post', hs', htext'⟩
        · exact absurd (hfull'.symm.trans (h.symm.trans htext)) (full_ne_compressed addr'.segments_ne_nil)
        · obtain ⟨rfl, rfl⟩ := compressed_inj (htext.symm.trans (h.trans htext'))
          rw [hs, hs']
    cases addr
    cases addr'
    simpa using hsegments

end Ipv6Addr

namespace IpAddr

/-- `Display`. -/
def display : IpAddr → List Char
  | v4 addr => addr.display
  | v6 addr => addr.display

theorem display_injective : Function.Injective display := by
  intro addr addr' h
  cases addr with
  | v4 addr =>
    cases addr' with
    | v4 addr' => rw [Ipv4Addr.display_inj h]
    | v6 addr' =>
      have h : addr.display = addr'.display := h
      exact absurd (h ▸ addr'.mem_display) addr.not_mem_display
  | v6 addr =>
    cases addr' with
    | v4 addr' =>
      have h : addr.display = addr'.display := h
      exact absurd (h ▸ addr.mem_display) addr'.not_mem_display
    | v6 addr' => rw [Ipv6Addr.display_inj h]

end IpAddr
