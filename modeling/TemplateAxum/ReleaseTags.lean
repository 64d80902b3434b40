import Mathlib.Data.List.MinMax
import Mathlib.Data.Prod.Lex
import Mathlib.Order.Basic
import TemplateAxum.Lib.Numeral

/-!
# Release tags

`compute_next_version.py`, which names the next release, and the choice of a tag by
`template_sync.py`. Both carry a copy of the grammar of tags and of their order.
-/

namespace TemplateAxum

/-! ### Tags -/

inductive PreType
  | alpha | beta | rc
deriving DecidableEq, Repr

def PreType.name : PreType → String
  | alpha => "alpha"
  | beta => "beta"
  | rc => "rc"

/-- `PRE_ORDER`. -/
def PreType.order : PreType → Nat
  | alpha => 0
  | beta => 1
  | rc => 2

structure ParsedTag where
  major : Nat
  minor : Nat
  patch : Nat
  preType : Option PreType
  preNum : Nat
deriving DecidableEq, Repr

namespace ParsedTag

abbrev Base := ℕ ×ₗ ℕ ×ₗ ℕ

/-- The first three of the tuple. -/
def base (p : ParsedTag) : Base := toLex (p.major, toLex (p.minor, p.patch))

end ParsedTag

def preType? (text : List Char) : Option (PreType × List Char) :=
  [PreType.alpha, .beta, .rc].findSome? fun preType =>
    (text.dropPrefix? preType.name.toList).map fun rest => (preType, rest)

/-- `$`, which also matches in front of a newline at the end. -/
def atEnd (text : List Char) : Bool := text = [] ∨ text = ['\n']

/-- `TAG_RE` and what is made of a match. -/
def parseTag (tag : String) : Option ParsedTag := do
  let rest ← tag.toList.dropPrefix? ['v']
  let (major, rest) ← Numeral.read? rest
  let rest ← rest.dropPrefix? ['.']
  let (minor, rest) ← Numeral.read? rest
  let rest ← rest.dropPrefix? ['.']
  let (patch, rest) ← Numeral.read? rest
  if atEnd rest then some ⟨major, minor, patch, none, 0⟩
  else
    let rest ← rest.dropPrefix? ['-']
    let (preType, rest) ← preType? rest
    let rest ← rest.dropPrefix? ['.']
    let (preNum, rest) ← Numeral.read? rest
    if atEnd rest then some ⟨major, minor, patch, some preType, preNum⟩ else none

abbrev SortKey := ℕ ×ₗ ℕ ×ₗ ℕ ×ₗ ℕ ×ₗ ℕ

def sortKey (parsed : ParsedTag) : SortKey :=
  let preRank := match parsed.preType with | none => 3 | some preType => preType.order
  toLex (parsed.major, toLex (parsed.minor, toLex (parsed.patch, toLex (preRank, parsed.preNum))))

/-! ### `compute_next_version.py` -/

namespace ComputeNextVersion

inductive Part
  | major | minor | patch
deriving DecidableEq

/-- `--bump`; `none` is the one of that name. -/
abbrev Bump := Option Part

/-- `--release-type`; `none` is `full`. -/
abbrev ReleaseType := Option PreType

structure Output where
  tag : String
  version : String
  prerelease : Bool
deriving DecidableEq

def bumpBase (base : ParsedTag.Base) : Part → ParsedTag.Base
  | .major => toLex ((ofLex base).1 + 1, toLex (0, 0))
  | .minor => toLex ((ofLex base).1, toLex ((ofLex (ofLex base).2).1 + 1, 0))
  | .patch => toLex ((ofLex base).1, toLex ((ofLex (ofLex base).2).1, (ofLex (ofLex base).2).2 + 1))

def parsedTags (allTags : List String) : List ParsedTag := allTags.filterMap parseTag

def latestFinalBase (parsedTags : List ParsedTag) : ParsedTag.Base :=
  (((parsedTags.filter fun p => p.preType.isNone).map ParsedTag.base).argmax id).getD (toLex (0, toLex (0, 0)))

def latestOverallBase (parsedTags : List ParsedTag) : ParsedTag.Base :=
  ((parsedTags.argmax sortKey).map ParsedTag.base).getD (toLex (0, toLex (0, 0)))

def nextBase (bump : Bump) (parsedTags : List ParsedTag) : ParsedTag.Base :=
  match bump with
  | none => latestOverallBase parsedTags
  | some part => bumpBase (latestFinalBase parsedTags) part

def nextNum (base : ParsedTag.Base) (preType : PreType) (parsedTags : List ParsedTag) : Nat :=
  (((parsedTags.filter fun p => p.base = base ∧ p.preType = some preType).map ParsedTag.preNum).argmax id).getD 0 + 1

def baseText (base : ParsedTag.Base) : String :=
  toString (ofLex base).1 ++ "." ++ toString (ofLex (ofLex base).2).1 ++ "." ++ toString (ofLex (ofLex base).2).2

def main (bump : Bump) (releaseType : ReleaseType) (allTags : List String) : Except String Output :=
  let parsedTags := parsedTags allTags
  let base := nextBase bump parsedTags
  match releaseType with
  | none =>
    let version := baseText base
    let tag := "v" ++ version
    if tag ∈ allTags then .error ("::error::" ++ tag ++ " already exists; choose a bump.")
    else .ok ⟨tag, version, false⟩
  | some preType =>
    let version := baseText base ++ "-" ++ preType.name ++ "." ++ toString (nextNum base preType parsedTags)
    .ok ⟨"v" ++ version, version, true⟩

end ComputeNextVersion

/-! ### `template_sync.py` -/

namespace TemplateSync

/-- A channel; `none` is `stable`. -/
abbrev Channel := Option PreType

/-- The candidates of a channel, each with what it parses to. -/
def candidates (tags : List String) (channel : Channel) : List (String × ParsedTag) :=
  (tags.filterMap fun tag => (parseTag tag).map fun p => (tag, p)).filter fun item => item.2.preType = channel

def latestTagForChannel (tags : List String) (channel : Channel) : Option String :=
  ((candidates tags channel).argmax fun item => sortKey item.2).map Prod.fst

end TemplateSync
/-! ### Writing and reading -/

namespace ParsedTag

def version (p : ParsedTag) : String :=
  ComputeNextVersion.baseText p.base ++ match p.preType with
    | none => ""
    | some preType => "-" ++ preType.name ++ "." ++ toString p.preNum

/-- The tag as it is written without leading zeros, in ASCII. -/
def tag (p : ParsedTag) : String := "v" ++ p.version

/-- What follows the base. -/
def tail (p : ParsedTag) : List Char :=
  match p.preType with
  | none => []
  | some preType => '-' :: (preType.name.toList ++ '.' :: Nat.toDigits 10 p.preNum)

theorem tag_toList (p : ParsedTag) : p.tag.toList = 'v' :: (Nat.toDigits 10 p.major ++ '.' :: (Nat.toDigits 10 p.minor ++
    '.' :: (Nat.toDigits 10 p.patch ++ p.tail))) := by
  cases hpre : p.preType <;>
    simp [tag, version, ComputeNextVersion.baseText, base, tail, hpre, String.toList_append]

end ParsedTag

theorem preType?_name (preType : PreType) (rest : List Char) :
    preType? (preType.name.toList ++ rest) = some (preType, rest) := by
  cases preType <;> simp [preType?, PreType.name, List.dropPrefix?]

theorem parseTag_tag {p : ParsedTag} (hnum : p.preType = none → p.preNum = 0) : parseTag p.tag = some p := by
  obtain ⟨major, minor, patch, preType, preNum⟩ := p
  have hdot : ∀ rest : List Char, ∀ c ∈ ('.' :: rest).head?, Numeral.isDecimal c = false := by
    rintro rest c ⟨⟩
    decide
  have htail : ∀ c ∈ (ParsedTag.tail ⟨major, minor, patch, preType, preNum⟩).head?, Numeral.isDecimal c = false := by
    intro c hc
    cases preType with
    | none => cases hc
    | some preType =>
      cases hc
      decide
  have hone : ∀ (c : Char) (rest : List Char), (c :: rest).dropPrefix? [c] = some rest := by
    intro c rest
    simp [List.dropPrefix?]
  unfold parseTag
  rw [ParsedTag.tag_toList, hone, Option.bind_eq_bind, Option.bind_some, Numeral.read?_toDigits _ (hdot _)]
  simp only [Option.bind_eq_bind, Option.bind_some, hone, Numeral.read?_toDigits _ (hdot _), Numeral.read?_toDigits _ htail]
  cases preType with
  | none =>
    obtain rfl : preNum = 0 := hnum rfl
    rfl
  | some preType =>
    have hend := @Numeral.read?_toDigits preNum [] (by rintro c ⟨⟩)
    rw [List.append_nil] at hend
    rw [ParsedTag.tail, if_neg (by simp [atEnd]), hone]
    simp only [Option.bind_some, preType?_name, hone, hend]
    rfl
/-- A full release has no number. -/
theorem preNum_of_parseTag {tag : String} {p : ParsedTag} (h : parseTag tag = some p) (hfinal : p.preType = none) :
    p.preNum = 0 := by
  unfold parseTag at h
  simp only [Option.bind_eq_bind, Option.bind_eq_some_iff] at h
  obtain ⟨_, -, ⟨major, _⟩, -, _, -, ⟨minor, _⟩, -, _, -, ⟨patch, _⟩, -, h⟩ := h
  split at h
  · cases h
    rfl
  · simp only [Option.bind_eq_some_iff] at h
    obtain ⟨_, -, ⟨preType, _⟩, -, _, -, ⟨preNum, _⟩, -, h⟩ := h
    split at h
    · cases h
      cases hfinal
    · cases h

/-! ### The order -/

def ParsedTag.preRank (p : ParsedTag) : Nat := match p.preType with | none => 3 | some preType => preType.order

theorem ParsedTag.preRank_inj {p q : ParsedTag} (h : p.preRank = q.preRank) : p.preType = q.preType := by
  unfold preRank at h
  cases hp : p.preType with
  | none =>
    cases hq : q.preType with
    | none => rfl
    | some preType => rw [hp, hq] at h; cases preType <;> cases h
  | some preType =>
    cases hq : q.preType with
    | none => rw [hp, hq] at h; cases preType <;> cases h
    | some preType' => rw [hp, hq] at h; cases preType <;> cases preType' <;> first | rfl | cases h

theorem ParsedTag.preRank_le (p : ParsedTag) : p.preRank ≤ 3 ∧ (p.preRank = 3 ↔ p.preType = none) := by
  unfold preRank
  cases p.preType with
  | none => simp
  | some preType => cases preType <;> simp [PreType.order]

theorem sortKey_lt_iff {p q : ParsedTag} : sortKey p < sortKey q ↔ p.base < q.base ∨
    p.base = q.base ∧ (p.preRank < q.preRank ∨ p.preRank = q.preRank ∧ p.preNum < q.preNum) := by
  unfold sortKey ParsedTag.base ParsedTag.preRank
  simp only [Prod.Lex.toLex_lt_toLex, EmbeddingLike.apply_eq_iff_eq, Prod.mk.injEq]
  tauto

theorem ParsedTag.eq_of_base {p q : ParsedTag} (hbase : p.base = q.base) (hpre : p.preType = q.preType)
    (hnum : p.preNum = q.preNum) : p = q := by
  unfold base at hbase
  simp only [EmbeddingLike.apply_eq_iff_eq, Prod.mk.injEq] at hbase
  cases p
  cases q
  simp_all

theorem sortKey_inj {p q : ParsedTag} (h : sortKey p = sortKey q) : p = q := by
  have hparts : p.base = q.base ∧ p.preRank = q.preRank ∧ p.preNum = q.preNum := by
    unfold sortKey at h
    unfold ParsedTag.base ParsedTag.preRank
    simp only [EmbeddingLike.apply_eq_iff_eq, Prod.mk.injEq] at h ⊢
    exact ⟨⟨h.1, h.2.1, h.2.2.1⟩, h.2.2.2.1, h.2.2.2.2⟩
  exact ParsedTag.eq_of_base hparts.1 (ParsedTag.preRank_inj hparts.2.1) hparts.2.2

/-! ### What is computed -/

namespace ComputeNextVersion

variable {tags : List String} {bump : Bump} {releaseType : ReleaseType} {out : Output}

theorem mem_parsedTags {p : ParsedTag} : p ∈ parsedTags tags ↔ ∃ tag ∈ tags, parseTag tag = some p := List.mem_filterMap

/-- The release that is computed, before it is written. -/
def computed (bump : Bump) (releaseType : ReleaseType) (tags : List String) : ParsedTag :=
  let base := nextBase bump (parsedTags tags)
  ⟨(ofLex base).1, (ofLex (ofLex base).2).1, (ofLex (ofLex base).2).2, releaseType,
    match releaseType with | none => 0 | some preType => nextNum base preType (parsedTags tags)⟩

theorem base_computed : (computed bump releaseType tags).base = nextBase bump (parsedTags tags) := rfl

theorem version_computed_full :
    (computed bump none tags).version = baseText (nextBase bump (parsedTags tags)) := by
  show baseText (computed bump none tags).base ++ "" = _
  rw [base_computed, String.append_empty]

theorem version_computed_pre (preType : PreType) : (computed bump (some preType) tags).version =
    baseText (nextBase bump (parsedTags tags)) ++ "-" ++ preType.name ++ "." ++
      toString (nextNum (nextBase bump (parsedTags tags)) preType (parsedTags tags)) := by
  show baseText (computed bump (some preType) tags).base ++ ("-" ++ preType.name ++ "." ++ _) = _
  rw [base_computed, ← String.append_assoc, ← String.append_assoc, ← String.append_assoc]
  rfl

theorem main_eq_ok (h : main bump releaseType tags = .ok out) :
    out.version = (computed bump releaseType tags).version ∧ out.tag = (computed bump releaseType tags).tag ∧
      (releaseType = none → out.tag ∉ tags) := by
  rw [ParsedTag.tag]
  cases releaseType with
  | none =>
    rw [version_computed_full]
    unfold main at h
    simp only at h
    split at h
    · cases h
    · rename_i hnew
      cases h
      exact ⟨rfl, rfl, fun _ => hnew⟩
  | some preType =>
    rw [version_computed_pre]
    cases h
    exact ⟨rfl, rfl, fun h => by cases h⟩

theorem parseTag_computed : parseTag (computed bump releaseType tags).tag = some (computed bump releaseType tags) := by
  refine parseTag_tag fun h => ?_
  cases releaseType with
  | none => rfl
  | some preType => cases h

theorem lt_nextNum {base : ParsedTag.Base} {preType : PreType} {parsed : List ParsedTag} {p : ParsedTag} (hp : p ∈ parsed)
    (hbase : p.base = base) (hpre : p.preType = some preType) : p.preNum < nextNum base preType parsed := by
  have hmem : p.preNum ∈ (parsed.filter fun p => p.base = base ∧ p.preType = some preType).map ParsedTag.preNum :=
    List.mem_map_of_mem (List.mem_filter.2 ⟨hp, by simp [hbase, hpre]⟩)
  unfold nextNum
  cases hmax : ((parsed.filter fun p => p.base = base ∧ p.preType = some preType).map ParsedTag.preNum).argmax id with
  | none =>
    rw [List.argmax_eq_none.1 hmax] at hmem
    cases hmem
  | some n =>
    have : p.preNum ≤ n := List.le_of_mem_argmax hmem hmax
    show p.preNum < n + 1
    omega

theorem not_mem_of_main (h : main bump releaseType tags = .ok out) : out.tag ∉ tags := by
  obtain ⟨-, htag, hfull⟩ := main_eq_ok h
  cases releaseType with
  | none => exact hfull rfl
  | some preType =>
    intro hmem
    have hparsed : computed bump (some preType) tags ∈ parsedTags tags :=
      mem_parsedTags.2 ⟨_, htag ▸ hmem, parseTag_computed⟩
    exact absurd (lt_nextNum hparsed base_computed rfl) (Nat.lt_irrefl _)

theorem le_latestFinalBase {parsed : List ParsedTag} {p : ParsedTag} (hp : p ∈ parsed) (hfinal : p.preType = none) :
    p.base ≤ latestFinalBase parsed := by
  have hmem : p.base ∈ (parsed.filter fun p => p.preType.isNone).map ParsedTag.base :=
    List.mem_map_of_mem (List.mem_filter.2 ⟨hp, by simp [hfinal]⟩)
  unfold latestFinalBase
  cases hmax : ((parsed.filter fun p => p.preType.isNone).map ParsedTag.base).argmax id with
  | none =>
    rw [List.argmax_eq_none.1 hmax] at hmem
    cases hmem
  | some base => exact List.le_of_mem_argmax hmem hmax

theorem lt_bumpBase (base : ParsedTag.Base) (part : Part) : base < bumpBase base part := by
  obtain ⟨major, rest⟩ := base
  obtain ⟨minor, patch⟩ := rest
  cases part with
  | major => exact Prod.Lex.toLex_lt_toLex.2 (.inl (Nat.lt_succ_self _))
  | minor => exact Prod.Lex.toLex_lt_toLex.2 (.inr ⟨rfl, Prod.Lex.toLex_lt_toLex.2 (.inl (Nat.lt_succ_self _))⟩)
  | patch =>
    exact Prod.Lex.toLex_lt_toLex.2 (.inr ⟨rfl, Prod.Lex.toLex_lt_toLex.2 (.inr ⟨rfl, Nat.lt_succ_self _⟩)⟩)

/-- A computed release is new, reads back as what was computed, and ranks above every full release. -/
structure Released (bump : Bump) (releaseType : ReleaseType) (tags : List String) (out : Output) : Prop where
  new : out.tag ∉ tags
  reads : ∃ p, parseTag out.tag = some p ∧ out.tag = "v" ++ out.version ∧ out.version = p.version ∧
    p.preType = releaseType ∧ p.base = nextBase bump (parsedTags tags)
  ahead : ∀ tag ∈ tags, ∀ q, parseTag tag = some q → q.preType = none →
    ∃ p, parseTag out.tag = some p ∧ sortKey q < sortKey p

/-- The base is kept, and a full release ranks highest of all. -/
def KeepsFinal (bump : Bump) (tags : List String) : Prop :=
  bump = none ∧ ∃ tag ∈ tags, ∃ q, parseTag tag = some q ∧ q.preType = none ∧
    ∀ tag' ∈ tags, ∀ q', parseTag tag' = some q' → sortKey q' ≤ sortKey q

theorem ahead_of_bump {part : Part} {q : ParsedTag} (hq : q ∈ parsedTags tags) (hfinal : q.preType = none) :
    sortKey q < sortKey (computed (some part) releaseType tags) := by
  refine sortKey_lt_iff.2 (.inl ?_)
  rw [base_computed]
  exact lt_of_le_of_lt (le_latestFinalBase hq hfinal) (lt_bumpBase _ _)

/-- The base that is kept is the one of the highest tag. -/
theorem exists_highest {q : ParsedTag} (hq : q ∈ parsedTags tags) : ∃ m ∈ parsedTags tags,
    (∀ q' ∈ parsedTags tags, sortKey q' ≤ sortKey m) ∧ (computed none releaseType tags).base = m.base := by
  cases hmax : (parsedTags tags).argmax sortKey with
  | none =>
    rw [List.argmax_eq_none.1 hmax] at hq
    cases hq
  | some m =>
    refine ⟨m, List.argmax_mem hmax, fun q' hq' => List.le_of_mem_argmax hq' hmax, ?_⟩
    rw [base_computed]
    show latestOverallBase (parsedTags tags) = m.base
    rw [latestOverallBase, hmax]
    rfl

theorem ahead_of_not_keepsFinal (hkeeps : ¬ KeepsFinal bump tags) {q : ParsedTag} (hq : q ∈ parsedTags tags)
    (hfinal : q.preType = none) : sortKey q < sortKey (computed bump releaseType tags) := by
  cases bump with
  | some part => exact ahead_of_bump hq hfinal
  | none =>
    obtain ⟨m, hm, hmax, hbase⟩ := @exists_highest tags releaseType q hq
    obtain ⟨tag, htag, hparse⟩ := mem_parsedTags.1 hm
    have hpre : m.preType ≠ none := fun hnone => hkeeps ⟨rfl, tag, htag, m, hparse, hnone, fun tag' htag' q' hq' =>
      hmax q' (mem_parsedTags.2 ⟨tag', htag', hq'⟩)⟩
    have hrank : m.preRank < q.preRank := by
      have := m.preRank_le
      have := q.preRank_le.2.2 hfinal
      have : m.preRank ≠ 3 := fun h => hpre (m.preRank_le.2.1 h)
      omega
    rw [sortKey_lt_iff, hbase]
    rcases lt_trichotomy q.base m.base with hlt | heq | hgt
    · exact .inl hlt
    · exact absurd (hmax q hq) (not_le_of_gt (sortKey_lt_iff.2 (.inr ⟨heq.symm, .inl hrank⟩)))
    · exact absurd (hmax q hq) (not_le_of_gt (sortKey_lt_iff.2 (.inl hgt)))

/-- What is computed then has the base of that full release. -/
theorem KeepsFinal.base_eq (hkeeps : KeepsFinal bump tags) : ∃ tag ∈ tags, ∃ q, parseTag tag = some q ∧
    q.preType = none ∧ (computed bump releaseType tags).base = q.base := by
  obtain ⟨rfl, tag, htag, q, hparse, hfinal, hmax⟩ := hkeeps
  have hq : q ∈ parsedTags tags := mem_parsedTags.2 ⟨tag, htag, hparse⟩
  obtain ⟨m, hm, hle, hbase⟩ := @exists_highest tags releaseType q hq
  obtain ⟨tag', htag', hparse'⟩ := mem_parsedTags.1 hm
  obtain rfl := sortKey_inj (le_antisymm (hle q hq) (hmax tag' htag' m hparse'))
  exact ⟨tag, htag, q, hparse, hfinal, hbase⟩

/-- And does not rank above it. -/
theorem not_lt_of_base_eq {q : ParsedTag} (hfinal : q.preType = none)
    (hbase : (computed bump releaseType tags).base = q.base) : ¬ sortKey q < sortKey (computed bump releaseType tags) := by
  intro hlt
  have hrank := q.preRank_le.2.2 hfinal
  have hcomputed := (computed bump releaseType tags).preRank_le
  rcases sortKey_lt_iff.1 hlt with hbase' | ⟨-, hrank' | ⟨hrank', hnum'⟩⟩
  · exact absurd hbase (ne_of_gt hbase')
  · omega
  · have hfull : (computed bump releaseType tags).preType = none := hcomputed.2.1 (by omega)
    have hzero : (computed bump releaseType tags).preNum = 0 := preNum_of_parseTag parseTag_computed hfull
    omega

/-- A release is behind only where the base of the highest tag, a full release, is kept. -/
theorem released_iff (h : main bump releaseType tags = .ok out) :
    Released bump releaseType tags out ↔ ¬ KeepsFinal bump tags := by
  obtain ⟨hversion, htag, -⟩ := main_eq_ok h
  have hreads : parseTag out.tag = some (computed bump releaseType tags) := by rw [htag, parseTag_computed]
  constructor
  · intro hreleased hkeeps
    obtain ⟨tag, hmem, q, hparse, hfinal, hbase⟩ := @KeepsFinal.base_eq tags bump releaseType hkeeps
    obtain ⟨p, hp, hlt⟩ := hreleased.ahead tag hmem q hparse hfinal
    rw [hreads] at hp
    cases hp
    exact not_lt_of_base_eq hfinal hbase hlt
  · intro hkeeps
    refine ⟨not_mem_of_main h, ⟨_, hreads, ?_, hversion, rfl, base_computed⟩, fun tag hmem q hparse hfinal => ?_⟩
    · rw [htag, hversion]
      rfl
    · exact ⟨_, hreads, ahead_of_not_keepsFinal hkeeps (mem_parsedTags.2 ⟨tag, hmem, hparse⟩) hfinal⟩

theorem main_keepsFinal : main none (some .alpha) ["v1.2.3"] = .ok ⟨"v1.2.3-alpha.1", "1.2.3-alpha.1", true⟩ := by
  decide +kernel

theorem keepsFinal_example : KeepsFinal none ["v1.2.3"] := by
  have hparse : parseTag "v1.2.3" = some ⟨1, 2, 3, none, 0⟩ := by decide +kernel
  refine ⟨rfl, "v1.2.3", List.mem_singleton.2 rfl, ⟨1, 2, 3, none, 0⟩, hparse, rfl, fun tag htag q hq => ?_⟩
  obtain rfl := List.mem_singleton.1 htag
  rw [hparse] at hq
  cases hq
  exact le_rfl

theorem released_iff_alpha : ¬ Released none (some .alpha) ["v1.2.3"] ⟨"v1.2.3-alpha.1", "1.2.3-alpha.1", true⟩ :=
  fun h => (released_iff main_keepsFinal).1 h keepsFinal_example

theorem not_released : ¬ ∀ (bump : Bump) (releaseType : ReleaseType) (tags : List String) (out : Output),
    main bump releaseType tags = .ok out → Released bump releaseType tags out := by
  intro hall
  obtain ⟨p, hp, hlt⟩ := (hall none (some .alpha) ["v1.2.3"] _ main_keepsFinal).ahead "v1.2.3" (List.mem_singleton.2 rfl)
    ⟨1, 2, 3, none, 0⟩ (by decide +kernel) rfl
  rw [show parseTag "v1.2.3-alpha.1" = some ⟨1, 2, 3, some .alpha, 1⟩ by decide +kernel] at hp
  cases hp
  exact absurd hlt (by decide)

end ComputeNextVersion
/-! ### What instances sync to -/

namespace TemplateSync

open ComputeNextVersion

variable {tags tags' : List String} {channel : Channel} {tag : String} {p : ParsedTag}

/-- Of a channel, with its rank. -/
def OfChannel (channel : Channel) (tag : String) (p : ParsedTag) : Prop := parseTag tag = some p ∧ p.preType = channel

theorem mem_candidates : (tag, p) ∈ candidates tags channel ↔ tag ∈ tags ∧ OfChannel channel tag p := by
  simp only [candidates, OfChannel, List.mem_filter, List.mem_filterMap, Option.map_eq_some_iff, decide_eq_true_eq]
  constructor
  · rintro ⟨⟨tag', htag, p', hparse, heq⟩, hchannel⟩
    cases heq
    exact ⟨htag, hparse, hchannel⟩
  · rintro ⟨htag, hparse, hchannel⟩
    exact ⟨⟨tag, htag, p, hparse, rfl⟩, hchannel⟩

theorem latest_eq_none_iff :
    latestTagForChannel tags channel = none ↔ ∀ tag ∈ tags, ∀ p, ¬ OfChannel channel tag p := by
  rw [latestTagForChannel, Option.map_eq_none_iff, List.argmax_eq_none, List.eq_nil_iff_forall_not_mem]
  exact ⟨fun h tag htag p hp => h (tag, p) (mem_candidates.2 ⟨htag, hp⟩),
    fun h item hitem => h item.1 (mem_candidates.1 hitem).1 item.2 (mem_candidates.1 hitem).2⟩

/-- A tag of the channel that no other one outranks. -/
def Highest (tags : List String) (channel : Channel) (tag : String) (p : ParsedTag) : Prop :=
  tag ∈ tags ∧ OfChannel channel tag p ∧ ∀ tag' ∈ tags, ∀ q, OfChannel channel tag' q → sortKey q ≤ sortKey p

theorem highest_of_latest (h : latestTagForChannel tags channel = some tag) : ∃ p, Highest tags channel tag p := by
  obtain ⟨⟨tag, p⟩, hmax, rfl⟩ := Option.map_eq_some_iff.1 h
  obtain ⟨hmem, hchannel⟩ := mem_candidates.1 (List.argmax_mem hmax)
  refine ⟨p, hmem, hchannel, fun tag' htag' q hq => ?_⟩
  have hle := List.le_of_mem_argmax (mem_candidates.2 ⟨htag', hq⟩) hmax
  exact hle

theorem exists_latest (htag : tag ∈ tags) (hp : OfChannel channel tag p) :
    ∃ tag', latestTagForChannel tags channel = some tag' := by
  cases hlatest : latestTagForChannel tags channel with
  | none => exact absurd hp (latest_eq_none_iff.1 hlatest tag htag p)
  | some tag' => exact ⟨tag', rfl⟩

theorem Highest.eq_parsed {tag₁ tag₂ : String} {p₁ p₂ : ParsedTag} (h₁ : Highest tags channel tag₁ p₁)
    (h₂ : Highest tags' channel tag₂ p₂) (hmem : ∀ tag, tag ∈ tags ↔ tag ∈ tags') : p₁ = p₂ :=
  sortKey_inj (le_antisymm (h₂.2.2 tag₁ ((hmem tag₁).1 h₁.1) p₁ h₁.2.1) (h₁.2.2 tag₂ ((hmem tag₂).2 h₂.1) p₂ h₂.2.1))

/-- The version tags are written in ASCII, without leading zeros. -/
def Canonical (tags : List String) : Prop := ∀ tag ∈ tags, ∀ p, parseTag tag = some p → tag = p.tag

/-- Then a full release is never computed on the base of one. -/
theorem Canonical.not_keepsFinal (hcanonical : Canonical tags) {bump : Bump} {out : Output}
    (h : main bump none tags = .ok out) : ¬ KeepsFinal bump tags := by
  intro hkeeps
  obtain ⟨tag, htag, q, hparse, hfinal, hbase⟩ := @KeepsFinal.base_eq tags bump none hkeeps
  have heq : computed bump none tags = q :=
    ParsedTag.eq_of_base hbase hfinal.symm (preNum_of_parseTag hparse hfinal).symm
  refine not_mem_of_main h ?_
  rw [(main_eq_ok h).2.1, heq, ← hcanonical tag htag q hparse]
  exact htag

/-- The full release that is computed is what the stable channel then gives. -/
theorem latest_of_main (hcanonical : Canonical tags) {bump : Bump} {out : Output} (h : main bump none tags = .ok out)
    (hperm : tags'.Perm (out.tag :: tags)) : latestTagForChannel tags' none = some out.tag := by
  have hreads : OfChannel none out.tag (computed bump none tags) := by
    rw [(main_eq_ok h).2.1]
    exact ⟨parseTag_computed, rfl⟩
  have hmem : out.tag ∈ tags' := hperm.mem_iff.2 (List.mem_cons_self ..)
  obtain ⟨tag, hlatest⟩ := exists_latest hmem hreads
  obtain ⟨p, htag, hp, hmax⟩ := highest_of_latest hlatest
  rw [hlatest]
  rcases List.mem_cons.1 (hperm.mem_iff.1 htag) with rfl | hold
  · rfl
  · have hlt : sortKey p < sortKey (computed bump none tags) :=
      ahead_of_not_keepsFinal (hcanonical.not_keepsFinal h) (mem_parsedTags.2 ⟨tag, hold, hp.1⟩) hp.2
    exact absurd (hmax _ hmem _ hreads) (not_le_of_gt hlt)

/-- Whatever stands before the first occurrence of the `argmax` is lower. -/
theorem lt_of_argmax_append {α β : Type} [LinearOrder β] {f : α → β} {l₁ l₂ : List α} {m a : α}
    (h : (l₁ ++ l₂).argmax f = some m) (hm : m ∉ l₁) (ha : a ∈ l₁) : f a < f m := by
  classical
  refine lt_of_not_ge fun hle => hm ?_
  have hindex := List.index_of_argmax h (List.mem_append_left _ ha) hle
  rw [List.idxOf_append_of_mem ha] at hindex
  have hlt := hindex.trans_lt (List.idxOf_lt_length_iff.2 ha)
  by_contra hnot
  rw [List.idxOf_append_of_notMem hnot] at hlt
  omega

theorem candidates_append (l₁ l₂ : List String) :
    candidates (l₁ ++ l₂) channel = candidates l₁ channel ++ candidates l₂ channel := by
  simp [candidates]

/-- Of the spellings of one version the first in the list is taken. -/
theorem first_of_latest (h : latestTagForChannel tags channel = some tag) (hp : parseTag tag = some p) :
    ∃ before after, tags = before ++ tag :: after ∧ ∀ tag' ∈ before, parseTag tag' ≠ some p := by
  obtain ⟨⟨tag, p'⟩, hmax, rfl⟩ := Option.map_eq_some_iff.1 h
  obtain ⟨hmem, hparse, hchannel⟩ := mem_candidates.1 (List.argmax_mem hmax)
  obtain rfl : p' = p := Option.some.inj (hparse.symm.trans hp)
  obtain ⟨before, after, rfl, hfresh⟩ := List.eq_append_cons_of_mem hmem
  refine ⟨before, after, rfl, fun tag' htag' hparse' => ?_⟩
  -- `max` keeps what it met first
  rw [candidates_append] at hmax
  have hfresh' : (tag, p') ∉ candidates before channel := fun hmem' => hfresh (mem_candidates.1 hmem').1
  exact absurd (lt_of_argmax_append hmax hfresh' (mem_candidates.2 ⟨htag', hparse', hchannel⟩)) (lt_irrefl _)

/-- The latest tag of a channel, whatever the order of the list, and as tags are added. -/
structure Latest (channel : Channel) (tags : List String) : Prop where
  none_iff : latestTagForChannel tags channel = none ↔ ∀ tag ∈ tags, ∀ p, ¬ OfChannel channel tag p
  highest : ∀ tag, latestTagForChannel tags channel = some tag → ∃ p, Highest tags channel tag p
  /-- Of two spellings of the version the first in the list. -/
  first : ∀ tag p, latestTagForChannel tags channel = some tag → parseTag tag = some p →
    ∃ before after, tags = before ++ tag :: after ∧ ∀ tag' ∈ before, parseTag tag' ≠ some p
  /-- In another order a tag of the same rank is found. -/
  order : ∀ tags', tags'.Perm tags → ∀ tag, latestTagForChannel tags channel = some tag →
    ∃ tag' p, latestTagForChannel tags' channel = some tag' ∧ parseTag tag = some p ∧ parseTag tag' = some p ∧
      (Canonical tags → tag' = tag)
  /-- With more tags none of a lower rank. -/
  forward : ∀ tags', tags ⊆ tags' → ∀ tag, latestTagForChannel tags channel = some tag →
    ∃ tag' p p', latestTagForChannel tags' channel = some tag' ∧ parseTag tag = some p ∧ parseTag tag' = some p' ∧
      sortKey p ≤ sortKey p'

theorem latest (channel : Channel) (tags : List String) : Latest channel tags := by
  refine ⟨latest_eq_none_iff, fun tag => highest_of_latest, fun tag p => first_of_latest, fun tags' hperm tag htag => ?_,
    fun tags' hsub tag htag => ?_⟩
  · obtain ⟨p, hp⟩ := highest_of_latest htag
    obtain ⟨tag', htag'⟩ := exists_latest (hperm.mem_iff.2 hp.1) hp.2.1
    obtain ⟨p', hp'⟩ := highest_of_latest htag'
    obtain rfl := hp.eq_parsed hp' fun _ => hperm.mem_iff.symm
    refine ⟨tag', p, htag', hp.2.1.1, hp'.2.1.1, fun hcanonical => ?_⟩
    rw [hcanonical tag hp.1 p hp.2.1.1, hcanonical tag' (hperm.mem_iff.1 hp'.1) p hp'.2.1.1]
  · obtain ⟨p, hp⟩ := highest_of_latest htag
    obtain ⟨tag', htag'⟩ := exists_latest (hsub hp.1) hp.2.1
    obtain ⟨p', hp'⟩ := highest_of_latest htag'
    exact ⟨tag', p, p', htag', hp.2.1.1, hp'.2.1.1, hp'.2.2 tag (hsub hp.1) p hp.2.1⟩

/-- What is released as stable is what instances sync to. -/
theorem synced : (∀ (tags : List String) (bump : Bump) (out : Output), Canonical tags → main bump none tags = .ok out →
      ∀ tags', tags'.Perm (out.tag :: tags) → latestTagForChannel tags' none = some out.tag) ∧
    ∀ (channel : Channel) (tags : List String), Latest channel tags :=
  ⟨fun _ _ _ hcanonical h _ hperm => latest_of_main hcanonical h hperm, latest⟩

theorem synced_promoted : latestTagForChannel ["v1.2.3-rc.1", "v1.2.3"] none = some "v1.2.3" := by
  have hparse : parseTag "v1.2.3-rc.1" = some ⟨1, 2, 3, some .rc, 1⟩ := by decide +kernel
  have hcanonical : Canonical ["v1.2.3-rc.1"] := by
    intro tag htag p hp
    obtain rfl := List.mem_singleton.1 htag
    rw [hparse] at hp
    cases hp
    decide +kernel
  have hmain : main none none ["v1.2.3-rc.1"] = .ok ⟨"v1.2.3", "1.2.3", false⟩ := by decide +kernel
  exact synced.1 _ _ _ hcanonical hmain _ (.swap ..)

theorem not_order_independent : ¬ ∀ (channel : Channel) (tags tags' : List String), tags'.Perm tags →
    latestTagForChannel tags' channel = latestTagForChannel tags channel := by
  intro hall
  exact absurd (hall none ["v1.0.0", "v01.0.0"] ["v01.0.0", "v1.0.0"] (.swap ..)) (by decide +kernel)

end TemplateSync
end TemplateAxum
