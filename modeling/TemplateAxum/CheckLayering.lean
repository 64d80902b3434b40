import Mathlib.Data.List.DropRight
import Mathlib.Data.List.Dedup
import TemplateAxum.Lib.RustPath

/-!
# The layering gate

`check_layering.py` reads the files of `src/` line by line, with a regular expression for the paths that begin
with `crate::`, and reports the categories that a file may not import.
-/

namespace TemplateAxum.CheckLayering

/-- A name, a category or a part of a file's path. -/
abbrev Name := List Char

/-! ### The regular expressions -/

def isSpace (c : Char) : Bool :=
  (0x09 ≤ c.toNat && c.toNat ≤ 0x0d) || (0x1c ≤ c.toNat && c.toNat ≤ 0x20) || (0x2000 ≤ c.toNat && c.toNat ≤ 0x200a) ||
    [0x85, 0xa0, 0x1680, 0x2028, 0x2029, 0x202f, 0x205f, 0x3000].contains c.toNat

/-- `str.splitlines` breaks a line at these. -/
def isBreak (c : Char) : Bool :=
  [0x0a, 0x0b, 0x0c, 0x0d, 0x1c, 0x1d, 0x1e, 0x85, 0x2028, 0x2029].contains c.toNat

def splitlines : List Char → List (List Char)
  | [] => []
  | '\r' :: '\n' :: cs => [] :: splitlines cs
  | c :: cs =>
    if isBreak c then [] :: splitlines cs
    else
      match splitlines cs with
      | [] => [[c]]
      | line :: lines => (c :: line) :: lines

/-- `[a-zA-Z_]` -/
def isStart (c : Char) : Bool := c.isAlpha || c = '_'

/-- `[a-zA-Z0-9_]` -/
def isCont (c : Char) : Bool := c.isAlphanum || c = '_'

/-- `(?:::[a-zA-Z_][a-zA-Z0-9_]*)*`: the names, and what comes behind them. -/
def names : List Char → List Name × List Char
  | ':' :: ':' :: c :: cs =>
    if isStart c then
      let (rest, after) := names (cs.dropWhile isCont)
      ((c :: cs.takeWhile isCont) :: rest, after)
    else ([], ':' :: ':' :: c :: cs)
  | cs => ([], cs)
termination_by cs => cs.length
decreasing_by
  have := (cs.dropWhile_sublist isCont).length_le
  simp only [List.length_cons]
  omega

/-- `_CRATE_PATH` where it begins: one name at least. -/
def cratePath (cs : List Char) : Option (List Name × List Char) := do
  let (path, after) := names (← cs.dropPrefix? "crate".toList)
  if path = [] then none else some (path, after)

/-- `\w` of a text. -/
structure WordChars where
  word : Char → Bool
  word_ascii : ∀ c : Char, c.toNat < 128 → word c = (c.isAlphanum || c = '_')
  word_white : ∀ c : Char, RustToken.isWhite c = true → word c = false

variable (chars : WordChars)

/-- `finditer`: the paths, each with what comes behind it. The first `skip` characters belong to the last match, and
`behind` says whether a word character stands before. -/
def finditer : (behind : Bool) → (skip : Nat) → List Char → List (List Name × List Char)
  | _, _, [] => []
  | _, skip + 1, c :: cs => finditer (chars.word c) skip cs
  | behind, 0, c :: cs =>
    match if behind then none else cratePath (c :: cs) with
    | some (path, after) => (path, after) :: finditer (chars.word c) (cs.length - after.length) cs
    | none => finditer (chars.word c) 0 cs

/-- `_LINE_COMMENT` -/
def isLineComment (line : List Char) : Bool := "//".toList.isPrefixOf (line.dropWhile isSpace)

/-- `line.split("//", 1)[0]` -/
def beforeSlashes : List Char → List Char
  | [] => []
  | '/' :: '/' :: _ => []
  | c :: cs => c :: beforeSlashes cs

/-! ### The categories -/

def packages : List Name := ["generic".toList, "hero".toList]

/-- A file's parts are those of its path below `src/`. -/
def categoryFor : List Name → Name
  | [] => []
  | first :: rest =>
    if ["lib.rs".toList, "main.rs".toList].contains first then "root".toList
    else if ".rs".toList.isSuffixOf first then first.take (first.length - 3)
    else if packages.contains first then
      match rest with
      | [] => first
      | [second] => if second = "mod.rs".toList then "root".toList else first ++ "::".toList ++ second
      | second :: _ => first ++ "::".toList ++ second
    else first

def categoryOf : List Name → Name
  | [] => []
  | [first] => first
  | first :: second :: _ => if packages.contains first then first ++ "::".toList ++ second else first

/-- A macro is called. -/
def bang (after : List Char) : Bool := (after.dropWhile isSpace).head? = some '!'

def referencedIn (line : List Char) : List Name :=
  if isLineComment line then []
  else ((finditer chars false 0 (beforeSlashes line)).filter fun found => !bang found.2).map fun found => categoryOf found.1

def referencedCategories (text : List Char) : List Name := ((splitlines text).flatMap (referencedIn chars)).dedup

/-! ### The check -/

/-- `ALLOWED_IMPORTS`, without the root. -/
def layers : List (Name × List Name) := [
  ("config", []),
  ("db", ["config"]),
  ("cache", ["config"]),
  ("problem_details", ["config"]),
  ("oidc", ["config", "problem_details"]),
  ("rate_limit", ["problem_details"]),
  ("http_headers", []),
  ("hero::models", []),
  ("hero::views", ["hero::models"]),
  ("hero::repositories", ["hero::models", "hero::views"]),
  ("migration", []),
  ("generic::controllers", ["config", "oidc", "problem_details", "rate_limit", "http_headers"]),
  ("hero::controllers", ["config", "oidc", "problem_details", "rate_limit", "http_headers", "generic::controllers",
    "hero::models", "hero::views", "hero::repositories"])
].map fun (category, imports) => (category.toList, imports.map String.toList)

/-- The root imports every layer. -/
def allowedImports : List (Name × List Name) := layers ++ [("root".toList, layers.map Prod.fst)]

structure SourceFile where
  parts : List Name
  text : List Char

inductive Violation
  | noEntry (file : SourceFile) (category : Name)
  | unknown (file : SourceFile) (referenced : Name)
  | notAllowed (file : SourceFile) (category referenced : Name)

def checkFile (file : SourceFile) : List Violation :=
  let own := categoryFor file.parts
  match allowedImports.lookup own with
  | none => [.noEntry file own]
  | some allowed =>
    (referencedCategories chars file.text).filterMap fun referenced =>
      if referenced = own then none
      else if !(allowedImports.map Prod.fst).contains referenced then some (.unknown file referenced)
      else if !allowed.contains referenced then some (.notAllowed file own referenced)
      else none

def check (files : List SourceFile) : List Violation := files.flatMap (checkFile chars)

/-! ### Lines -/

/-- What stands on the line before. -/
def lineStart (before : List Char) : List Char := before.rtakeWhile fun c => !isBreak c

/-- What stands on the line behind, up to a comment. -/
def lineRest (after : List Char) : List Char := beforeSlashes (after.takeWhile fun c => !isBreak c)

theorem splitlines_of_break {c : Char} {cs : List Char} (h : isBreak c = true) : ∃ lines, splitlines (c :: cs) = [] :: lines := by
  unfold splitlines
  split
  · exact absurd ‹_› (by simp)
  · exact ⟨_, rfl⟩
  · simp_all

theorem splitlines_cons {c : Char} {cs : List Char} (h : isBreak c = false) :
    ∃ lines, splitlines (c :: cs) = (c :: cs.takeWhile fun c => !isBreak c) :: lines := by
  induction cs generalizing c with
  | nil => exact ⟨[], by simp [splitlines, h]⟩
  | cons c' cs ih =>
    have hr : c ≠ '\r' := by rintro rfl; cases h
    have hcons : splitlines (c :: c' :: cs) = match splitlines (c' :: cs) with
      | [] => [[c]]
      | line :: lines => (c :: line) :: lines := by
      rw [splitlines.eq_3 _ _ (fun _ h _ => hr h), if_neg (by simp [h])]
    by_cases hc' : isBreak c' = true
    · obtain ⟨lines, hlines⟩ := @splitlines_of_break _ cs hc'
      exact ⟨lines, by rw [hcons, hlines, List.takeWhile_cons_of_neg (by simp [hc'])]⟩
    · obtain ⟨lines, hlines⟩ := ih (Bool.eq_false_iff.2 hc')
      exact ⟨lines, by rw [hcons, hlines, List.takeWhile_cons_of_pos (by simp [hc'])]⟩

theorem splitlines_cons_tail {c : Char} {cs : List Char} (h : isBreak c = false) {line : List Char}
    (hline : line ∈ (splitlines cs).tail) : line ∈ (splitlines (c :: cs)).tail := by
  have hr : c ≠ '\r' := by rintro rfl; cases h
  rw [splitlines.eq_3 _ _ (fun _ h _ => hr h), if_neg (by simp [h])]
  cases hlines : splitlines cs with
  | nil => simp [hlines] at hline
  | cons first lines => rwa [hlines] at hline

/-- The lines behind a break are lines of the text, and not the first. -/
theorem mem_splitlines_behind {line before behind : List Char} {c : Char} (hc : isBreak c = true)
    (hnext : behind.head? ≠ some '\n') (h : line ∈ splitlines behind) :
    line ∈ (splitlines (before ++ c :: behind)).tail := by
  fun_induction splitlines before with
  | case1 =>
    rw [List.nil_append, splitlines.eq_3 _ _ (fun _ _ hn => hnext (by rw [hn]; rfl)), if_pos hc]
    exact h
  | case2 before ih => exact List.mem_of_mem_tail ih
  | case3 c' before hcr hbreak ih =>
    by_cases hcrlf : c' = '\r' ∧ before = [] ∧ c = '\n'
    · obtain ⟨rfl, rfl, rfl⟩ := hcrlf
      exact h
    rw [List.cons_append, splitlines.eq_3 _ _ (fun rest hr hn => ?_), if_pos hbreak]
    · exact List.mem_of_mem_tail ih
    · cases before with
      | nil => exact hcrlf ⟨hr, rfl, (List.cons.inj hn).1⟩
      | cons c'' before => exact hcr before hr (congrArg (· :: before) (List.cons.inj hn).1)
  | case4 c' before hcr hbreak hlines ih | case5 c' before hcr hbreak first lines hlines ih =>
    exact splitlines_cons_tail (Bool.eq_false_iff.2 hbreak) ih

theorem lineStart_split (before : List Char) :
    lineStart before = before ∨ ∃ init b, isBreak b = true ∧ before = init ++ b :: lineStart before := by
  have hsplit := List.rdropWhile_append_rtakeWhile (p := fun c => !isBreak c) (l := before)
  obtain hnil | ⟨init, b, hinit⟩ := List.eq_nil_or_concat' (before.rdropWhile fun c => !isBreak c)
  · exact .inl (by rwa [hnil] at hsplit)
  · refine .inr ⟨init, b, ?_, ?_⟩
    · have := List.rdropWhile_last_not (fun c => !isBreak c) before (by rw [hinit]; simp)
      simpa [hinit] using this
    · rw [hinit, List.append_assoc] at hsplit
      exact hsplit.symm

/-- The line that a place of the text stands on. -/
theorem line_mem {before after : List Char} {c : Char} (hc : isBreak c = false) :
    (lineStart before ++ (c :: after).takeWhile fun c => !isBreak c) ∈ splitlines (before ++ c :: after) := by
  have hline : ∀ start : List Char, (∀ c ∈ start, isBreak c = false) →
      ∃ lines, splitlines (start ++ c :: after) = (start ++ (c :: after).takeWhile fun c => !isBreak c) :: lines := by
    intro start hstart
    cases start with
    | nil =>
      obtain ⟨lines, hlines⟩ := @splitlines_cons _ after hc
      exact ⟨lines, by rw [List.nil_append, hlines, List.nil_append, List.takeWhile_cons_of_pos (by simp [hc])]⟩
    | cons c' start =>
      obtain ⟨hc', hstart⟩ := List.forall_mem_cons.1 hstart
      obtain ⟨lines, hlines⟩ := @splitlines_cons _ (start ++ c :: after) hc'
      refine ⟨lines, ?_⟩
      rw [List.cons_append, hlines, List.takeWhile_append_of_pos (by simpa using hstart), List.cons_append]
  have hstart : ∀ c ∈ lineStart before, isBreak c = false := fun c hc => by
    simpa using List.mem_rtakeWhile_imp hc
  obtain ⟨lines, hlines⟩ := hline _ hstart
  have hmem : (lineStart before ++ (c :: after).takeWhile fun c => !isBreak c) ∈ splitlines (lineStart before ++ c :: after) := by
    rw [hlines]
    exact List.mem_cons_self ..
  obtain hall | ⟨init, b, hb, hsplit⟩ := lineStart_split before
  · rwa [hall] at hmem ⊢
  · have hnext : (lineStart before ++ c :: after).head? ≠ some '\n' := fun h => by
      cases hs : lineStart before with
      | nil =>
        rw [hs] at h
        obtain rfl := Option.some_inj.1 h
        cases hc
      | cons c' start =>
        rw [hs] at h
        obtain rfl := Option.some_inj.1 h
        cases hstart '\n' (by rw [hs]; exact List.mem_cons_self ..)
    have := List.mem_of_mem_tail (@mem_splitlines_behind _ init _ _ hb hnext hmem)
    rwa [← List.cons_append, ← List.append_assoc, ← hsplit] at this

/-! ### Comments -/

theorem beforeSlashes_cons {c : Char} {cs : List Char} (h : ¬ (c = '/' ∧ cs.head? = some '/')) :
    beforeSlashes (c :: cs) = c :: beforeSlashes cs := by
  rw [beforeSlashes.eq_3 _ _ fun _ hc hcs => h ⟨hc, by rw [hcs]; rfl⟩]

theorem beforeSlashes_append {start rest : List Char} (h : ∀ c ∈ start, c ≠ '/') :
    beforeSlashes (start ++ rest) = start ++ beforeSlashes rest := by
  induction start with
  | nil => rfl
  | cons c start ih =>
    obtain ⟨hc, hstart⟩ := List.forall_mem_cons.1 h
    rw [List.cons_append, beforeSlashes_cons fun h => hc h.1, ih hstart, List.cons_append]

/-- No comment begins in the start of the line. -/
theorem beforeSlashes_append_of_not_infix {start rest : List Char} (h : ¬ "//".toList <:+: start)
    (hrest : rest.head? ≠ some '/') : beforeSlashes (start ++ rest) = start ++ beforeSlashes rest := by
  induction start with
  | nil => rfl
  | cons c start ih =>
    rw [List.cons_append, beforeSlashes_cons, ih fun hwithin => h (hwithin.trans (List.suffix_cons ..).isInfix), List.cons_append]
    rintro ⟨rfl, hhead⟩
    cases start with
    | nil => exact hrest hhead
    | cons c' start =>
      obtain rfl := Option.some_inj.1 hhead
      exact h ⟨[], start, rfl⟩

theorem beforeSlashes_initial (cs : List Char) : beforeSlashes cs <+: cs := by
  fun_induction beforeSlashes cs with
  | case1 => exact List.nil_prefix
  | case2 => exact List.nil_prefix
  | case3 c cs _ ih => exact (List.prefix_cons_inj c).2 ih

theorem lineRest_append {start rest : List Char} (h : ∀ c ∈ start, c ≠ '/' ∧ isBreak c = false) :
    lineRest (start ++ rest) = start ++ lineRest rest := by
  rw [lineRest, List.takeWhile_append_of_pos fun c hc => by simp [(h c hc).2], beforeSlashes_append fun c hc => (h c hc).1, lineRest]

theorem lineRest_prefix (rest : List Char) : lineRest rest <+: rest :=
  (beforeSlashes_initial _).trans (List.takeWhile_prefix _)

theorem not_isLineComment {start rest : List Char} {c : Char} (h : ¬ "//".toList <:+: start) (hc : c ≠ '/')
    (hspace : isSpace c = false) : isLineComment (start ++ c :: rest) = false := by
  rw [isLineComment, List.dropWhile_append]
  cases hdrop : start.dropWhile isSpace with
  | nil =>
    rw [if_pos List.isEmpty_nil, List.dropWhile_cons_of_neg (by simp [hspace])]
    have hne : ('/' == c) = false := by simpa using hc.symm
    simp [List.isPrefixOf, hne]
  | cons d ds =>
    have hwithin : d :: ds <:+: start := hdrop ▸ (List.dropWhile_suffix _).isInfix
    rw [if_neg (by simp), Bool.eq_false_iff]
    intro hprefix
    cases ds with
    | nil => simp [hc.symm] at hprefix
    | cons e es =>
      obtain ⟨rfl, rfl⟩ : '/' = d ∧ '/' = e := by simpa using hprefix
      exact h (List.IsInfix.trans ⟨[], es, rfl⟩ hwithin)

/-! ### Names -/

theorem names_append {name rest : List Char} (hstart : ∃ c, name.head? = some c ∧ isStart c = true)
    (hname : ∀ c ∈ name, isCont c = true) (hrest : ∀ c, rest.head? = some c → isCont c = false) :
    names (':' :: ':' :: (name ++ rest)) = (name :: (names rest).1, (names rest).2) := by
  obtain ⟨c, hc, hstart⟩ := hstart
  cases name with
  | nil => cases hc
  | cons c' name =>
    obtain rfl := Option.some_inj.1 hc
    have htail := (List.forall_mem_cons.1 hname).2
    have hdrop : rest.dropWhile isCont = rest := by
      cases rest with
      | nil => rfl
      | cons c rest => exact List.dropWhile_cons_of_neg (by simp [hrest c rfl])
    have htake : rest.takeWhile isCont = [] := by
      cases rest with
      | nil => rfl
      | cons c rest => exact List.takeWhile_cons_of_neg (by simp [hrest c rfl])
    rw [List.cons_append, names, if_pos hstart, List.dropWhile_append_of_pos htail, List.takeWhile_append_of_pos htail, hdrop,
      htake, List.append_nil]

theorem names_eq_nil {cs : List Char} (h : ∀ c rest, isStart c = true → cs ≠ ':' :: ':' :: c :: rest) :
    names cs = ([], cs) := by
  fun_cases names cs with
  | case1 c cs hc => exact absurd rfl (h c cs hc)
  | case2 c cs hc => rfl
  | case3 => rfl

/-! ### Matches -/

/-- No match that begins in the text goes past it. -/
structure Closed (text : List Char) : Prop where
  last : ∀ c, text.getLast? = some c → isCont c = false
  colons : ∀ c, [c, ':', ':'] <:+ text → isCont c = false

theorem Closed.suffix {text rest : List Char} (h : Closed text) (hrest : rest <:+ text) : Closed rest where
  last c hc := by
    obtain ⟨start, rfl⟩ := hrest
    exact h.last c (by rw [List.getLast?_append, hc, Option.some_or])
  colons c hc := h.colons c (hc.trans hrest)

theorem isCont_of_isStart {c : Char} (h : isStart c = true) : isCont c = true := by
  simp only [isStart, isCont, Char.isAlphanum, Bool.or_eq_true, decide_eq_true_eq] at h ⊢
  tauto

theorem names_within {text rest : List Char} (hclosed : Closed text) (hne : text ≠ [':', ':']) (hrest : ∀ rest', rest ≠ ':' :: rest') :
    ∃ text', (names (text ++ rest)).2 = text' ++ rest ∧ text' <:+ text := by
  induction hn : text.length using Nat.strong_induction_on generalizing text with
  | _ n ih =>
    by_cases hnames : ∃ c cs, isStart c = true ∧ text ++ rest = ':' :: ':' :: c :: cs
    · obtain ⟨c, cs, hc, heq⟩ := hnames
      match text with
      | [] => exact absurd heq (hrest _)
      | [_] => exact absurd (List.cons.inj heq).2 (hrest _)
      | [c₁, c₂] =>
        obtain ⟨rfl, rfl, -⟩ : c₁ = ':' ∧ c₂ = ':' ∧ _ := by simpa using heq
        exact absurd rfl hne
      | c₁ :: c₂ :: c₃ :: text =>
        obtain ⟨rfl, rfl, rfl, rfl⟩ : c₁ = ':' ∧ c₂ = ':' ∧ c₃ = c ∧ text ++ rest = cs := by simpa using heq
        have hlast : ∀ name : List Char, (∀ c ∈ name, isCont c = true) → ∃ d, (c₃ :: name).getLast? = some d ∧ isCont d = true := by
          intro name hname
          refine ⟨_, List.getLast?_eq_some_getLast (List.cons_ne_nil c₃ name), ?_⟩
          obtain h | h := List.mem_cons.1 (List.getLast_mem (List.cons_ne_nil c₃ name))
          · rw [h]
            exact isCont_of_isStart hc
          · exact hname _ h
        have hdrop : text.dropWhile isCont ≠ [] := fun hdrop => by
          obtain ⟨d, hd, hcont⟩ := hlast text (List.dropWhile_eq_nil_iff.1 hdrop)
          have := hclosed.last d (by rw [List.getLast?_cons_cons, List.getLast?_cons_cons, hd])
          exact absurd hcont (by simp [this])
        have hsuffix : text.dropWhile isCont <:+ ':' :: ':' :: c₃ :: text :=
          (List.dropWhile_suffix _).trans ⟨[':', ':', c₃], rfl⟩
        have hcolons : text.dropWhile isCont ≠ [':', ':'] := fun hcolons => by
          obtain ⟨d, hd, hcont⟩ := hlast (text.takeWhile isCont) fun c hc => List.mem_takeWhile_imp hc
          obtain ⟨init, hinit⟩ := List.getLast?_eq_some_iff.1 hd
          have htext : ':' :: ':' :: c₃ :: text = [':', ':'] ++ init ++ [d, ':', ':'] := by
            have := List.takeWhile_append_dropWhile (p := isCont) (l := text)
            rw [hcolons] at this
            rw [← this, ← List.cons_append, hinit]
            simp
          exact absurd hcont (by simp [hclosed.colons d ⟨_, htext.symm⟩])
        obtain ⟨text', htext', hsub⟩ := ih _ (by
          have := (List.dropWhile_suffix (l := text) isCont).length_le
          simp only [List.length_cons] at hn
          omega) (hclosed.suffix hsuffix) hcolons rfl
        refine ⟨text', ?_, hsub.trans hsuffix⟩
        rw [heq, names, if_pos hc, List.dropWhile_append, if_neg (by simpa using hdrop)]
        exact htext'
    · refine ⟨text, ?_, List.suffix_rfl⟩
      rw [names_eq_nil fun c cs hc heq => hnames ⟨c, cs, hc, heq⟩]

theorem cratePath_eq {cs after : List Char} {path : List Name} :
    cratePath cs = some (path, after) ↔
      ∃ behind, cs = "crate".toList ++ behind ∧ names behind = (path, after) ∧ path ≠ [] := by
  rw [cratePath, Option.bind_eq_bind, Option.bind_eq_some_iff]
  constructor
  · rintro ⟨behind, hprefix, h⟩
    obtain ⟨start, rfl, hstart⟩ := List.dropPrefix?_eq_some_iff.1 hprefix
    obtain rfl := eq_of_beq hstart
    by_cases hnil : (names behind).1 = []
    · cases (if_pos hnil).symm.trans h
    · have hnames : names behind = (path, after) := Option.some.inj ((if_neg hnil).symm.trans h)
      exact ⟨behind, rfl, hnames, fun hpath => hnil (by rw [hnames, hpath])⟩
  · rintro ⟨behind, rfl, hnames, hne⟩
    refine ⟨behind, List.dropPrefix?_eq_some_iff.2 ⟨_, rfl, beq_self_eq_true _⟩, ?_⟩
    simp [hnames, hne]

theorem cratePath_within {text rest after : List Char} {path : List Name} {c : Char} (hclosed : Closed (c :: text))
    (hrest : ∀ rest', rest ≠ ':' :: rest') (h : cratePath (c :: text ++ rest) = some (path, after)) :
    ∃ text', after = text' ++ rest ∧ text' <:+ text := by
  obtain ⟨behind, hsplit, hnames, -⟩ := cratePath_eq.1 h
  obtain ⟨part, hcrate, -⟩ | ⟨part, htext, rfl⟩ := List.append_eq_append_iff.1 hsplit
  · -- the text would end within `crate`
    have hlast := List.getLast_mem (List.cons_ne_nil c text)
    have hcont : isCont ((c :: text).getLast (List.cons_ne_nil c text)) = true := by
      have hall : "crate".toList.all isCont = true := by decide
      exact List.all_eq_true.1 hall _ (by rw [hcrate]; exact List.mem_append_left _ hlast)
    have := hclosed.last _ (List.getLast?_eq_some_getLast (List.cons_ne_nil c text))
    exact absurd hcont (by simp [this])
  · have hsuffix : part <:+ c :: text := ⟨_, htext.symm⟩
    have hcolons : part ≠ [':', ':'] := by
      rintro rfl
      have := hclosed.colons 'e' ⟨"crat".toList, by rw [htext]; rfl⟩
      exact absurd this (by decide)
    obtain ⟨text', htext', hsub⟩ := names_within (hclosed.suffix hsuffix) hcolons hrest
    rw [hnames] at htext'
    refine ⟨text', htext', hsub.trans ?_⟩
    have : text = "rate".toList ++ part := (List.cons.inj htext).2
    exact ⟨_, this.symm⟩

theorem finditer_mem {text rest after : List Char} {path : List Name} (hclosed : Closed text)
    (hword : ∀ c, text.getLast? = some c → chars.word c = false) (hrest : ∀ rest', rest ≠ ':' :: rest')
    (h : cratePath rest = some (path, after)) {behind : Bool} {skip : Nat} (hskip : skip ≤ text.length)
    (hbehind : text = [] → behind = false) : (path, after) ∈ finditer chars behind skip (text ++ rest) := by
  induction text generalizing behind skip with
  | nil =>
    obtain rfl : skip = 0 := Nat.le_zero.1 hskip
    rw [hbehind rfl, List.nil_append]
    cases rest with
    | nil => simp [cratePath, List.dropPrefix?] at h
    | cons c rest =>
      rw [finditer, if_neg (by simp), h]
      exact List.mem_cons_self ..
  | cons c text ih =>
    have htail : ∀ {skip}, skip ≤ text.length → (path, after) ∈ finditer chars (chars.word c) skip (text ++ rest) := by
      intro skip hskip
      refine ih (hclosed.suffix (List.suffix_cons ..)) (fun d hd => hword d ?_) hskip fun hnil => hword c ?_
      · rw [List.getLast?_cons, hd]
        rfl
      · rw [hnil]
        rfl
    cases skip with
    | succ skip => exact htail (Nat.le_of_succ_le_succ hskip)
    | zero =>
      rw [List.cons_append, finditer]
      split
      case h_1 path' after' hmatch =>
        have hpath : cratePath (c :: text ++ rest) = some (path', after') := by
          split_ifs at hmatch
          exact hmatch
        obtain ⟨text', rfl, hsub⟩ := cratePath_within hclosed hrest hpath
        refine List.mem_cons_of_mem _ (htail ?_)
        have := hsub.length_le
        simp only [List.length_append]
        omega
      case h_2 => exact htail (Nat.zero_le _)

/-! ### Paths that are written out -/

open RustToken

variable {rust : RustChars} {tokens before after : List RustToken} {p : List Name}

def ascii (name : Name) : Bool := name.all isCont

/-- The part of a path that names its category is written in one piece, in ASCII. -/
def Spelled : List RustToken → Prop
  | pathSep :: ident first :: rest =>
    ascii first = true ∧ (packages.contains first = true → GoesOn rest →
      ∃ second rest', rest = pathSep :: ident second :: rest' ∧ ascii second = true)
  | _ => False

/-- How a path is written that the gate sees: no `//` stands before it on its line, not even in a string, and no `!`
behind it. -/
structure Plain (before after : List RustToken) : Prop where
  slashes : ¬ "//".toList <:+: lineStart (textOf before)
  spelled : Spelled after
  bang : bang (names (lineRest (textOf after))).2 = false

/-- A path of the code that is rooted at `crate`. -/
def CratePath (tokens : List RustToken) (p : List Name) : Prop :=
  ∃ before after, CrateAt tokens before after ∧ p ∈ rooted after

/-- Every `crate` that a path begins with is written plainly. -/
def PlainText (tokens : List RustToken) : Prop :=
  ∀ before after, CrateAt tokens before after → rooted after ≠ [] → Plain before after

theorem toNat_of_isCont {c : Char} (h : isCont c = true) : 48 ≤ c.toNat ∧ c.toNat ≤ 122 := by
  simp only [isCont, Char.isAlphanum, Bool.or_eq_true, decide_eq_true_eq] at h
  obtain (h | h) | rfl := h
  · have := toNat_of_isAlpha h
    omega
  · simp only [Char.isDigit, Bool.and_eq_true, decide_eq_true_eq, UInt32.le_iff_toNat_le, ge_iff_le] at h
    have hc : c.toNat = c.val.toNat := rfl
    have h0 : '0'.val.toNat = 48 := rfl
    have h9 : '9'.val.toNat = 57 := rfl
    omega
  · decide

theorem isBreak_of_isCont {c : Char} (h : isCont c = true) : c ≠ '/' ∧ isBreak c = false := by
  have := toNat_of_isCont h
  constructor
  · rintro rfl
    exact absurd this.1 (by decide)
  · rw [isBreak, List.contains_eq_any_beq, List.any_eq_false]
    simp only [List.mem_cons, List.not_mem_nil, or_false, beq_iff_eq]
    omega

theorem isCont_of_isWhite {c : Char} (h : isWhite c = true) : isCont c = false := by
  rw [Bool.eq_false_iff]
  intro hcont
  have := toNat_of_isCont hcont
  simp only [isWhite, List.contains_iff_mem, List.mem_cons, List.not_mem_nil, or_false] at h
  omega

theorem isCont_of_isPunct {c : Char} (h : isPunct c = true) : c.toNat < 128 ∧ isCont c = false := by
  simp only [isPunct, List.contains_iff_mem, List.mem_cons, List.not_mem_nil, or_false] at h
  rcases h with rfl | rfl | rfl | rfl | rfl | rfl | rfl | rfl | rfl | rfl | rfl | rfl | rfl | rfl | rfl | rfl | rfl | rfl |
    rfl | rfl | rfl | rfl | rfl | rfl | rfl | rfl | rfl <;> exact ⟨by decide, rfl⟩

theorem isStart_of_identStart {c : Char} (hcont : isCont c = true) (h : rust.identStart c = true) : isStart c = true := by
  have := toNat_of_isCont hcont
  rwa [rust.identStart_ascii c (by omega)] at h

/-- Behind an identifier the regular expression stops too. -/
theorem isCont_of_endsBefore {name next : List Char} (h : (ident name).EndsBefore rust next) :
    ∀ c, next.head? = some c → isCont c = false := by
  intro c hc
  rw [Bool.eq_false_iff]
  intro hcont
  have := toNat_of_isCont hcont
  have hnot := h c hc
  rw [rust.identContinue_ascii c (by omega)] at hnot
  exact absurd hcont (by simp [isCont, hnot])

theorem head?_lineRest {next : List Char} (h : ∀ c, next.head? = some c → isCont c = false) :
    ∀ c, (lineRest next).head? = some c → isCont c = false := by
  intro c hc
  obtain ⟨rest, hrest⟩ := lineRest_prefix next
  exact h c (by rw [← hrest, List.head?_append, hc, Option.some_or])

/-- What the gate reads of an identifier. -/
theorem names_ident {name : Name} {rest : List RustToken} (h : Lexes rust (pathSep :: ident name :: rest)) (hascii : ascii name = true) :
    names (lineRest (textOf (pathSep :: ident name :: rest))) =
      (name :: (names (lineRest (textOf rest))).1, (names (lineRest (textOf rest))).2) := by
  obtain ⟨-, -, ⟨hstart, -⟩, hends, -⟩ := h
  have hname : ∀ c ∈ name, isCont c = true := List.all_eq_true.1 hascii
  have htext : textOf (pathSep :: ident name :: rest) = ':' :: ':' :: name ++ textOf rest := by simp [textOf, text]
  have hplain : ∀ c ∈ ':' :: ':' :: name, c ≠ '/' ∧ isBreak c = false := by
    intro c hc
    obtain rfl | rfl | hc : c = ':' ∨ c = ':' ∨ c ∈ name := by simpa using hc
    · exact ⟨by decide, rfl⟩
    · exact ⟨by decide, rfl⟩
    · exact isBreak_of_isCont (hname c hc)
  rw [htext, lineRest_append hplain]
  obtain ⟨c, hc, hstart⟩ := hstart
  exact names_append ⟨c, hc, isStart_of_identStart (hname c (List.mem_of_head? hc)) hstart⟩ hname
    (head?_lineRest (isCont_of_endsBefore hends))

theorem categoryOf_of_not_package {first : Name} {rest : List Name} (h : packages.contains first = false) :
    categoryOf (first :: rest) = first := by
  cases rest with
  | nil => rfl
  | cons second rest => rw [categoryOf, if_neg (by simp only [h]; decide)]

theorem categoryOf_congr {first second : Name} {rest rest' : List Name} :
    categoryOf (first :: second :: rest) = categoryOf (first :: second :: rest') := rfl

theorem mem_rooted {first : Name} {rest : List RustToken} (hp : p ∈ rooted (pathSep :: ident first :: rest)) :
    p ∈ behind [] [first] (code rest) := by
  have hcode : code (pathSep :: ident first :: rest) = pathSep :: ident first :: code rest := rfl
  rw [rooted, hcode] at hp
  have := (List.mem_filter.1 hp).1
  rwa [atSegment, if_neg (by simp)] at this

/-- The leaves of a path that is spelled out are of the category that the gate reads. -/
theorem categoryOf_of_spelled (hlex : Lexes rust after) (hspelled : Spelled after) (hp : p ∈ rooted after) :
    categoryOf p = categoryOf (names (lineRest (textOf after))).1 := by
  match after with
  | pathSep :: ident first :: rest =>
    obtain ⟨hfirst, hsecond⟩ := hspelled
    have hmem := mem_rooted hp
    rw [names_ident hlex hfirst]
    by_cases hpackage : packages.contains first = true
    · by_cases hgoes : GoesOn rest
      · obtain ⟨second, rest', rfl, hascii⟩ := hsecond hpackage hgoes
        have hcode : code (pathSep :: ident second :: rest') = pathSep :: ident second :: code rest' := rfl
        rw [hcode, behind, atSegment, if_neg (by simp)] at hmem
        obtain ⟨more, rfl⟩ := leaves_prefix.2.2 [] ([first] ++ [second]) (code rest') List.prefix_rfl (by simp) p hmem
        rw [names_ident hlex.2.2.2.2 hascii]
        exact categoryOf_congr
      · obtain rfl := leaf_eq_of_not_goesOn hgoes hmem
        rw [names_eq_nil fun c cs hc heq => hgoes ?_]
        obtain ⟨end', hend⟩ := lineRest_prefix (textOf rest)
        rw [heq] at hend
        exact goesOn_of_colons hlex.2.2.2.2 (by simpa [isStart] using hc) hend.symm
    · obtain ⟨more, rfl⟩ := leaves_prefix.2.2 [] [first] (code rest) List.prefix_rfl (by simp) p hmem
      rw [Bool.not_eq_true] at hpackage
      rw [List.singleton_append, categoryOf_of_not_package hpackage, categoryOf_of_not_package hpackage]

theorem closed_before (hlex : Lexes rust tokens) (hcrate : CrateAt tokens before after) : Closed (textOf before) where
  last c hc := by
    obtain h | h := before_crate (hcrate.split ▸ hlex) hc
    · exact isCont_of_isWhite h
    · exact (isCont_of_isPunct h).2
  colons c hc := by
    obtain rfl := before_colons hcrate hlex hc
    rfl

theorem word_before (hlex : Lexes rust tokens) (hcrate : CrateAt tokens before after) {c : Char}
    (hc : (textOf before).getLast? = some c) : chars.word c = false := by
  obtain h | h := before_crate (hcrate.split ▸ hlex) hc
  · exact chars.word_white c h
  · obtain ⟨hlt, hcont⟩ := isCont_of_isPunct h
    rw [chars.word_ascii c hlt]
    exact hcont

theorem getLast?_of_suffix {text rest : List Char} (h : rest <:+ text) {c : Char} (hc : rest.getLast? = some c) :
    text.getLast? = some c := by
  obtain ⟨start, rfl⟩ := h
  rw [List.getLast?_append, hc, Option.some_or]

theorem names_ne_nil (hlex : Lexes rust after) (hspelled : Spelled after) : (names (lineRest (textOf after))).1 ≠ [] := by
  match after with
  | pathSep :: ident first :: rest =>
    rw [names_ident hlex hspelled.1]
    exact List.cons_ne_nil _ _

/-- A path that is written plainly is seen. -/
theorem referenced_of_plain (hlex : Lexes rust tokens) (hcrate : CrateAt tokens before after) (hplain : Plain before after)
    (hp : p ∈ rooted after) : categoryOf p ∈ referencedCategories chars (textOf tokens) := by
  have hlex' : Lexes rust (ident "crate".toList :: after) := lexes_append (hcrate.split ▸ hlex)
  have hafter : Lexes rust after := hlex'.2.2
  have htext : textOf tokens = textOf before ++ 'c' :: ("rate".toList ++ textOf after) := by
    rw [hcrate.split]
    simp [textOf, text]
  have hsuffix : lineStart (textOf before) <:+ textOf before := List.rtakeWhile_suffix ..
  have hrest : lineRest ('c' :: ("rate".toList ++ textOf after)) = "crate".toList ++ lineRest (textOf after) :=
    @lineRest_append "crate".toList _ (by simp [isBreak])
  have hhead : (('c' :: ("rate".toList ++ textOf after)).takeWhile fun c => !isBreak c).head? ≠ some '/' := by
    rw [List.takeWhile_cons_of_pos rfl]
    simp
  rw [referencedCategories, List.mem_dedup, htext, List.mem_flatMap]
  refine ⟨_, line_mem (by rfl), ?_⟩
  rw [referencedIn, List.takeWhile_cons_of_pos rfl, not_isLineComment hplain.slashes (by decide) rfl, if_neg (by simp),
    ← List.takeWhile_cons_of_pos rfl, beforeSlashes_append_of_not_infix hplain.slashes hhead, ← lineRest, hrest]
  refine List.mem_map.2 ⟨names (lineRest (textOf after)), List.mem_filter.2 ⟨?_, by simp [hplain.bang]⟩, ?_⟩
  · refine finditer_mem chars ((closed_before hlex hcrate).suffix hsuffix)
      (fun c hc => word_before chars hlex hcrate (getLast?_of_suffix hsuffix hc)) (by simp) ?_ (Nat.zero_le _) fun _ => rfl
    exact cratePath_eq.2 ⟨_, rfl, rfl, names_ne_nil hafter hplain.spelled⟩
  · exact (categoryOf_of_spelled hafter hplain.spelled hp).symm

/-! ### What a silent gate says -/

structure RustFile where
  parts : List Name
  tokens : List RustToken

def RustFile.source (file : RustFile) : SourceFile := ⟨file.parts, textOf file.tokens⟩

/-- A file of the one category may depend on the other. -/
def Allowed (own category : Name) : Prop :=
  category = own ∨ ∃ allowed, allowedImports.lookup own = some allowed ∧ category ∈ allowed

theorem allowed_of_checkFile {file : SourceFile} (h : checkFile chars file = []) {category : Name}
    (hmem : category ∈ referencedCategories chars file.text) : Allowed (categoryFor file.parts) category := by
  unfold checkFile at h
  cases hlookup : allowedImports.lookup (categoryFor file.parts) with
  | none => simp [hlookup] at h
  | some allowed =>
    simp only [hlookup, List.filterMap_eq_nil_iff] at h
    have := h category hmem
    by_cases hown : category = categoryFor file.parts
    · exact .inl hown
    · refine .inr ⟨allowed, hlookup, ?_⟩
      rw [if_neg hown] at this
      split_ifs at this with hunknown hallowed
      simpa using hallowed

/-- Under `generic/`, but for the file of the package itself, nothing of hero is allowed. -/
theorem not_allowed_hero {own category : Name} {allowed : List Name} (h : (own, allowed) ∈ allowedImports)
    (hown : "generic".toList <+: own) (hmem : category ∈ allowed) : ¬ "hero".toList <+: category := by
  have hall : ∀ entry ∈ allowedImports, "generic".toList.isPrefixOf entry.1 = true →
      ∀ category ∈ entry.2, "hero".toList.isPrefixOf category = false := by
    decide
  have := hall _ h (List.isPrefixOf_iff_prefix.2 hown) _ hmem
  intro hhero
  rw [List.isPrefixOf_iff_prefix.2 hhero] at this
  cases this

theorem categoryFor_generic {parts : List Name} (h : parts.head? = some "generic".toList)
    (hmod : parts ≠ ["generic".toList, "mod.rs".toList]) : "generic".toList <+: categoryFor parts := by
  cases parts with
  | nil => cases h
  | cons first rest =>
    obtain rfl := Option.some_inj.1 h
    rw [categoryFor.eq_def]
    dsimp only
    rw [if_neg (by decide), if_neg (by decide), if_pos (by decide)]
    match rest with
    | [] => exact List.prefix_rfl
    | [second] =>
      have hsecond : second ≠ "mod.rs".toList := by
        rintro rfl
        exact hmod rfl
      simp only [if_neg hsecond, List.append_assoc]
      exact List.prefix_append ..
    | second :: _ :: _ =>
      simp only [List.append_assoc]
      exact List.prefix_append ..

theorem categoryOf_hero {p : List Name} (h : p.head? = some "hero".toList) : "hero".toList <+: categoryOf p := by
  match p with
  | [first] => exact (Option.some_inj.1 h) ▸ List.prefix_rfl
  | first :: second :: rest =>
    obtain rfl := Option.some_inj.1 h
    rw [categoryOf, if_pos (by decide), List.append_assoc]
    exact List.prefix_append ..

theorem not_allowed_of_generic {parts p : List Name} (h : parts.head? = some "generic".toList)
    (hmod : parts ≠ ["generic".toList, "mod.rs".toList]) (hp : p.head? = some "hero".toList) :
    ¬ Allowed (categoryFor parts) (categoryOf p) := by
  have hgeneric := categoryFor_generic h hmod
  have hhero := categoryOf_hero hp
  rintro (heq | ⟨allowed, hlookup, hmem⟩)
  · obtain ⟨u, hu⟩ := hgeneric
    obtain ⟨v, hv⟩ := hhero
    rw [heq, ← hu] at hv
    cases (List.cons.inj hv).1
  · obtain ⟨l₁, l₂, hsplit, -⟩ := List.lookup_eq_some_iff.1 hlookup
    have hentry : (categoryFor parts, allowed) ∈ allowedImports := by
      rw [hsplit]
      exact List.mem_append_right _ (List.mem_cons_self ..)
    exact not_allowed_hero hentry hgeneric hmem hhero

/-- Where the paths are written plainly, the gate sees the category of each, and when it reports nothing, every file
imports what its category may, and under `generic/` nothing refers to hero; the package's own `mod.rs` is not
checked. -/
theorem gate_sound_of_plain {files : List RustFile} (hlex : ∀ file ∈ files, Lexes rust file.tokens)
    (hplain : ∀ file ∈ files, PlainText file.tokens)
    (hmod : ∀ file ∈ files, file.parts = ["generic".toList, "mod.rs".toList] →
      ∀ p, CratePath file.tokens p → p.head? ≠ some "hero".toList) :
    (∀ file ∈ files, ∀ p, CratePath file.tokens p → categoryOf p ∈ referencedCategories chars (textOf file.tokens)) ∧
    (check chars (files.map RustFile.source) = [] → ∀ file ∈ files, ∀ p, CratePath file.tokens p →
      Allowed (categoryFor file.parts) (categoryOf p) ∧
      (file.parts.head? = some "generic".toList → p.head? ≠ some "hero".toList)) := by
  have hseen : ∀ file ∈ files, ∀ p, CratePath file.tokens p →
      categoryOf p ∈ referencedCategories chars (textOf file.tokens) := by
    rintro file hfile p ⟨before, after, hcrate, hp⟩
    exact referenced_of_plain chars (hlex file hfile) hcrate
      (hplain file hfile before after hcrate (List.ne_nil_of_mem hp)) hp
  refine ⟨hseen, fun hcheck file hfile p hp => ?_⟩
  have hfileCheck : checkFile chars file.source = [] :=
    List.flatMap_eq_nil_iff.1 hcheck _ (List.mem_map_of_mem hfile)
  have hallowed := allowed_of_checkFile chars hfileCheck (hseen file hfile p hp)
  refine ⟨hallowed, fun hgeneric hhero => ?_⟩
  by_cases hown : file.parts = ["generic".toList, "mod.rs".toList]
  · exact hmod file hfile hown p hp hhero
  · exact not_allowed_of_generic hgeneric hown hhero hallowed

/-! ### A group that is not seen -/

namespace Ascii

def rustChars : RustChars where
  identStart c := c.isAlpha || c = '_'
  identContinue c := c.isAlphanum || c = '_'
  identStart_ascii _ _ := rfl
  identContinue_ascii _ _ := rfl

def wordChars : WordChars where
  word c := c.isAlphanum || c = '_'
  word_ascii _ _ := rfl
  word_white _ h := isCont_of_isWhite h

end Ascii

/-- `use crate::config;` in `generic/controllers/audit.rs` -/
def audit : RustFile where
  parts := ["generic".toList, "controllers".toList, "audit.rs".toList]
  tokens := [ident "use".toList, white ' ', ident "crate".toList, pathSep, ident "config".toList, punct ';']

theorem audit_lexes : ∀ file ∈ [audit], Lexes Ascii.rustChars file.tokens := by
  simp [audit, Lexes, Shape, EndsBefore, textOf, text, Ascii.rustChars, isWhite, isPunct]

theorem audit_plain : ∀ file ∈ [audit], PlainText file.tokens := by
  rintro file hfile before after ⟨hsplit, -⟩ -
  obtain rfl := List.mem_singleton.1 hfile
  obtain ⟨rfl, rfl⟩ : before = [ident "use".toList, white ' '] ∧ after = [pathSep, ident "config".toList, punct ';'] := by
    match before with
    | [] | [_] | [_, _, _] | [_, _, _, _] | [_, _, _, _, _] | _ :: _ :: _ :: _ :: _ :: _ :: _ => simp [audit] at hsplit
    | [_, _] => simpa [audit, eq_comm, and_assoc] using hsplit
  refine ⟨by decide, ⟨by decide, fun h => absurd h (by decide)⟩, ?_⟩
  have hline : lineRest (textOf [pathSep, ident "config".toList, punct ';']) = "::config;".toList := by decide
  rw [hline]
  simp [names, isStart, isCont, Char.isAlpha, Char.isUpper, Char.isLower, Char.isAlphanum, bang, isSpace]

theorem gate_sound_of_plain_audit :
    (∀ file ∈ [audit], ∀ p, CratePath file.tokens p →
      categoryOf p ∈ referencedCategories Ascii.wordChars (textOf file.tokens)) ∧
    (check Ascii.wordChars ([audit].map RustFile.source) = [] → ∀ file ∈ [audit], ∀ p, CratePath file.tokens p →
      Allowed (categoryFor file.parts) (categoryOf p) ∧
      (file.parts.head? = some "generic".toList → p.head? ≠ some "hero".toList)) := by
  refine gate_sound_of_plain Ascii.wordChars audit_lexes audit_plain fun file hfile hmod => ?_
  obtain rfl := List.mem_singleton.1 hfile
  exact absurd hmod (by decide)

/-- `use crate::{hero::models};` -/
def grouped : List RustToken :=
  [ident "use".toList, white ' ', ident "crate".toList, pathSep, punct '{', ident "hero".toList, pathSep,
    ident "models".toList, punct '}', punct ';']

theorem grouped_lexes : Lexes Ascii.rustChars grouped := by
  simp [grouped, Lexes, Shape, EndsBefore, textOf, text, Ascii.rustChars, isWhite, isPunct]

theorem grouped_crateAt :
    CrateAt grouped [ident "use".toList, white ' ']
      [pathSep, punct '{', ident "hero".toList, pathSep, ident "models".toList, punct '}', punct ';'] :=
  ⟨rfl, by decide⟩

theorem grouped_path : CratePath grouped ["hero".toList, "models".toList] :=
  ⟨_, _, grouped_crateAt, by decide⟩

theorem referencedCategories_grouped : referencedCategories Ascii.wordChars (textOf grouped) = [] := by
  have hline : splitlines (textOf grouped) = ["use crate::{hero::models};".toList] := by decide
  have hcode : beforeSlashes "use crate::{hero::models};".toList = "use crate::{hero::models};".toList := rfl
  have hfound : finditer Ascii.wordChars false 0 "use crate::{hero::models};".toList = [] := by
    simp [finditer, cratePath, List.dropPrefix?, names, isStart, Char.isAlpha, Char.isUpper, Char.isLower]
  rw [referencedCategories, hline, List.flatMap_singleton, referencedIn, hcode, hfound]
  rfl

theorem not_gate_sound : ¬ ∀ (rust : RustChars) (chars : WordChars) (files : List RustFile),
    (∀ file ∈ files, Lexes rust file.tokens) →
      (∀ file ∈ files, ∀ p, CratePath file.tokens p → categoryOf p ∈ referencedCategories chars (textOf file.tokens)) ∧
      (check chars (files.map RustFile.source) = [] → ∀ file ∈ files, ∀ p, CratePath file.tokens p →
        Allowed (categoryFor file.parts) (categoryOf p) ∧
        (file.parts.head? = some "generic".toList → p.head? ≠ some "hero".toList)) := by
  intro h
  have hfile := (h Ascii.rustChars Ascii.wordChars
    [⟨["generic".toList, "controllers".toList, "audit.rs".toList], grouped⟩] (by simpa using grouped_lexes)).1
  have hseen := hfile _ (List.mem_singleton_self _) _ grouped_path
  rw [referencedCategories_grouped] at hseen
  cases hseen

end TemplateAxum.CheckLayering
