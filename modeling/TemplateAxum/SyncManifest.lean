import TemplateAxum.CheckLayering
import TemplateAxum.Lib.Fnmatch
import TemplateAxum.Lib.Trim
import TemplateAxum.Lib.Walk

/-!
# The tiers of a template sync

`template_sync_manifest.py` reads which paths are in which tier, and `tier_paths` of `template_sync.py` finds the files
of a tree that are in one: by looking a path up, or by matching a glob against all files.
-/

namespace TemplateAxum.TemplateSync

open CheckLayering (isSpace splitlines)

/-! ### `template_sync_manifest.py` -/

inductive Tier
  | replace | ignore | merge
deriving DecidableEq

/-- `TIERS` -/
def allTiers : List Tier := [.replace, .ignore, .merge]

def Tier.ofName (name : List Char) : Option Tier :=
  if name = "replace".toList then some .replace
  else if name = "ignore".toList then some .ignore
  else if name = "merge".toList then some .merge
  else none

/-- The patterns of each tier. -/
abbrev Tiers := Tier → List String

/-- `split(" #", 1)[0]` -/
def beforeComment : List Char → List Char
  | [] => []
  | ' ' :: '#' :: _ => []
  | c :: line => c :: beforeComment line

def strip (text : List Char) : List Char := Trim.trim isSpace text

/-- The pattern of an entry, behind its dash. -/
def patternOf (entry : List Char) : String := String.ofList (Trim.trim (fun c => c = '\'' ∨ c = '"') (strip entry))

/-- One line; the second component is the tier that entries belong to. -/
def parseLine (state : Tiers × Option Tier) (raw : List Char) : Tiers × Option Tier :=
  let line := (beforeComment raw).rdropWhile isSpace
  if line = [] ∨ (line.dropWhile isSpace).head? = some '#' then state
  else if line.head? ≠ some ' ' ∧ line.getLast? = some ':' then (state.1, Tier.ofName (strip line.dropLast))
  else
    match state.2, strip line with
    | some tier, '-' :: ' ' :: entry => (Function.update state.1 tier (state.1 tier ++ [patternOf entry]), some tier)
    | _, _ => state

def parseManifest (text : String) : Tiers := ((splitlines text.toList).foldl parseLine (fun _ => [], none)).1

def isGlob (pattern : String) : Bool := pattern.toList.contains '*' || pattern.toList.contains '?'

/-- `pattern.rstrip("/")` -/
def stripSlashes (pattern : String) : String := String.ofList (pattern.toList.rdropWhile (· = '/'))

def endsInSlash (pattern : String) : Bool := pattern.toList.getLast? = some '/'

/-- `matches` -/
def matchesPattern (path pattern : String) : Bool :=
  if endsInSlash pattern then path = stripSlashes pattern || pattern.toList.isPrefixOf path.toList
  else if isGlob pattern then Fnmatch.fnmatch path pattern
  else path = pattern

def classify (path : String) (tiers : Tiers) : List Tier := allTiers.filter fun tier => (tiers tier).any (matchesPattern path)

def Tier.name : Tier → String
  | replace => "replace"
  | ignore => "ignore"
  | merge => "merge"

/-- The manifest with the `ignore` entries of the instance's own file, if it has one, and the errors of that file. -/
def loadTiers (manifest : String) (localPath : String) (localText : Option String) : Tiers × List String :=
  let tiers := parseManifest manifest
  match localText with
  | none => (tiers, [])
  | some text =>
    let own := parseManifest text
    (Function.update tiers .ignore (tiers .ignore ++ own .ignore),
      (allTiers.filter fun tier => tier ≠ .ignore ∧ own tier ≠ []).map fun tier =>
        localPath ++ ": only the ignore tier is allowed, found " ++ tier.name ++ " entries")

/-- What the check says of one path. -/
def checkPath (manifestPath : String) (tiers : Tiers) (path : String) : Option String :=
  match classify path tiers with
  | [] => some (path ++ ": not covered by any tier in " ++ manifestPath)
  | [_] => none
  | matched => some (path ++ ": matched by more than one tier (" ++ ", ".intercalate (matched.map Tier.name) ++ ")")

def check (manifestPath manifest localPath : String) (localText : Option String) (tracked : List String) : List String :=
  let (tiers, errors) := loadTiers manifest localPath localText
  errors ++ tracked.filterMap (checkPath manifestPath tiers)

/-! ### `template_sync.py` -/

/-- The names of files below a directory, from the root; a directory that is not below the root has none. -/
def relativeTo (root lexical : PurePath) (found : Finset PurePath) : Except String (Finset String) :=
  if root <+: lexical then .ok (found.image fun rest => PurePath.name (lexical.drop root.length ++ rest))
  else if found = ∅ then .ok ∅
  else .error "is not in the subpath"

def relativeFilesUnder (fs : FileSystem) (root : PurePath) (relDir : String) : Except String (Finset String) :=
  let base := FilePath.join root relDir
  if fs.isFile base then .ok {relDir}
  else if ¬ fs.isDir base then .ok ∅
  else
    match fs.locate base with
    | .found real => relativeTo root (base.base ++ base.parts) (fs.files (fun _ => false) real)
    | _ => .ok ∅

/-- The root is a real location. -/
def relativeFiles (fs : FileSystem) (root : PurePath) : Finset String :=
  if fs.isDir ⟨root, []⟩ then (fs.files (fun name => name = ".git") root).image PurePath.name else ∅

def relativeFilesMatching (fs : FileSystem) (root : PurePath) (pattern : String) : Finset String :=
  (relativeFiles fs root).filter fun rel => matchesPattern rel pattern

/-- What one pattern brings. -/
def patternPaths (fs : FileSystem) (root : PurePath) (pattern : String) : Except String (Finset String) :=
  if isGlob pattern then .ok (relativeFilesMatching fs root pattern)
  else relativeFilesUnder fs root (if endsInSlash pattern then stripSlashes pattern else pattern)

def tierPaths (fs : FileSystem) (root : PurePath) (tiers : Tiers) (tier : Tier) : Except String (Finset String) := do
  let found ← (tiers tier).foldlM (fun found pattern => (patternPaths fs root pattern).map fun more => found ∪ more) ∅
  pure (found.filter fun path => classify path tiers = [tier])

/-! ### Patterns and paths -/

/-- A pattern that says where it is: a path from the root, of a directory with a slash behind it. -/
def Relative (pattern : String) : Prop :=
  ∃ q : PurePath, q.Normal ∧ q ≠ [] ∧ (pattern = q.name ∨ pattern = q.name ++ "/")

theorem mem_classify {path : String} {tiers : Tiers} {tier : Tier} :
    tier ∈ classify path tiers ↔ ∃ pattern ∈ tiers tier, matchesPattern path pattern = true := by
  rw [classify, List.mem_filter, List.any_eq_true]
  refine and_iff_right ?_
  cases tier <;> simp [allTiers]

section

variable {q d : PurePath}

theorem endsInSlash_name (hq : q.Normal) : endsInSlash q.name = false := decide_eq_false (PurePath.getLast?_name hq)

theorem endsInSlash_dir (name : String) : endsInSlash (name ++ "/") = true := by
  rw [endsInSlash, String.toList_append]
  simp

theorem stripSlashes_dir (hq : q.Normal) : stripSlashes (q.name ++ "/") = q.name := by
  have hend : ∀ hne : q.name.toList ≠ [], ¬ decide (q.name.toList.getLast hne = '/') = true := by
    intro hne hslash
    refine PurePath.getLast?_name hq ?_
    rw [List.getLast?_eq_getLast_of_ne_nil hne, of_decide_eq_true hslash]
  rw [stripSlashes, String.toList_append]
  have hslash : "/".toList = ['/'] := rfl
  rw [hslash, List.rdropWhile_concat_pos _ _ _ (by decide), List.rdropWhile_eq_self_iff.2 hend, String.ofList_toList]

/-- The path of a directory, with a slash, matches it and what is below. -/
theorem matches_dir (hd : d.Normal) (hne : d ≠ []) (hq : q.Normal) :
    matchesPattern q.name (d.name ++ "/") = true ↔ d <+: q := by
  have hslash : (d.name ++ "/").toList = d.name.toList ++ ['/'] := String.toList_append
  rw [matchesPattern, endsInSlash_dir, if_pos rfl, stripSlashes_dir hd, Bool.or_eq_true, decide_eq_true_eq, hslash,
    List.isPrefixOf_iff_prefix, PurePath.prefix_name_iff hd hne hq]
  constructor
  · rintro (heq | ⟨hpre, -⟩)
    · rw [PurePath.name_injective hq hd heq]
    · exact hpre
  · intro hpre
    by_cases heq : d = q
    · exact .inl (by rw [heq])
    · exact .inr ⟨hpre, heq⟩

end

/-! ### The files of a tier -/

section

variable {fs : FileSystem} {root q d : PurePath} {pattern : String} {tiers : Tiers} {tier : Tier}

theorem relativeFilesUnder_name (hplain : fs.Plain root) (hd : d.Normal) : ∃ found, relativeFilesUnder fs root d.name = .ok found ∧
    ∀ p, p ∈ found ↔ ∃ q : PurePath, p = q.name ∧ d <+: q ∧ fs.fileAt (root ++ q) ≠ none := by
  rw [relativeFilesUnder, FilePath.join_name hd]
  by_cases hfile : fs.isFile ⟨root, d⟩ = true
  · rw [if_pos hfile]
    have hthere := (hplain.isFile_iff hd).1 hfile
    refine ⟨_, rfl, fun p => ?_⟩
    rw [Finset.mem_singleton]
    constructor
    · rintro rfl
      exact ⟨d, rfl, List.prefix_refl d, hthere⟩
    · rintro ⟨q, rfl, hpre, hq⟩
      rw [FileSystem.eq_of_below hthere hq hpre]
  rw [if_neg hfile]
  by_cases hdir : fs.isDir ⟨root, d⟩ = true
  · have hlookup := (hplain.isDir_iff hd).1 hdir
    have hlocate : fs.locate ⟨root, d⟩ = .found (root ++ d) := hplain.locate (by rw [hlookup]; simp)
    rw [if_neg (not_not.2 hdir), hlocate]
    dsimp only
    rw [relativeTo, if_pos (List.prefix_append root d), List.drop_left]
    refine ⟨_, rfl, fun p => ?_⟩
    simp only [Finset.mem_image, FileSystem.mem_files (hplain.sub hlookup), List.append_assoc]
    constructor
    · rintro ⟨rest, ⟨-, hrest, -⟩, rfl⟩
      exact ⟨d ++ rest, rfl, List.prefix_append d rest, hrest⟩
    · rintro ⟨q, rfl, ⟨rest, rfl⟩, hq⟩
      refine ⟨rest, ⟨?_, hq, fun _ _ => trivial⟩, rfl⟩
      rintro rfl
      rw [List.append_nil] at hq
      exact hfile ((hplain.isFile_iff hd).2 hq)
  · rw [if_pos hdir]
    refine ⟨_, rfl, fun p => iff_of_false (Finset.notMem_empty p) ?_⟩
    rintro ⟨q, -, hpre, hq⟩
    by_cases heq : d = q
    · rw [← heq] at hq
      exact hfile ((hplain.isFile_iff hd).2 hq)
    · have hpre' : root ++ d <+: root ++ q := (List.prefix_append_right_inj root).2 hpre
      have hthere : fs.lookup (root ++ q) ≠ none := fun hnone => hq (by rw [FileSystem.fileAt, hnone])
      exact hdir ((hplain.isDir_iff hd).2
        (FileSystem.dir_of_below hpre' (fun h => heq (List.append_cancel_left h)) hthere))

theorem mem_relativeFiles (hplain : fs.Plain root) {p : String} :
    p ∈ relativeFiles fs root ↔ ∃ q : PurePath, p = q.name ∧ q ≠ [] ∧ fs.fileAt (root ++ q) ≠ none ∧ ".git" ∉ q.dropLast := by
  have hdir : fs.isDir ⟨root, []⟩ = true := by
    refine (hplain.isDir_iff (by simp [PurePath.Normal])).2 ?_
    rw [List.append_nil]
    exact hplain.dir
  rw [relativeFiles, if_pos hdir, Finset.mem_image]
  simp only [FileSystem.mem_files hplain, decide_eq_false_iff_not]
  constructor
  · rintro ⟨q, ⟨hne, hfile, hgit⟩, rfl⟩
    exact ⟨q, rfl, hne, hfile, fun hmem => hgit _ hmem rfl⟩
  · rintro ⟨q, rfl, hne, hfile, hgit⟩
    exact ⟨q, ⟨hne, hfile, fun part hpart heq => hgit (heq ▸ hpart)⟩, rfl⟩

/-- A path that is looked up is the path of a directory with what is below it, or of a file. -/
theorem relative_lookup (h : Relative pattern) : ∃ d : PurePath, d.Normal ∧ d ≠ [] ∧
    (if endsInSlash pattern then stripSlashes pattern else pattern) = d.name ∧
    ∀ q : PurePath, q.Normal → isGlob pattern = false → matchesPattern q.name pattern = true → d <+: q := by
  obtain ⟨d, hd, hne, rfl | rfl⟩ := h
  · refine ⟨d, hd, hne, by rw [endsInSlash_name hd, if_neg (by decide)], fun q hq hglob hmatches => ?_⟩
    rw [matchesPattern, endsInSlash_name hd, if_neg (by decide), hglob, if_neg (by decide), decide_eq_true_eq] at hmatches
    rw [PurePath.name_injective hq hd hmatches]
  · refine ⟨d, hd, hne, by rw [endsInSlash_dir, if_pos rfl, stripSlashes_dir hd], fun q hq _ hmatches => ?_⟩
    exact (matches_dir hd hne hq).1 hmatches

theorem patternPaths_ok (hplain : fs.Plain root) (h : isGlob pattern = true ∨ Relative pattern) :
    ∃ found, patternPaths fs root pattern = .ok found ∧
      (∀ p ∈ found, ∃ q : PurePath, p = q.name ∧ q ≠ [] ∧ fs.fileAt (root ++ q) ≠ none) ∧
      ∀ q : PurePath, q ≠ [] → fs.fileAt (root ++ q) ≠ none → ".git" ∉ q.dropLast → matchesPattern q.name pattern = true →
        q.name ∈ found := by
  rw [patternPaths]
  by_cases hglob : isGlob pattern = true
  · rw [if_pos hglob]
    refine ⟨_, rfl, fun p hp => ?_, fun q hne hfile hgit hmatches => ?_⟩
    · obtain ⟨q, hname, hne, hfile, -⟩ := (mem_relativeFiles hplain).1 (Finset.mem_filter.1 hp).1
      exact ⟨q, hname, hne, hfile⟩
    · exact Finset.mem_filter.2 ⟨(mem_relativeFiles hplain).2 ⟨q, rfl, hne, hfile, hgit⟩, hmatches⟩
  · rw [if_neg hglob]
    obtain ⟨d, hd, hdne, hname, hmatches⟩ := relative_lookup (h.resolve_left hglob)
    obtain ⟨found, hfound, hmem⟩ := relativeFilesUnder_name hplain hd
    rw [hname]
    refine ⟨found, hfound, fun p hp => ?_, fun q _ hfile _ hq => ?_⟩
    · obtain ⟨q, rfl, hpre, hfile⟩ := (hmem p).1 hp
      refine ⟨q, rfl, ?_, hfile⟩
      rintro rfl
      exact hdne (List.prefix_nil.1 hpre)
    · have hnormal : q.Normal := FileSystem.normal_of_fileAt hfile
      exact (hmem _).2 ⟨q, rfl, hmatches q hnormal (Bool.eq_false_iff.2 hglob) hq, hfile⟩

theorem foldlM_union {f : String → Except String (Finset String)} {patterns : List String} {start : Finset String}
    (h : ∀ pattern ∈ patterns, ∃ found, f pattern = .ok found) :
    ∃ found, patterns.foldlM (fun found pattern => (f pattern).map fun more => found ∪ more) start = .ok found ∧
      ∀ p, p ∈ found ↔ p ∈ start ∨ ∃ pattern ∈ patterns, ∃ more, f pattern = .ok more ∧ p ∈ more := by
  induction patterns generalizing start with
  | nil => exact ⟨start, rfl, by simp⟩
  | cons pattern patterns ih =>
    obtain ⟨more, hmore⟩ := h pattern List.mem_cons_self
    obtain ⟨found, hfound, hmem⟩ := @ih (start ∪ more) fun pattern' hpattern' => h pattern' (List.mem_cons_of_mem _ hpattern')
    refine ⟨found, ?_, fun p => ?_⟩
    · rw [List.foldlM_cons, hmore]
      exact hfound
    · rw [hmem, Finset.mem_union]
      simp [hmore, or_assoc]

/-- Over every tree and every list of patterns that are globs or paths from the root: the files found in a tier are the
files that the manifest puts in that tier and in no other. -/
theorem mem_tierPaths_iff (hplain : fs.Plain root)
    (hpatterns : ∀ pattern ∈ tiers tier, isGlob pattern = true ∨ Relative pattern) :
    ∃ found, tierPaths fs root tiers tier = .ok found ∧
      (∀ p ∈ found, ∃ q : PurePath, p = q.name ∧ q ≠ [] ∧ fs.fileAt (root ++ q) ≠ none ∧ classify p tiers = [tier]) ∧
      ∀ q : PurePath, q.Normal → q ≠ [] → ".git" ∉ q.dropLast →
        (q.name ∈ found ↔ fs.fileAt (root ++ q) ≠ none ∧ classify q.name tiers = [tier]) := by
  obtain ⟨found, hfound, hmem⟩ := @foldlM_union (patternPaths fs root) (tiers tier) ∅ fun pattern hpattern => by
    obtain ⟨more, hmore, -⟩ := patternPaths_ok hplain (hpatterns pattern hpattern)
    exact ⟨more, hmore⟩
  have hfile : ∀ p ∈ found, ∃ q : PurePath, p = q.name ∧ q ≠ [] ∧ fs.fileAt (root ++ q) ≠ none := by
    intro p hp
    obtain h | ⟨pattern, hpattern, more, hmore, hp⟩ := (hmem p).1 hp
    · exact absurd h (Finset.notMem_empty p)
    · obtain ⟨more', hmore', hfiles, -⟩ := patternPaths_ok hplain (hpatterns pattern hpattern)
      rw [hmore] at hmore'
      cases hmore'
      exact hfiles p hp
  refine ⟨found.filter fun path => classify path tiers = [tier], ?_, fun p hp => ?_, fun q hq hne hgit => ?_⟩
  · rw [tierPaths, hfound]
    rfl
  · obtain ⟨hp, hclass⟩ := Finset.mem_filter.1 hp
    obtain ⟨q, hname, hne, hthere⟩ := hfile p hp
    exact ⟨q, hname, hne, hthere, hclass⟩
  · rw [Finset.mem_filter]
    refine and_congr_left fun hclass => ?_
    constructor
    · intro hp
      obtain ⟨q', hname, -, hthere⟩ := hfile _ hp
      rwa [PurePath.name_injective hq (FileSystem.normal_of_fileAt hthere) hname]
    · intro hthere
      obtain ⟨pattern, hpattern, hmatches⟩ := mem_classify.1 (hclass ▸ List.mem_singleton_self tier)
      obtain ⟨more, hmore, -, hall⟩ := patternPaths_ok hplain (hpatterns pattern hpattern)
      exact (hmem _).2 (.inr ⟨pattern, hpattern, more, hmore, hall q hne hthere hgit hmatches⟩)

/-! ### The completeness check -/

theorem checkPath_eq_none {manifestPath path : String} :
    checkPath manifestPath tiers path = none ↔ ∃ tier, classify path tiers = [tier] := by
  unfold checkPath
  split
  · rename_i h
    simp [h]
  · rename_i tier h
    simp [h]
  · rename_i matched hnil hone
    refine iff_of_false nofun ?_
    rintro ⟨tier, h⟩
    exact hone tier h

end

/-- A checkout of two files. -/
def checkout : FileSystem :=
  ((((FileSystem.empty.add [] "src" .dir).add ["src"] "main.rs" (.file ⟨[], 0o644#12⟩)).add [] "README.md" (.file ⟨[], 0o644#12⟩)).add
    [] ".git" .dir).add [".git"] "HEAD" (.file ⟨[], 0o644#12⟩)

theorem checkout_plain : checkout.Plain [] := by
  have hempty : FileSystem.empty.Plain [] := by
    refine ⟨FileSystem.empty.root, fun q target => ?_⟩
    rw [FileSystem.lookup_empty]
    split_ifs <;> simp
  exact ((((hempty.add (by simp)).add (by simp)).add (by simp)).add (by simp)).add (by simp)

def checkoutManifest : String := "replace:\n- src/\nmerge:\n- '*.md'"

theorem checkoutManifest_patterns : ∀ tier, ∀ pattern ∈ parseManifest checkoutManifest tier,
    isGlob pattern = true ∨ Relative pattern := by
  have htiers : parseManifest checkoutManifest .replace = ["src/"] ∧ parseManifest checkoutManifest .ignore = [] ∧
      parseManifest checkoutManifest .merge = ["*.md"] := by decide +kernel
  have hsrc : Relative "src/" := ⟨["src"], List.forall_mem_singleton.2 (by decide +kernel), by decide, .inr (by decide +kernel)⟩
  intro tier pattern hpattern
  cases tier with
  | replace =>
    rw [htiers.1, List.mem_singleton] at hpattern
    rw [hpattern]
    exact .inr hsrc
  | ignore =>
    rw [htiers.2.1] at hpattern
    cases hpattern
  | merge =>
    rw [htiers.2.2, List.mem_singleton] at hpattern
    rw [hpattern]
    exact .inl (by decide)

end TemplateAxum.TemplateSync
