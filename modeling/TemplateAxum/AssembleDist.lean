import TemplateAxum.Lib.PurePath

/-!
# Which legs of a release go together

The collision check of `assemble_dist.py`: every member of every tarball is claimed for its arch, in
one pass that keeps one arch for each path.
-/

namespace TemplateAxum.AssembleDist

/-! ### `_claim` -/

/-- The non-directory entries and the directories, explicit or implied, each with an arch. -/
structure Claims where
  leaves : PurePath → Option String
  dirs : PurePath → Option String

def Claims.empty : Claims := ⟨fun _ => none, fun _ => none⟩

def set (map : PurePath → Option String) (path : PurePath) (arch : String) : PurePath → Option String :=
  fun path' => if path' = path then some arch else map path'

/-- `map.setdefault(path, arch)`. -/
def setDefault (map : PurePath → Option String) (path : PurePath) (arch : String) : PurePath → Option String :=
  if map path = none then set map path arch else map

/-- `a or b`, where the empty string is false. -/
def orElse (a b : Option String) : Option String := if a = none ∨ a = some "" then b else a

def parents (path : PurePath) : List PurePath := (PurePath.parents path).filter fun p => p.name ≠ "."

def claimDir (arch : String) (s : Claims) (d : PurePath) : Except String Claims :=
  match s.leaves d with
  | some other =>
    if other ≠ arch then
      .error ("dist/" ++ d.name ++ " is a file for arch " ++ other ++ " but a directory for arch " ++ arch ++
        "; per-arch file names must include the arch")
    else .ok { s with dirs := setDefault s.dirs d arch }
  | none => .ok { s with dirs := setDefault s.dirs d arch }

/-- The directories that an entry makes, of itself or for its sake. -/
def implied (path : PurePath) (isDir : Bool) : List PurePath := if isDir then path :: parents path else parents path

def claim (path : PurePath) (isDir : Bool) (arch : String) (s : Claims) : Except String Claims := do
  let s ← (implied path isDir).foldlM (claimDir arch) s
  if isDir then pure s
  else
    match orElse (s.leaves path) (s.dirs path) with
    | some other =>
      if other ≠ arch then
        .error ("dist/" ++ path.name ++ " is produced by more than one arch leg (" ++ other ++ " and " ++ arch ++
          "); per-arch file names must include the arch")
      else pure { s with leaves := set s.leaves path arch }
    | none => pure { s with leaves := set s.leaves path arch }

/-! ### The claims of a release -/

/-- Of a tar member the name and whether it is a directory. -/
structure TarInfo where
  name : String
  isDir : Bool

/-- The claims of `_checked_members`. -/
def checkedMember (arch : String) (s : Claims) (m : TarInfo) : Except String Claims :=
  let path := PurePath.ofName m.name
  if PurePath.isAbsolute m.name = false ∧ path.name = "." then pure s
  else if PurePath.isAbsolute m.name ∨ ".." ∈ path then .error (m.name ++ " (arch " ++ arch ++ ") escapes dist/")
  else claim path m.isDir arch s

def isArchChar (c : Char) : Bool := c.isAlphanum || c = '.' || c = '_' || c = '-'

/-- `_ARCH.fullmatch`. -/
def isArch (arch : String) : Bool :=
  match arch.toList with
  | [] => false
  | c :: rest => c.isAlphanum && rest.all isArchChar

def reprChar (quote c : Char) : List Char :=
  if c = quote ∨ c = '\\' then ['\\', c]
  else if c = '\t' then ['\\', 't']
  else if c = '\n' then ['\\', 'n']
  else if c = '\r' then ['\\', 'r']
  else if c < ' ' ∨ c = '\x7f' then ['\\', 'x', (c.toNat / 16).digitChar, (c.toNat % 16).digitChar]
  else [c]

/-- `repr` of a text, of which all that is beyond ASCII is taken for printable. -/
def repr (text : String) : String :=
  let quote := if '\x27' ∈ text.toList ∧ '"' ∉ text.toList then '"' else '\x27'
  .ofList (quote :: text.toList.flatMap (reprChar quote) ++ [quote])

/-- The distinct names, each where it first stands. -/
def validateArches (value : List String) : Except String (List String) :=
  if value = [] then .error "ARCHES_JSON must be a non-empty JSON array of arch names, got []"
  else
    match value.find? fun arch => !isArch arch with
    | some arch => .error ("invalid arch name " ++ repr arch ++ " in ARCHES_JSON; expected e.g. amd64 or arm64")
    | none => .ok value.eraseDups

/-- The claims of `assemble`, leg by leg. -/
def claimLegs (names : List String) (tar : String → List TarInfo) : Except String Claims :=
  names.foldlM (fun s arch => (tar arch).foldlM (checkedMember arch) s) Claims.empty

/-! ### One claim at a time -/

/-- That an arch has a path, as a directory or as anything else. -/
structure Claimed where
  arch : String
  path : PurePath
  isDir : Bool

def claimLeaf (arch : String) (s : Claims) (path : PurePath) : Except String Claims :=
  match orElse (s.leaves path) (s.dirs path) with
  | some other =>
    if other ≠ arch then
      .error ("dist/" ++ path.name ++ " is produced by more than one arch leg (" ++ other ++ " and " ++ arch ++
        "); per-arch file names must include the arch")
    else pure { s with leaves := set s.leaves path arch }
  | none => pure { s with leaves := set s.leaves path arch }

def claimOne (s : Claims) (c : Claimed) : Except String Claims :=
  if c.isDir then claimDir c.arch s c.path else claimLeaf c.arch s c.path

/-- What an entry claims, in order. -/
def claimed (arch : String) (path : PurePath) (isDir : Bool) : List Claimed :=
  (implied path isDir).map (⟨arch, ·, true⟩) ++ if isDir then [] else [⟨arch, path, false⟩]

theorem claim_eq (path : PurePath) (isDir : Bool) (arch : String) (s : Claims) :
    claim path isDir arch s = (claimed arch path isDir).foldlM claimOne s := by
  unfold claim claimed
  rw [List.foldlM_append, List.foldlM_map]
  refine bind_congr fun s => ?_
  cases isDir with
  | true => rfl
  | false =>
    rw [if_neg Bool.false_ne_true, if_neg Bool.false_ne_true, List.foldlM_cons]
    simp only [List.foldlM_nil, bind_pure]
    rfl

/-- No path of one arch that is no directory belongs to another. -/
def Apart (done : List Claimed) : Prop :=
  ∀ c ∈ done, ∀ c' ∈ done, c.isDir = false → c.path = c'.path → c.arch = c'.arch

theorem Apart.of_append {done more : List Claimed} (h : Apart (done ++ more)) : Apart done :=
  fun c hc c' hc' => h c (List.mem_append_left _ hc) c' (List.mem_append_left _ hc')

/-- What is kept of the claims made, `arch` being the arch whose turn it is: of the directories the first
arch, so the one whose turn it is only where it has the path to itself. -/
structure Tracks (s : Claims) (done : List Claimed) (arch : String) : Prop where
  named : ∀ c ∈ done, c.arch ≠ ""
  leaf : ∀ path a, s.leaves path = some a ↔ ⟨a, path, false⟩ ∈ done
  dir_none : ∀ path, s.dirs path = none → ∀ a, ⟨a, path, true⟩ ∉ done
  dir_some : ∀ path a, s.dirs path = some a → ⟨a, path, true⟩ ∈ done
  first : ∀ path, s.dirs path = some arch → ∀ a, ⟨a, path, true⟩ ∈ done → a = arch

/-- Either the claims made are apart, and kept, or not, and the last was refused. -/
def Settled (r : Except String Claims) (done : List Claimed) (arch : String) : Prop :=
  (∃ msg, r = .error msg) ∧ ¬ Apart done ∨ ∃ s, r = .ok s ∧ Tracks s done arch ∧ Apart done

theorem setDefault_apply (map : PurePath → Option String) (path : PurePath) (arch : String) (path' : PurePath) :
    setDefault map path arch path' = if map path' = none ∧ path' = path then some arch else map path' := by
  unfold setDefault set
  by_cases hnone : map path = none
  · rw [if_pos hnone]
    by_cases heq : path' = path
    · rw [if_pos heq, if_pos ⟨heq ▸ hnone, heq⟩]
    · rw [if_neg heq, if_neg fun h => heq h.2]
  · rw [if_neg hnone, if_neg]
    rintro ⟨h, rfl⟩
    exact hnone h

section

variable {s : Claims} {done : List Claimed} {arch : String} {path : PurePath}

theorem Apart.snoc (h : Apart done) {c : Claimed} (hleaf : ∀ c' ∈ done, c'.isDir = false → c'.path = c.path → c'.arch = c.arch)
    (hself : c.isDir = false → ∀ c' ∈ done, c.path = c'.path → c.arch = c'.arch) : Apart (done ++ [c]) := by
  intro c₁ hc₁ c₂ hc₂ hfile hpath
  rcases List.mem_append.1 hc₁ with hc₁ | hc₁
  · rcases List.mem_append.1 hc₂ with hc₂ | hc₂
    · exact h c₁ hc₁ c₂ hc₂ hfile hpath
    · rw [List.mem_singleton.1 hc₂] at hpath ⊢
      exact hleaf c₁ hc₁ hfile hpath
  · obtain rfl := List.mem_singleton.1 hc₁
    rcases List.mem_append.1 hc₂ with hc₂ | hc₂
    · exact hself hfile c₂ hc₂ hpath
    · obtain rfl := List.mem_singleton.1 hc₂
      rfl

/-- A directory is claimed. -/
theorem Tracks.addDir (h : Tracks s done arch) (hname : arch ≠ "") :
    Tracks { s with dirs := setDefault s.dirs path arch } (done ++ [⟨arch, path, true⟩]) arch := by
  have hdirs : ∀ path', ({ s with dirs := setDefault s.dirs path arch } : Claims).dirs path' =
      if s.dirs path' = none ∧ path' = path then some arch else s.dirs path' := setDefault_apply s.dirs path arch
  refine ⟨?_, ?_, ?_, ?_, ?_⟩
  · intro c hc
    rcases List.mem_append.1 hc with hc | hc
    · exact h.named c hc
    · rw [List.mem_singleton.1 hc]
      exact hname
  · intro path' a
    rw [List.mem_append, ← h.leaf]
    simp
  · intro path' hnone a hmem
    rw [hdirs] at hnone
    split at hnone
    · cases hnone
    · rename_i hnot
      rcases List.mem_append.1 hmem with hmem | hmem
      · exact h.dir_none path' hnone a hmem
      · cases List.mem_singleton.1 hmem
        exact hnot ⟨hnone, rfl⟩
  · intro path' a hsome
    rw [hdirs] at hsome
    split at hsome
    · rename_i hnew
      cases hsome
      rw [hnew.2]
      exact List.mem_append_right _ (List.mem_singleton.2 rfl)
    · exact List.mem_append_left _ (h.dir_some path' a hsome)
  · intro path' hsome a hmem
    rcases List.mem_append.1 hmem with hmem | hmem
    · rw [hdirs] at hsome
      split at hsome
      · rename_i hnew
        exact absurd hmem (h.dir_none path' hnew.1 a)
      · exact h.first path' hsome a hmem
    · cases List.mem_singleton.1 hmem
      rfl

theorem Tracks.claimDir (h : Tracks s done arch) (hapart : Apart done) (hname : arch ≠ "") :
    Settled (AssembleDist.claimDir arch s path) (done ++ [⟨arch, path, true⟩]) arch := by
  have hkeep : (∀ other, s.leaves path = some other → other = arch) → Apart (done ++ [⟨arch, path, true⟩]) := by
    intro hfree
    refine hapart.snoc ?_ (by rintro ⟨⟩)
    rintro ⟨a, path', isDir⟩ hc rfl rfl
    exact hfree a ((h.leaf _ a).2 hc)
  unfold AssembleDist.claimDir
  cases hleaf : s.leaves path with
  | none => exact .inr ⟨_, rfl, h.addDir hname, hkeep (by simp [hleaf])⟩
  | some other =>
    by_cases hother : other = arch
    · refine .inr ⟨_, if_neg (not_not.2 hother), h.addDir hname, hkeep fun other' h' => ?_⟩
      rw [hleaf] at h'
      cases h'
      exact hother
    · refine .inl ⟨⟨_, if_pos hother⟩, fun hall => hother ?_⟩
      exact hall ⟨other, path, false⟩ (List.mem_append_left _ ((h.leaf path other).1 hleaf)) ⟨arch, path, true⟩
        (List.mem_append_right _ (List.mem_singleton.2 rfl)) rfl rfl

/-- A path that is no directory is claimed. -/
theorem Tracks.addLeaf (h : Tracks s done arch) (hname : arch ≠ "")
    (hown : ∀ a, ⟨a, path, false⟩ ∈ done → a = arch) :
    Tracks { s with leaves := set s.leaves path arch } (done ++ [⟨arch, path, false⟩]) arch := by
  refine ⟨?_, ?_, ?_, ?_, ?_⟩
  · intro c hc
    rcases List.mem_append.1 hc with hc | hc
    · exact h.named c hc
    · rw [List.mem_singleton.1 hc]
      exact hname
  · intro path' a
    show (if path' = path then some arch else s.leaves path') = some a ↔ _
    rw [List.mem_append, List.mem_singleton]
    split
    · rename_i heq
      rw [heq]
      constructor
      · rintro ⟨⟩
        exact .inr rfl
      · rintro (hmem | heq')
        · rw [hown a hmem]
        · cases heq'
          rfl
    · rename_i hne
      rw [h.leaf]
      exact ⟨.inl, fun hmem => hmem.resolve_right fun heq => hne (Claimed.mk.inj heq).2.1⟩
  · intro path' hnone a hmem
    exact h.dir_none path' hnone a (by simpa using hmem)
  · exact fun path' a hsome => List.mem_append_left _ (h.dir_some path' a hsome)
  · exact fun path' hsome a hmem => h.first path' hsome a (by simpa using hmem)

theorem Tracks.claimLeaf (h : Tracks s done arch) (hapart : Apart done) (hname : arch ≠ "") :
    Settled (AssembleDist.claimLeaf arch s path) (done ++ [⟨arch, path, false⟩]) arch := by
  -- the leaf, or else the first directory
  have hfree : (∀ a isDir, ⟨a, path, isDir⟩ ∈ done → a = arch) →
      Tracks { s with leaves := set s.leaves path arch } (done ++ [⟨arch, path, false⟩]) arch ∧
        Apart (done ++ [⟨arch, path, false⟩]) := by
    intro hall
    refine ⟨h.addLeaf hname fun a => hall a false, hapart.snoc ?_ fun _ => ?_⟩
    · rintro ⟨a, path', isDir⟩ hc - rfl
      exact hall a isDir hc
    · rintro ⟨a, path', isDir⟩ hc rfl
      exact (hall a isDir hc).symm
  have hclash : ∀ {a isDir}, ⟨a, path, isDir⟩ ∈ done → a ≠ arch → ¬ Apart (done ++ [⟨arch, path, false⟩]) := by
    intro a isDir hmem hne hall
    exact hne (hall ⟨arch, path, false⟩ (List.mem_append_right _ (List.mem_singleton.2 rfl)) ⟨a, path, isDir⟩
      (List.mem_append_left _ hmem) rfl rfl).symm
  unfold AssembleDist.claimLeaf
  cases hleaf : s.leaves path with
  | some other =>
    have hmem := (h.leaf path other).1 hleaf
    have horElse : orElse (some other) (s.dirs path) = some other := by
      have := h.named _ hmem
      simp [orElse, this]
    rw [horElse]
    by_cases hother : other = arch
    · refine .inr ⟨_, if_neg (not_not.2 hother), hfree fun a isDir ha => ?_⟩
      rw [← hother]
      exact (hapart _ hmem _ ha rfl rfl).symm
    · exact .inl ⟨⟨_, if_pos hother⟩, hclash hmem hother⟩
  | none =>
    rw [show orElse none (s.dirs path) = s.dirs path from rfl]
    have hnoleaf : ∀ a, ⟨a, path, false⟩ ∉ done := fun a hmem => by
      rw [(h.leaf path a).2 hmem] at hleaf
      cases hleaf
    cases hdir : s.dirs path with
    | some other =>
      by_cases hother : other = arch
      · refine .inr ⟨_, if_neg (not_not.2 hother), hfree fun a isDir ha => ?_⟩
        cases isDir with
        | false => exact absurd ha (hnoleaf a)
        | true => exact h.first path (hother ▸ hdir) a ha
      · exact .inl ⟨⟨_, if_pos hother⟩, hclash (h.dir_some path other hdir) hother⟩
    | none =>
      refine .inr ⟨_, rfl, hfree fun a isDir ha => ?_⟩
      cases isDir with
      | false => exact absurd ha (hnoleaf a)
      | true => exact absurd ha (h.dir_none path hdir a)

/-- One claim of the arch whose turn it is. -/
theorem Tracks.claimOne (h : Tracks s done arch) (hapart : Apart done) (hname : arch ≠ "") {c : Claimed}
    (hc : c.arch = arch) : Settled (AssembleDist.claimOne s c) (done ++ [c]) arch := by
  obtain ⟨_, path, isDir⟩ := c
  cases hc
  cases isDir with
  | true => exact h.claimDir hapart hname
  | false => exact h.claimLeaf hapart hname

theorem Tracks.claims (h : Tracks s done arch) (hapart : Apart done) (hname : arch ≠ "") {cs : List Claimed}
    (hcs : ∀ c ∈ cs, c.arch = arch) : Settled (cs.foldlM AssembleDist.claimOne s) (done ++ cs) arch := by
  induction cs generalizing s done with
  | nil =>
    rw [List.append_nil]
    exact .inr ⟨s, rfl, h, hapart⟩
  | cons c cs ih =>
    obtain ⟨hc, hcs⟩ := List.forall_mem_cons.1 hcs
    rw [List.foldlM_cons]
    rcases h.claimOne hapart hname hc with ⟨⟨msg, herr⟩, hclash⟩ | ⟨s', hok, h', hapart'⟩
    · rw [herr]
      refine .inl ⟨⟨msg, rfl⟩, fun hall => hclash ?_⟩
      rw [List.append_cons] at hall
      exact hall.of_append
    · rw [hok, List.append_cons]
      exact ih h' hapart' hcs

/-- The next arch begins. -/
theorem Tracks.turn (h : Tracks s done arch) {next : String} (hnext : ∀ c ∈ done, c.arch ≠ next) : Tracks s done next :=
  ⟨h.named, h.leaf, h.dir_none, h.dir_some, fun path hsome => absurd rfl (hnext _ (h.dir_some path next hsome))⟩

end

/-! ### All legs -/

/-- A relative path without `..`. -/
def TarInfo.Inside (m : TarInfo) : Prop := PurePath.isAbsolute m.name = false ∧ ".." ∉ PurePath.ofName m.name

def memberClaims (arch : String) (m : TarInfo) : List Claimed :=
  if (PurePath.ofName m.name).name = "." then [] else claimed arch (PurePath.ofName m.name) m.isDir

theorem checkedMember_eq {m : TarInfo} (hm : m.Inside) (arch : String) (s : Claims) :
    checkedMember arch s m = (memberClaims arch m).foldlM claimOne s := by
  unfold checkedMember memberClaims
  by_cases hroot : (PurePath.ofName m.name).name = "."
  · rw [if_pos ⟨hm.1, hroot⟩, if_pos hroot]
    rfl
  · rw [if_neg fun h => hroot h.2, if_neg hroot, if_neg, claim_eq]
    rintro (habs | hdots)
    · rw [hm.1] at habs
      cases habs
    · exact hm.2 hdots

theorem foldlM_checkedMember {members : List TarInfo} (hmembers : ∀ m ∈ members, m.Inside) (arch : String) (s : Claims) :
    members.foldlM (checkedMember arch) s = (members.flatMap (memberClaims arch)).foldlM claimOne s := by
  induction members generalizing s with
  | nil => rfl
  | cons m members ih =>
    obtain ⟨hm, hmembers⟩ := List.forall_mem_cons.1 hmembers
    rw [List.foldlM_cons, List.flatMap_cons, List.foldlM_append, checkedMember_eq hm]
    exact bind_congr fun s => ih hmembers s

theorem arch_of_mem_memberClaims {arch : String} {m : TarInfo} {c : Claimed} (h : c ∈ memberClaims arch m) : c.arch = arch := by
  unfold memberClaims claimed at h
  split at h
  · cases h
  · rcases List.mem_append.1 h with h | h
    · obtain ⟨path, -, rfl⟩ := List.mem_map.1 h
      rfl
    · split at h
      · cases h
      · rw [List.mem_singleton.1 h]

def legClaims (names : List String) (tar : String → List TarInfo) : List Claimed :=
  names.flatMap fun arch => (tar arch).flatMap (memberClaims arch)

theorem legs_settled {names : List String} {tar : String → List TarInfo} (hnodup : names.Nodup) (hnames : "" ∉ names)
    (hinside : ∀ arch ∈ names, ∀ m ∈ tar arch, m.Inside) {s : Claims} {done : List Claimed}
    (hdone : ∀ c ∈ done, c.arch ∉ names) (h : Tracks s done "") (hapart : Apart done) :
    (∃ msg, names.foldlM (fun s arch => (tar arch).foldlM (checkedMember arch) s) s = .error msg) ↔
      ¬ Apart (done ++ legClaims names tar) := by
  induction names generalizing s done with
  | nil => simp [legClaims, hapart, pure, Except.pure]
  | cons arch names ih =>
    obtain ⟨hfresh, hnodup⟩ := List.nodup_cons.1 hnodup
    rw [List.mem_cons, not_or] at hnames
    rw [List.forall_mem_cons] at hinside
    have hturn : Tracks s done arch := h.turn fun c hc heq => hdone c hc (heq ▸ List.mem_cons_self)
    have hleg : Settled (((tar arch).flatMap (memberClaims arch)).foldlM claimOne s)
        (done ++ (tar arch).flatMap (memberClaims arch)) arch := by
      refine hturn.claims hapart (Ne.symm hnames.1) fun c hc => ?_
      obtain ⟨m, -, hc⟩ := List.mem_flatMap.1 hc
      exact arch_of_mem_memberClaims hc
    have hlegs : legClaims (arch :: names) tar = (tar arch).flatMap (memberClaims arch) ++ legClaims names tar :=
      List.flatMap_cons
    rw [List.foldlM_cons, foldlM_checkedMember hinside.1, hlegs, ← List.append_assoc]
    rcases hleg with ⟨⟨msg, herr⟩, hclash⟩ | ⟨s', hok, h', hapart'⟩
    · rw [herr]
      exact iff_of_true ⟨msg, rfl⟩ fun hall => hclash hall.of_append
    · rw [hok]
      refine ih hnodup hnames.2 hinside.2 (fun c hc => ?_) (h'.turn fun c hc => h'.named c hc) hapart'
      rcases List.mem_append.1 hc with hc | hc
      · exact fun hmem => hdone c hc (List.mem_cons_of_mem _ hmem)
      · obtain ⟨m, -, hc⟩ := List.mem_flatMap.1 hc
        rw [arch_of_mem_memberClaims hc]
        exact hfresh

/-! ### What collides -/

/-- A path that is an entry but no directory, an explicit directory, an ancestor of an entry. -/
def Leaf (members : List TarInfo) (p : PurePath) : Prop := ∃ m ∈ members, m.isDir = false ∧ PurePath.ofName m.name = p

def Dir (members : List TarInfo) (p : PurePath) : Prop := ∃ m ∈ members, m.isDir = true ∧ PurePath.ofName m.name = p

def ImpliedDir (members : List TarInfo) (p : PurePath) : Prop :=
  ∃ m ∈ members, p <+: PurePath.ofName m.name ∧ p ≠ PurePath.ofName m.name

/-- A path of one arch that is no directory is another's. -/
def Collide (names : List String) (tar : String → List TarInfo) (p : PurePath) : Prop :=
  ∃ a ∈ names, ∃ b ∈ names, a ≠ b ∧ Leaf (tar a) p ∧ (Leaf (tar b) p ∨ Dir (tar b) p ∨ ImpliedDir (tar b) p)

theorem mem_parents {path p : PurePath} (hdot : "." ∉ path) : p ∈ parents path ↔ p <+: path ∧ p ≠ path ∧ p ≠ [] := by
  unfold parents
  rw [List.mem_filter, PurePath.mem_parents, decide_eq_true_iff, and_assoc]
  refine and_congr_right fun hpre => and_congr_right fun _ => not_congr (PurePath.name_eq_dot_iff fun hmem => ?_)
  exact hdot (hpre.subset hmem)

theorem mem_memberClaims {arch : String} {m : TarInfo} {p : PurePath} {isDir : Bool} :
    ⟨arch, p, isDir⟩ ∈ memberClaims arch m ↔ p ≠ [] ∧
      if isDir = true then m.isDir = true ∧ PurePath.ofName m.name = p ∨ p <+: PurePath.ofName m.name ∧ p ≠ PurePath.ofName m.name
      else m.isDir = false ∧ PurePath.ofName m.name = p := by
  have hdot := (PurePath.not_mem_ofName m.name).2
  have hroot := PurePath.name_eq_dot_iff hdot
  have hparents := @mem_parents (PurePath.ofName m.name) p hdot
  unfold memberClaims claimed implied
  generalize PurePath.ofName m.name = path at *
  by_cases hpath : path = []
  · subst hpath
    rw [if_pos (hroot.2 rfl)]
    cases isDir <;> simp <;> tauto
  · rw [if_neg fun h => hpath (hroot.1 h)]
    by_cases hp : p = path
    · subst hp
      cases m.isDir <;> cases isDir <;> simp [hparents, hpath]
    · cases m.isDir <;> cases isDir <;> simp [hparents, hp, Ne.symm hp] <;> tauto

theorem mem_legClaims {names : List String} {tar : String → List TarInfo} {a : String} {p : PurePath} {isDir : Bool} :
    ⟨a, p, isDir⟩ ∈ legClaims names tar ↔ a ∈ names ∧ p ≠ [] ∧
      if isDir = true then Dir (tar a) p ∨ ImpliedDir (tar a) p else Leaf (tar a) p := by
  have hmember : ⟨a, p, isDir⟩ ∈ legClaims names tar ↔ a ∈ names ∧ ∃ m ∈ tar a, ⟨a, p, isDir⟩ ∈ memberClaims a m := by
    rw [legClaims, List.mem_flatMap]
    constructor
    · rintro ⟨arch, harch, hmem⟩
      obtain ⟨m, hm, hmem⟩ := List.mem_flatMap.1 hmem
      obtain rfl : a = arch := arch_of_mem_memberClaims hmem
      exact ⟨harch, m, hm, hmem⟩
    · rintro ⟨ha, m, hm, hmem⟩
      exact ⟨a, ha, List.mem_flatMap.2 ⟨m, hm, hmem⟩⟩
  rw [hmember]
  refine and_congr_right fun _ => ?_
  simp only [mem_memberClaims]
  cases isDir with
  | true =>
    simp only [if_true, Dir, ImpliedDir]
    constructor
    · rintro ⟨m, hm, hp, h | h⟩
      · exact ⟨hp, .inl ⟨m, hm, h⟩⟩
      · exact ⟨hp, .inr ⟨m, hm, h⟩⟩
    · rintro ⟨hp, ⟨m, hm, h⟩ | ⟨m, hm, h⟩⟩
      · exact ⟨m, hm, hp, .inl h⟩
      · exact ⟨m, hm, hp, .inr h⟩
  | false =>
    simp only [Bool.false_eq_true, if_false, Leaf]
    exact ⟨fun ⟨m, hm, hp, h⟩ => ⟨hp, m, hm, h⟩, fun ⟨hp, m, hm, h⟩ => ⟨m, hm, hp, h⟩⟩

theorem not_apart_iff {names : List String} {tar : String → List TarInfo} :
    ¬ Apart (legClaims names tar) ↔ ∃ p ≠ [], Collide names tar p := by
  constructor
  · intro h
    unfold Apart at h
    push Not at h
    obtain ⟨⟨a, p, isDir⟩, hc, ⟨b, p', isDir'⟩, hc', hfile, hpath, hne⟩ := h
    cases hfile
    cases hpath
    obtain ⟨ha, hp, hleaf⟩ := mem_legClaims.1 hc
    obtain ⟨hb, -, hother⟩ := mem_legClaims.1 hc'
    refine ⟨p, hp, a, ha, b, hb, hne, hleaf, ?_⟩
    cases isDir' with
    | true => exact .inr hother
    | false => exact .inl hother
  · rintro ⟨p, hp, a, ha, b, hb, hne, hleaf, hother⟩ hall
    have hc : ⟨a, p, false⟩ ∈ legClaims names tar := mem_legClaims.2 ⟨ha, hp, hleaf⟩
    rcases hother with hother | hother
    · exact hne (hall _ hc ⟨b, p, false⟩ (mem_legClaims.2 ⟨hb, hp, hother⟩) rfl rfl)
    · exact hne (hall _ hc ⟨b, p, true⟩ (mem_legClaims.2 ⟨hb, hp, hother⟩) rfl rfl)

theorem nodup_eraseDups (l : List String) : l.eraseDups.Nodup := by
  induction hlen : l.length using Nat.strongRecOn generalizing l with
  | _ n ih =>
    cases l with
    | nil => exact List.nodup_nil
    | cons a l =>
      rw [List.eraseDups_cons, List.nodup_cons]
      refine ⟨fun hmem => ?_, ih _ ?_ _ rfl⟩
      · simpa using (List.mem_filter.1 (List.mem_eraseDups.1 hmem)).2
      · have := List.length_filter_le (fun b => !b == a) l
        rw [List.length_cons] at hlen
        omega

theorem validateArches_eq_ok {value names : List String} (h : validateArches value = .ok names) :
    names = value.eraseDups ∧ names.Nodup ∧ "" ∉ names := by
  unfold validateArches at h
  split at h
  · cases h
  · split at h
    · cases h
    · rename_i hall
      cases h
      refine ⟨rfl, nodup_eraseDups value, fun hmem => ?_⟩
      have := List.find?_eq_none.1 hall "" (List.mem_eraseDups.1 hmem)
      exact absurd rfl this

theorem tracks_empty : Tracks Claims.empty [] "" :=
  ⟨by simp, by simp [Claims.empty], by simp, by simp [Claims.empty], by simp [Claims.empty]⟩

/-- The claims are refused just where two legs collide at a path below the root, whatever the order of
the legs and of their members. -/
theorem claims_iff {value names : List String} (hnames : validateArches value = .ok names) {tar : String → List TarInfo}
    (hinside : ∀ arch ∈ names, ∀ m ∈ tar arch, m.Inside) :
    ((∃ msg, claimLegs names tar = .error msg) ↔ ∃ p ≠ [], Collide names tar p) ∧
      ∀ names' tar', names'.Perm names → (∀ arch ∈ names, (tar' arch).Perm (tar arch)) →
        ((∃ msg, claimLegs names' tar' = .error msg) ↔ ∃ msg, claimLegs names tar = .error msg) := by
  obtain ⟨-, hnodup, hnonempty⟩ := validateArches_eq_ok hnames
  have hclaims : ∀ {names' tar'}, names'.Nodup → "" ∉ names' → (∀ arch ∈ names', ∀ m ∈ tar' arch, m.Inside) →
      ((∃ msg, claimLegs names' tar' = .error msg) ↔ ∃ p ≠ [], Collide names' tar' p) := by
    intro names' tar' hnodup' hnonempty' hinside'
    rw [← not_apart_iff]
    exact legs_settled hnodup' hnonempty' hinside' (by simp) tracks_empty (by simp [Apart])
  refine ⟨hclaims hnodup hnonempty hinside, fun names' tar' hperm htar => ?_⟩
  have hmem : ∀ arch ∈ names', ∀ m, m ∈ tar' arch ↔ m ∈ tar arch := fun arch harch m =>
    (htar arch (hperm.mem_iff.1 harch)).mem_iff
  rw [hclaims hnodup hnonempty hinside, hclaims (hperm.nodup_iff.2 hnodup) (fun h => hnonempty (hperm.mem_iff.1 h))
    fun arch harch m hm => hinside arch (hperm.mem_iff.1 harch) m ((hmem arch harch m).1 hm)]
  refine exists_congr fun p => and_congr_right fun _ => ?_
  unfold Collide Leaf Dir ImpliedDir
  constructor
  · rintro ⟨a, ha, b, hb, hne, ⟨m, hm, hleaf⟩, hother⟩
    refine ⟨a, hperm.mem_iff.1 ha, b, hperm.mem_iff.1 hb, hne, ⟨m, (hmem a ha m).1 hm, hleaf⟩, ?_⟩
    exact hother.imp (fun ⟨m, hm, h⟩ => ⟨m, (hmem b hb m).1 hm, h⟩)
      (Or.imp (fun ⟨m, hm, h⟩ => ⟨m, (hmem b hb m).1 hm, h⟩) fun ⟨m, hm, h⟩ => ⟨m, (hmem b hb m).1 hm, h⟩)
  · rintro ⟨a, ha, b, hb, hne, ⟨m, hm, hleaf⟩, hother⟩
    have ha' := hperm.mem_iff.2 ha
    have hb' := hperm.mem_iff.2 hb
    refine ⟨a, ha', b, hb', hne, ⟨m, (hmem a ha' m).2 hm, hleaf⟩, ?_⟩
    exact hother.imp (fun ⟨m, hm, h⟩ => ⟨m, (hmem b hb' m).2 hm, h⟩)
      (Or.imp (fun ⟨m, hm, h⟩ => ⟨m, (hmem b hb' m).2 hm, h⟩) fun ⟨m, hm, h⟩ => ⟨m, (hmem b hb' m).2 hm, h⟩)

/-- `x` in both legs. -/
theorem claims_iff_both :
    ∃ p ≠ [], Collide ["amd64", "arm64"] (fun _ => [⟨"x", false⟩]) p :=
  (@claims_iff ["amd64", "arm64"] _ (by decide +kernel) (fun _ => [⟨"x", false⟩])
    fun _ _ m hm => by
      obtain rfl := List.mem_singleton.1 hm
      exact ⟨by decide +kernel, by decide +kernel⟩).1.1 ⟨_, rfl⟩

/-- A file `.` is skipped, so two legs may both have one. -/
theorem not_claims_iff_root :
    ¬ ∀ (value names : List String), validateArches value = .ok names → ∀ tar : String → List TarInfo,
      (∀ arch ∈ names, ∀ m ∈ tar arch, m.Inside) →
        ((∃ msg, claimLegs names tar = .error msg) ↔ ∃ p, Collide names tar p) := by
  intro hall
  have hroot : PurePath.ofName "." = [] := by decide +kernel
  have hnames : validateArches ["amd64", "arm64"] = .ok ["amd64", "arm64"] := by decide +kernel
  have hinside : ∀ m ∈ [(⟨".", false⟩ : TarInfo)], m.Inside := by
    intro m hm
    obtain rfl := List.mem_singleton.1 hm
    exact ⟨by decide +kernel, by rw [hroot]; simp⟩
  have hleaf : Leaf [⟨".", false⟩] [] := ⟨_, List.mem_singleton_self _, rfl, hroot⟩
  obtain ⟨msg, hmsg⟩ := (hall _ _ hnames (fun _ => [⟨".", false⟩]) fun _ _ => hinside).2
    ⟨[], "amd64", by simp, "arm64", by simp, by decide, hleaf, .inl hleaf⟩
  have hskip : PurePath.isAbsolute "." = false ∧ (PurePath.ofName ".").name = "." := by decide +kernel
  have hok : ∀ arch s, checkedMember arch s ⟨".", false⟩ = .ok s := by
    intro arch s
    unfold checkedMember
    rw [if_pos hskip]
    rfl
  simp only [claimLegs, List.foldlM_cons, List.foldlM_nil, hok] at hmsg
  cases hmsg

end TemplateAxum.AssembleDist
