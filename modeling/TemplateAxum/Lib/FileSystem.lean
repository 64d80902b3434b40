import Mathlib.Data.Finmap
import TemplateAxum.Lib.PurePath

/-!
# A POSIX file system with symbolic links

What stands at each real location, and the walk that finds the real location of a path. The operations are
those of Python's `pathlib`, `os` and `shutil`, as a user who owns every file sees them; a failing one keeps
what it did before.
-/

/-! ### The tree -/

/-- A regular file. The mode has the permission bits only. -/
structure File where
  content : List UInt8
  mode : BitVec 12
deriving DecidableEq

inductive Node
  | file (f : File)
  | dir
  | link (target : String)
deriving DecidableEq

/-- Every entry lies in a directory. -/
structure FileSystem where
  nodes : Finmap fun _ : PurePath => Node
  root : nodes.lookup [] = some .dir
  closed : ∀ d name, d ++ [name] ∈ nodes → nodes.lookup d = some .dir ∧ PurePath.IsName name

namespace FileSystem

def lookup (fs : FileSystem) (real : PurePath) : Option Node := fs.nodes.lookup real

def fileAt (fs : FileSystem) (real : PurePath) : Option File :=
  match fs.lookup real with
  | some (.file f) => some f
  | _ => none

theorem fileAt_eq_some_iff {fs : FileSystem} {real : PurePath} {f : File} :
    fs.fileAt real = some f ↔ fs.lookup real = some (.file f) := by
  unfold fileAt
  split <;> simp_all

theorem ne_of_dir {fs : FileSystem} {d real : PurePath} (hd : fs.nodes.lookup d = some .dir)
    (hreal : fs.lookup real ≠ some .dir) : d ≠ real := by
  rintro rfl
  exact hreal hd

theorem not_dir_of_fileAt {fs : FileSystem} {real : PurePath} (h : fs.fileAt real ≠ none) : fs.lookup real ≠ some .dir :=
  fun hdir => h (by rw [fileAt, hdir])

/-- Nothing but the root. -/
def empty : FileSystem :=
  ⟨Finmap.singleton [] .dir, Finmap.lookup_singleton_eq, fun d name hmem => by
    rw [Finmap.mem_singleton] at hmem
    simp at hmem⟩

/-- Another file where there is one. -/
def set (fs : FileSystem) (real : PurePath) (f : File) : FileSystem :=
  if h : fs.fileAt real ≠ none then
    { nodes := fs.nodes.insert real (.file f)
      root := by
        rw [Finmap.lookup_insert_of_ne _ (ne_of_dir fs.root (not_dir_of_fileAt h))]
        exact fs.root
      closed := by
        intro d name hmem
        have hmem' : d ++ [name] ∈ fs.nodes := by
          rcases Finmap.mem_insert.1 hmem with heq | hmem
          · rw [heq, ← Finmap.lookup_isSome]
            exact Option.isSome_iff_ne_none.2 fun hnone => h (by rw [fileAt, lookup, hnone])
          · exact hmem
        obtain ⟨hd, hname⟩ := fs.closed d name hmem'
        rw [Finmap.lookup_insert_of_ne _ (ne_of_dir hd (not_dir_of_fileAt h))]
        exact ⟨hd, hname⟩ }
  else fs

/-- A new entry in a directory. -/
def add (fs : FileSystem) (d : PurePath) (name : String) (n : Node) : FileSystem :=
  if h : fs.lookup d = some .dir ∧ PurePath.IsName name ∧ fs.lookup (d ++ [name]) = none then
    { nodes := fs.nodes.insert (d ++ [name]) n
      root := by
        rw [Finmap.lookup_insert_of_ne _ (by simp)]
        exact fs.root
      closed := by
        intro d' name' hmem
        have hparent : fs.lookup d' = some .dir ∧ PurePath.IsName name' := by
          rcases Finmap.mem_insert.1 hmem with heq | hmem
          · obtain ⟨rfl, hlast⟩ := List.append_inj' heq rfl
            obtain rfl : name' = name := by simpa using hlast
            exact ⟨h.1, h.2.1⟩
          · exact fs.closed d' name' hmem
        refine ⟨?_, hparent.2⟩
        rw [Finmap.lookup_insert_of_ne _ (ne_of_dir hparent.1 (by rw [h.2.2]; simp))]
        exact hparent.1 }
  else fs

def remove (fs : FileSystem) (real : PurePath) : FileSystem :=
  if h : fs.lookup real ≠ some .dir then
    { nodes := fs.nodes.erase real
      root := by
        rw [Finmap.lookup_erase_ne (ne_of_dir fs.root h)]
        exact fs.root
      closed := by
        intro d name hmem
        obtain ⟨hd, hname⟩ := fs.closed d name (Finmap.mem_erase.1 hmem).2
        rw [Finmap.lookup_erase_ne (ne_of_dir hd h)]
        exact ⟨hd, hname⟩ }
  else fs

variable {fs : FileSystem} {real r d : PurePath} {name : String} {n : Node} {f g : File}

theorem lookup_empty : empty.lookup r = if r = [] then some .dir else none := by
  unfold lookup empty
  split
  · next heq => rw [heq, Finmap.lookup_singleton_eq]
  · next hne => rw [Finmap.lookup_eq_none, Finmap.mem_singleton]; exact hne

theorem lookup_set (h : fs.fileAt real ≠ none) :
    (fs.set real f).lookup r = if r = real then some (.file f) else fs.lookup r := by
  unfold set
  rw [dif_pos h]
  unfold lookup
  split
  · next heq => rw [heq, Finmap.lookup_insert]
  · next hne => rw [Finmap.lookup_insert_of_ne _ hne]

theorem lookup_add (hd : fs.lookup d = some .dir) (hname : PurePath.IsName name) (hfree : fs.lookup (d ++ [name]) = none) :
    (fs.add d name n).lookup r = if r = d ++ [name] then some n else fs.lookup r := by
  unfold add
  rw [dif_pos ⟨hd, hname, hfree⟩]
  unfold lookup
  split
  · next heq => rw [heq, Finmap.lookup_insert]
  · next hne => rw [Finmap.lookup_insert_of_ne _ hne]

theorem lookup_add_or (fs : FileSystem) (d : PurePath) (name : String) (n : Node) (r : PurePath) :
    (fs.add d name n).lookup r = fs.lookup r ∨ fs.lookup r = none ∧ (fs.add d name n).lookup r = some n := by
  by_cases hplace : fs.lookup d = some .dir ∧ PurePath.IsName name ∧ fs.lookup (d ++ [name]) = none
  · rw [lookup_add hplace.1 hplace.2.1 hplace.2.2]
    split
    · rename_i heq
      exact .inr ⟨heq ▸ hplace.2.2, rfl⟩
    · exact .inl rfl
  · left
    rw [FileSystem.add, dif_neg hplace]

theorem lookup_remove (h : fs.lookup real ≠ some .dir) :
    (fs.remove real).lookup r = if r = real then none else fs.lookup r := by
  unfold remove
  rw [dif_pos h]
  unfold lookup
  split
  · next heq => rw [heq, Finmap.lookup_erase]
  · next hne => rw [Finmap.lookup_erase_ne hne]

theorem lookup_snoc (h : fs.lookup (d ++ [name]) ≠ none) : fs.lookup d = some .dir ∧ PurePath.IsName name :=
  fs.closed d name (Finmap.lookup_isSome.1 (Option.isSome_iff_ne_none.2 h))

/-- Whatever has something below it is a directory. -/
theorem dir_of_below (hpre : d <+: real) (hne : d ≠ real) (h : fs.lookup real ≠ none) : fs.lookup d = some .dir := by
  obtain ⟨rest, rfl⟩ := hpre
  induction rest using List.reverseRecOn with
  | nil => simp at hne
  | append_singleton rest name ih =>
    rw [← List.append_assoc] at h
    have hparent := (lookup_snoc h).1
    by_cases hrest : rest = []
    · subst hrest
      rwa [List.append_nil] at hparent
    · exact ih (by simpa using hrest) (by rw [hparent]; simp)

theorem normal_of_lookup (h : fs.lookup real ≠ none) : real.Normal := by
  induction real using List.reverseRecOn with
  | nil => simp [PurePath.Normal]
  | append_singleton d name ih =>
    obtain ⟨hd, hname⟩ := lookup_snoc h
    intro part hpart
    rcases List.mem_append.1 hpart with hpart | hpart
    · exact ih (by rw [hd]; simp) part hpart
    · rw [List.mem_singleton.1 hpart]
      exact hname

end FileSystem

/-! ### Walking a path -/

/-- What is raised; all but the last are `OSError`s. -/
inductive PyError
  | fileNotFound
  | fileExists
  | notADirectory
  | isADirectory
  | permission
  | tooManyLinks
  | sameFile
  | runtimeError (message : String)
deriving DecidableEq

/-- A path as it is walked, from a directory whose real location is known. -/
structure FilePath where
  base : PurePath
  parts : PurePath
deriving DecidableEq

namespace FilePath

/-- `root / path`, which an absolute path leaves out of account. -/
def join (root : PurePath) (path : String) : FilePath :=
  if PurePath.isAbsolute path = true then ⟨[], PurePath.ofName path⟩ else ⟨root, PurePath.ofName path⟩

def parent (p : FilePath) : FilePath := if p.parts = [] then ⟨p.base.dropLast, []⟩ else ⟨p.base, p.parts.dropLast⟩

/-- Where the path leads if nothing on it is a link. -/
def resolve (p : FilePath) : PurePath :=
  p.parts.foldl (fun cur part => if part = ".." then cur.dropLast else cur ++ [part]) p.base

end FilePath

/-- Where a walk ends: at an entry, at a name that a directory does not have, or on the way. -/
inductive Located
  | found (real : PurePath)
  | missing (d : PurePath) (name : String)
  | failed (e : PyError)
deriving DecidableEq

namespace FileSystem

/-- The walk from one directory down, given what becomes of it at a link. -/
def walkFrom (fs : FileSystem) (follow : PurePath → String → PurePath → Located) : PurePath → PurePath → Located
  | cur, [] => .found cur
  | cur, part :: rest =>
    if part = ".." then walkFrom fs follow cur.dropLast rest
    else
      match fs.lookup (cur ++ [part]) with
      | none => if rest = [] then .missing cur part else .failed .fileNotFound
      | some .dir => walkFrom fs follow (cur ++ [part]) rest
      | some (.file _) => if rest = [] then .found (cur ++ [part]) else .failed .notADirectory
      | some (.link target) => follow cur target rest

/-- The walk that follows so many links. -/
def walk (fs : FileSystem) : ℕ → PurePath → PurePath → Located
  | 0 => walkFrom fs fun _ _ _ => .failed .tooManyLinks
  | links + 1 => walkFrom fs fun cur target rest =>
    walk fs links (if PurePath.isAbsolute target = true then [] else cur) (PurePath.ofName target ++ rest)

/-- The real location of a path; forty links are one too many for the forty-first. -/
def locate (fs : FileSystem) (p : FilePath) : Located := walk fs 40 p.base p.parts

/-- `stat`: the entry that the path leads to. -/
def stat (fs : FileSystem) (p : FilePath) : Option Node :=
  match fs.locate p with
  | .found real => fs.lookup real
  | _ => none

/-- The directory and the name of the last part, which is not followed. -/
def entry (fs : FileSystem) (p : FilePath) : Except PyError (PurePath × String) :=
  match (if p.parts = [] then p.base else p.parts).getLast? with
  | none => .error .isADirectory
  | some name =>
    match fs.locate p.parent with
    | .found real =>
      match fs.lookup real with
      | some .dir => .ok (real, name)
      | some _ => .error .notADirectory
      | none => .error .fileNotFound
    | .missing _ _ => .error .fileNotFound
    | .failed e => .error e

/-- `lstat`. -/
def lstat (fs : FileSystem) (p : FilePath) : Option Node :=
  match fs.entry p with
  | .ok (d, name) => if name = ".." then fs.lookup d.dropLast else fs.lookup (d ++ [name])
  | .error _ => if p.parts = [] then fs.lookup p.base else none

def pathExists (fs : FileSystem) (p : FilePath) : Bool := (fs.stat p).isSome

def isDir (fs : FileSystem) (p : FilePath) : Bool := fs.stat p = some .dir

def isFile (fs : FileSystem) (p : FilePath) : Bool :=
  match fs.stat p with
  | some (.file _) => true
  | _ => false

def isSymlink (fs : FileSystem) (p : FilePath) : Bool :=
  match fs.lstat p with
  | some (.link _) => true
  | _ => false

/-- The file that a path opens, at its real location. -/
def openFile (fs : FileSystem) (p : FilePath) : Except PyError (PurePath × File) :=
  match fs.locate p with
  | .found real =>
    match fs.lookup real with
    | some (.file f) => .ok (real, f)
    | some _ => .error .isADirectory
    | none => .error .fileNotFound
  | .missing _ _ => .error .fileNotFound
  | .failed e => .error e

end FileSystem

/-! ### Modes -/

namespace Mode

def ownerRead : BitVec 12 := 0o400#12

def ownerWrite : BitVec 12 := 0o200#12

def ownerExec : BitVec 12 := 0o100#12

end Mode

def File.readable (f : File) : Bool := f.mode &&& Mode.ownerRead ≠ 0

def File.writable (f : File) : Bool := f.mode &&& Mode.ownerWrite ≠ 0

def File.executable (f : File) : Bool := f.mode &&& Mode.ownerExec ≠ 0

theorem Mode.and_twoPow_ne_zero {w i : ℕ} (hi : i < w) (m : BitVec w) :
    m &&& BitVec.twoPow w i ≠ 0 ↔ m.getLsbD i = true := by
  rw [BitVec.and_twoPow]
  cases h : m.getLsbD i with
  | true =>
    rw [if_pos rfl]
    refine iff_of_true (fun hzero => ?_) rfl
    have hbit := congrArg (BitVec.getLsbD · i) hzero
    simp [hi] at hbit
  | false => simp

namespace File

variable {f : File}

theorem readable_iff : f.readable = true ↔ f.mode.getLsbD 8 = true := by
  rw [readable, decide_eq_true_iff]
  exact @Mode.and_twoPow_ne_zero 12 8 (by decide) _

theorem writable_iff : f.writable = true ↔ f.mode.getLsbD 7 = true := by
  rw [writable, decide_eq_true_iff]
  exact @Mode.and_twoPow_ne_zero 12 7 (by decide) _

theorem executable_iff : f.executable = true ↔ f.mode.getLsbD 6 = true := by
  rw [executable, decide_eq_true_iff]
  exact @Mode.and_twoPow_ne_zero 12 6 (by decide) _

end File

/-! ### The operations -/

abbrev FileM := EStateM PyError FileSystem

namespace FileM

def readBytes (p : FilePath) : FileM (List UInt8) := do
  match (← get).openFile p with
  | .ok (_, f) => if f.readable then pure f.content else throw .permission
  | .error e => throw e

/-- `open(p, "wb")` and one `write`. -/
def writeBytes (p : FilePath) (content : List UInt8) : FileM Unit := do
  let fs ← get
  match fs.openFile p with
  | .ok (real, f) => if f.writable then EStateM.set (fs.set real { f with content }) else throw .permission
  | .error e =>
    match fs.locate p with
    | .missing d name => EStateM.set (fs.add d name (.file ⟨content, 0o644#12⟩))
    | _ => throw e

/-- The permission bits; of a directory they are not kept. -/
def mode (p : FilePath) : FileM (BitVec 12) := do
  match (← get).openFile p with
  | .ok (_, f) => pure f.mode
  | .error .isADirectory => pure 0o755#12
  | .error e => throw e

def chmod (p : FilePath) (mode : BitVec 12) : FileM Unit := do
  let fs ← get
  match fs.openFile p with
  | .ok (real, f) => EStateM.set (fs.set real { f with mode })
  | .error .isADirectory => pure ()
  | .error e => throw e

def unlink (p : FilePath) : FileM Unit := do
  let fs ← get
  match fs.entry p with
  | .ok (d, name) =>
    if name = ".." ∨ fs.lookup (d ++ [name]) = some .dir then throw .isADirectory
    else if fs.lookup (d ++ [name]) = none then throw .fileNotFound
    else EStateM.set (fs.remove (d ++ [name]))
  | .error e => throw e

/-- `os.mkdir`. -/
def mkdir (p : FilePath) : FileM Unit := do
  let fs ← get
  match fs.entry p with
  | .ok (d, name) =>
    if name = ".." ∨ fs.lookup (d ++ [name]) ≠ none then throw .fileExists
    else EStateM.set (fs.add d name .dir)
  | .error e => throw e

/-- `p.mkdir(exist_ok=True)`. -/
def mkdirExistOk (p : FilePath) : FileM Unit :=
  tryCatch (mkdir p) fun e => do
    if (← get).isDir p then pure () else throw e

/-- `p.mkdir(parents=True, exist_ok=True)`, up so many levels. -/
def mkdirParents : ℕ → FilePath → FileM Unit
  | 0, p => mkdirExistOk p
  | levels + 1, p =>
    tryCatch (mkdir p) fun e => do
      if e = .fileNotFound then
        mkdirParents levels p.parent
        mkdirExistOk p
      else if (← get).isDir p then pure () else throw e

def makeDirs (p : FilePath) : FileM Unit := mkdirParents (p.parts.length + p.base.length) p

/-- `shutil.copyfile`. -/
def copyfile (src dst : FilePath) : FileM Unit := do
  let fs ← get
  if fs.pathExists src ∧ fs.locate src = fs.locate dst then throw .sameFile
  let content ← readBytes src
  writeBytes dst content

/-- `shutil.copy2`, times apart. -/
def copy2 (src dst : FilePath) : FileM Unit := do
  let dst := if (← get).isDir dst then ⟨dst.base, dst.parts ++ src.parts.getLast?.toList⟩ else dst
  copyfile src dst
  chmod dst (← mode src)

end FileM
