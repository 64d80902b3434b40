import Mathlib.Data.Finset.Sort
import Mathlib.Data.String.Basic
import TemplateAxum.Lib.LinkFree

/-!
# The replace tier of a template sync

`apply_replace` of `template_sync.py`: the files of the new version go over the instance's, and those that
only the old version has go away.
-/

namespace TemplateAxum.TemplateSync

open FileM

/-! ### The executable bit -/

def isExecutable (path : FilePath) : FileM Bool := do
  let mode ← FileM.mode path
  pure (mode &&& Mode.ownerExec ≠ 0)

/-- The read bits, shifted to the execute bits of the same classes. -/
def readable (mode : BitVec 12) : BitVec 12 := (mode &&& 0o444#12) >>> 2

def syncExecutableBit (src dst : FilePath) : FileM Unit := do
  if (← get).isSymlink dst then pure ()
  else
    let mode ← FileM.mode dst
    if (← isExecutable src) then chmod dst (mode ||| readable mode)
    else chmod dst (mode &&& ~~~0o111#12)

/-! ### `apply_replace` -/

instance string_trans : IsTrans String fun a b => a ≤ b := inferInstance

instance string_antisymm : Std.Antisymm fun a b : String => a ≤ b := inferInstance

instance string_total : Std.Total fun a b : String => a ≤ b := inferInstance

/-- A path of the new version; whether the instance's changed. -/
def replaceOne (newRoot instanceRoot : PurePath) (path : String) : FileM Bool := do
  let src := FilePath.join newRoot path
  let dst := FilePath.join instanceRoot path
  if (← get).isSymlink dst then pure false
  else
    makeDirs dst.parent
    if ¬ (← get).pathExists dst then
      copy2 src dst
      pure true
    else if (← readBytes dst) ≠ (← readBytes src) then
      copy2 src dst
      pure true
    else if (← isExecutable src) ≠ (← isExecutable dst) then
      syncExecutableBit src dst
      pure true
    else pure false

/-- A path that only the old version has; whether the instance's was there. -/
def removeOne (instanceRoot : PurePath) (path : String) : FileM Bool := do
  let dst := FilePath.join instanceRoot path
  if (← get).isSymlink dst then pure false
  else if (← get).pathExists dst then
    unlink dst
    pure true
  else pure false

/-- The paths for which a step says yes. -/
def collect (step : String → FileM Bool) : List String → FileM (List String)
  | [] => pure []
  | path :: rest => do
    let changed ← step path
    let found ← collect step rest
    pure (if changed then path :: found else found)

structure Replaced where
  updated : List String
  removed : List String
deriving DecidableEq

/-- The three roots are real locations. -/
def applyReplace (oldRoot newRoot instanceRoot : PurePath) (paths : Finset String) : FileM Replaced := do
  let fs ← get
  let oldPaths := paths.filter fun path => fs.pathExists (FilePath.join oldRoot path)
  let newPaths := paths.filter fun path => fs.pathExists (FilePath.join newRoot path)
  let updated ← collect (replaceOne newRoot instanceRoot) newPaths.sort
  let removed ← collect (removeOne instanceRoot) (oldPaths \ newPaths).sort
  pure ⟨updated, removed⟩

/-! ### One step in trees without links -/

/-- The same content and the same executable bit. -/
def Same (f g : File) : Prop := f.content = g.content ∧ f.executable = g.executable

/-- Its owner may read it and write it. -/
def Accessible (f : File) : Prop := f.readable = true ∧ f.writable = true

def adjusted (f g : File) : File :=
  { f with mode := if g.executable then f.mode ||| readable f.mode else f.mode &&& ~~~0o111#12 }

theorem adjusted_same {f g : File} (hcontent : f.content = g.content) (hread : f.readable = true) : Same (adjusted f g) g := by
  refine ⟨hcontent, Bool.eq_iff_iff.2 ?_⟩
  rw [File.readable_iff] at hread
  rw [File.executable_iff, adjusted]
  cases g.executable with
  | true => simp [readable, hread]
  | false => simp

theorem adjusted_accessible {f g : File} (h : Accessible f) : Accessible (adjusted f g) := by
  unfold Accessible at h ⊢
  rw [File.readable_iff, File.writable_iff] at h ⊢
  unfold adjusted
  cases g.executable with
  | true => simp [readable, h]
  | false => simp [h]

section

variable {fs fs' : FileSystem} {oldRoot newRoot instanceRoot q : PurePath} {f g : File}

theorem isExecutable_ok {path : FilePath} {real : PurePath} (h : fs.openFile path = .ok (real, f)) :
    isExecutable path fs = .ok f.executable fs := by
  rw [isExecutable, bind_ok (mode_ok h)]
  rfl

theorem syncExecutableBit_puts (hnew : fs.Plain newRoot) (hinstance : fs.Plain instanceRoot) (hq : q.Normal) (hne : q ≠ [])
    (hsrc : fs.fileAt (newRoot ++ q) = some g) (hdst : fs.fileAt (instanceRoot ++ q) = some f) :
    ∃ fs', syncExecutableBit ⟨newRoot, q⟩ ⟨instanceRoot, q⟩ fs = .ok () fs' ∧
      fs.Puts (instanceRoot ++ q) (some (.file (adjusted f g))) fs' := by
  have hopen := hinstance.openFile hdst
  refine ⟨_, ?_, FileSystem.puts_set (by rw [hdst]; simp) _⟩
  rw [syncExecutableBit, get_bind, if_neg (by rw [hinstance.not_isSymlink hq hne]; exact Bool.false_ne_true),
    bind_ok (mode_ok hopen), bind_ok (isExecutable_ok (hnew.openFile hsrc))]
  unfold adjusted
  cases g.executable with
  | true => exact chmod_ok hopen _
  | false => exact chmod_ok hopen _

/-- A file in its place, in directories made for it. -/
def Placed (fs : FileSystem) (root q : PurePath) (f : File) (fs' : FileSystem) : Prop :=
  ∃ fs₁, fs.WithDirs root q.dropLast fs₁ ∧ fs₁.Puts (root ++ q) (some (.file f)) fs'

/-- What is to be replaced is replaced: nothing but directories on the way, no directory in its place. -/
theorem replaceOne_ok (hnew : fs.Plain newRoot) (hinstance : fs.Plain instanceRoot)
    (hapart : FileSystem.Apart newRoot instanceRoot) (hq : q.Normal) (hne : q ≠ [])
    (hsrc : fs.fileAt (newRoot ++ q) = some g) (hg : Accessible g)
    (hway : ∀ d, d <+: q.dropLast → fs.fileAt (instanceRoot ++ d) = none)
    (hdir : fs.lookup (instanceRoot ++ q) ≠ some .dir)
    (hf : ∀ f, fs.fileAt (instanceRoot ++ q) = some f → Accessible f) :
    ∃ changed fs' g', replaceOne newRoot instanceRoot q.name fs = .ok changed fs' ∧ Same g' g ∧ Accessible g' ∧
      Placed fs instanceRoot q g' fs' ∧ (changed = true ↔ fs.fileAt (instanceRoot ++ q) ≠ some g') ∧
      ∀ f, fs.fileAt (instanceRoot ++ q) = some f → Same f g → changed = false := by
  have hparent : FilePath.parent ⟨instanceRoot, q⟩ = ⟨instanceRoot, q.dropLast⟩ := if_neg hne
  obtain ⟨fs₁, hmake, hdirs⟩ := makeDirs_ok hinstance (hq.along (List.dropLast_prefix q)) hway
  have hinstance₁ := hdirs.plain hinstance
  have hkept : fs₁.lookup (instanceRoot ++ q) = fs.lookup (instanceRoot ++ q) := hdirs.lookup_self hne
  have hnew₁ := hdirs.sameOutside.plain_apart hapart hnew
  have hsrc₁ : fs₁.fileAt (newRoot ++ q) = some g := by rw [hdirs.sameOutside.fileAt_apart hapart, hsrc]
  have hstart : ∀ k : FileM Bool, (if fs.isSymlink ⟨instanceRoot, q⟩ = true then pure false else do
      makeDirs (FilePath.parent ⟨instanceRoot, q⟩); k) fs = k fs₁ := by
    intro k
    rw [if_neg (by rw [hinstance.not_isSymlink hq hne]; exact Bool.false_ne_true), hparent, bind_ok hmake]
  unfold replaceOne
  simp only [FilePath.join_name hq]
  rw [get_bind, hstart, get_bind]
  cases hentry : fs.lookup (instanceRoot ++ q) with
  | none =>
    have hplace : Writable fs₁ instanceRoot q := .inl ⟨by rw [hkept, hentry], hdirs.dir⟩
    obtain ⟨fs', hcopy, hputs⟩ := copy2_puts hnew₁ hinstance₁ hapart hq hsrc₁ hg.1 hplace
    have hmissing : fs₁.pathExists ⟨instanceRoot, q⟩ = false := by
      rw [FileSystem.pathExists, hinstance₁.stat hq, hkept, hentry]
      rfl
    have hnone : fs.fileAt (instanceRoot ++ q) = none := by rw [FileSystem.fileAt, hentry]
    refine ⟨true, fs', g, ?_, ⟨rfl, rfl⟩, hg, ⟨fs₁, hdirs, hputs⟩, by rw [hnone]; simp, fun f hfile => ?_⟩
    · rw [if_pos (by rw [hmissing]; simp), bind_ok hcopy]
      rfl
    · rw [hnone] at hfile
      cases hfile
  | some n =>
    cases n with
    | dir => exact absurd hentry hdir
    | link target => exact absurd hentry (hinstance.not_link q target)
    | file f =>
      have hfile : fs.fileAt (instanceRoot ++ q) = some f := FileSystem.fileAt_eq_some_iff.2 hentry
      have hfile₁ : fs₁.fileAt (instanceRoot ++ q) = some f := by rw [hdirs.fileAt_self hne, hfile]
      have hopen := hinstance₁.openFile hfile₁
      have hexists : fs₁.pathExists ⟨instanceRoot, q⟩ = true := (hinstance₁.pathExists_iff hq).2 (by rw [hkept, hentry]; simp)
      obtain ⟨hread, hwrite⟩ := hf f hfile
      rw [if_neg (by rw [hexists]; simp), bind_ok (readBytes_ok hopen hread), bind_ok (readBytes_ok (hnew₁.openFile hsrc₁) hg.1),
        hfile]
      by_cases hcontent : f.content = g.content
      · rw [if_neg (by simpa using hcontent), bind_ok (isExecutable_ok (hnew₁.openFile hsrc₁)), bind_ok (isExecutable_ok hopen)]
        by_cases hexec : g.executable = f.executable
        · refine ⟨false, fs₁, f, ?_, ⟨hcontent, hexec.symm⟩, ⟨hread, hwrite⟩, ⟨fs₁, hdirs, fun r => ?_⟩, by simp,
            fun _ _ _ => rfl⟩
          · rw [if_neg (by simpa using hexec)]
            rfl
          · split
            · next heq => rw [heq, hkept, hentry]
            · rfl
        · obtain ⟨fs', hsync, hputs⟩ := syncExecutableBit_puts hnew₁ hinstance₁ hq hne hsrc₁ hfile₁
          have hsame := adjusted_same hcontent hread
          refine ⟨true, fs', adjusted f g, ?_, hsame, adjusted_accessible ⟨hread, hwrite⟩, ⟨fs₁, hdirs, hputs⟩, ?_,
            fun f' heq hsame' => absurd ?_ hexec⟩
          · rw [if_pos (by simpa using hexec), bind_ok hsync]
            rfl
          · refine iff_of_true rfl fun heq => hexec ?_
            rw [← hsame.2, ← Option.some.inj heq]
          · rw [← hsame'.2, Option.some.inj heq]
      · obtain ⟨fs', hcopy, hputs⟩ := copy2_puts hnew₁ hinstance₁ hapart hq hsrc₁ hg.1 (.inr ⟨f, hfile₁, hwrite⟩)
        refine ⟨true, fs', g, ?_, ⟨rfl, rfl⟩, hg, ⟨fs₁, hdirs, hputs⟩, ?_, fun f' heq hsame => absurd ?_ hcontent⟩
        · rw [if_pos (by simpa using hcontent), bind_ok hcopy]
          rfl
        · refine iff_of_true rfl fun heq => hcontent ?_
          rw [Option.some.inj heq]
        · rw [← hsame.1, Option.some.inj heq]

/-- What cannot be replaced is an error: a file on the way, a directory in its place, no file to put there. -/
theorem replaceOne_raises (hnew : fs.Plain newRoot) (hinstance : fs.Plain instanceRoot)
    (hapart : FileSystem.Apart newRoot instanceRoot) (hq : q.Normal) (hne : q ≠ [])
    (h : (∃ d, d <+: q.dropLast ∧ fs.fileAt (instanceRoot ++ d) ≠ none) ∨ fs.lookup (instanceRoot ++ q) = some .dir ∨
      fs.fileAt (newRoot ++ q) = none) :
    ∃ e fs', replaceOne newRoot instanceRoot q.name fs = .error e fs' := by
  have hparent : FilePath.parent ⟨instanceRoot, q⟩ = ⟨instanceRoot, q.dropLast⟩ := if_neg hne
  have hq' := hq.along (List.dropLast_prefix q)
  have hlink : ¬ fs.isSymlink ⟨instanceRoot, q⟩ = true := by
    rw [hinstance.not_isSymlink hq hne]
    exact Bool.false_ne_true
  unfold replaceOne
  simp only [FilePath.join_name hq, hparent]
  rw [get_bind, if_neg hlink]
  by_cases hway : ∃ d, d <+: q.dropLast ∧ fs.fileAt (instanceRoot ++ d) ≠ none
  · obtain ⟨d, hd, hfile⟩ := hway
    obtain ⟨e, hmake⟩ := makeDirs_blocked hinstance hq' hd hfile
    exact ⟨e, fs, bind_error hmake⟩
  · obtain ⟨fs₁, hmake, hdirs⟩ := makeDirs_ok hinstance hq' fun d hd => by
      by_contra hfile
      exact hway ⟨d, hd, hfile⟩
    rw [bind_ok hmake, get_bind]
    have hinstance₁ := hdirs.plain hinstance
    have hnew₁ := hdirs.sameOutside.plain_apart hapart hnew
    rcases h with hway' | hdir | hsrc
    · exact absurd hway' hway
    · have hdir₁ : fs₁.lookup (instanceRoot ++ q) = some .dir := by rw [hdirs.lookup_self hne, hdir]
      have hexists : fs₁.pathExists ⟨instanceRoot, q⟩ = true := (hinstance₁.pathExists_iff hq).2 (by rw [hdir₁]; simp)
      obtain ⟨e, hopen⟩ := hinstance₁.not_openFile hq (by rw [FileSystem.fileAt, hdir₁])
      rw [if_neg (by rw [hexists]; simp)]
      exact ⟨e, fs₁, bind_error (readBytes_error hopen)⟩
    · obtain ⟨e, hopen⟩ := hnew₁.not_openFile hq (by rw [hdirs.sameOutside.fileAt_apart hapart, hsrc])
      split
      · obtain ⟨e, hcopy⟩ := copy2_raises (readBytes_error hopen) ⟨instanceRoot, q⟩
        exact ⟨e, fs₁, bind_error hcopy⟩
      · cases hread : readBytes ⟨instanceRoot, q⟩ fs₁ with
        | error e fs₂ => exact ⟨e, fs₂, bind_error hread⟩
        | ok content fs₂ =>
          obtain ⟨rfl, -⟩ := readBytes_eq_ok_iff.1 hread
          rw [bind_ok hread]
          exact ⟨e, fs₂, bind_error (readBytes_error hopen)⟩

theorem removeOne_ok (hinstance : fs.Plain instanceRoot) (hq : q.Normal) (hne : q ≠ [])
    (hdir : fs.lookup (instanceRoot ++ q) ≠ some .dir) :
    ∃ fs', removeOne instanceRoot q.name fs = .ok (fs.fileAt (instanceRoot ++ q)).isSome fs' ∧
      fs.Puts (instanceRoot ++ q) none fs' := by
  have hlink : ¬ fs.isSymlink ⟨instanceRoot, q⟩ = true := by
    rw [hinstance.not_isSymlink hq hne]
    exact Bool.false_ne_true
  unfold removeOne
  simp only [FilePath.join_name hq]
  rw [get_bind, if_neg hlink, get_bind]
  cases hentry : fs.lookup (instanceRoot ++ q) with
  | none =>
    refine ⟨fs, ?_, fun r => ?_⟩
    · rw [if_neg (by rw [hinstance.pathExists_iff hq, hentry]; simp), FileSystem.fileAt, hentry]
      rfl
    · split
      · next heq => rw [heq, hentry]
      · rfl
  | some n =>
    cases n with
    | dir => exact absurd hentry hdir
    | link target => exact absurd hentry (hinstance.not_link q target)
    | file f =>
      obtain ⟨d, name, rfl⟩ := (List.eq_nil_or_concat' q).resolve_left hne
      rw [← List.append_assoc] at hentry
      have hentry' : fs.entry ⟨instanceRoot, d ++ [name]⟩ = .ok (instanceRoot ++ d, name) :=
        hinstance.entry (FileSystem.lookup_snoc (by rw [hentry]; simp)).1
      have hname : PurePath.IsName name := hq name (by simp)
      refine ⟨fs.remove (instanceRoot ++ d ++ [name]), ?_, fun r => ?_⟩
      · rw [if_pos ((hinstance.pathExists_iff hq).2 (by rw [← List.append_assoc, hentry]; simp)),
          bind_ok (unlink_ok hentry' hname.2.2.1 (by rw [hentry]; simp) (by rw [hentry]; simp)), ← List.append_assoc,
          FileSystem.fileAt, hentry]
        rfl
      · rw [← List.append_assoc]
        exact FileSystem.lookup_remove (by rw [hentry]; simp)

theorem removeOne_raises (hinstance : fs.Plain instanceRoot) (hq : q.Normal) (hne : q ≠ [])
    (hdir : fs.lookup (instanceRoot ++ q) = some .dir) : ∃ e fs', removeOne instanceRoot q.name fs = .error e fs' := by
  have hlink : ¬ fs.isSymlink ⟨instanceRoot, q⟩ = true := by
    rw [hinstance.not_isSymlink hq hne]
    exact Bool.false_ne_true
  unfold removeOne
  simp only [FilePath.join_name hq]
  rw [get_bind, if_neg hlink, get_bind, if_pos ((hinstance.pathExists_iff hq).2 (by rw [hdir]; simp))]
  obtain ⟨d, name, rfl⟩ := (List.eq_nil_or_concat' q).resolve_left hne
  rw [← List.append_assoc] at hdir
  have hentry : fs.entry ⟨instanceRoot, d ++ [name]⟩ = .ok (instanceRoot ++ d, name) :=
    hinstance.entry (FileSystem.lookup_snoc (by rw [hdir]; simp)).1
  have hunlink : unlink ⟨instanceRoot, d ++ [name]⟩ fs = .error .isADirectory fs := by
    unfold unlink
    rw [get_bind, hentry]
    simp only [hdir, or_true, if_true]
    rfl
  exact ⟨_, fs, bind_error hunlink⟩

end

end TemplateAxum.TemplateSync
