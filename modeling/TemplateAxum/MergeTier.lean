import TemplateAxum.Convergence

/-!
# The merge tier of a template sync

`apply_merge` of `template_sync.py`: the new version is merged into the instance's files, three ways, by
`git merge-file`.
-/

namespace TemplateAxum.TemplateSync

open FileM

/-! ### `merge_file` -/

/-- A NUL among the first 8000 bytes. -/
def binary (content : List UInt8) : Bool := (content.take 8000).contains 0

def isBinary (path : FilePath) : FileM Bool :=
  tryCatch (do pure (binary (← readBytes path))) fun _ => pure false

/-- What `git merge-file` writes over the first of three contents, if anything, and its exit status. -/
abbrev GitMergeFile := List UInt8 → List UInt8 → List UInt8 → Option (List UInt8) × ℤ

/-- The base of a merge; none stands for an empty temporary file. -/
def readBase : Option FilePath → FileM (List UInt8)
  | some path => readBytes path
  | none => pure []

/-- `git merge-file` on three paths; what it cannot read or write is an error of its own. -/
def runGit (git : GitMergeFile) (ours : FilePath) (base : Option FilePath) (theirs : FilePath) : FileM ℤ :=
  tryCatch (do
      let result := git (← readBytes ours) (← readBase base) (← readBytes theirs)
      match result.1 with
      | some content => writeBytes ours content
      | none => pure ()
      pure result.2)
    fun _ => pure 255

/-- Whether there is a conflict. -/
def mergeFile (git : GitMergeFile) (instanceFile : FilePath) (base : Option FilePath) (theirs : FilePath) : FileM Bool := do
  let oursBinary ← isBinary instanceFile
  let baseBinary ← base.elim (pure false) isBinary
  let theirsBinary ← isBinary theirs
  if oursBinary || baseBinary || theirsBinary then pure true
  else
    let status ← runGit git instanceFile base theirs
    if status < 0 ∨ status > 127 then
      throw (.runtimeError ("git merge-file failed (exit " ++ toString status ++ ")"))
    else pure (status > 0)

/-! ### `apply_merge` -/

/-- What is reported of a path. -/
inductive Outcome
  | merged
  | conflict (binaryInput : Bool)
deriving DecidableEq

/-- The new version of a file that the instance never changed. -/
def takeNew (newFile instanceFile : FilePath) : FileM Unit := do
  copyfile newFile instanceFile
  if (← isExecutable newFile) ≠ (← isExecutable instanceFile) then syncExecutableBit newFile instanceFile
  else pure ()

/-- A file that the instance has not got. -/
def create (newFile instanceFile : FilePath) : FileM Unit := do
  makeDirs instanceFile.parent
  copy2 newFile instanceFile

/-- A file that both sides changed. -/
def mergeChanged (git : GitMergeFile) (instanceFile : FilePath) (base : Option FilePath) (newFile : FilePath)
    (before : List UInt8) (binaryInput : Bool) : FileM (Option Outcome) := do
  if (← mergeFile git instanceFile base newFile) then pure (some (.conflict binaryInput))
  else if (← readBytes instanceFile) ≠ before then pure (some .merged)
  else pure none

/-- A path that the new version and the instance both have. -/
def mergeExisting (git : GitMergeFile) (oldFile newFile instanceFile : FilePath) : FileM (Option Outcome) := do
  let binaryInput := (← isBinary instanceFile) || (← isBinary oldFile) || (← isBinary newFile)
  let oldExists := (← get).pathExists oldFile
  let base := if oldExists then some oldFile else none
  let baseContent ← readBase base
  let newContent ← readBytes newFile
  if newContent = baseContent then pure none
  else
    let before ← readBytes instanceFile
    if before = newContent then pure none
    else if oldExists ∧ before = baseContent then
      takeNew newFile instanceFile
      pure (some .merged)
    else mergeChanged git instanceFile base newFile before binaryInput

def mergeOne (git : GitMergeFile) (oldRoot newRoot instanceRoot : PurePath) (path : String) : FileM (Option Outcome) := do
  let newFile := FilePath.join newRoot path
  let oldFile := FilePath.join oldRoot path
  let instanceFile := FilePath.join instanceRoot path
  let fs ← get
  if ¬ fs.pathExists newFile then pure none
  else if fs.isSymlink instanceFile then pure none
  else if ¬ fs.pathExists instanceFile then
    create newFile instanceFile
    pure (some .merged)
  else mergeExisting git oldFile newFile instanceFile

/-- Each path with what is reported of it. -/
def outcomes (step : String → FileM (Option Outcome)) : List String → FileM (List (String × Option Outcome))
  | [] => pure []
  | path :: rest => do
    let outcome ← step path
    let found ← outcomes step rest
    pure ((path, outcome) :: found)

structure Merged where
  merged : List String
  conflicts : List String
  binary : List String
deriving DecidableEq

/-- The paths with one of some outcomes. -/
def withOutcome (found : List (String × Option Outcome)) (which : Outcome → Bool) : List String :=
  (found.filter fun p => p.2.any which).map Prod.fst

/-- The three roots are real locations. -/
def applyMerge (git : GitMergeFile) (oldRoot newRoot instanceRoot : PurePath) (paths : Finset String) : FileM Merged := do
  let found ← outcomes (mergeOne git oldRoot newRoot instanceRoot) paths.sort
  pure
    { merged := withOutcome found (· == .merged)
      conflicts := withOutcome found (· != .merged)
      binary := withOutcome found (· == .conflict true) }

/-! ### One path in trees without links -/

section

variable {fs fs' : FileSystem} {oldRoot newRoot instanceRoot q : PurePath} {f g : File} {git : GitMergeFile}

theorem isBinary_ok {path : FilePath} {content : List UInt8} (h : readBytes path fs = .ok content fs) :
    isBinary path fs = .ok (binary content) fs := by
  refine tryCatch_ok ?_
  rw [bind_ok h]
  rfl

theorem isBinary_total (path : FilePath) : ∃ b, isBinary path fs = .ok b fs := by
  rcases readBytes_total path with ⟨content, h⟩ | ⟨e, h⟩
  · exact ⟨_, isBinary_ok h⟩
  · exact ⟨false, tryCatch_error (bind_error h)⟩

/-- What becomes of a path of the instance, `o` and `g` being the old and the new version of it and `f` its own. -/
inductive Merges (o g f : Option File) : Option Outcome → Option File → Prop
  | removed : g = none → Merges o g f none f
  | created : f = none → g ≠ none → Merges o g f (some .merged) g
  | unchanged {g' : File} : g = some g' → g'.content = (o.map File.content).getD [] → Merges o g f none f
  | already {f' g' : File} : f = some f' → g = some g' → g'.content ≠ (o.map File.content).getD [] →
    f'.content = g'.content → Merges o g f none f
  | taken {o' g' f' f'' : File} : o = some o' → g = some g' → f = some f' → g'.content ≠ o'.content →
    f'.content = o'.content → Same f'' g' → Merges o g f (some .merged) (some f'')
  | declined {g' f' : File} : g = some g' → f = some f' → f'.content ≠ g'.content → (∀ o', o = some o' → f'.content ≠ o'.content) →
    Merges o g f (some (.conflict true)) f
  | merge {g' f' f'' : File} {outcome : Option Outcome} : g = some g' → f = some f' → f'.content ≠ g'.content →
    (∀ o', o = some o' → f'.content ≠ o'.content ∧ binary o'.content = false) → g'.content ≠ (o.map File.content).getD [] →
    binary g'.content = false → binary f'.content = false →
    (outcome = some (.conflict false) ∨ outcome = some .merged ∧ f''.content ≠ f'.content ∨
      outcome = none ∧ f''.content = f'.content) → Merges o g f outcome (some f'')

/-- What else a step on a path leaves as it was. -/
structure Frame (fs : FileSystem) (instanceRoot q : PurePath) (fs' : FileSystem) : Prop where
  outside : fs.SameOutside instanceRoot fs'
  plain : fs'.Plain instanceRoot
  kept : ∀ q', q' ≠ q → fs'.fileAt (instanceRoot ++ q') = fs.fileAt (instanceRoot ++ q')

theorem frame_refl (hinstance : fs.Plain instanceRoot) : Frame fs instanceRoot q fs := ⟨fun _ _ => rfl, hinstance, fun _ _ => rfl⟩

theorem frame_of_puts (hinstance : fs.Plain instanceRoot) (hne : q ≠ [])
    (h : fs.Puts (instanceRoot ++ q) (some (.file f)) fs') : Frame fs instanceRoot q fs' :=
  ⟨h.sameOutside, h.plain (by simp) hinstance (by simpa using hne), fun q' hq' =>
    h.fileAt_ne fun heq => hq' (List.append_cancel_left heq)⟩

theorem Frame.trans {fs'' : FileSystem} (h : Frame fs instanceRoot q fs') (h' : Frame fs' instanceRoot q fs'') :
    Frame fs instanceRoot q fs'' :=
  ⟨h.outside.trans h'.outside, h'.plain, fun q' hq' => by rw [h'.kept q' hq', h.kept q' hq']⟩

theorem frame_of_dirs (hinstance : fs.Plain instanceRoot) {d : PurePath} (h : fs.WithDirs instanceRoot d fs')
    (hfiles : ∀ d', d' <+: d → fs.fileAt (instanceRoot ++ d') = none) : Frame fs instanceRoot q fs' :=
  ⟨h.sameOutside, h.plain hinstance, fun _ _ => h.fileAt hfiles _⟩

theorem takeNew_spec (hnew : fs.Plain newRoot) (hinstance : fs.Plain instanceRoot)
    (hapart : FileSystem.Apart newRoot instanceRoot) (hq : q.Normal) (hne : q ≠ [])
    (hsrc : fs.fileAt (newRoot ++ q) = some g) (hdst : fs.fileAt (instanceRoot ++ q) = some f) (hg : g.readable = true)
    (hf : f.readable = true) (hrun : takeNew ⟨newRoot, q⟩ ⟨instanceRoot, q⟩ fs = .ok () fs') :
    Frame fs instanceRoot q fs' ∧ ∃ f', fs'.fileAt (instanceRoot ++ q) = some f' ∧ Same f' g := by
  obtain ⟨_, fs₁, hcopy, hrun⟩ := bind_eq_ok_iff.1 hrun
  obtain ⟨content, hread, hwrite⟩ := copyfile_eq_ok hcopy
  rw [readBytes_ok (hnew.openFile hsrc) hg] at hread
  cases hread
  have hputs := writeBytes_over hinstance hdst hwrite
  have hframe := frame_of_puts hinstance hne hputs
  have hnew₁ := hframe.outside.plain_apart hapart hnew
  have hsrc₁ : fs₁.fileAt (newRoot ++ q) = some g := by rw [hframe.outside.fileAt_apart hapart, hsrc]
  rw [bind_ok (isExecutable_ok (hnew₁.openFile hsrc₁)), bind_ok (isExecutable_ok (hframe.plain.openFile hputs.fileAt))] at hrun
  split at hrun
  · obtain ⟨fs₂, hsync, hputs₂⟩ := syncExecutableBit_puts hnew₁ hframe.plain hq hne hsrc₁ hputs.fileAt
    rw [hsync] at hrun
    cases hrun
    exact ⟨hframe.trans (frame_of_puts hframe.plain hne hputs₂), _, hputs₂.fileAt, adjusted_same rfl hf⟩
  · next hexec =>
    cases hrun
    exact ⟨hframe, _, hputs.fileAt, rfl, (not_not.1 hexec).symm⟩

theorem readBase_total (base : Option FilePath) :
    (∃ content, readBase base fs = .ok content fs) ∨ ∃ e, readBase base fs = .error e fs := by
  cases base with
  | none => exact .inl ⟨[], rfl⟩
  | some path => exact readBytes_total path

/-- Whatever `git` makes of it, it writes the instance's file or nothing. -/
theorem runGit_spec {base : Option FilePath} {theirs : FilePath} (hinstance : fs.Plain instanceRoot) (hne : q ≠ [])
    (hdst : fs.fileAt (instanceRoot ++ q) = some f) :
    ∃ status fs', runGit git ⟨instanceRoot, q⟩ base theirs fs = .ok status fs' ∧ Frame fs instanceRoot q fs' ∧
      ∃ f', fs'.fileAt (instanceRoot ++ q) = some f' := by
  have hstay : ∀ status, runGit git ⟨instanceRoot, q⟩ base theirs fs = .ok status fs → ∃ status fs',
      runGit git ⟨instanceRoot, q⟩ base theirs fs = .ok status fs' ∧ Frame fs instanceRoot q fs' ∧
        ∃ f', fs'.fileAt (instanceRoot ++ q) = some f' := fun status h => ⟨status, fs, h, frame_refl hinstance, f, hdst⟩
  unfold runGit at hstay ⊢
  rcases readBytes_total ⟨instanceRoot, q⟩ with ⟨ours, hours⟩ | ⟨e, hraise⟩
  · rcases readBase_total base with ⟨baseContent, hbase⟩ | ⟨e, hraise⟩
    · rcases readBytes_total theirs with ⟨new, htheirs⟩ | ⟨e, hraise⟩
      · cases hresult : (git ours baseContent new).1 with
        | none =>
          refine hstay (git ours baseContent new).2 (tryCatch_ok ?_)
          rw [bind_ok hours, bind_ok hbase, bind_ok htheirs]
          simp only [hresult]
          rfl
        | some content =>
          have hopen := hinstance.openFile hdst
          cases hwritable : f.writable with
          | true =>
            have hwrite := writeBytes_ok hopen hwritable content
            have hputs := writeBytes_over hinstance hdst hwrite
            refine ⟨(git ours baseContent new).2, _, tryCatch_ok ?_, frame_of_puts hinstance hne hputs, _, hputs.fileAt⟩
            rw [bind_ok hours, bind_ok hbase, bind_ok htheirs]
            simp only [hresult]
            rw [bind_ok hwrite]
            rfl
          | false =>
            refine hstay 255 (@tryCatch_error ℤ fs fs _ .permission _ ?_)
            rw [bind_ok hours, bind_ok hbase, bind_ok htheirs]
            simp only [hresult]
            exact bind_error (writeBytes_denied hopen hwritable content)
      · exact hstay 255 (tryCatch_error (by rw [bind_ok hours, bind_ok hbase, bind_error hraise]))
    · exact hstay 255 (tryCatch_error (by rw [bind_ok hours, bind_error hraise]))
  · exact hstay 255 (tryCatch_error (bind_error hraise))

theorem baseBinary_ok {base : Option FilePath} {content : List UInt8} (h : readBase base fs = .ok content fs) :
    base.elim (pure false) isBinary fs = .ok (binary content) fs := by
  cases base with
  | none =>
    cases h
    rfl
  | some path => exact isBinary_ok h

/-- A conflict where one of the three is binary, else what `git` says of the file it leaves. -/
theorem mergeFile_spec {base : Option FilePath} {theirs : FilePath} {ours baseContent new : List UInt8} {conflicted : Bool}
    (hinstance : fs.Plain instanceRoot) (hne : q ≠ []) (hdst : fs.fileAt (instanceRoot ++ q) = some f)
    (hours : readBytes ⟨instanceRoot, q⟩ fs = .ok ours fs) (hbase : readBase base fs = .ok baseContent fs)
    (hnew : readBytes theirs fs = .ok new fs)
    (hrun : mergeFile git ⟨instanceRoot, q⟩ base theirs fs = .ok conflicted fs') :
    (binary ours || binary baseContent || binary new) = true ∧ conflicted = true ∧ fs' = fs ∨
      (binary ours || binary baseContent || binary new) = false ∧ Frame fs instanceRoot q fs' ∧
        ∃ f', fs'.fileAt (instanceRoot ++ q) = some f' := by
  unfold mergeFile at hrun
  rw [bind_ok (isBinary_ok hours), bind_ok (baseBinary_ok hbase), bind_ok (isBinary_ok hnew)] at hrun
  cases hbinary : binary ours || binary baseContent || binary new with
  | true =>
    rw [if_pos hbinary] at hrun
    cases hrun
    exact .inl ⟨rfl, rfl, rfl⟩
  | false =>
    rw [if_neg (by rw [hbinary]; exact Bool.false_ne_true)] at hrun
    obtain ⟨status, fs₁, hgit, hframe, hfile⟩ := @runGit_spec fs instanceRoot q f git base theirs hinstance hne hdst
    rw [bind_ok hgit] at hrun
    split at hrun
    · cases hrun
    · cases hrun
      exact .inr ⟨rfl, hframe, hfile⟩

theorem isBinary_error {path : FilePath} {e : PyError} (h : readBytes path fs = .error e fs) :
    isBinary path fs = .ok false fs := tryCatch_error (bind_error h)

/-- The base that is read: the old version, or nothing where there is none. -/
theorem readBase_cases (hold : fs.Plain oldRoot) (hq : q.Normal) {content : List UInt8} {fs' : FileSystem}
    (h : readBase (if fs.pathExists ⟨oldRoot, q⟩ = true then some ⟨oldRoot, q⟩ else none) fs = .ok content fs') :
    fs' = fs ∧ content = ((fs.fileAt (oldRoot ++ q)).map File.content).getD [] ∧
      isBinary ⟨oldRoot, q⟩ fs = .ok (binary content) fs ∧
      (fs.pathExists ⟨oldRoot, q⟩ = true ↔ fs.fileAt (oldRoot ++ q) ≠ none) := by
  by_cases hexists : fs.pathExists ⟨oldRoot, q⟩ = true
  · rw [if_pos hexists] at h
    change readBytes ⟨oldRoot, q⟩ fs = _ at h
    rcases readBytes_cases hold hq with ⟨o, hfile, -, hread⟩ | ⟨e, hread⟩
    · rw [hread] at h
      cases h
      rw [hfile]
      exact ⟨rfl, rfl, isBinary_ok hread, by simp [hexists]⟩
    · rw [hread] at h
      cases h
  · rw [if_neg hexists] at h
    cases h
    have hfile : fs.fileAt (oldRoot ++ q) = none := by
      by_contra hfile
      exact hexists ((hold.pathExists_iff hq).2 fun hnone => hfile (by rw [FileSystem.fileAt, hnone]))
    rcases readBytes_cases hold hq with ⟨o, hfile', -⟩ | ⟨e, hread⟩
    · rw [hfile] at hfile'
      cases hfile'
    · rw [hfile]
      exact ⟨rfl, rfl, isBinary_error hread, by simp [hexists]⟩

/-- Both sides are merged unless one is binary. -/
theorem mergeChanged_spec {base : Option FilePath} {o : Option File} {baseContent : List UInt8} {outcome : Option Outcome}
    (hinstance : fs.Plain instanceRoot) (hq : q.Normal) (hne : q ≠ [])
    (hdst : fs.fileAt (instanceRoot ++ q) = some f) (hreadOurs : readBytes ⟨instanceRoot, q⟩ fs = .ok f.content fs)
    (hbase : readBase base fs = .ok baseContent fs) (hreadNew : readBytes ⟨newRoot, q⟩ fs = .ok g.content fs)
    (hbaseContent : baseContent = (o.map File.content).getD []) (hbefore : f.content ≠ g.content)
    (holds : ∀ o', o = some o' → f.content ≠ o'.content) (hdiffer : g.content ≠ (o.map File.content).getD [])
    (hrun : mergeChanged git ⟨instanceRoot, q⟩ base ⟨newRoot, q⟩ f.content
      (binary f.content || binary baseContent || binary g.content) fs = .ok outcome fs') :
    Frame fs instanceRoot q fs' ∧ Merges o (some g) (some f) outcome (fs'.fileAt (instanceRoot ++ q)) := by
  unfold mergeChanged at hrun
  obtain ⟨conflicted, fs₂, hmerge, hresult⟩ := bind_eq_ok_iff.1 hrun
  clear hrun
  rcases mergeFile_spec hinstance hne hdst hreadOurs hbase hreadNew hmerge with
    ⟨hbinary, rfl, rfl⟩ | ⟨hbinary, hframe, f', hfile⟩
  · rw [if_pos rfl, hbinary] at hresult
    cases hresult
    rw [hdst]
    exact ⟨frame_refl hinstance, .declined rfl rfl hbefore holds⟩
  · rw [hbinary] at hresult
    simp only [Bool.or_eq_false_iff] at hbinary
    obtain ⟨⟨hbinaryOurs, hbinaryBase⟩, hbinaryNew⟩ := hbinary
    have hbase' : ∀ o', o = some o' → f.content ≠ o'.content ∧ binary o'.content = false := fun o' ho =>
      ⟨holds o' ho, by rw [← hbinaryBase, hbaseContent, ho]; rfl⟩
    have hstep : ∀ outcome, (outcome = some (.conflict false) ∨ outcome = some .merged ∧ f'.content ≠ f.content ∨
        outcome = none ∧ f'.content = f.content) → Merges o (some g) (some f) outcome
          (some f') := fun outcome h =>
      .merge rfl rfl hbefore hbase' hdiffer hbinaryNew hbinaryOurs h
    cases conflicted with
    | true =>
      cases hresult
      rw [hfile]
      exact ⟨hframe, hstep _ (.inl rfl)⟩
    | false =>
      rw [if_neg Bool.false_ne_true] at hresult
      rcases readBytes_cases hframe.plain hq with ⟨f'', hfile', -, hread⟩ | ⟨e, hread⟩
      · rw [hfile] at hfile'
        cases hfile'
        rw [bind_ok hread] at hresult
        split at hresult
        · next hchanged =>
          cases hresult
          rw [hfile]
          exact ⟨hframe, hstep _ (.inr (.inl ⟨rfl, hchanged⟩))⟩
        · next hsame =>
          cases hresult
          rw [hfile]
          exact ⟨hframe, hstep _ (.inr (.inr ⟨rfl, not_not.1 hsame⟩))⟩
      · rw [bind_error hread] at hresult
        cases hresult

/-- The bytes are taken, merged or left, by what the three contents are. -/
theorem mergeExisting_spec {outcome : Option Outcome} (hold : fs.Plain oldRoot) (hnew : fs.Plain newRoot)
    (hinstance : fs.Plain instanceRoot) (hapart : FileSystem.Apart newRoot instanceRoot) (hq : q.Normal) (hne : q ≠ [])
    (hrun : mergeExisting git ⟨oldRoot, q⟩ ⟨newRoot, q⟩ ⟨instanceRoot, q⟩ fs = .ok outcome fs') :
    Frame fs instanceRoot q fs' ∧ Merges (fs.fileAt (oldRoot ++ q)) (fs.fileAt (newRoot ++ q))
      (fs.fileAt (instanceRoot ++ q)) outcome (fs'.fileAt (instanceRoot ++ q)) := by
  unfold mergeExisting at hrun
  obtain ⟨oursBinary, hoursBinary⟩ := @isBinary_total fs ⟨instanceRoot, q⟩
  obtain ⟨oldBinary, holdBinary⟩ := @isBinary_total fs ⟨oldRoot, q⟩
  obtain ⟨newBinary, hnewBinary⟩ := @isBinary_total fs ⟨newRoot, q⟩
  rw [bind_ok hoursBinary, bind_ok holdBinary, bind_ok hnewBinary, get_bind] at hrun
  obtain ⟨baseContent, fs₁, hbase, hrun⟩ := bind_eq_ok_iff.1 hrun
  obtain ⟨rfl, hbaseContent, hbaseBinary, holdExists⟩ := readBase_cases hold hq hbase
  rw [holdBinary] at hbaseBinary
  cases hbaseBinary
  rcases readBytes_cases hnew hq with ⟨g, hsrc, hg, hreadNew⟩ | ⟨e, hreadNew⟩
  · rw [bind_ok hreadNew] at hrun
    rw [hsrc]
    split at hrun
    · next hsame =>
      cases hrun
      exact ⟨frame_refl hinstance, .unchanged rfl (hsame.trans hbaseContent)⟩
    · next hdiffer =>
      rcases readBytes_cases hinstance hq with ⟨f, hdst, hf, hreadOurs⟩ | ⟨e, hreadOurs⟩
      · rw [bind_ok hreadOurs] at hrun
        rw [hdst]
        split at hrun
        · next hsame =>
          cases hrun
          rw [hdst]
          exact ⟨frame_refl hinstance, .already rfl rfl (fun heq => hdiffer (heq.trans hbaseContent.symm)) hsame⟩
        · next hbefore =>
          split at hrun
          · next htaken =>
            obtain ⟨_, fs₂, htake, hrun⟩ := bind_eq_ok_iff.1 hrun
            cases hrun
            obtain ⟨hframe, f'', hfile, hsame⟩ := takeNew_spec hnew hinstance hapart hq hne hsrc hdst hg hf htake
            obtain ⟨o, ho⟩ := Option.ne_none_iff_exists'.1 (holdExists.1 htaken.1)
            rw [ho] at hbaseContent ⊢
            rw [hfile]
            cases hbaseContent
            exact ⟨hframe, .taken rfl rfl rfl hdiffer htaken.2 hsame⟩
          · next hnot =>
            have holds : ∀ o, fs₁.fileAt (oldRoot ++ q) = some o → f.content ≠ o.content := by
              intro o ho heq
              refine hnot ⟨holdExists.2 (by rw [ho]; simp), ?_⟩
              rw [heq, hbaseContent, ho]
              rfl
            rw [isBinary_ok hreadOurs] at hoursBinary
            cases hoursBinary
            rw [isBinary_ok hreadNew] at hnewBinary
            cases hnewBinary
            exact mergeChanged_spec hinstance hq hne hdst hreadOurs hbase hreadNew hbaseContent hbefore holds
              (fun heq => hdiffer (heq.trans hbaseContent.symm)) hrun
      · rw [bind_error hreadOurs] at hrun
        cases hrun
  · rw [bind_error hreadNew] at hrun
    cases hrun

/-- A file that the instance has not got is put in its place. -/
theorem create_spec (hnew : fs.Plain newRoot) (hinstance : fs.Plain instanceRoot)
    (hapart : FileSystem.Apart newRoot instanceRoot) (hq : q.Normal) (hne : q ≠ [])
    (hours : ¬ fs.pathExists ⟨instanceRoot, q⟩ = true)
    (hrun : create ⟨newRoot, q⟩ ⟨instanceRoot, q⟩ fs = .ok () fs') :
    Frame fs instanceRoot q fs' ∧ fs.fileAt (instanceRoot ++ q) = none ∧ fs.fileAt (newRoot ++ q) ≠ none ∧
      fs'.fileAt (instanceRoot ++ q) = fs.fileAt (newRoot ++ q) := by
  have hnone : fs.lookup (instanceRoot ++ q) = none := by
    by_contra hours'
    exact hours ((hinstance.pathExists_iff hq).2 hours')
  have hparent : FilePath.parent ⟨instanceRoot, q⟩ = ⟨instanceRoot, q.dropLast⟩ := if_neg hne
  have hq' := hq.along (List.dropLast_prefix q)
  rw [create, hparent] at hrun
  by_cases hway : ∃ d, d <+: q.dropLast ∧ fs.fileAt (instanceRoot ++ d) ≠ none
  · obtain ⟨d, hd, hfile⟩ := hway
    obtain ⟨e, hmake⟩ := makeDirs_blocked hinstance hq' hd hfile
    rw [bind_error hmake] at hrun
    cases hrun
  · have hfree : ∀ d, d <+: q.dropLast → fs.fileAt (instanceRoot ++ d) = none := fun d hd => by
      by_contra hfile
      exact hway ⟨d, hd, hfile⟩
    obtain ⟨fs₁, hmake, hdirs⟩ := makeDirs_ok hinstance hq' hfree
    rw [bind_ok hmake] at hrun
    have hnew₁ := hdirs.sameOutside.plain_apart hapart hnew
    have hinstance₁ := hdirs.plain hinstance
    rcases readBytes_cases hnew₁ hq with ⟨g, hsrc, hg, -⟩ | ⟨e, hread⟩
    · obtain ⟨fs₂, hcopy, hputs⟩ := copy2_puts hnew₁ hinstance₁ hapart hq hsrc hg
        (.inl ⟨by rw [hdirs.lookup_self hne, hnone], hdirs.dir⟩)
      rw [hcopy] at hrun
      cases hrun
      have hours' : fs.fileAt (instanceRoot ++ q) = none := by rw [FileSystem.fileAt, hnone]
      rw [hdirs.sameOutside.fileAt_apart hapart] at hsrc
      rw [hputs.fileAt, hsrc, hours']
      exact ⟨(frame_of_dirs hinstance hdirs hfree).trans (frame_of_puts hinstance₁ hne hputs), rfl, by simp, rfl⟩
    · obtain ⟨e, hcopy⟩ := copy2_raises hread ⟨instanceRoot, q⟩
      rw [hcopy] at hrun
      cases hrun

theorem mergeOne_spec {outcome : Option Outcome} (hold : fs.Plain oldRoot) (hnew : fs.Plain newRoot)
    (hinstance : fs.Plain instanceRoot) (hapart : FileSystem.Apart newRoot instanceRoot) (hq : q.Normal) (hne : q ≠ [])
    (hrun : mergeOne git oldRoot newRoot instanceRoot q.name fs = .ok outcome fs') :
    Frame fs instanceRoot q fs' ∧ Merges (fs.fileAt (oldRoot ++ q)) (fs.fileAt (newRoot ++ q))
      (fs.fileAt (instanceRoot ++ q)) outcome (fs'.fileAt (instanceRoot ++ q)) := by
  have hlink : ¬ fs.isSymlink ⟨instanceRoot, q⟩ = true := by
    rw [hinstance.not_isSymlink hq hne]
    exact Bool.false_ne_true
  unfold mergeOne at hrun
  simp only [FilePath.join_name hq] at hrun
  rw [get_bind] at hrun
  by_cases hthere : fs.pathExists ⟨newRoot, q⟩ = true
  · rw [if_neg (not_not.2 hthere), if_neg hlink] at hrun
    by_cases hours : fs.pathExists ⟨instanceRoot, q⟩ = true
    · rw [if_neg (not_not.2 hours)] at hrun
      exact mergeExisting_spec hold hnew hinstance hapart hq hne hrun
    · rw [if_pos hours] at hrun
      obtain ⟨_, fs₁, hcreate, hrun⟩ := bind_eq_ok_iff.1 hrun
      cases hrun
      obtain ⟨hframe, hnone, hsrc, hfile⟩ := create_spec hnew hinstance hapart hq hne hours hcreate
      rw [hfile]
      exact ⟨hframe, .created hnone hsrc⟩
  · rw [if_pos hthere] at hrun
    cases hrun
    have hnone : fs.lookup (newRoot ++ q) = none := by
      by_contra hthere'
      exact hthere ((hnew.pathExists_iff hq).2 hthere')
    exact ⟨frame_refl hinstance, .removed (by rw [FileSystem.fileAt, hnone])⟩

/-! ### All the paths -/

/-- What a loop over some paths comes to. -/
structure Looped (fs : FileSystem) (oldRoot newRoot instanceRoot : PurePath) (qs : List PurePath)
    (found : List (String × Option Outcome)) (fs' : FileSystem) : Prop where
  kept : ∀ q, q ∉ qs → fs'.fileAt (instanceRoot ++ q) = fs.fileAt (instanceRoot ++ q)
  merges : ∀ q ∈ qs, ∃ outcome, (q.name, outcome) ∈ found ∧ Merges (fs.fileAt (oldRoot ++ q)) (fs.fileAt (newRoot ++ q))
    (fs.fileAt (instanceRoot ++ q)) outcome (fs'.fileAt (instanceRoot ++ q))
  names : found.map Prod.fst = qs.map PurePath.name

theorem outcomes_spec (holdapart : FileSystem.Apart oldRoot instanceRoot) (hapart : FileSystem.Apart newRoot instanceRoot)
    {qs : List PurePath} (hnodup : qs.Nodup) (hnormal : ∀ q ∈ qs, q.Normal) (hne : ∀ q ∈ qs, q ≠ [])
    {found : List (String × Option Outcome)} (hold : fs.Plain oldRoot) (hnew : fs.Plain newRoot)
    (hinstance : fs.Plain instanceRoot)
    (hrun : outcomes (mergeOne git oldRoot newRoot instanceRoot) (qs.map PurePath.name) fs = .ok found fs') :
    Looped fs oldRoot newRoot instanceRoot qs found fs' := by
  induction qs generalizing fs found with
  | nil =>
    cases hrun
    exact ⟨fun _ _ => rfl, by simp, rfl⟩
  | cons q qs ih =>
    obtain ⟨hq, hnodup⟩ := List.nodup_cons.1 hnodup
    rw [List.map_cons, outcomes] at hrun
    obtain ⟨outcome, fs₁, hstep, hrun⟩ := bind_eq_ok_iff.1 hrun
    obtain ⟨rest, fs₂, hrest, hrun⟩ := bind_eq_ok_iff.1 hrun
    cases hrun
    obtain ⟨hframe, hmerges⟩ :=
      mergeOne_spec hold hnew hinstance hapart (hnormal q List.mem_cons_self) (hne q List.mem_cons_self) hstep
    have hlooped := ih hnodup (fun q' hq' => hnormal q' (List.mem_cons_of_mem _ hq'))
      (fun q' hq' => hne q' (List.mem_cons_of_mem _ hq')) (hframe.outside.plain_apart holdapart hold)
      (hframe.outside.plain_apart hapart hnew) hframe.plain hrest
    constructor
    · intro q' hq'
      rw [List.mem_cons, not_or] at hq'
      rw [hlooped.kept q' hq'.2, hframe.kept q' hq'.1]
    · intro q' hq'
      rcases List.mem_cons.1 hq' with rfl | hq'
      · refine ⟨outcome, List.mem_cons_self, ?_⟩
        rw [hlooped.kept q' hq]
        exact hmerges
      · obtain ⟨outcome', hmem, hmerges'⟩ := hlooped.merges q' hq'
        rw [hframe.outside.fileAt_apart holdapart, hframe.outside.fileAt_apart hapart,
          hframe.kept q' fun heq => hq (heq ▸ hq')] at hmerges'
        exact ⟨outcome', List.mem_cons_of_mem _ hmem, hmerges'⟩
    · rw [List.map_cons, List.map_cons, hlooped.names]

section

variable {o' g' f' : File} {o n ours ours' : Option File} {outcome : Option Outcome}

theorem Merges.untouched (h : Merges (some o') (some g') (some f') outcome ours') (hsame : Same f' o')
    (hmode : g'.content = o'.content → g'.executable = o'.executable) : ∃ f, ours' = some f ∧ Same f g' := by
  generalize ho : some o' = o at h
  generalize hg : some g' = n at h
  generalize hf : some f' = ours at h
  cases h with
  | removed hnone => simp [← hg] at hnone
  | created hnone => simp [← hf] at hnone
  | unchanged hnew heq =>
    subst ho hg
    cases hnew
    have heq : g'.content = o'.content := heq
    exact ⟨f', hf.symm, hsame.1.trans heq.symm, hsame.2.trans (hmode heq).symm⟩
  | already hours hnew hdiffer heq =>
    subst ho hg hf
    cases hours
    cases hnew
    exact absurd (heq.symm.trans hsame.1) hdiffer
  | taken _ hnew _ _ _ hsame' =>
    subst hg
    cases hnew
    exact ⟨_, rfl, hsame'⟩
  | declined _ hours _ holds =>
    subst ho hf
    cases hours
    exact absurd hsame.1 (holds o' rfl)
  | merge _ hours _ holds =>
    subst ho hf
    cases hours
    exact absurd hsame.1 (holds o' rfl).1

/-- A change of mode and no more is passed over. -/
theorem Merges.passed_over (h : Merges (some o') (some g') (some f') outcome ours') (hsame : Same f' o')
    (hcontent : g'.content = o'.content) : ours' = some f' := by
  generalize ho : some o' = o at h
  generalize hg : some g' = n at h
  generalize hf : some f' = ours at h
  cases h with
  | removed => rfl
  | created hnone => simp [← hf] at hnone
  | unchanged => rfl
  | already => rfl
  | taken hold hnew _ hdiffer =>
    subst ho hg
    cases hold
    cases hnew
    exact absurd hcontent hdiffer
  | declined => rfl
  | merge _ hours _ holds =>
    subst ho hf
    cases hours
    exact absurd hsame.1 (holds o' rfl).1

theorem Merges.keeps (h : Merges o n (some f') outcome ours')
    (hkeep : (∃ g, n = some g ∧ f'.content = g.content) ∨ (∃ h g, o = some h ∧ n = some g ∧ h.content = g.content) ∨
      ((binary f'.content = true ∨ (∃ h, o = some h ∧ binary h.content = true) ∨ ∃ g, n = some g ∧ binary g.content = true) ∧
        (∀ h, o = some h → f'.content ≠ h.content) ∧ ∀ g, n = some g → f'.content ≠ g.content)) :
    ∃ f, ours' = some f ∧ f.content = f'.content := by
  generalize hf : some f' = ours at h
  cases h with
  | removed => exact ⟨f', hf.symm, rfl⟩
  | created hnone => simp [← hf] at hnone
  | unchanged => exact ⟨f', hf.symm, rfl⟩
  | already => exact ⟨f', hf.symm, rfl⟩
  | declined => exact ⟨f', hf.symm, rfl⟩
  | taken hold hnew hours hdiffer heq =>
    subst hold hnew hf
    cases hours
    rcases hkeep with ⟨g, hg, hsame⟩ | ⟨h, g, hh, hg, hsame⟩ | ⟨-, hnot, -⟩
    · cases hg
      exact absurd (hsame.symm.trans heq) hdiffer
    · cases hh
      cases hg
      exact absurd hsame.symm hdiffer
    · exact absurd heq (hnot _ rfl)
  | merge hnew hours hbefore holds hdiffer hbinaryNew hbinaryOurs =>
    subst hnew hf
    cases hours
    rcases hkeep with ⟨g, hg, hsame⟩ | ⟨h, g, hh, hg, hsame⟩ | ⟨hbinary | ⟨h, hh, hbinary⟩ | ⟨g, hg, hbinary⟩, -⟩
    · cases hg
      exact absurd hsame hbefore
    · subst hh
      cases hg
      exact absurd hsame.symm hdiffer
    · rw [hbinaryOurs] at hbinary
      cases hbinary
    · rw [(holds h hh).2] at hbinary
      cases hbinary
    · cases hg
      rw [hbinaryNew] at hbinary
      cases hbinary

theorem Merges.eq_of_removed (h : Merges o none ours outcome ours') : ours' = ours := by
  generalize hn : none = n at h
  cases h with
  | removed => rfl
  | created _ hnew => exact absurd hn.symm hnew
  | unchanged => rfl
  | already => rfl
  | taken _ hnew => simp [← hn] at hnew
  | declined => rfl
  | merge hnew => simp [← hn] at hnew

/-- Reported as merged is what changed without a conflict. -/
theorem Merges.merged_iff (h : Merges o n ours outcome ours') : outcome = some .merged ↔
    (∀ b, outcome ≠ some (.conflict b)) ∧ ours'.map File.content ≠ ours.map File.content := by
  cases h with
  | removed => simp
  | created hours hnew =>
    subst hours
    simpa using hnew
  | unchanged => simp
  | already => simp
  | taken hold hnew hours hdiffer heq hsame =>
    subst hours
    refine iff_of_true rfl ⟨by simp, ?_⟩
    simp [hsame.1, heq, hdiffer]
  | declined => simp
  | merge hnew hours hbefore holds hdiffer hbinaryNew hbinaryOurs houtcome =>
    subst hours
    rcases houtcome with rfl | ⟨rfl, hchanged⟩ | ⟨rfl, hsame⟩
    · simp
    · simpa using hchanged
    · simp [hsame]

end

/-- The laws of the merge tier. -/
structure Laws (fs : FileSystem) (oldRoot newRoot instanceRoot : PurePath) (paths : Finset String) (report : Merged)
    (fs' : FileSystem) : Prop where
  untouched : ∀ q : PurePath, q.name ∈ paths → ∀ o g f, fs.fileAt (oldRoot ++ q) = some o → fs.fileAt (newRoot ++ q) = some g →
    fs.fileAt (instanceRoot ++ q) = some f → Same f o → ∃ f', fs'.fileAt (instanceRoot ++ q) = some f' ∧ Same f' g
  keeps : ∀ (q : PurePath) f, fs.fileAt (instanceRoot ++ q) = some f →
    ((∃ g, fs.fileAt (newRoot ++ q) = some g ∧ f.content = g.content) ∨
      (∃ o g, fs.fileAt (oldRoot ++ q) = some o ∧ fs.fileAt (newRoot ++ q) = some g ∧ o.content = g.content) ∨
      ((∃ root ∈ [oldRoot, newRoot, instanceRoot], ∃ h, fs.fileAt (root ++ q) = some h ∧ binary h.content = true) ∧
        ∀ root ∈ [oldRoot, newRoot], ∀ h, fs.fileAt (root ++ q) = some h → f.content ≠ h.content)) →
    ∃ f', fs'.fileAt (instanceRoot ++ q) = some f' ∧ f'.content = f.content
  removed : ∀ q : PurePath, fs.fileAt (newRoot ++ q) = none → fs'.fileAt (instanceRoot ++ q) = fs.fileAt (instanceRoot ++ q)
  disjoint : ∀ p ∈ report.merged, p ∉ report.conflicts
  binary : ∀ p ∈ report.binary, p ∈ report.conflicts
  merged : ∀ p, p ∈ report.merged ↔ p ∉ report.conflicts ∧ ∃ q : PurePath, p = q.name ∧
    (fs'.fileAt (instanceRoot ++ q)).map File.content ≠ (fs.fileAt (instanceRoot ++ q)).map File.content

/-- A new version that differs from the old one in nothing but the executable bit. -/
def ModeOnly (fs : FileSystem) (oldRoot newRoot instanceRoot : PurePath) (paths : Finset String) : Prop :=
  ∃ q : PurePath, q.name ∈ paths ∧ ∃ o g f, fs.fileAt (oldRoot ++ q) = some o ∧ fs.fileAt (newRoot ++ q) = some g ∧
    fs.fileAt (instanceRoot ++ q) = some f ∧ Same f o ∧ g.content = o.content ∧ g.executable ≠ o.executable

theorem mem_withOutcome {found : List (String × Option Outcome)} {which : Outcome → Bool} {p : String} :
    p ∈ withOutcome found which ↔ ∃ outcome, which outcome = true ∧ (p, some outcome) ∈ found := by
  unfold withOutcome
  rw [List.mem_map]
  constructor
  · rintro ⟨⟨p, outcome⟩, hmem, rfl⟩
    obtain ⟨hmem, hwhich⟩ := List.mem_filter.1 hmem
    cases outcome with
    | none => cases hwhich
    | some outcome => exact ⟨outcome, hwhich, hmem⟩
  · rintro ⟨outcome, hwhich, hmem⟩
    exact ⟨(p, some outcome), List.mem_filter.2 ⟨hmem, by simpa using hwhich⟩, rfl⟩

/-- What a path of the loop is reported as. -/
theorem Looped.outcome_unique {qs : List PurePath} {found : List (String × Option Outcome)} {p : String}
    {a b : Option Outcome} (h : Looped fs oldRoot newRoot instanceRoot qs found fs') (hnodup : qs.Nodup)
    (hnormal : ∀ q ∈ qs, q.Normal) (ha : (p, a) ∈ found) (hb : (p, b) ∈ found) : a = b := by
  have hnames : (found.map Prod.fst).Nodup := by
    rw [h.names]
    exact hnodup.map_on fun q hq q' hq' heq => PurePath.name_injective (hnormal q hq) (hnormal q' hq') heq
  exact congrArg Prod.snd (List.inj_on_of_nodup_map hnames ha hb rfl)

/-- The laws hold of a run just where no file that the instance left alone got another mode and no more. -/
theorem laws_iff {paths : Finset String} {report : Merged} (htrees : Trees fs oldRoot newRoot instanceRoot)
    (hpaths : ∀ p ∈ paths, ∃ q : PurePath, p = q.name ∧ q.Normal ∧ q ≠ [])
    (hrun : applyMerge git oldRoot newRoot instanceRoot paths fs = .ok report fs') :
    Laws fs oldRoot newRoot instanceRoot paths report fs' ↔ ¬ ModeOnly fs oldRoot newRoot instanceRoot paths := by
  have hnormalpaths : ∀ p ∈ paths, ∃ q : PurePath, p = q.name ∧ q.Normal := fun p hp => by
    obtain ⟨q, hname, hq, -⟩ := hpaths p hp
    exact ⟨q, hname, hq⟩
  obtain ⟨qs, hsort, hnodup, hnormal, hmem⟩ := exists_sorted hnormalpaths
  have hne : ∀ q ∈ qs, q ≠ [] := by
    intro q hq
    obtain ⟨q', hname, hq', hne⟩ := hpaths _ ((hmem q (hnormal q hq)).1 hq)
    rwa [PurePath.name_injective (hnormal q hq) hq' hname]
  unfold applyMerge at hrun
  rw [hsort] at hrun
  obtain ⟨found, fs₁, hloop, hrun⟩ := bind_eq_ok_iff.1 hrun
  cases hrun
  have hlooped := outcomes_spec htrees.oldApart htrees.newApart hnodup hnormal hne htrees.oldPlain htrees.newPlain
    htrees.instancePlain hloop
  have hfile : ∀ {q : PurePath} {root : PurePath} {f : File}, q.name ∈ paths → fs.fileAt (root ++ q) = some f → q ∈ qs :=
    fun {q root f} hq hf => (hmem q (@FileSystem.normal_of_fileAt fs root q (by rw [hf]; simp))).2 hq
  constructor
  · rintro hlaws ⟨q, hq, o, g, f, ho, hg, hf, hsame, hcontent, hmode⟩
    obtain ⟨outcome, -, hmerges⟩ := hlooped.merges q (hfile hq hf)
    rw [ho, hg, hf] at hmerges
    obtain ⟨f', hf', hsame'⟩ := hlaws.untouched q hq o g f ho hg hf hsame
    rw [hmerges.passed_over hsame hcontent, Option.some.injEq] at hf'
    subst hf'
    exact hmode (hsame'.2.symm.trans hsame.2)
  · intro hmode
    constructor
    · intro q hq o g f ho hg hf hsame
      obtain ⟨outcome, -, hmerges⟩ := hlooped.merges q (hfile hq hf)
      rw [ho, hg, hf] at hmerges
      refine hmerges.untouched hsame fun hcontent => ?_
      by_contra hexec
      exact hmode ⟨q, hq, o, g, f, ho, hg, hf, hsame, hcontent, hexec⟩
    · intro q f hf hkeep
      by_cases hq : q ∈ qs
      · obtain ⟨outcome, -, hmerges⟩ := hlooped.merges q hq
        rw [hf] at hmerges
        refine hmerges.keeps ?_
        simpa [hf, or_comm, or_left_comm] using hkeep
      · exact ⟨f, by rw [hlooped.kept q hq, hf], rfl⟩
    · intro q hnone
      by_cases hq : q ∈ qs
      · obtain ⟨outcome, -, hmerges⟩ := hlooped.merges q hq
        rw [hnone] at hmerges
        exact hmerges.eq_of_removed
      · exact hlooped.kept q hq
    · intro p hmerged hconflict
      obtain ⟨a, ha, hmem⟩ := mem_withOutcome.1 hmerged
      obtain ⟨b, hb, hmem'⟩ := mem_withOutcome.1 hconflict
      cases hlooped.outcome_unique hnodup hnormal hmem hmem'
      rw [bne, ha] at hb
      cases hb
    · intro p hbinary
      obtain ⟨a, ha, hmem⟩ := mem_withOutcome.1 hbinary
      obtain rfl := eq_of_beq ha
      exact mem_withOutcome.2 ⟨_, rfl, hmem⟩
    · intro p
      constructor
      · intro hmerged
        obtain ⟨a, ha, hin⟩ := mem_withOutcome.1 hmerged
        obtain rfl := eq_of_beq ha
        have hname : p ∈ qs.map PurePath.name := by
          rw [← hlooped.names]
          exact List.mem_map_of_mem hin
        obtain ⟨q, hq, rfl⟩ := List.mem_map.1 hname
        obtain ⟨outcome, hin', hmerges⟩ := hlooped.merges q hq
        cases hlooped.outcome_unique hnodup hnormal hin hin'
        refine ⟨fun hconflict => ?_, q, rfl, (hmerges.merged_iff.1 rfl).2⟩
        obtain ⟨b, hb, hin''⟩ := mem_withOutcome.1 hconflict
        cases hlooped.outcome_unique hnodup hnormal hin hin''
        cases hb
      · rintro ⟨hconflict, q, rfl, hchanged⟩
        have hq : q ∈ qs := by
          by_contra hq
          exact hchanged (by rw [hlooped.kept q hq])
        obtain ⟨outcome, hin, hmerges⟩ := hlooped.merges q hq
        have hnot : ∀ b, outcome ≠ some (.conflict b) := by
          rintro b rfl
          exact hconflict (mem_withOutcome.2 ⟨_, rfl, hin⟩)
        obtain rfl := hmerges.merged_iff.2 ⟨hnot, hchanged⟩
        exact mem_withOutcome.2 ⟨_, rfl, hin⟩

/-- A file that upstream left alone is passed over, whatever its mode. -/
theorem mergeOne_unchanged {o : File} (htrees : Trees fs oldRoot newRoot instanceRoot) (hq : q.Normal) (hne : q ≠ [])
    (hold : fs.fileAt (oldRoot ++ q) = some o) (hnew : fs.fileAt (newRoot ++ q) = some g)
    (hours : fs.fileAt (instanceRoot ++ q) = some f) (ho : o.readable = true) (hg : g.readable = true)
    (hcontent : g.content = o.content) : mergeOne git oldRoot newRoot instanceRoot q.name fs = .ok none fs := by
  obtain ⟨holdPlain, hnewPlain, hinstance, -, -⟩ := htrees
  have hexists : ∀ {root : PurePath} {h : File}, fs.Plain root → fs.fileAt (root ++ q) = some h →
      fs.pathExists ⟨root, q⟩ = true := fun hplain hfile =>
    (hplain.pathExists_iff hq).2 (lookup_ne_none (by rw [hfile]; simp))
  have hlink : ¬ fs.isSymlink ⟨instanceRoot, q⟩ = true := by
    rw [hinstance.not_isSymlink hq hne]
    exact Bool.false_ne_true
  obtain ⟨_, hoursBinary⟩ := @isBinary_total fs ⟨instanceRoot, q⟩
  obtain ⟨_, holdBinary⟩ := @isBinary_total fs ⟨oldRoot, q⟩
  obtain ⟨_, hnewBinary⟩ := @isBinary_total fs ⟨newRoot, q⟩
  have hreadOld : readBase (some ⟨oldRoot, q⟩) fs = .ok o.content fs := readBytes_ok (holdPlain.openFile hold) ho
  unfold mergeOne
  simp only [FilePath.join_name hq]
  rw [get_bind, if_neg (not_not.2 (hexists hnewPlain hnew)), if_neg hlink, if_neg (not_not.2 (hexists hinstance hours))]
  unfold mergeExisting
  rw [bind_ok hoursBinary, bind_ok holdBinary, bind_ok hnewBinary, get_bind]
  simp only [hexists holdPlain hold, if_true]
  rw [bind_ok hreadOld, bind_ok (readBytes_ok (hnewPlain.openFile hnew) hg), if_pos hcontent]
  rfl

theorem applyMerge_singleton {p : String} (h : mergeOne git oldRoot newRoot instanceRoot p fs = .ok none fs) :
    applyMerge git oldRoot newRoot instanceRoot {p} fs = .ok ⟨[], [], []⟩ fs := by
  unfold applyMerge
  rw [Finset.sort_singleton, outcomes, outcomes]
  have hloop : (do
      let outcome ← mergeOne git oldRoot newRoot instanceRoot p
      let found ← (pure [] : FileM (List (String × Option Outcome)))
      pure ((p, outcome) :: found)) fs = .ok [(p, none)] fs := by
    rw [bind_ok h]
    rfl
  rw [bind_ok hloop]
  rfl

end

/-- The file `a` in all three trees, in the new one with a mode of its own. -/
def moded (mode : BitVec 12) : FileSystem :=
  ((roots.add ["old"] "a" (.file text)).add ["own"] "a" (.file text)).add ["new"] "a" (.file { text with mode })

theorem lookup_moded (mode : BitVec 12) (r : PurePath) : (moded mode).lookup r =
    if r = ["new", "a"] then some (.file { text with mode })
      else if r = ["own", "a"] ∨ r = ["old", "a"] then some (.file text) else roots.lookup r := by
  unfold moded
  rw [FileSystem.lookup_add (by decide +kernel) (by decide +kernel) (by decide +kernel),
    FileSystem.lookup_add (by decide +kernel) (by decide +kernel) (by decide +kernel),
    FileSystem.lookup_add (by decide +kernel) (by decide +kernel) (by decide +kernel)]
  simp only [List.cons_append, List.nil_append]
  split_ifs <;> simp_all

theorem fileAt_moded (mode : BitVec 12) (r : PurePath) : (moded mode).fileAt r =
    if r = ["new", "a"] then some { text with mode } else if r = ["own", "a"] ∨ r = ["old", "a"] then some text else none := by
  unfold FileSystem.fileAt
  rw [lookup_moded, lookup_roots]
  split_ifs <;> simp_all

theorem trees_moded (mode : BitVec 12) : Trees (moded mode) ["old"] ["new"] ["own"] := by
  refine trees_of_roots (fun r hr => ?_) fun r target => ?_
  · rw [lookup_moded, lookup_roots]
    simp only [List.mem_cons, List.not_mem_nil, or_false] at hr
    rcases hr with rfl | rfl | rfl <;> simp
  · rw [lookup_moded, lookup_roots]
    split_ifs <;> simp

theorem canonical_a : ∀ p ∈ ({"a"} : Finset String), ∃ q : PurePath, p = q.name ∧ q.Normal ∧ q ≠ [] := by
  intro p hp
  obtain rfl := Finset.mem_singleton.1 hp
  exact ⟨["a"], name_a.1.symm, by unfold PurePath.Normal; decide +kernel, by simp⟩

theorem applyMerge_moded (git : GitMergeFile) {mode : BitVec 12} (hread : File.readable { text with mode } = true) :
    applyMerge git ["old"] ["new"] ["own"] {"a"} (moded mode) = .ok ⟨[], [], []⟩ (moded mode) := by
  have htext : text.readable = true := by decide
  rw [← name_a.1]
  exact applyMerge_singleton (@mergeOne_unchanged (moded mode) ["old"] ["new"] ["own"] ["a"] text { text with mode } git text
    (trees_moded mode) (by unfold PurePath.Normal; decide +kernel) (by simp) (by rw [fileAt_moded]; rfl)
    (by rw [fileAt_moded]; rfl) (by rw [fileAt_moded]; rfl) htext hread rfl)

theorem laws_kept : Laws (moded 0o644#12) ["old"] ["new"] ["own"] {"a"} ⟨[], [], []⟩ (moded 0o644#12) := by
  refine (laws_iff (trees_moded _) canonical_a (applyMerge_moded (fun _ _ _ => (none, 0)) (by decide))).2 ?_
  rintro ⟨q, -, o, g, f, ho, hg, -, -, -, hmode⟩
  have htext : ∀ r f, (moded 0o644#12).fileAt r = some f → f = text := by
    intro r f hf
    rw [fileAt_moded] at hf
    split_ifs at hf <;> exact (Option.some.inj hf).symm
  rw [htext _ _ ho, htext _ _ hg] at hmode
  exact hmode rfl

/-- A script that upstream made executable, its content as it was. -/
theorem not_laws_moded :
    ¬ ∀ (git : GitMergeFile) (fs fs' : FileSystem) (oldRoot newRoot instanceRoot : PurePath) (paths : Finset String)
      (report : Merged), Trees fs oldRoot newRoot instanceRoot →
      (∀ p ∈ paths, ∃ q : PurePath, p = q.name ∧ q.Normal ∧ q ≠ []) →
      applyMerge git oldRoot newRoot instanceRoot paths fs = .ok report fs' →
      Laws fs oldRoot newRoot instanceRoot paths report fs' := by
  intro hall
  have hlaws := hall (fun _ _ _ => (none, 0)) _ _ _ _ _ _ _ (trees_moded 0o755#12) canonical_a
    (applyMerge_moded _ (by decide))
  obtain ⟨f', hf', hsame⟩ := hlaws.untouched ["a"] (by rw [name_a.1]; simp) text { text with mode := 0o755#12 } text
    (by rw [fileAt_moded]; rfl) (by rw [fileAt_moded]; rfl) (by rw [fileAt_moded]; rfl) ⟨rfl, rfl⟩
  rw [fileAt_moded] at hf'
  cases hf'
  exact absurd hsame.2 (by decide)

end TemplateAxum.TemplateSync
