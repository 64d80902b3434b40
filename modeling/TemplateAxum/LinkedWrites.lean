import TemplateAxum.Lib.Links
import TemplateAxum.MergeTier

/-!
# A template sync and the links of an instance

Both tiers pass over a path that is itself a symbolic link. A link on the way to it they follow.
-/

namespace TemplateAxum.TemplateSync

open FileM FileSystem

/-! ### The passes of a loop -/

/-- One path of a loop: what there was before it and what it left. -/
structure Pass where
  path : String
  before : FileSystem
  after : FileSystem

/-- A loop ends with the pass that raises. -/
def passes {α : Type} (step : String → FileM α) : List String → FileSystem → List Pass
  | [], _ => []
  | path :: rest, fs =>
    match step path fs with
    | .ok _ fs' => ⟨path, fs, fs'⟩ :: passes step rest fs'
    | .error _ fs' => [⟨path, fs, fs'⟩]

/-- Every file that a pass creates, changes or deletes is in the instance, and no link of the instance is on its path. -/
def Sealed (instanceRoot : PurePath) (run : List Pass) : Prop :=
  ∀ pass ∈ run, ∀ r, pass.after.fileAt r ≠ pass.before.fileAt r →
    instanceRoot <+: r ∧ ¬ pass.before.Linked (FilePath.join instanceRoot pass.path)

/-- A step changes a file just where a test on the state before it says so, and then it is the path's. -/
def Writer {α : Type} (root : PurePath) (step : String → FileM α) (writes : FileSystem → String → Prop) : Prop :=
  ∀ fs (q : PurePath), fs.lookup root = some .dir → q.Normal → q ≠ [] →
    (writes fs q.name ∧ ¬ fs.isSymlink ⟨root, q⟩ = true ∧ fs.Changes ⟨root, q⟩ (left (step q.name) fs)) ∨
      (¬ writes fs q.name ∧ fs.Stays (left (step q.name) fs))

section

variable {α : Type} {root : PurePath} {step : String → FileM α} {writes : FileSystem → String → Prop} {fs : FileSystem}

theorem Writer.dir (h : Writer root step writes) {q : PurePath} (hdir : fs.lookup root = some .dir) (hq : q.Normal) (hne : q ≠ []) :
    (left (step q.name) fs).lookup root = some .dir := by
  rcases h fs q hdir hq hne with ⟨-, -, real, -, -, -, hkept⟩ | ⟨-, hstays⟩
  · exact hkept root hdir
  · exact hstays.dir root hdir

theorem Writer.passes (h : Writer root step writes) {paths : List String}
    (hpaths : ∀ p ∈ paths, ∃ q : PurePath, p = q.name ∧ q.Normal ∧ q ≠ []) (hdir : fs.lookup root = some .dir) :
    ∀ pass ∈ passes step paths fs, pass.before.lookup root = some .dir ∧ pass.path ∈ paths ∧
      pass.after = left (step pass.path) pass.before := by
  induction paths generalizing fs with
  | nil => simp [TemplateSync.passes]
  | cons path rest ih =>
    rw [TemplateSync.passes]
    cases hstep : step path fs with
    | error e fs' =>
      intro pass hpass
      obtain rfl := List.mem_singleton.1 hpass
      exact ⟨hdir, List.mem_cons_self, (left_error hstep).symm⟩
    | ok a fs' =>
      intro pass hpass
      rcases List.mem_cons.1 hpass with rfl | hrest
      · exact ⟨hdir, List.mem_cons_self, (left_ok hstep).symm⟩
      · obtain ⟨q, rfl, hq, hne⟩ := hpaths path List.mem_cons_self
        have hdir' := h.dir hdir hq hne
        rw [left_ok hstep] at hdir'
        obtain ⟨hbefore, hmem, hafter⟩ := ih (fun p hp => hpaths p (List.mem_cons_of_mem _ hp)) hdir' pass hrest
        exact ⟨hbefore, List.mem_cons_of_mem _ hmem, hafter⟩

/-- A loop stays in the instance and off its links just where it writes nothing behind a link. -/
theorem Writer.keeps_iff (h : Writer root step writes) {paths : List String}
    (hpaths : ∀ p ∈ paths, ∃ q : PurePath, p = q.name ∧ q.Normal ∧ q ≠ []) (hdir : fs.lookup root = some .dir) :
    Sealed root (TemplateSync.passes step paths fs) ↔ ∀ pass ∈ TemplateSync.passes step paths fs,
      writes pass.before pass.path → ¬ pass.before.Linked (FilePath.join root pass.path).parent := by
  refine forall₂_congr fun pass hpass => ?_
  obtain ⟨hbefore, hmem, hafter⟩ := h.passes hpaths hdir pass hpass
  obtain ⟨q, hname, hq, hne⟩ := hpaths _ hmem
  rw [hafter, hname, FilePath.join_name hq]
  obtain ⟨d, name, rfl⟩ := (List.eq_nil_or_concat' q).resolve_left hne
  have hparent : FilePath.parent ⟨root, d ++ [name]⟩ = ⟨root, d⟩ := by simp [FilePath.parent]
  rw [hparent]
  constructor
  · intro hsealed hwrites
    rcases h pass.before (d ++ [name]) hbefore hq hne with ⟨-, -, real, -, hchanged, -⟩ | ⟨hnot, -⟩
    · rintro ⟨d', hd', hlink⟩
      exact (hsealed real hchanged).2 ⟨d', hd'.trans (List.prefix_append _ _), hlink⟩
    · exact absurd hwrites hnot
  · intro hwrites r hchanged
    rcases h pass.before (d ++ [name]) hbefore hq hne with ⟨hwrites', hlink, real, hreal, -, hkept, -⟩ | ⟨-, hstays⟩
    · have hlinked : ¬ pass.before.Linked ⟨root, d ++ [name]⟩ := fun hlinked => by
        rcases linked_snoc hq hlinked with hlinked | hsymlink
        · exact hwrites hwrites' hlinked
        · exact hlink hsymlink
      have heq : r = real := by
        by_contra hne
        exact hchanged (hkept r hne)
      rw [heq, hreal hlinked, FilePath.resolve_normal hq]
      exact ⟨List.prefix_append _ _, hlinked⟩
    · exact absurd (hstays.fileAt r) hchanged

end

/-! ### The replace tier -/

/-- The instance's file is missing, or another than the new version's. -/
def Stale (fs : FileSystem) (src dst : FilePath) : Prop :=
  ∃ r g, fs.openFile src = .ok (r, g) ∧ g.readable = true ∧ (¬ fs.pathExists dst = true ∨
    ∃ real f, fs.openFile dst = .ok (real, f) ∧ f.readable = true ∧
      (f.content ≠ g.content ∧ f.writable = true ∨ f.content = g.content ∧ g.executable ≠ f.executable))

/-- Whether `apply_replace` comes to write a path: its directories made, the file is found stale. -/
def Replaces (newRoot instanceRoot : PurePath) (fs : FileSystem) (path : String) : Prop :=
  ¬ fs.isSymlink (FilePath.join instanceRoot path) = true ∧
    ∃ fs', makeDirs (FilePath.join instanceRoot path).parent fs = .ok () fs' ∧
      Stale fs' (FilePath.join newRoot path) (FilePath.join instanceRoot path)

/-- Whether `apply_replace` comes to delete a path. -/
def Removes (instanceRoot : PurePath) (fs : FileSystem) (path : String) : Prop :=
  ¬ fs.isSymlink (FilePath.join instanceRoot path) = true ∧ fs.isFile (FilePath.join instanceRoot path) = true

section

variable {fs fs' : FileSystem} {oldRoot newRoot instanceRoot q d real r : PurePath} {name : String} {src dst : FilePath} {f g : File}

theorem locate_of_openFile (h : fs.openFile dst = .ok (real, f)) : fs.locate dst = .found real ∧ fs.lookup real = some (.file f) := by
  obtain ⟨hlocate, hfile⟩ := openFile_eq_ok_iff.1 h
  exact ⟨hlocate, fileAt_eq_some_iff.1 hfile⟩

theorem real_of_openFile (hbase : fs.lookup dst.base = some .dir) (h : fs.openFile dst = .ok (real, f)) :
    ¬ fs.Linked dst → real = dst.resolve := fun hlinked =>
  (resolve_of_locate hbase hlinked (openFile_eq_ok_iff.1 h).1).1 real rfl

/-- Where a file is put over one that is open. -/
theorem changes_over {f' : File} (hbase : fs.lookup dst.base = some .dir) (h : fs.openFile dst = .ok (real, f))
    (hputs : fs.Puts real (some (.file f')) fs') (hne : f' ≠ f) : fs.Changes dst fs' := by
  have hlookup := (locate_of_openFile h).2
  refine changes_of_puts (real_of_openFile hbase h) hputs (by rw [hlookup]; simp) ?_
  rw [hputs.fileAt, file_of_openFile h]
  exact fun heq => hne (Option.some.inj heq)

/-- Where a file is put in a directory that is there. -/
theorem changes_new (hbase : fs.lookup instanceRoot = some .dir) (hname : PurePath.IsName name)
    (hparent : fs.locate ⟨instanceRoot, d⟩ = .found real) (hdir : fs.lookup real = some .dir)
    (hnone : fs.lookup (real ++ [name]) = none) (hputs : fs.Puts (real ++ [name]) (some (.file f)) fs') :
    fs.Changes ⟨instanceRoot, d ++ [name]⟩ fs' := by
  refine changes_of_puts (fun hlinked => ?_) hputs (by rw [hnone]; simp) ?_
  · have hmissing : fs.locate ⟨instanceRoot, d ++ [name]⟩ = .missing real name := by
      rw [locate_snoc hname.2.2.1 hdir (by rw [hnone]; simp) hparent, last, if_pos hnone]
    exact (resolve_of_locate (p := ⟨instanceRoot, d ++ [name]⟩) hbase hlinked hmissing).2 real name rfl
  · rw [hputs.fileAt, FileSystem.fileAt, hnone]
    simp

theorem syncExecutableBit_over (hsrc : fs.openFile src = .ok (r, g)) (hdst : fs.openFile dst = .ok (real, f))
    (hlink : ¬ fs.isSymlink dst = true) :
    ∃ fs', syncExecutableBit src dst fs = .ok () fs' ∧ fs.Puts real (some (.file (adjusted f g))) fs' := by
  refine ⟨_, ?_, puts_set (by rw [file_of_openFile hdst]; simp) _⟩
  rw [syncExecutableBit, get_bind, if_neg hlink, bind_ok (mode_ok hdst), bind_ok (isExecutable_ok hsrc)]
  unfold adjusted
  cases g.executable with
  | true => exact chmod_ok hdst _
  | false => exact chmod_ok hdst _

theorem adjusted_ne (hread : f.readable = true) (hcontent : f.content = g.content) (hexec : g.executable ≠ f.executable) :
    adjusted f g ≠ f := by
  intro heq
  have hsame := (adjusted_same hcontent hread).2
  rw [heq] at hsame
  exact hexec hsame.symm

/-- What `copy2` would read is there to be read, or it raises. -/
theorem opened_or (fs : FileSystem) (src : FilePath) : (∃ r g, fs.openFile src = .ok (r, g) ∧ g.readable = true ∧
      readBytes src fs = .ok g.content fs) ∨
    (¬ ∃ r g, fs.openFile src = .ok (r, g) ∧ g.readable = true) ∧ ∃ e, readBytes src fs = .error e fs := by
  cases hopen : fs.openFile src with
  | error e => exact .inr ⟨by simp, _, readBytes_error hopen⟩
  | ok opened =>
    obtain ⟨r, g⟩ := opened
    cases hread : g.readable with
    | true => exact .inl ⟨r, g, rfl, hread, readBytes_ok hopen hread⟩
    | false =>
      refine .inr ⟨?_, _, readBytes_denied hopen hread⟩
      rintro ⟨r', g', heq, hread'⟩
      cases heq
      rw [hread] at hread'
      cases hread'

/-- The directories made, the rest of a step on a path of the new version. -/
def replaceHere (src dst : FilePath) : FileM Bool := do
  if ¬ (← get).pathExists dst then
    copy2 src dst
    pure true
  else if (← readBytes dst) ≠ (← readBytes src) then
    copy2 src dst
    pure true
  else if (← isExecutable src) ≠ (← isExecutable dst) then
    syncExecutableBit src dst
    pure true
  else pure false

theorem replaceHere_spec (hbase : fs.lookup instanceRoot = some .dir) (hname : PurePath.IsName name)
    (hparent : fs.locate ⟨instanceRoot, d⟩ = .found real) (hdir : fs.lookup real = some .dir)
    (hexists : fs.pathExists ⟨instanceRoot, d ++ [name]⟩ = true ↔ fs.lookup (real ++ [name]) ≠ none)
    (hlink : fs.pathExists ⟨instanceRoot, d ++ [name]⟩ = true → ¬ fs.isSymlink ⟨instanceRoot, d ++ [name]⟩ = true) :
    (Stale fs src ⟨instanceRoot, d ++ [name]⟩ ∧
      fs.Changes ⟨instanceRoot, d ++ [name]⟩ (left (replaceHere src ⟨instanceRoot, d ++ [name]⟩) fs)) ∨
      (¬ Stale fs src ⟨instanceRoot, d ++ [name]⟩ ∧ left (replaceHere src ⟨instanceRoot, d ++ [name]⟩) fs = fs) := by
  unfold replaceHere
  rw [left, get_bind]
  by_cases hmissing : ¬ fs.pathExists ⟨instanceRoot, d ++ [name]⟩ = true
  · have hnone : fs.lookup (real ++ [name]) = none := by
      by_contra hsome
      exact hmissing (hexists.2 hsome)
    rw [if_pos hmissing]
    rcases opened_or fs src with ⟨r, g, hsrc, hg, -⟩ | ⟨hnot, e, hraise⟩
    · obtain ⟨fs', hcopy, hputs⟩ := copy2_new hsrc hg hname hparent hdir hnone
      rw [bind_ok hcopy]
      exact .inl ⟨⟨r, g, hsrc, hg, .inl hmissing⟩, changes_new hbase hname hparent hdir hnone hputs⟩
    · obtain ⟨e, hcopy⟩ := copy2_raises hraise ⟨instanceRoot, d ++ [name]⟩
      rw [bind_error hcopy]
      refine .inr ⟨?_, rfl⟩
      rintro ⟨r, g, hsrc, hg, -⟩
      exact hnot ⟨r, g, hsrc, hg⟩
  · have hlink := hlink (not_not.1 hmissing)
    rw [if_neg hmissing]
    rcases opened_or fs ⟨instanceRoot, d ++ [name]⟩ with ⟨real', f, hdst, hf, hread⟩ | ⟨hnot, e, hraise⟩
    · rw [bind_ok hread]
      rcases opened_or fs src with ⟨r, g, hsrc, hg, hread'⟩ | ⟨hnot, e, hraise⟩
      · rw [bind_ok hread']
        have hstale : Stale fs src ⟨instanceRoot, d ++ [name]⟩ ↔
            f.content ≠ g.content ∧ f.writable = true ∨ f.content = g.content ∧ g.executable ≠ f.executable := by
          constructor
          · rintro ⟨r', g', hsrc', -, hmissing' | ⟨real'', f', hdst', -, hdiffer⟩⟩
            · exact absurd hmissing' hmissing
            · rw [hsrc] at hsrc'
              rw [hdst] at hdst'
              cases hsrc'
              cases hdst'
              exact hdiffer
          · exact fun hdiffer => ⟨r, g, hsrc, hg, .inr ⟨real', f, hdst, hf, hdiffer⟩⟩
        rw [hstale]
        by_cases hcontent : f.content = g.content
        · rw [if_neg (not_not.2 hcontent), bind_ok (isExecutable_ok hsrc), bind_ok (isExecutable_ok hdst)]
          by_cases hexec : g.executable = f.executable
          · rw [if_neg (not_not.2 hexec)]
            refine .inr ⟨?_, rfl⟩
            rintro (⟨hdiffer, -⟩ | ⟨-, hdiffer⟩)
            · exact hdiffer hcontent
            · exact hdiffer hexec
          · obtain ⟨fs', hsync, hputs⟩ := syncExecutableBit_over hsrc hdst hlink
            rw [if_pos hexec, bind_ok hsync]
            exact .inl ⟨.inr ⟨hcontent, hexec⟩, changes_over hbase hdst hputs (adjusted_ne hf hcontent hexec)⟩
        · rw [if_pos hcontent]
          cases hwrite : f.writable with
          | true =>
            obtain ⟨fs', hcopy, hputs⟩ := copy2_over hsrc hg hdst hwrite hcontent
            rw [bind_ok hcopy]
            exact .inl ⟨.inl ⟨hcontent, rfl⟩, changes_over hbase hdst hputs fun heq => hcontent (by rw [heq])⟩
          | false =>
            obtain ⟨e, hcopy⟩ := copy2_denied hdst hwrite src
            rw [bind_error hcopy]
            exact .inr ⟨by simp [hcontent], rfl⟩
      · rw [bind_error hraise]
        refine .inr ⟨?_, rfl⟩
        rintro ⟨r, g, hsrc, hg, -⟩
        exact hnot ⟨r, g, hsrc, hg⟩
    · rw [bind_error hraise]
      refine .inr ⟨?_, rfl⟩
      rintro ⟨r, g, -, -, hmissing' | ⟨real', f, hdst, hf, -⟩⟩
      · exact hmissing hmissing'
      · exact hnot ⟨real', f, hdst, hf⟩

theorem join_parent (hq : PurePath.Normal (d ++ [name])) (root : PurePath) :
    FilePath.join root (PurePath.name (d ++ [name])) = ⟨root, d ++ [name]⟩ ∧
      (FilePath.join root (PurePath.name (d ++ [name]))).parent = ⟨root, d⟩ := by
  rw [FilePath.join_name hq]
  exact ⟨rfl, by simp [FilePath.parent]⟩

theorem replaceOne_writer : Writer instanceRoot (replaceOne newRoot instanceRoot) (Replaces newRoot instanceRoot) := by
  intro fs q hbase hq hne
  obtain ⟨d, name, rfl⟩ := (List.eq_nil_or_concat' q).resolve_left hne
  obtain ⟨hjoin, hparent⟩ := join_parent hq instanceRoot
  have hname : PurePath.IsName name := hq name (by simp)
  unfold Replaces replaceOne
  rw [hparent, hjoin, left, get_bind]
  by_cases hlink : fs.isSymlink ⟨instanceRoot, d ++ [name]⟩ = true
  · rw [if_pos hlink]
    exact .inr ⟨fun h => h.1 hlink, Stays.refl fs⟩
  · rw [if_neg hlink]
    simp only [FilePath.parent, List.append_eq_nil_iff, List.cons_ne_nil, and_false, if_false, List.dropLast_concat]
    obtain ⟨hadds, hmade⟩ := makeDirs_made hbase (hq.along (List.prefix_append d [name]))
    cases hmake : makeDirs ⟨instanceRoot, d⟩ fs with
    | error e fs₁ =>
      rw [left_error hmake] at hadds
      rw [bind_error hmake]
      refine .inr ⟨?_, hadds.stays⟩
      rintro ⟨-, _, heq, -⟩
      cases heq
    | ok _ fs₁ =>
      rw [left_ok hmake] at hadds
      rw [bind_ok hmake]
      obtain ⟨real, hlocate, hdir, hnew, hexists⟩ := (hmade fs₁ hmake).free hname.2.2.1 hlink
      have hhere := @replaceHere_spec fs₁ instanceRoot d real name (FilePath.join newRoot (PurePath.name (d ++ [name])))
        (hadds.stays.dir _ hbase) hname hlocate hdir hexists fun hthere => by
          rcases hnew with rfl | hnone
          · exact hlink
          · exact absurd hnone (hexists.1 hthere)
      rcases hhere with ⟨hstale, hchanges⟩ | ⟨hnot, hsame⟩
      · exact .inl ⟨⟨hlink, fs₁, rfl, hstale⟩, hlink, hadds.changes hchanges⟩
      · refine .inr ⟨?_, ?_⟩
        · rintro ⟨-, fs₂, heq, hstale⟩
          cases heq
          exact hnot hstale
        · show fs.Stays (left (replaceHere _ _) fs₁)
          rw [hsame]
          exact hadds.stays

theorem removeOne_writer : Writer instanceRoot (removeOne instanceRoot) (Removes instanceRoot) := by
  intro fs q hbase hq hne
  obtain ⟨d, name, rfl⟩ := (List.eq_nil_or_concat' q).resolve_left hne
  have hname : PurePath.IsName name := hq name (by simp)
  unfold Removes removeOne
  rw [FilePath.join_name hq, left, get_bind]
  by_cases hlink : fs.isSymlink ⟨instanceRoot, d ++ [name]⟩ = true
  · rw [if_pos hlink]
    exact .inr ⟨fun h => h.1 hlink, Stays.refl fs⟩
  · rw [if_neg hlink, get_bind]
    by_cases hexists : fs.pathExists ⟨instanceRoot, d ++ [name]⟩ = true
    · rw [if_pos hexists]
      obtain ⟨real, hlocate, hsome⟩ := pathExists_eq_true_iff.1 hexists
      obtain ⟨real', hparent, hdir⟩ := locate_init hname.2.2.1 hlocate
      have hlinks : ∀ target, fs.lookup (real' ++ [name]) ≠ some (.link target) := fun target htarget =>
        hlink ((isSymlink_iff hname.2.2.1).2 ⟨real', target, hparent, htarget⟩)
      have hlast := locate_snoc hname.2.2.1 hdir hlinks hparent
      rw [hlocate, last] at hlast
      split at hlast
      · cases hlast
      · cases hlast
        cases hentry : fs.lookup (real' ++ [name]) with
        | none => exact absurd hentry hsome
        | some n =>
          cases n with
          | link target => exact absurd hentry (hlinks target)
          | dir =>
            have hraise : unlink ⟨instanceRoot, d ++ [name]⟩ fs = .error .isADirectory fs := by
              unfold unlink
              rw [get_bind, entry_snoc hdir hparent]
              simp only [hentry, or_true, if_true]
              rfl
            rw [bind_error hraise]
            refine .inr ⟨fun h => ?_, Stays.refl fs⟩
            have hfile := h.2
            unfold isFile stat at hfile
            simp [hlocate, hentry] at hfile
          | file f =>
            have hopen : fs.openFile ⟨instanceRoot, d ++ [name]⟩ = .ok (real' ++ [name], f) :=
              openFile_eq_ok_iff.2 ⟨hlocate, fileAt_eq_some_iff.2 hentry⟩
            obtain ⟨fs', hunlink, hputs⟩ := unlink_file hname.2.2.1 hlink hopen
            rw [bind_ok hunlink]
            refine .inl ⟨⟨hlink, ?_⟩, hlink, ?_⟩
            · unfold isFile stat
              simp only [hlocate, hentry]
            · refine changes_of_puts (real_of_openFile hbase hopen) hputs (by rw [hentry]; simp) ?_
              show fs'.fileAt _ ≠ _
              rw [FileSystem.fileAt, hputs, if_pos rfl, file_of_openFile hopen]
              simp
    · rw [if_neg hexists]
      refine .inr ⟨fun h => hexists ?_, Stays.refl fs⟩
      have hfile := h.2
      unfold isFile at hfile
      unfold pathExists
      split at hfile
      · next f hstat => rw [hstat]; rfl
      · cases hfile

end

/-! ### The merge tier -/

/-- The new version of an instance's file is taken, or what `git` makes of both is another content. -/
def Due (git : GitMergeFile) (fs : FileSystem) (oldFile newFile instanceFile : FilePath) : Prop :=
  ∃ r g real f base, fs.openFile newFile = .ok (r, g) ∧ g.readable = true ∧
    fs.openFile instanceFile = .ok (real, f) ∧ f.readable = true ∧ f.writable = true ∧
    readBase (if fs.pathExists oldFile = true then some oldFile else none) fs = .ok base fs ∧
    g.content ≠ base ∧ f.content ≠ g.content ∧
    (fs.pathExists oldFile = true ∧ f.content = base ∨ ¬ (fs.pathExists oldFile = true ∧ f.content = base) ∧
      (binary f.content || binary base || binary g.content) = false ∧
      ∃ content, (git f.content base g.content).1 = some content ∧ content ≠ f.content)

/-- Its directories made, a missing file is copied. -/
def Creates (fs : FileSystem) (newFile instanceFile : FilePath) : Prop :=
  ∃ fs', makeDirs instanceFile.parent fs = .ok () fs' ∧ ∃ r g, fs'.openFile newFile = .ok (r, g) ∧ g.readable = true

/-- Whether `apply_merge` comes to write a path. -/
def MergeWrites (git : GitMergeFile) (oldRoot newRoot instanceRoot : PurePath) (fs : FileSystem) (path : String) : Prop :=
  fs.pathExists (FilePath.join newRoot path) = true ∧ ¬ fs.isSymlink (FilePath.join instanceRoot path) = true ∧
    if fs.pathExists (FilePath.join instanceRoot path) = true then
      Due git fs (FilePath.join oldRoot path) (FilePath.join newRoot path) (FilePath.join instanceRoot path)
    else Creates fs (FilePath.join newRoot path) (FilePath.join instanceRoot path)

section

variable {fs fs' : FileSystem} {oldRoot newRoot instanceRoot q d real r : PurePath} {name : String}
  {oldFile src dst : FilePath} {base : Option FilePath} {baseContent : List UInt8} {f g : File} {git : GitMergeFile}

theorem create_left (hbase : fs.lookup instanceRoot = some .dir) (hq : PurePath.Normal (d ++ [name]))
    (hlink : ¬ fs.isSymlink ⟨instanceRoot, d ++ [name]⟩ = true) (hexists : ¬ fs.pathExists ⟨instanceRoot, d ++ [name]⟩ = true) :
    (Creates fs src ⟨instanceRoot, d ++ [name]⟩ ∧
      fs.Changes ⟨instanceRoot, d ++ [name]⟩ (left (create src ⟨instanceRoot, d ++ [name]⟩) fs)) ∨
      (¬ Creates fs src ⟨instanceRoot, d ++ [name]⟩ ∧ fs.Stays (left (create src ⟨instanceRoot, d ++ [name]⟩) fs)) := by
  have hname : PurePath.IsName name := hq name (by simp)
  have hparent : FilePath.parent ⟨instanceRoot, d ++ [name]⟩ = ⟨instanceRoot, d⟩ := by simp [FilePath.parent]
  unfold Creates create
  rw [hparent, left]
  obtain ⟨hadds, hmade⟩ := makeDirs_made hbase (hq.along (List.prefix_append d [name]))
  cases hmake : makeDirs ⟨instanceRoot, d⟩ fs with
  | error e fs₁ =>
    rw [left_error hmake] at hadds
    rw [bind_error hmake]
    refine .inr ⟨?_, hadds.stays⟩
    rintro ⟨_, heq, -⟩
    cases heq
  | ok _ fs₁ =>
    rw [left_ok hmake] at hadds
    obtain ⟨real, hlocate, hdir, hfree, hthere⟩ := (hmade fs₁ hmake).free hname.2.2.1 hlink
    have hnone : fs₁.lookup (real ++ [name]) = none := by
      rcases hfree with rfl | hnone
      · by_contra hsome
        exact hexists (hthere.2 hsome)
      · exact hnone
    rw [bind_ok hmake]
    rcases opened_or fs₁ src with ⟨r, g, hsrc, hg, -⟩ | ⟨hnot, e, hraise⟩
    · obtain ⟨fs', hcopy, hputs⟩ := copy2_new hsrc hg hname hlocate hdir hnone
      rw [hcopy]
      exact .inl ⟨⟨fs₁, rfl, r, g, hsrc, hg⟩,
        hadds.changes (changes_new (hadds.stays.dir _ hbase) hname hlocate hdir hnone hputs)⟩
    · obtain ⟨e, hcopy⟩ := copy2_raises hraise ⟨instanceRoot, d ++ [name]⟩
      rw [hcopy]
      refine .inr ⟨?_, hadds.stays⟩
      rintro ⟨_, heq, hsrc⟩
      cases heq
      exact hnot hsrc

/-- What is put over a file that a path opens makes no link of the path. -/
theorem not_isSymlink_of_puts (hname : name ≠ "..") (hdst : fs.openFile ⟨instanceRoot, d ++ [name]⟩ = .ok (real, f))
    (hputs : fs.Puts real (some (.file g)) fs') (hlink : ¬ fs.isSymlink ⟨instanceRoot, d ++ [name]⟩ = true) :
    ¬ fs'.isSymlink ⟨instanceRoot, d ++ [name]⟩ = true := by
  obtain ⟨hlocate, hlookup⟩ := locate_of_openFile hdst
  obtain ⟨real', hparent, -⟩ := locate_init hname hlocate
  have hplace : fs.fileAt real ≠ none := by
    rw [file_of_openFile hdst]
    simp
  rw [isSymlink_iff hname] at hlink ⊢
  rintro ⟨real'', target, hparent', htarget⟩
  rw [(grows_of_puts hputs (.inr hplace)).locate hparent] at hparent'
  cases hparent'
  rw [hputs] at htarget
  split at htarget
  · cases htarget
  · exact hlink ⟨real', target, hparent, htarget⟩

theorem takeNew_changes (hbase : fs.lookup instanceRoot = some .dir) (hname : name ≠ "..")
    (hlink : ¬ fs.isSymlink ⟨instanceRoot, d ++ [name]⟩ = true) (hsrc : fs.openFile src = .ok (r, g)) (hg : g.readable = true)
    (hdst : fs.openFile ⟨instanceRoot, d ++ [name]⟩ = .ok (real, f)) (hwrite : f.writable = true) (hne : f.content ≠ g.content) :
    ∃ fs', takeNew src ⟨instanceRoot, d ++ [name]⟩ fs = .ok () fs' ∧ fs.Changes ⟨instanceRoot, d ++ [name]⟩ fs' := by
  obtain ⟨fs₁, hcopy, hputs, hsrc₁, hdst₁⟩ := copyfile_over hsrc hg hdst hwrite hne
  unfold takeNew
  rw [bind_ok hcopy, bind_ok (isExecutable_ok hsrc₁), bind_ok (isExecutable_ok hdst₁)]
  split
  · obtain ⟨fs₂, hsync, hputs₂⟩ := syncExecutableBit_over hsrc₁ hdst₁ (not_isSymlink_of_puts hname hdst hputs hlink)
    refine ⟨fs₂, hsync, changes_over hbase hdst (hputs.trans hputs₂) fun heq => hne ?_⟩
    have hcontent := congrArg File.content heq
    exact hcontent.symm
  · refine ⟨fs₁, rfl, changes_over hbase hdst hputs fun heq => hne ?_⟩
    have hcontent := congrArg File.content heq
    exact hcontent.symm

theorem stays_set (h : fs.fileAt real = some f) : fs.Stays (fs.set real f) := by
  have hputs := puts_set (by rw [h]; simp) f
  constructor
  · intro r
    by_cases heq : r = real
    · rw [heq, hputs.fileAt, h]
    · exact hputs.fileAt_ne heq
  · intro r hdir
    rw [hputs, if_neg, hdir]
    rintro rfl
    rw [FileSystem.fileAt, hdir] at h
    cases h

/-- What `git` writes, over a file that may be written. -/
theorem runGit_left (hours : fs.openFile dst = .ok (real, f)) (hf : f.readable = true)
    (hbase : readBase base fs = .ok baseContent fs) (hnew : readBytes src fs = .ok g.content fs) :
    ∃ status, runGit git dst base src fs = .ok status (match (git f.content baseContent g.content).1 with
      | some content => if f.writable = true then fs.set real { f with content } else fs
      | none => fs) := by
  unfold runGit
  cases hresult : (git f.content baseContent g.content).1 with
  | none =>
    refine ⟨(git f.content baseContent g.content).2, tryCatch_ok ?_⟩
    rw [bind_ok (readBytes_ok hours hf), bind_ok hbase, bind_ok hnew]
    simp only [hresult]
    rfl
  | some content =>
    cases hwrite : f.writable with
    | true =>
      refine ⟨(git f.content baseContent g.content).2, tryCatch_ok ?_⟩
      rw [bind_ok (readBytes_ok hours hf), bind_ok hbase, bind_ok hnew]
      simp only [hresult]
      rw [bind_ok (writeBytes_ok hours hwrite content)]
      rfl
    | false =>
      refine ⟨255, @tryCatch_error ℤ fs fs _ .permission _ ?_⟩
      rw [bind_ok (readBytes_ok hours hf), bind_ok hbase, bind_ok hnew]
      simp only [hresult]
      exact bind_error (writeBytes_denied hours hwrite content)

/-- What `merge_file` leaves, whether it returns or not. -/
theorem mergeFile_left {status : ℤ} (hours : readBytes dst fs = .ok f.content fs) (hbase : readBase base fs = .ok baseContent fs)
    (hnew : readBytes src fs = .ok g.content fs) (hrun : runGit git dst base src fs = .ok status fs') :
    (binary f.content || binary baseContent || binary g.content) = true ∧ mergeFile git dst base src fs = .ok true fs ∨
      (binary f.content || binary baseContent || binary g.content) = false ∧
        ((∃ e, mergeFile git dst base src fs = .error e fs') ∨ ∃ conflicted, mergeFile git dst base src fs = .ok conflicted fs') := by
  unfold mergeFile
  rw [bind_ok (isBinary_ok hours), bind_ok (baseBinary_ok hbase), bind_ok (isBinary_ok hnew)]
  cases hbinary : binary f.content || binary baseContent || binary g.content with
  | true => exact .inl ⟨rfl, rfl⟩
  | false =>
    refine .inr ⟨rfl, ?_⟩
    rw [if_neg Bool.false_ne_true, bind_ok hrun]
    split
    · exact .inl ⟨_, rfl⟩
    · exact .inr ⟨_, rfl⟩

theorem mergeChanged_left {status : ℤ} {before : List UInt8} {binaryInput : Bool}
    (hours : readBytes dst fs = .ok f.content fs) (hbase : readBase base fs = .ok baseContent fs)
    (hnew : readBytes src fs = .ok g.content fs) (hrun : runGit git dst base src fs = .ok status fs') :
    left (mergeChanged git dst base src before binaryInput) fs =
      if (binary f.content || binary baseContent || binary g.content) = true then fs else fs' := by
  unfold mergeChanged
  rw [left]
  rcases mergeFile_left hours hbase hnew hrun with ⟨hbinary, hmerge⟩ | ⟨hbinary, ⟨e, hmerge⟩ | ⟨conflicted, hmerge⟩⟩
  · rw [bind_ok hmerge, if_pos hbinary]
    rfl
  · rw [bind_error hmerge, if_neg (by rw [hbinary]; exact Bool.false_ne_true)]
  · rw [bind_ok hmerge, hbinary]
    cases conflicted with
    | true => rfl
    | false =>
      rcases @readBytes_total fs' dst with ⟨content, hread⟩ | ⟨e, hread⟩
      · simp only [Bool.false_eq_true, if_false]
        rw [bind_ok hread]
        by_cases hchanged : content ≠ before
        · rw [if_pos hchanged]
          rfl
        · rw [if_neg hchanged]
          rfl
      · simp only [Bool.false_eq_true, if_false]
        rw [bind_error hread]

/-- The new file is taken, where the one of the instance may be written. -/
theorem takeNew_settles (hbase : fs.lookup instanceRoot = some .dir) (hname : name ≠ "..")
    (hlink : ¬ fs.isSymlink ⟨instanceRoot, d ++ [name]⟩ = true) (hsrc : fs.openFile src = .ok (r, g)) (hg : g.readable = true)
    (hdst : fs.openFile ⟨instanceRoot, d ++ [name]⟩ = .ok (real, f)) (hne : f.content ≠ g.content) (outcome : Option Outcome) :
    f.writable = true ∧ fs.Changes ⟨instanceRoot, d ++ [name]⟩
        (left (do takeNew src ⟨instanceRoot, d ++ [name]⟩; pure outcome) fs) ∨
      ¬ f.writable = true ∧ fs.Stays (left (do takeNew src ⟨instanceRoot, d ++ [name]⟩; pure outcome) fs) := by
  unfold left
  cases hwrite : f.writable with
  | true =>
    obtain ⟨fs', htake, hchanges⟩ := takeNew_changes hbase hname hlink hsrc hg hdst hwrite hne
    rw [bind_ok htake]
    exact .inl ⟨rfl, hchanges⟩
  | false =>
    obtain ⟨e, hcopy⟩ := copyfile_denied hdst hwrite src
    have htake : takeNew src ⟨instanceRoot, d ++ [name]⟩ fs = .error e fs := bind_error hcopy
    rw [bind_error htake]
    exact .inr ⟨Bool.false_ne_true, Stays.refl fs⟩

/-- What `git` writes is another text than the instance had, or the file stays. -/
theorem stays_or_changes (hbase : fs.lookup instanceRoot = some .dir)
    (hdst : fs.openFile ⟨instanceRoot, d ++ [name]⟩ = .ok (real, f)) (content : List UInt8) :
    f.writable = true ∧ content ≠ f.content ∧
        fs.Changes ⟨instanceRoot, d ++ [name]⟩ (if f.writable = true then fs.set real { f with content } else fs) ∨
      ¬ (f.writable = true ∧ content ≠ f.content) ∧
        fs.Stays (if f.writable = true then fs.set real { f with content } else fs) := by
  by_cases hwrite : f.writable = true
  · rw [if_pos hwrite]
    by_cases hsame : content = f.content
    · subst hsame
      exact .inr ⟨fun h => h.2 rfl, stays_set (file_of_openFile hdst)⟩
    · have hputs := puts_set (by rw [file_of_openFile hdst]; simp) { f with content }
      exact .inl ⟨hwrite, hsame, changes_over hbase hdst hputs fun heq => hsame (congrArg File.content heq)⟩
  · rw [if_neg hwrite]
    exact .inr ⟨fun h => hwrite h.1, Stays.refl fs⟩

variable (git) in
theorem mergeChanged_settles (binaryInput : Bool) (hbase : fs.lookup instanceRoot = some .dir)
    (hdst : fs.openFile ⟨instanceRoot, d ++ [name]⟩ = .ok (real, f)) (hf : f.readable = true)
    (hreadBase : readBase base fs = .ok baseContent fs) (hreadNew : readBytes src fs = .ok g.content fs) :
    (f.writable = true ∧ (binary f.content || binary baseContent || binary g.content) = false ∧
        ∃ content, (git f.content baseContent g.content).1 = some content ∧ content ≠ f.content) ∧
      fs.Changes ⟨instanceRoot, d ++ [name]⟩
        (left (mergeChanged git ⟨instanceRoot, d ++ [name]⟩ base src f.content binaryInput) fs) ∨
    ¬ (f.writable = true ∧ (binary f.content || binary baseContent || binary g.content) = false ∧
        ∃ content, (git f.content baseContent g.content).1 = some content ∧ content ≠ f.content) ∧
      fs.Stays (left (mergeChanged git ⟨instanceRoot, d ++ [name]⟩ base src f.content binaryInput) fs) := by
  obtain ⟨status, hgit⟩ := runGit_left hdst hf hreadBase hreadNew
  rw [mergeChanged_left (readBytes_ok hdst hf) hreadBase hreadNew hgit]
  cases hbinary : binary f.content || binary baseContent || binary g.content with
  | true =>
    rw [if_pos rfl]
    refine .inr ⟨?_, Stays.refl fs⟩
    rintro ⟨-, hfalse, -⟩
    cases hfalse
  | false =>
    rw [if_neg Bool.false_ne_true]
    cases hresult : (git f.content baseContent g.content).1 with
    | none =>
      refine .inr ⟨?_, Stays.refl fs⟩
      rintro ⟨-, -, content, hsome, -⟩
      cases hsome
    | some content =>
      rcases stays_or_changes hbase hdst content with ⟨hwrite, hne, hchanges⟩ | ⟨hnot, hstays⟩
      · exact .inl ⟨⟨hwrite, rfl, content, rfl, hne⟩, hchanges⟩
      · refine .inr ⟨?_, hstays⟩
        rintro ⟨hwrite, -, content', hsome, hne⟩
        cases hsome
        exact hnot ⟨hwrite, hne⟩

/-- When all three can be read, the reason for a write is in their texts. -/
theorem due_iff (hsrc : fs.openFile src = .ok (r, g)) (hg : g.readable = true) (hdst : fs.openFile dst = .ok (real, f))
    (hf : f.readable = true)
    (hreadBase : readBase (if fs.pathExists oldFile = true then some oldFile else none) fs = .ok baseContent fs) :
    Due git fs oldFile src dst ↔ g.content ≠ baseContent ∧ f.writable = true ∧ f.content ≠ g.content ∧
      (fs.pathExists oldFile = true ∧ f.content = baseContent ∨
        ¬ (fs.pathExists oldFile = true ∧ f.content = baseContent) ∧
        (binary f.content || binary baseContent || binary g.content) = false ∧
        ∃ content, (git f.content baseContent g.content).1 = some content ∧ content ≠ f.content) := by
  constructor
  · rintro ⟨r', g', real', f', base', hsrc', -, hdst', -, hwrite, hbase', hdiffer, hbefore, hrest⟩
    rw [hsrc] at hsrc'
    rw [hdst] at hdst'
    rw [hreadBase] at hbase'
    cases hsrc'
    cases hdst'
    cases hbase'
    exact ⟨hdiffer, hwrite, hbefore, hrest⟩
  · rintro ⟨hdiffer, hwrite, hbefore, hrest⟩
    exact ⟨r, g, real, f, baseContent, hsrc, hg, hdst, hf, hwrite, hreadBase, hdiffer, hbefore, hrest⟩

variable (git) in
/-- The steps after the three texts have been read. -/
theorem mergeExisting_read (hsrc : fs.openFile src = .ok (r, g)) (hg : g.readable = true) (hdst : fs.openFile dst = .ok (real, f))
    (hf : f.readable = true)
    (hreadBase : readBase (if fs.pathExists oldFile = true then some oldFile else none) fs = .ok baseContent fs) :
    ∃ binaryInput, mergeExisting git oldFile src dst fs = (if g.content = baseContent then pure none
      else if f.content = g.content then pure none
      else if fs.pathExists oldFile = true ∧ f.content = baseContent then do
        takeNew src dst
        pure (some .merged)
      else mergeChanged git dst (if fs.pathExists oldFile = true then some oldFile else none) src f.content binaryInput :
        FileM (Option Outcome)) fs := by
  obtain ⟨oursBinary, hoursBinary⟩ := @isBinary_total fs dst
  obtain ⟨oldBinary, holdBinary⟩ := @isBinary_total fs oldFile
  obtain ⟨newBinary, hnewBinary⟩ := @isBinary_total fs src
  refine ⟨oursBinary || oldBinary || newBinary, ?_⟩
  unfold mergeExisting
  rw [bind_ok hoursBinary, bind_ok holdBinary, bind_ok hnewBinary, get_bind, bind_ok hreadBase, bind_ok (readBytes_ok hsrc hg)]
  split
  · rfl
  · rw [bind_ok (readBytes_ok hdst hf)]

/-- Where one of the three cannot be read, nothing is written. -/
theorem mergeExisting_unread
    (h : (∃ e, readBase (if fs.pathExists oldFile = true then some oldFile else none) fs = .error e fs) ∨
      (∃ e, readBytes src fs = .error e fs) ∨ ∃ e, readBytes dst fs = .error e fs) :
    left (mergeExisting git oldFile src dst) fs = fs := by
  obtain ⟨oursBinary, hoursBinary⟩ := @isBinary_total fs dst
  obtain ⟨oldBinary, holdBinary⟩ := @isBinary_total fs oldFile
  obtain ⟨newBinary, hnewBinary⟩ := @isBinary_total fs src
  unfold mergeExisting left
  rw [bind_ok hoursBinary, bind_ok holdBinary, bind_ok hnewBinary, get_bind]
  rcases @TemplateSync.readBase_total fs (if fs.pathExists oldFile = true then some oldFile else none) with
    ⟨baseContent, hreadBase⟩ | ⟨e, hraise⟩
  · rw [bind_ok hreadBase]
    rcases opened_or fs src with ⟨r, g, hsrc, hg, hreadNew⟩ | ⟨-, e, hraise⟩
    · rw [bind_ok hreadNew]
      by_cases hdiffer : g.content = baseContent
      · rw [if_pos hdiffer]
        rfl
      · rw [if_neg hdiffer]
        rcases opened_or fs dst with ⟨real, f, hdst, hf, hreadOurs⟩ | ⟨-, e, hraise⟩
        · rcases h with ⟨e, h⟩ | ⟨e, h⟩ | ⟨e, h⟩
          · rw [hreadBase] at h
            cases h
          · rw [hreadNew] at h
            cases h
          · rw [hreadOurs] at h
            cases h
        · rw [bind_error hraise]
    · rw [bind_error hraise]
  · rw [bind_error hraise]

theorem mergeExisting_left (hbase : fs.lookup instanceRoot = some .dir) (hname : name ≠ "..")
    (hlink : ¬ fs.isSymlink ⟨instanceRoot, d ++ [name]⟩ = true) :
    (Due git fs oldFile src ⟨instanceRoot, d ++ [name]⟩ ∧
      fs.Changes ⟨instanceRoot, d ++ [name]⟩ (left (mergeExisting git oldFile src ⟨instanceRoot, d ++ [name]⟩) fs)) ∨
      (¬ Due git fs oldFile src ⟨instanceRoot, d ++ [name]⟩ ∧
        fs.Stays (left (mergeExisting git oldFile src ⟨instanceRoot, d ++ [name]⟩) fs)) := by
  rcases @TemplateSync.readBase_total fs (if fs.pathExists oldFile = true then some oldFile else none) with
    ⟨baseContent, hreadBase⟩ | ⟨e, hraise⟩
  · rcases opened_or fs src with ⟨r, g, hsrc, hg, hreadNew⟩ | ⟨hnot, e, hraise⟩
    · rcases opened_or fs ⟨instanceRoot, d ++ [name]⟩ with ⟨real, f, hdst, hf, hreadOurs⟩ | ⟨hnot, e, hraise⟩
      · obtain ⟨binaryInput, hrun⟩ := mergeExisting_read git hsrc hg hdst hf hreadBase
        rw [due_iff hsrc hg hdst hf hreadBase, left, hrun]
        by_cases hdiffer : g.content = baseContent
        · rw [if_pos hdiffer]
          exact .inr ⟨fun h => h.1 hdiffer, Stays.refl fs⟩
        · rw [if_neg hdiffer]
          by_cases hbefore : f.content = g.content
          · rw [if_pos hbefore]
            exact .inr ⟨fun h => h.2.2.1 hbefore, Stays.refl fs⟩
          · rw [if_neg hbefore]
            by_cases htaken : fs.pathExists oldFile = true ∧ f.content = baseContent
            · rw [if_pos htaken]
              rcases takeNew_settles hbase hname hlink hsrc hg hdst hbefore (some .merged) with ⟨hwrite, hchanges⟩ | ⟨hnot, hstays⟩
              · exact .inl ⟨⟨hdiffer, hwrite, hbefore, .inl htaken⟩, hchanges⟩
              · exact .inr ⟨fun h => hnot h.2.1, hstays⟩
            · rw [if_neg htaken]
              rcases mergeChanged_settles git binaryInput hbase hdst hf hreadBase hreadNew with
                ⟨⟨hwrite, hgit⟩, hchanges⟩ | ⟨hnot, hstays⟩
              · exact .inl ⟨⟨hdiffer, hwrite, hbefore, .inr ⟨htaken, hgit⟩⟩, hchanges⟩
              · exact .inr ⟨fun h => hnot ⟨h.2.1, (h.2.2.2.resolve_left htaken).2⟩, hstays⟩
      · rw [mergeExisting_unread (.inr (.inr ⟨e, hraise⟩))]
        refine .inr ⟨?_, Stays.refl fs⟩
        rintro ⟨r', g', real', f', base', -, -, hdst, hf, -⟩
        exact hnot ⟨real', f', hdst, hf⟩
    · rw [mergeExisting_unread (.inr (.inl ⟨e, hraise⟩))]
      refine .inr ⟨?_, Stays.refl fs⟩
      rintro ⟨r', g', real', f', base', hsrc, hg, -⟩
      exact hnot ⟨r', g', hsrc, hg⟩
  · rw [mergeExisting_unread (.inl ⟨e, hraise⟩)]
    refine .inr ⟨?_, Stays.refl fs⟩
    rintro ⟨r', g', real', f', base', -, -, -, -, -, hbase', -⟩
    rw [hraise] at hbase'
    cases hbase'

theorem mergeOne_writer : Writer instanceRoot (mergeOne git oldRoot newRoot instanceRoot)
    (MergeWrites git oldRoot newRoot instanceRoot) := by
  intro fs q hbase hq hne
  obtain ⟨d, name, rfl⟩ := (List.eq_nil_or_concat' q).resolve_left hne
  have hname : PurePath.IsName name := hq name (by simp)
  unfold MergeWrites mergeOne
  rw [FilePath.join_name hq instanceRoot, left, get_bind]
  by_cases hnew : fs.pathExists (FilePath.join newRoot (PurePath.name (d ++ [name]))) = true
  · rw [if_neg (not_not.2 hnew)]
    by_cases hlink : fs.isSymlink ⟨instanceRoot, d ++ [name]⟩ = true
    · rw [if_pos hlink]
      exact .inr ⟨fun h => h.2.1 hlink, Stays.refl fs⟩
    · rw [if_neg hlink]
      by_cases hexists : fs.pathExists ⟨instanceRoot, d ++ [name]⟩ = true
      · rw [if_neg (not_not.2 hexists), if_pos hexists]
        rcases @mergeExisting_left fs instanceRoot d name (FilePath.join oldRoot (PurePath.name (d ++ [name])))
          (FilePath.join newRoot (PurePath.name (d ++ [name]))) git hbase hname.2.2.1 hlink with
          ⟨hdue, hchanges⟩ | ⟨hnot, hstays⟩
        · exact .inl ⟨⟨hnew, hlink, hdue⟩, hlink, hchanges⟩
        · exact .inr ⟨fun h => hnot h.2.2, hstays⟩
      · rw [if_pos hexists, if_neg hexists]
        have hleft : left (create (FilePath.join newRoot (PurePath.name (d ++ [name]))) ⟨instanceRoot, d ++ [name]⟩ >>=
            fun _ => pure (some Outcome.merged)) fs =
            left (create (FilePath.join newRoot (PurePath.name (d ++ [name]))) ⟨instanceRoot, d ++ [name]⟩) fs :=
          left_bind_pure fun _ _ => rfl
        rw [left] at hleft
        rw [hleft]
        rcases @create_left fs instanceRoot d name (FilePath.join newRoot (PurePath.name (d ++ [name]))) hbase hq hlink hexists with
          ⟨hcreates, hchanges⟩ | ⟨hnot, hstays⟩
        · exact .inl ⟨⟨hnew, hlink, hcreates⟩, hlink, hchanges⟩
        · exact .inr ⟨fun h => hnot h.2.2, hstays⟩
  · rw [if_pos hnew]
    exact .inr ⟨fun h => hnew h.1, Stays.refl fs⟩

end

/-! ### Whole runs -/

/-- The two loops of `apply_replace`; the second follows a first that returns. -/
def replacePasses (oldRoot newRoot instanceRoot : PurePath) (paths : Finset String) (fs : FileSystem) : List Pass × List Pass :=
  let oldPaths := paths.filter fun path => fs.pathExists (FilePath.join oldRoot path)
  let newPaths := paths.filter fun path => fs.pathExists (FilePath.join newRoot path)
  (passes (replaceOne newRoot instanceRoot) newPaths.sort fs,
    match collect (replaceOne newRoot instanceRoot) newPaths.sort fs with
    | .ok _ fs' => passes (removeOne instanceRoot) (oldPaths \ newPaths).sort fs'
    | .error _ _ => [])

def mergePasses (git : GitMergeFile) (oldRoot newRoot instanceRoot : PurePath) (paths : Finset String) (fs : FileSystem) :
    List Pass := passes (mergeOne git oldRoot newRoot instanceRoot) paths.sort fs

/-- What a loop comes to write is not behind a link. -/
def Unlinked (instanceRoot : PurePath) (writes : FileSystem → String → Prop) (run : List Pass) : Prop :=
  ∀ pass ∈ run, writes pass.before pass.path → ¬ pass.before.Linked (FilePath.join instanceRoot pass.path).parent

section

variable {α : Type} {step : String → FileM α} {fs : FileSystem} {oldRoot newRoot instanceRoot r : PurePath} {paths : Finset String}
  {git : GitMergeFile}

/-- The file systems between two loops of which the second may not come. -/
theorem changed_cases {x : FileM α} {β : Type} {k : α → FileM β} (h : (left (x >>= k) fs).fileAt r ≠ fs.fileAt r) :
    (left x fs).fileAt r ≠ fs.fileAt r ∨ ∃ a fs', x fs = .ok a fs' ∧ (left (k a) fs').fileAt r ≠ fs'.fileAt r := by
  cases hx : x fs with
  | error e fs' =>
    rw [left_bind_error hx] at h
    rw [left_error hx]
    exact .inl h
  | ok a fs' =>
    rw [left_bind_ok hx] at h
    rw [left_ok hx]
    by_cases heq : fs'.fileAt r = fs.fileAt r
    · rw [← heq] at h
      exact .inr ⟨a, fs', rfl, h⟩
    · exact .inl heq

theorem mem_passes_cons {path : String} {rest : List String} {a : α} {fs' : FileSystem} {pass : Pass}
    (hstep : step path fs = .ok a fs') (h : pass ∈ passes step rest fs') : pass ∈ passes step (path :: rest) fs := by
  rw [passes, hstep]
  exact List.mem_cons_of_mem _ h

theorem head_mem_passes (path : String) (rest : List String) : ⟨path, fs, left (step path) fs⟩ ∈ passes step (path :: rest) fs := by
  rw [passes]
  cases hstep : step path fs with
  | ok a fs' =>
    rw [left_ok hstep]
    exact List.mem_cons_self
  | error e fs' =>
    rw [left_error hstep]
    exact List.mem_cons_self

theorem passes_singleton (path : String) : passes step [path] fs = [⟨path, fs, left (step path) fs⟩] := by
  rw [passes]
  cases hstep : step path fs with
  | ok a fs' =>
    rw [left_ok hstep]
    rfl
  | error e fs' => rw [left_error hstep]

/-- A loop changes nothing but in its passes. -/
theorem collect_passes {step : String → FileM Bool} {paths : List String}
    (h : (left (collect step paths) fs).fileAt r ≠ fs.fileAt r) :
    ∃ pass ∈ passes step paths fs, pass.after.fileAt r ≠ pass.before.fileAt r := by
  induction paths generalizing fs with
  | nil => exact absurd rfl h
  | cons path rest ih =>
    rw [collect] at h
    rcases changed_cases h with hhead | ⟨changed, fs', hstep, hrest⟩
    · exact ⟨_, head_mem_passes path rest, hhead⟩
    · rw [left_bind_pure fun _ _ => rfl] at hrest
      obtain ⟨pass, hpass, hchanged⟩ := ih hrest
      exact ⟨pass, mem_passes_cons hstep hpass, hchanged⟩

theorem outcomes_passes {step : String → FileM (Option Outcome)} {paths : List String}
    (h : (left (outcomes step paths) fs).fileAt r ≠ fs.fileAt r) :
    ∃ pass ∈ passes step paths fs, pass.after.fileAt r ≠ pass.before.fileAt r := by
  induction paths generalizing fs with
  | nil => exact absurd rfl h
  | cons path rest ih =>
    rw [outcomes] at h
    rcases changed_cases h with hhead | ⟨changed, fs', hstep, hrest⟩
    · exact ⟨_, head_mem_passes path rest, hhead⟩
    · rw [left_bind_pure fun _ _ => rfl] at hrest
      obtain ⟨pass, hpass, hchanged⟩ := ih hrest
      exact ⟨pass, mem_passes_cons hstep hpass, hchanged⟩

/-- What `apply_replace` changes, whether it returns or not, it changes in a pass. -/
theorem applyReplace_passes (h : (left (applyReplace oldRoot newRoot instanceRoot paths) fs).fileAt r ≠ fs.fileAt r) :
    ∃ pass ∈ (replacePasses oldRoot newRoot instanceRoot paths fs).1 ++ (replacePasses oldRoot newRoot instanceRoot paths fs).2,
      pass.after.fileAt r ≠ pass.before.fileAt r := by
  unfold applyReplace at h
  rw [left, get_bind] at h
  rcases changed_cases h with hfirst | ⟨updated, fs', hfirst, hsecond⟩
  · obtain ⟨pass, hpass, hchanged⟩ := collect_passes hfirst
    exact ⟨pass, List.mem_append_left _ hpass, hchanged⟩
  · rw [left_bind_pure fun _ _ => rfl] at hsecond
    obtain ⟨pass, hpass, hchanged⟩ := collect_passes hsecond
    refine ⟨pass, List.mem_append_right _ ?_, hchanged⟩
    unfold replacePasses
    simp only [hfirst]
    exact hpass

theorem applyMerge_passes (h : (left (applyMerge git oldRoot newRoot instanceRoot paths) fs).fileAt r ≠ fs.fileAt r) :
    ∃ pass ∈ mergePasses git oldRoot newRoot instanceRoot paths fs, pass.after.fileAt r ≠ pass.before.fileAt r := by
  unfold applyMerge at h
  rw [left_bind_pure fun _ _ => rfl] at h
  exact outcomes_passes h

theorem canonical_sort (hpaths : ∀ p ∈ paths, ∃ q : PurePath, p = q.name ∧ q.Normal ∧ q ≠ []) {chosen : Finset String}
    (hsub : chosen ⊆ paths) : ∀ p ∈ chosen.sort, ∃ q : PurePath, p = q.name ∧ q.Normal ∧ q ≠ [] := fun p hp =>
  hpaths p (hsub ((Finset.mem_sort _).1 hp))

theorem sealed_append {run run' : List Pass} :
    Sealed instanceRoot (run ++ run') ↔ Sealed instanceRoot run ∧ Sealed instanceRoot run' := by
  exact List.forall_mem_append

theorem Writer.collect_dir {step : String → FileM Bool} {writes : FileSystem → String → Prop} {paths : List String}
    (h : Writer instanceRoot step writes) (hpaths : ∀ p ∈ paths, ∃ q : PurePath, p = q.name ∧ q.Normal ∧ q ≠ [])
    (hdir : fs.lookup instanceRoot = some .dir) : (left (collect step paths) fs).lookup instanceRoot = some .dir := by
  induction paths generalizing fs with
  | nil => exact hdir
  | cons path rest ih =>
    obtain ⟨q, hname, hq, hne⟩ := hpaths path List.mem_cons_self
    have hdir' := h.dir hdir hq hne
    rw [← hname] at hdir'
    rw [collect]
    cases hstep : step path fs with
    | error e fs' =>
      rw [left_error hstep] at hdir'
      rw [left_bind_error hstep]
      exact hdir'
    | ok changed fs' =>
      rw [left_ok hstep] at hdir'
      rw [left_bind_ok hstep, left_bind_pure fun _ _ => rfl]
      exact ih (fun p hp => hpaths p (List.mem_cons_of_mem _ hp)) hdir'

/-- Every write of both tiers is the instance's own, behind no link, just where no path that comes to be written has a link
among its directories. -/
theorem sealed_iff (git : GitMergeFile) (hinstance : fs.lookup instanceRoot = some .dir)
    (hpaths : ∀ p ∈ paths, ∃ q : PurePath, p = q.name ∧ q.Normal ∧ q ≠ []) :
    (Sealed instanceRoot ((replacePasses oldRoot newRoot instanceRoot paths fs).1 ++
        (replacePasses oldRoot newRoot instanceRoot paths fs).2) ↔
      Unlinked instanceRoot (Replaces newRoot instanceRoot) (replacePasses oldRoot newRoot instanceRoot paths fs).1 ∧
      Unlinked instanceRoot (Removes instanceRoot) (replacePasses oldRoot newRoot instanceRoot paths fs).2) ∧
    (Sealed instanceRoot (mergePasses git oldRoot newRoot instanceRoot paths fs) ↔
      Unlinked instanceRoot (MergeWrites git oldRoot newRoot instanceRoot)
        (mergePasses git oldRoot newRoot instanceRoot paths fs)) := by
  refine ⟨?_, mergeOne_writer.keeps_iff (canonical_sort hpaths (Finset.Subset.refl _)) hinstance⟩
  have hfirst : Writer instanceRoot (replaceOne newRoot instanceRoot) (Replaces newRoot instanceRoot) := replaceOne_writer
  have hsecond : Writer instanceRoot (removeOne instanceRoot) (Removes instanceRoot) := removeOne_writer
  rw [sealed_append]
  refine and_congr (hfirst.keeps_iff (canonical_sort hpaths (Finset.filter_subset _ _)) hinstance) ?_
  unfold replacePasses
  dsimp only
  have hdir := hfirst.collect_dir (canonical_sort hpaths (Finset.filter_subset
    (fun path => fs.pathExists (FilePath.join newRoot path) = true) _)) hinstance
  split
  · next fs' hloop =>
    rw [left_ok hloop] at hdir
    exact hsecond.keeps_iff (canonical_sort hpaths (Finset.sdiff_subset.trans (Finset.filter_subset _ _))) hdir
  · simp [Sealed, Unlinked]

end

theorem replacePasses_singleton {oldRoot newRoot instanceRoot : PurePath} {path : String} {fs : FileSystem}
    (hnew : fs.pathExists (FilePath.join newRoot path) = true) : replacePasses oldRoot newRoot instanceRoot {path} fs =
      ([⟨path, fs, left (replaceOne newRoot instanceRoot path) fs⟩], []) := by
  have hnone : ({path} : Finset String).filter (fun p => fs.pathExists (FilePath.join oldRoot p) = true) \ {path} = ∅ :=
    Finset.sdiff_eq_empty_iff_subset.2 (Finset.filter_subset _ _)
  unfold replacePasses
  simp only [Finset.filter_singleton, hnew, if_true] at hnone ⊢
  rw [hnone, Finset.sort_singleton, Finset.sort_empty, passes_singleton]
  congr 1
  split <;> rfl

theorem mergePasses_singleton {git : GitMergeFile} {oldRoot newRoot instanceRoot : PurePath} {path : String} {fs : FileSystem} :
    mergePasses git oldRoot newRoot instanceRoot {path} fs =
      [⟨path, fs, left (mergeOne git oldRoot newRoot instanceRoot path) fs⟩] := by
  rw [mergePasses, Finset.sort_singleton, passes_singleton]

theorem unlinked_moded {writes : FileSystem → String → Prop} (after : FileSystem) :
    Unlinked ["own"] writes [⟨"a", moded 0o755#12, after⟩] := by
  intro pass hpass _
  obtain rfl := List.mem_singleton.1 hpass
  rw [show FilePath.join ["own"] "a" = ⟨["own"], ["a"]⟩ by decide +kernel]
  exact (trees_moded _).instancePlain.not_linked (by simp [PurePath.Normal])

theorem sealed_moded : Sealed ["own"] ((replacePasses ["old"] ["new"] ["own"] {"a"} (moded 0o755#12)).1 ++
      (replacePasses ["old"] ["new"] ["own"] {"a"} (moded 0o755#12)).2) ∧
    Sealed ["own"] (mergePasses (fun _ _ _ => (none, 0)) ["old"] ["new"] ["own"] {"a"} (moded 0o755#12)) := by
  have hiff := @sealed_iff (moded 0o755#12) ["old"] ["new"] ["own"] {"a"} (fun _ _ _ => (none, 0))
    (trees_moded _).instancePlain.dir canonical_a
  refine ⟨hiff.1.2 ?_, hiff.2.2 ?_⟩
  · rw [replacePasses_singleton (by decide +kernel)]
    exact ⟨unlinked_moded _, by simp [Unlinked]⟩
  · rw [mergePasses_singleton]
    exact unlinked_moded _

/-- The instance has put its `docs` elsewhere; the new version has a file there. -/
def docsLinked : FileSystem :=
  (((roots.add ["new"] "docs" .dir).add ["new", "docs"] "a" (.file text)).add [] "out" .dir).add ["own"] "docs" (.link "../out")

theorem replaces_docsLinked : Replaces ["new"] ["own"] docsLinked "docs/a" := by
  have hmake : makeDirs ⟨["own"], ["docs"]⟩ docsLinked = .ok () docsLinked :=
    @makeDirs_there docsLinked ["own"] [] ["own"] "docs" (by decide +kernel) (by decide +kernel) (by decide +kernel)
      (by decide +kernel)
  refine ⟨by decide +kernel, docsLinked, ?_, ["new", "docs", "a"], text, rfl, by decide, .inl (by decide +kernel)⟩
  rw [show (FilePath.join ["own"] "docs/a").parent = ⟨["own"], ["docs"]⟩ by decide +kernel]
  exact hmake

theorem not_sealed_docsLinked :
    ¬ ∀ (git : GitMergeFile) (fs : FileSystem) (oldRoot newRoot instanceRoot : PurePath) (paths : Finset String),
      fs.lookup instanceRoot = some .dir → (∀ p ∈ paths, ∃ q : PurePath, p = q.name ∧ q.Normal ∧ q ≠ []) →
      Sealed instanceRoot ((replacePasses oldRoot newRoot instanceRoot paths fs).1 ++
        (replacePasses oldRoot newRoot instanceRoot paths fs).2) ∧
      Sealed instanceRoot (mergePasses git oldRoot newRoot instanceRoot paths fs) := by
  intro hall
  have hname : PurePath.name ["docs", "a"] = "docs/a" := by decide +kernel
  have hnormal : PurePath.Normal ["docs", "a"] := by unfold PurePath.Normal; decide +kernel
  have hcanonical : ∀ p ∈ ({"docs/a"} : Finset String), ∃ q : PurePath, p = q.name ∧ q.Normal ∧ q ≠ [] := fun p hp =>
    ⟨["docs", "a"], by rw [Finset.mem_singleton.1 hp, hname], hnormal, by simp⟩
  have hsealed := (hall (fun _ _ _ => (none, 0)) docsLinked ["old"] ["new"] ["own"] {"docs/a"} (by decide +kernel) hcanonical).1
  rw [replacePasses_singleton (by decide +kernel)] at hsealed
  have hwriter := @replaceOne_writer ["new"] ["own"] docsLinked ["docs", "a"] (by decide +kernel) hnormal (by simp)
  rw [hname] at hwriter
  rcases hwriter with ⟨-, -, real, -, hchanged, -⟩ | ⟨hnot, -⟩
  · have hlinked : docsLinked.Linked (FilePath.join ["own"] "docs/a") := by
      rw [show FilePath.join ["own"] "docs/a" = ⟨["own"], ["docs", "a"]⟩ by decide +kernel]
      exact ⟨["docs"], by simp, "../out", by decide +kernel⟩
    exact (hsealed _ (List.mem_append_left _ List.mem_cons_self) real hchanged).2 hlinked
  · exact hnot replaces_docsLinked

end TemplateAxum.TemplateSync
