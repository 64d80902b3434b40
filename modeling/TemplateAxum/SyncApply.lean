import TemplateAxum.LinkedWrites
import TemplateAxum.SyncManifest
import TemplateAxum.Lib.Keeps

/-!
# A sync and the tiers of its manifest

`cmd_apply` of `template_sync.py`: the paths of the two tiers are found in both versions of the template, and then
written into the instance one by one.
-/

namespace TemplateAxum.TemplateSync

open FileM

/-! ### `cmd_apply` -/

/-- `read_text`, but that it also translates line ends. -/
def readText (path : FilePath) : FileM String := do
  match String.fromUTF8? ⟨(← readBytes path).toArray⟩ with
  | some text => pure text
  | none => throw (.runtimeError "'utf-8' codec can't decode")

def raising {α : Type} : Except String α → FileM α
  | .ok a => pure a
  | .error message => throw (.runtimeError message)

/-- The paths of a tier in the old version or the new. -/
def bothPaths (oldRef newRef : PurePath) (tiers : Tiers) (tier : Tier) : FileM (Finset String) := do
  let fs ← get
  let oldPaths ← raising (tierPaths fs oldRef tiers tier)
  let newPaths ← raising (tierPaths fs newRef tiers tier)
  pure (oldPaths ∪ newPaths)

structure Summary where
  replace : Replaced
  merge : Merged
deriving DecidableEq

def exitConflicts : ℕ := 1

def exitError : ℕ := 2

/-- The exit status and the summary that is printed; whatever is raised is status 2 and no summary. -/
def cmdApply (git : GitMergeFile) (manifest : FilePath) (oldRef newRef instanceRoot : PurePath) : FileM (ℕ × Option Summary) :=
  tryCatch (do
      let tiers := parseManifest (← readText manifest)
      let replacePaths ← bothPaths oldRef newRef tiers .replace
      let mergePaths ← bothPaths oldRef newRef tiers .merge
      let replace ← applyReplace oldRef newRef instanceRoot replacePaths
      let merge ← applyMerge git oldRef newRef instanceRoot mergePaths
      pure (if merge.conflicts = [] then 0 else exitConflicts, some ⟨replace, merge⟩))
    fun _ => pure (exitError, none)

/-! ### What every step keeps -/

section

variable {R : FileSystem → FileSystem → Prop} (h : Tame R)
include h

theorem keeps_isExecutable (path : FilePath) : Keeps R (isExecutable path) := h.bind (h.mode path) fun _ => h.pure _

theorem keeps_syncExecutableBit (src dst : FilePath) : Keeps R (syncExecutableBit src dst) := by
  refine .get_bind fun fs => .ite (h.pure ()) ?_
  refine h.bind (h.mode dst) fun mode => h.bind (keeps_isExecutable h src) fun executable => ?_
  exact .ite (h.chmod dst _) (h.chmod dst _)

theorem keeps_replaceOne (newRoot instanceRoot : PurePath) (path : String) : Keeps R (replaceOne newRoot instanceRoot path) := by
  refine .get_bind fun fs => .ite (h.pure _) ?_
  refine h.bind (h.makeDirs _) fun _ => .get_bind fun fs => .ite (h.bind (h.copy2 _ _) fun _ => h.pure _) ?_
  refine h.bind (h.readBytes _) fun _ => h.bind (h.readBytes _) fun _ => .ite (h.bind (h.copy2 _ _) fun _ => h.pure _) ?_
  refine h.bind (keeps_isExecutable h _) fun _ => h.bind (keeps_isExecutable h _) fun _ => .ite ?_ (h.pure _)
  exact h.bind (keeps_syncExecutableBit h _ _) fun _ => h.pure _

theorem keeps_removeOne (hremove : ∀ (fs : FileSystem) real, R fs (fs.remove real)) (instanceRoot : PurePath) (path : String) :
    Keeps R (removeOne instanceRoot path) := by
  refine .get_bind fun fs => .ite (h.pure _) (.get_bind fun fs => .ite ?_ (h.pure _))
  exact h.bind (h.unlink hremove _) fun _ => h.pure _

theorem keeps_isBinary (path : FilePath) : Keeps R (isBinary path) :=
  h.tryCatch (h.bind (h.readBytes path) fun _ => h.pure _) fun _ => h.pure _

theorem keeps_readBase (base : Option FilePath) : Keeps R (readBase base) := by
  cases base with
  | none => exact h.pure []
  | some path => exact h.readBytes path

theorem keeps_runGit (git : GitMergeFile) (ours : FilePath) (base : Option FilePath) (theirs : FilePath) :
    Keeps R (runGit git ours base theirs) := by
  refine h.tryCatch ?_ fun _ => h.pure _
  refine h.bind (h.readBytes ours) fun _ => h.bind (keeps_readBase h base) fun _ => h.bind (h.readBytes theirs) fun _ => ?_
  dsimp only
  split
  · exact h.bind (h.writeBytes ours _) fun _ => h.pure _
  · exact h.pure _

theorem keeps_mergeFile (git : GitMergeFile) (instanceFile : FilePath) (base : Option FilePath) (theirs : FilePath) :
    Keeps R (mergeFile git instanceFile base theirs) := by
  have hbase : Keeps R (base.elim (pure false) isBinary) := by
    cases base with
    | none => exact h.pure false
    | some path => exact keeps_isBinary h path
  refine h.bind (keeps_isBinary h _) fun _ => h.bind hbase fun _ => h.bind (keeps_isBinary h _) fun _ => .ite (h.pure _) ?_
  exact h.bind (keeps_runGit h git _ _ _) fun _ => .ite (h.throw _) (h.pure _)

theorem keeps_mergeChanged (git : GitMergeFile) (instanceFile : FilePath) (base : Option FilePath) (newFile : FilePath)
    (before : List UInt8) (binaryInput : Bool) : Keeps R (mergeChanged git instanceFile base newFile before binaryInput) := by
  refine h.bind (keeps_mergeFile h git _ _ _) fun _ => .ite (h.pure _) ?_
  exact h.bind (h.readBytes _) fun _ => .ite (h.pure _) (h.pure _)

theorem keeps_takeNew (newFile instanceFile : FilePath) : Keeps R (takeNew newFile instanceFile) := by
  refine h.bind (h.copyfile _ _) fun _ => h.bind (keeps_isExecutable h _) fun _ => h.bind (keeps_isExecutable h _) fun _ => ?_
  exact .ite (keeps_syncExecutableBit h _ _) (h.pure ())

theorem keeps_mergeExisting (git : GitMergeFile) (oldFile newFile instanceFile : FilePath) :
    Keeps R (mergeExisting git oldFile newFile instanceFile) := by
  refine h.bind (keeps_isBinary h _) fun _ => h.bind (keeps_isBinary h _) fun _ => h.bind (keeps_isBinary h _) fun _ => ?_
  refine .get_bind fun fs => h.bind (keeps_readBase h _) fun _ => h.bind (h.readBytes _) fun _ => .ite (h.pure _) ?_
  refine h.bind (h.readBytes _) fun _ => .ite (h.pure _) (.ite ?_ (keeps_mergeChanged h git _ _ _ _ _))
  exact h.bind (keeps_takeNew h _ _) fun _ => h.pure _

theorem keeps_mergeOne (git : GitMergeFile) (oldRoot newRoot instanceRoot : PurePath) (path : String) :
    Keeps R (mergeOne git oldRoot newRoot instanceRoot path) := by
  refine .get_bind fun fs => .ite (h.pure _) (.ite (h.pure _) (.ite ?_ (keeps_mergeExisting h git _ _ _)))
  refine h.bind ?_ fun _ => h.pure _
  exact h.bind (h.makeDirs _) fun _ => h.copy2 _ _

theorem keeps_collect {step : String → FileM Bool} (hstep : ∀ path, Keeps R (step path)) (paths : List String) :
    Keeps R (collect step paths) := by
  induction paths with
  | nil => exact h.pure []
  | cons path rest ih => exact h.bind (hstep path) fun _ => h.bind ih fun _ => h.pure _

theorem keeps_outcomes {step : String → FileM (Option Outcome)} (hstep : ∀ path, Keeps R (step path)) (paths : List String) :
    Keeps R (outcomes step paths) := by
  induction paths with
  | nil => exact h.pure []
  | cons path rest ih => exact h.bind (hstep path) fun _ => h.bind ih fun _ => h.pure _

theorem keeps_applyReplace (hremove : ∀ (fs : FileSystem) real, R fs (fs.remove real)) (oldRoot newRoot instanceRoot : PurePath)
    (paths : Finset String) : Keeps R (applyReplace oldRoot newRoot instanceRoot paths) := by
  refine .get_bind fun fs => h.bind (keeps_collect h (fun path => keeps_replaceOne h _ _ path) _) fun _ => ?_
  exact h.bind (keeps_collect h (fun path => keeps_removeOne h hremove _ path) _) fun _ => h.pure _

theorem keeps_applyMerge (git : GitMergeFile) (oldRoot newRoot instanceRoot : PurePath) (paths : Finset String) :
    Keeps R (applyMerge git oldRoot newRoot instanceRoot paths) :=
  h.bind (keeps_outcomes h (fun path => keeps_mergeOne h git _ _ _ path) _) fun _ => h.pure _

end

/-! ### Where a loop writes -/

section

variable {α : Type} {fs fs' : FileSystem} {step : String → FileM α} {writes : FileSystem → String → Prop}
  {root oldRoot newRoot instanceRoot r : PurePath} {paths : Finset String} {tiers : Tiers}

theorem passes_plain (hkeeps : ∀ path, Keeps (PlainStays root) (step path)) (hplain : fs.Plain root) {todo : List String} :
    ∀ pass ∈ passes step todo fs, pass.before.Plain root := by
  induction todo generalizing fs with
  | nil => simp [passes]
  | cons path rest ih =>
    rw [passes]
    cases hstep : step path fs with
    | error e fs' =>
      intro pass hpass
      rw [List.mem_singleton.1 hpass]
      exact hplain
    | ok a fs' =>
      intro pass hpass
      rcases List.mem_cons.1 hpass with rfl | hrest
      · exact hplain
      · have hplain' := hkeeps path fs hplain
        rw [left_ok hstep] at hplain'
        exact ih hplain' pass hrest

/-- In a tree without links the one file that a pass changes is the one that the path names. -/
theorem pass_place (hwriter : Writer root step writes) (hkeeps : ∀ path, Keeps (PlainStays root) (step path))
    {todo : List String} (hpaths : ∀ p ∈ todo, ∃ q : PurePath, p = q.name ∧ q.Normal ∧ q ≠ []) (hplain : fs.Plain root)
    {pass : Pass} (hpass : pass ∈ passes step todo fs) (hchanged : pass.after.fileAt r ≠ pass.before.fileAt r) :
    ∃ q : PurePath, q.Normal ∧ q ≠ [] ∧ q.name ∈ todo ∧ r = root ++ q := by
  obtain ⟨hdir, hmem, hafter⟩ := hwriter.passes hpaths hplain.dir pass hpass
  obtain ⟨q, hname, hq, hne⟩ := hpaths _ hmem
  have hbefore := passes_plain hkeeps hplain pass hpass
  rw [hafter, hname] at hchanged
  rcases hwriter pass.before q hdir hq hne with ⟨-, -, real, hreal, -, hkept, -⟩ | ⟨-, hstays⟩
  · refine ⟨q, hq, hne, hname ▸ hmem, ?_⟩
    by_contra hother
    refine hchanged (hkept r fun heq => hother ?_)
    rw [heq, hreal (hbefore.not_linked hq), FilePath.resolve_normal hq]
  · exact absurd (hstays.fileAt r) hchanged

theorem applyReplace_place (hpaths : ∀ p ∈ paths, ∃ q : PurePath, p = q.name ∧ q.Normal ∧ q ≠ []) (hplain : fs.Plain instanceRoot)
    (hchanged : (left (applyReplace oldRoot newRoot instanceRoot paths) fs).fileAt r ≠ fs.fileAt r) :
    ∃ q : PurePath, q.Normal ∧ q ≠ [] ∧ q.name ∈ paths ∧ r = instanceRoot ++ q := by
  obtain ⟨pass, hpass, hchanged⟩ := applyReplace_passes hchanged
  have htame := plainStays_tame instanceRoot
  have hsub : ∀ chosen ⊆ paths, ∀ p ∈ chosen.sort, p ∈ paths := fun chosen hsub p hp => hsub ((Finset.mem_sort _).1 hp)
  rcases List.mem_append.1 hpass with hpass | hpass
  · obtain ⟨q, hq, hne, hmem, rfl⟩ := pass_place replaceOne_writer (fun path => keeps_replaceOne htame _ _ path)
      (fun p hp => hpaths p (hsub _ (Finset.filter_subset _ _) p hp)) hplain hpass hchanged
    exact ⟨q, hq, hne, hsub _ (Finset.filter_subset _ _) _ hmem, rfl⟩
  · unfold replacePasses at hpass
    dsimp only at hpass
    split at hpass
    · rename_i fs' hloop
      have hplain' := keeps_collect htame (fun path => keeps_replaceOne htame newRoot instanceRoot path)
        (paths.filter fun path => fs.pathExists (FilePath.join newRoot path) = true).sort fs hplain
      rw [left_ok hloop] at hplain'
      have hrest : ∀ kept : Finset String,
          (paths.filter fun path => fs.pathExists (FilePath.join oldRoot path) = true) \ kept ⊆ paths :=
        fun _ => Finset.sdiff_subset.trans (Finset.filter_subset _ _)
      obtain ⟨q, hq, hne, hmem, rfl⟩ := pass_place removeOne_writer
        (fun path => keeps_removeOne htame (plainStays_remove _) _ path)
        (fun p hp => hpaths p (hsub _ (hrest _) p hp)) hplain' hpass hchanged
      exact ⟨q, hq, hne, hsub _ (hrest _) _ hmem, rfl⟩
    · cases hpass

theorem applyMerge_place {git : GitMergeFile} (hpaths : ∀ p ∈ paths, ∃ q : PurePath, p = q.name ∧ q.Normal ∧ q ≠ [])
    (hplain : fs.Plain instanceRoot)
    (hchanged : (left (applyMerge git oldRoot newRoot instanceRoot paths) fs).fileAt r ≠ fs.fileAt r) :
    ∃ q : PurePath, q.Normal ∧ q ≠ [] ∧ q.name ∈ paths ∧ r = instanceRoot ++ q := by
  obtain ⟨pass, hpass, hchanged⟩ := applyMerge_passes hchanged
  obtain ⟨q, hq, hne, hmem, rfl⟩ := pass_place mergeOne_writer
    (fun path => keeps_mergeOne (plainStays_tame instanceRoot) git _ _ _ path)
    (fun p hp => hpaths p ((Finset.mem_sort _).1 hp)) hplain hpass hchanged
  exact ⟨q, hq, hne, (Finset.mem_sort _).1 hmem, rfl⟩

/-! ### What a sync changes -/

theorem bothPaths_ok {tier : Tier} (hold : fs.Plain oldRoot) (hnew : fs.Plain newRoot)
    (hpatterns : ∀ pattern ∈ tiers tier, isGlob pattern = true ∨ Relative pattern) :
    ∃ paths, bothPaths oldRoot newRoot tiers tier fs = .ok paths fs ∧
      ∀ p ∈ paths, ∃ q : PurePath, p = q.name ∧ q.Normal ∧ q ≠ [] ∧ classify p tiers = [tier] := by
  obtain ⟨oldPaths, hold', holdFiles, -⟩ := mem_tierPaths_iff hold hpatterns
  obtain ⟨newPaths, hnew', hnewFiles, -⟩ := mem_tierPaths_iff hnew hpatterns
  refine ⟨oldPaths ∪ newPaths, ?_, fun p hp => ?_⟩
  · unfold bothPaths
    rw [get_bind, hold', hnew']
    rfl
  · rcases Finset.mem_union.1 hp with hp | hp
    · obtain ⟨q, hname, hne, hfile, hclass⟩ := holdFiles p hp
      exact ⟨q, hname, FileSystem.normal_of_fileAt hfile, hne, hclass⟩
    · obtain ⟨q, hname, hne, hfile, hclass⟩ := hnewFiles p hp
      exact ⟨q, hname, FileSystem.normal_of_fileAt hfile, hne, hclass⟩

/-- Over every three trees without links and every manifest of globs and paths, whether the sync comes to its end or fails
on the way: a file that is not as it was is one of the instance's, which the manifest puts in the replace tier alone, or
in the merge tier alone, where it is never deleted. -/
theorem cmdApply_frame (git : GitMergeFile) {manifest : FilePath} {text : String} (htrees : Trees fs oldRoot newRoot instanceRoot)
    (hmanifest : readText manifest fs = .ok text fs)
    (hpatterns : ∀ tier ≠ .ignore, ∀ pattern ∈ parseManifest text tier, isGlob pattern = true ∨ Relative pattern)
    (r : PurePath) :
    (left (cmdApply git manifest oldRoot newRoot instanceRoot) fs).fileAt r = fs.fileAt r ∨
      ∃ q : PurePath, r = instanceRoot ++ q ∧ q.Normal ∧
        (classify q.name (parseManifest text) = [.replace] ∨
          classify q.name (parseManifest text) = [.merge] ∧
            (left (cmdApply git manifest oldRoot newRoot instanceRoot) fs).fileAt r ≠ none) := by
  refine or_iff_not_imp_left.2 fun hchanged => ?_
  obtain ⟨replacePaths, hreplace, hreplacePaths⟩ :=
    bothPaths_ok htrees.oldPlain htrees.newPlain (hpatterns .replace (by decide))
  obtain ⟨mergePaths, hmerge, hmergePaths⟩ := bothPaths_ok htrees.oldPlain htrees.newPlain (hpatterns .merge (by decide))
  have hcanonical : ∀ {paths : Finset String} {tier : Tier}, (∀ p ∈ paths, ∃ q : PurePath, p = q.name ∧ q.Normal ∧ q ≠ [] ∧
      classify p (parseManifest text) = [tier]) → ∀ p ∈ paths, ∃ q : PurePath, p = q.name ∧ q.Normal ∧ q ≠ [] := by
    intro paths tier h p hp
    obtain ⟨q, hname, hq, hne, -⟩ := h p hp
    exact ⟨q, hname, hq, hne⟩
  have hcases : left (cmdApply git manifest oldRoot newRoot instanceRoot) fs =
      match applyReplace oldRoot newRoot instanceRoot replacePaths fs with
      | .ok _ fs' => left (applyMerge git oldRoot newRoot instanceRoot mergePaths) fs'
      | .error _ fs' => fs' := by
    rw [cmdApply, left_tryCatch_pure fun _ _ => rfl, left_bind_ok hmanifest, left_bind_ok hreplace, left_bind_ok hmerge]
    cases hrun : applyReplace oldRoot newRoot instanceRoot replacePaths fs with
    | ok replaced fs' =>
      rw [left_bind_ok hrun, left_bind_pure fun _ _ => rfl]
    | error e fs' => rw [left_bind_error hrun]
  by_cases hsame : (left (applyReplace oldRoot newRoot instanceRoot replacePaths) fs).fileAt r = fs.fileAt r
  · cases hrun : applyReplace oldRoot newRoot instanceRoot replacePaths fs with
    | error e fs' =>
      rw [hcases, hrun] at hchanged
      rw [left_error hrun] at hsame
      exact absurd hsame hchanged
    | ok replaced fs' =>
      have hplain := keeps_applyReplace (plainStays_tame instanceRoot) (plainStays_remove _) oldRoot newRoot instanceRoot
        replacePaths fs htrees.instancePlain
      rw [left_ok hrun] at hsame hplain
      rw [hrun] at hcases
      dsimp only at hcases
      rw [hcases] at hchanged ⊢
      rw [← hsame] at hchanged
      obtain ⟨q, hq, -, hmem, rfl⟩ := applyMerge_place (hcanonical hmergePaths) hplain hchanged
      obtain ⟨q', hname, hq', -, hclass⟩ := hmergePaths _ hmem
      refine ⟨q, rfl, hq, .inr ⟨hclass, fun hnone => ?_⟩⟩
      rw [hnone] at hchanged
      exact keeps_applyMerge filesStay_tame git oldRoot newRoot instanceRoot mergePaths fs' _ (Ne.symm hchanged) hnone
  · obtain ⟨q, hq, -, hmem, rfl⟩ := applyReplace_place (hcanonical hreplacePaths) htrees.instancePlain hsame
    obtain ⟨q', hname, hq', -, hclass⟩ := hreplacePaths _ hmem
    exact ⟨q, rfl, hq, .inl hclass⟩

end

/-- A manifest beside the three trees. -/
def manifested : FileSystem := added.add [] "m" (.file ⟨"replace:\n- a".toList.map fun c => c.toNat.toUInt8, 0o644#12⟩)

theorem lookup_manifested (r : PurePath) : manifested.lookup r =
    if r = ["m"] then some (.file ⟨"replace:\n- a".toList.map fun c => c.toNat.toUInt8, 0o644#12⟩) else added.lookup r :=
  FileSystem.lookup_add (by decide +kernel) (by decide +kernel) (by decide +kernel)

theorem manifested_trees : Trees manifested ["old"] ["new"] ["own"] := by
  refine trees_of_roots (by decide +kernel) fun r target => ?_
  rw [lookup_manifested, lookup_added, lookup_roots]
  split_ifs <;> simp

theorem manifested_patterns : ∀ tier ≠ .ignore, ∀ pattern ∈ parseManifest "replace:\n- a" tier,
    isGlob pattern = true ∨ Relative pattern := by
  have hreplace : parseManifest "replace:\n- a" .replace = ["a"] := by decide +kernel
  have hmerge : parseManifest "replace:\n- a" .merge = [] := by decide +kernel
  intro tier htier pattern hpattern
  cases tier with
  | ignore => exact absurd rfl htier
  | merge =>
    rw [hmerge] at hpattern
    cases hpattern
  | replace =>
    rw [hreplace] at hpattern
    rw [List.mem_singleton.1 hpattern]
    exact .inr ⟨["a"], List.forall_mem_singleton.2 (by decide +kernel), by decide, .inl name_a.1.symm⟩

theorem readText_manifested : readText ⟨[], ["m"]⟩ manifested = .ok "replace:\n- a" manifested := by
  have hfile : manifested.fileAt ([] ++ ["m"]) = some ⟨"replace:\n- a".toList.map fun c => c.toNat.toUInt8, 0o644#12⟩ := by
    rw [FileSystem.fileAt, lookup_manifested, List.nil_append, if_pos rfl]
  have hplain : manifested.Plain [] := ⟨manifested.root, fun q target => by
    rw [List.nil_append, lookup_manifested, lookup_added, lookup_roots]
    split_ifs <;> simp⟩
  rw [readText, bind_ok (readBytes_ok (hplain.openFile hfile) (by decide))]
  have hdecoded : String.fromUTF8? ⟨("replace:\n- a".toList.map fun c => c.toNat.toUInt8).toArray⟩ =
      some "replace:\n- a" := by decide +kernel
  rw [hdecoded]
  rfl

/-- A file in no tier is left as it is. -/
theorem cmdApply_frame_manifested :
    (left (cmdApply (fun _ _ _ => (none, 0)) ⟨[], ["m"]⟩ ["old"] ["new"] ["own"]) manifested).fileAt ["own", "b"] =
      manifested.fileAt ["own", "b"] := by
  rcases cmdApply_frame (fun _ _ _ => (none, 0)) manifested_trees readText_manifested manifested_patterns ["own", "b"] with
    hsame | ⟨q, hq, -, hclass⟩
  · exact hsame
  · obtain rfl : q = ["b"] := by simpa using hq.symm
    have hnone : classify (PurePath.name ["b"]) (parseManifest "replace:\n- a") = [] := by decide +kernel
    rw [hnone] at hclass
    simp at hclass

end TemplateAxum.TemplateSync
