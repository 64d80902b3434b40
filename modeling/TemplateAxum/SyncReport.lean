import TemplateAxum.SyncState

/-!
# What a sync reports

The summary of `cmd_apply` names every file whose content is not as it was (`cmdApply_reports`): each loop reports the paths
on which a step changed something, and a step that reports nothing has changed nothing. `cmd_pr_body` writes a line for each
of them, so that the pull request shows what a sync did (`pullRequest_names`).
-/

namespace TemplateAxum.TemplateSync

open FileM
open PyJson (Value)

/-- What a file holds, if there is one. -/
def contentAt (fs : FileSystem) (r : PurePath) : Option (List UInt8) := (fs.fileAt r).map File.content

/-- Every file that changed is the instance's at one of some paths. -/
def Reported (instanceRoot : PurePath) (fs fs' : FileSystem) (paths : List String) : Prop :=
  ∀ r, contentAt fs' r ≠ contentAt fs r → ∃ q : PurePath, q.name ∈ paths ∧ r = instanceRoot ++ q

section

variable {fs fs' fs'' : FileSystem} {oldRoot newRoot instanceRoot q : PurePath} {paths paths' : List String} {git : GitMergeFile}

theorem reported_of_files (h : ∀ r, fs'.fileAt r = fs.fileAt r) : Reported instanceRoot fs fs' paths := by
  intro r hchanged
  rw [contentAt, contentAt, h r] at hchanged
  exact absurd rfl hchanged

theorem Reported.mono (h : Reported instanceRoot fs fs' paths) (hsub : paths ⊆ paths') : Reported instanceRoot fs fs' paths' := by
  intro r hchanged
  obtain ⟨q, hq, rfl⟩ := h r hchanged
  exact ⟨q, hsub hq, rfl⟩

theorem Reported.trans (h : Reported instanceRoot fs fs' paths) (h' : Reported instanceRoot fs' fs'' paths) :
    Reported instanceRoot fs fs'' paths := by
  intro r hchanged
  by_cases hfirst : contentAt fs' r = contentAt fs r
  · exact h' r (hfirst ▸ hchanged)
  · exact h r hfirst

theorem Reported.next {path : String} {named : Bool} (h : Reported instanceRoot fs fs' (if named then [path] else []))
    (h' : Reported instanceRoot fs' fs'' paths) :
    Reported instanceRoot fs fs'' (if named then path :: paths else paths) := by
  cases named with
  | false => exact (h.mono (List.nil_subset _)).trans h'
  | true =>
    refine (h.mono ?_).trans (h'.mono (List.subset_cons_self path paths))
    exact List.cons_subset.2 ⟨List.mem_cons_self, List.nil_subset _⟩

/-! ### One step -/

theorem trees_of_keeps {α : Type} {x : FileM α} {a : α} (hkeeps : ∀ root, Keeps (PlainStays root) x) (hrun : x fs = .ok a fs')
    (h : Trees fs oldRoot newRoot instanceRoot) : Trees fs' oldRoot newRoot instanceRoot := by
  have hplain : ∀ root, fs.Plain root → fs'.Plain root := fun root hroot => by
    have hkept := hkeeps root fs hroot
    rwa [left_ok hrun] at hkept
  exact ⟨hplain _ h.oldPlain, hplain _ h.newPlain, hplain _ h.instancePlain, h.oldApart, h.newApart⟩

theorem fs_eq_of_left {α : Type} {x : FileM α} {a : α} (hleft : ∀ fs, left x fs = fs) (hrun : x fs = .ok a fs') : fs' = fs :=
  (left_ok hrun).symm.trans (hleft fs)

/-- In a tree without links a step changes its own path only. -/
theorem reported_of_writer {α : Type} {step : String → FileM α} {writes : FileSystem → String → Prop} {a : α}
    (hwriter : Writer instanceRoot step writes) (hplain : fs.Plain instanceRoot) (hq : q.Normal) (hne : q ≠ [])
    (hrun : step q.name fs = .ok a fs') : Reported instanceRoot fs fs' [q.name] := by
  intro r hchanged
  have hfile : fs'.fileAt r ≠ fs.fileAt r := fun heq => hchanged (by rw [contentAt, contentAt, heq])
  rcases hwriter fs q hplain.dir hq hne with ⟨-, -, real, hreal, -, hkept, -⟩ | ⟨-, hstays⟩
  · refine ⟨q, List.mem_singleton_self _, ?_⟩
    by_contra hother
    rw [left_ok hrun] at hkept
    refine hfile (hkept r fun heq => hother ?_)
    rw [heq, hreal (hplain.not_linked hq), FilePath.resolve_normal hq]
  · rw [left_ok hrun] at hstays
    exact absurd (hstays.fileAt r) hfile

theorem replaceOne_silent (hdir : fs.lookup instanceRoot = some .dir) (hq : q.Normal) (hne : q ≠ [])
    (h : replaceOne newRoot instanceRoot q.name fs = .ok false fs') (r : PurePath) : fs'.fileAt r = fs.fileAt r := by
  have hparent : FilePath.parent ⟨instanceRoot, q⟩ = ⟨instanceRoot, q.dropLast⟩ := if_neg hne
  unfold replaceOne at h
  simp only [FilePath.join_name hq, hparent] at h
  rw [get_bind] at h
  split at h
  · cases h
    rfl
  · obtain ⟨⟨⟩, fs₁, hmade, h⟩ := bind_eq_ok_iff.1 h
    have hdirs := (makeDirs_made hdir (hq.along (List.dropLast_prefix q))).1
    rw [left_ok hmade] at hdirs
    rw [← hdirs.stays.fileAt r]
    rw [get_bind] at h
    split at h
    · obtain ⟨⟨⟩, fs₂, -, h⟩ := bind_eq_ok_iff.1 h
      cases h
    · obtain ⟨ours, fs₂, hours, h₂⟩ := bind_eq_ok_iff.1 h
      obtain ⟨new, fs₃, hnew, h₃⟩ := bind_eq_ok_iff.1 h₂
      obtain rfl := fs_eq_of_left (left_readBytes _) hours
      obtain rfl := fs_eq_of_left (left_readBytes _) hnew
      split at h₃
      · obtain ⟨⟨⟩, fs₄, -, h₄⟩ := bind_eq_ok_iff.1 h₃
        cases h₄
      · obtain ⟨srcExecutable, fs₄, hsrc, h₄⟩ := bind_eq_ok_iff.1 h₃
        obtain ⟨dstExecutable, fs₅, hdst, h₅⟩ := bind_eq_ok_iff.1 h₄
        have hsame : ∀ path fs, left (isExecutable path) fs = fs := fun path fs => by
          rw [isExecutable, left_bind_pure fun _ _ => rfl, left_mode]
        obtain rfl := fs_eq_of_left (hsame _) hsrc
        obtain rfl := fs_eq_of_left (hsame _) hdst
        split at h₅
        · obtain ⟨⟨⟩, fs₆, -, h₆⟩ := bind_eq_ok_iff.1 h₅
          cases h₆
        · cases h₅
          rfl

theorem removeOne_silent {path : String} (h : removeOne instanceRoot path fs = .ok false fs') : fs' = fs := by
  unfold removeOne at h
  rw [get_bind] at h
  split at h
  · cases h
    rfl
  · rw [get_bind] at h
    split at h
    · obtain ⟨⟨⟩, fs₁, -, h⟩ := bind_eq_ok_iff.1 h
      cases h
    · cases h
      rfl

theorem replaceOne_reports {changed : Bool} (hplain : fs.Plain instanceRoot) (hq : q.Normal) (hne : q ≠ [])
    (h : replaceOne newRoot instanceRoot q.name fs = .ok changed fs') :
    Reported instanceRoot fs fs' (if changed then [q.name] else []) := by
  cases changed with
  | false => exact reported_of_files (replaceOne_silent hplain.dir hq hne h)
  | true => exact reported_of_writer replaceOne_writer hplain hq hne h

theorem removeOne_reports {changed : Bool} (hplain : fs.Plain instanceRoot) (hq : q.Normal) (hne : q ≠ [])
    (h : removeOne instanceRoot q.name fs = .ok changed fs') :
    Reported instanceRoot fs fs' (if changed then [q.name] else []) := by
  cases changed with
  | false => exact reported_of_files fun r => by rw [removeOne_silent h]
  | true => exact reported_of_writer removeOne_writer hplain hq hne h

theorem mergeOne_reports {outcome : Option Outcome} (htrees : Trees fs oldRoot newRoot instanceRoot) (hq : q.Normal)
    (hne : q ≠ []) (h : mergeOne git oldRoot newRoot instanceRoot q.name fs = .ok outcome fs') :
    Reported instanceRoot fs fs' (if outcome.isSome then [q.name] else []) := by
  obtain ⟨hframe, hmerges⟩ := mergeOne_spec htrees.oldPlain htrees.newPlain htrees.instancePlain htrees.newApart hq hne h
  intro r hchanged
  have hplace : r = instanceRoot ++ q := by
    by_contra hother
    refine hchanged ?_
    rw [contentAt, contentAt]
    by_cases hin : instanceRoot <+: r
    · obtain ⟨q', rfl⟩ := hin
      rw [hframe.kept q' fun heq => hother (by rw [heq])]
    · rw [FileSystem.fileAt, FileSystem.fileAt, hframe.outside r hin]
  subst hplace
  cases outcome with
  | some o => exact ⟨q, List.mem_singleton_self _, rfl⟩
  | none =>
    have hmerged := hmerges.merged_iff.2 ⟨fun b => by simp, hchanged⟩
    cases hmerged

/-! ### The loops -/

theorem collect_reports {step : String → FileM Bool} {P : FileSystem → Prop} {todo found : List String}
    (hstep : ∀ path ∈ todo, ∀ fs fs' changed, P fs → step path fs = .ok changed fs' →
      P fs' ∧ Reported instanceRoot fs fs' (if changed then [path] else []))
    (hP : P fs) (hrun : collect step todo fs = .ok found fs') : P fs' ∧ Reported instanceRoot fs fs' found := by
  induction todo generalizing fs found with
  | nil =>
    cases hrun
    exact ⟨hP, reported_of_files fun _ => rfl⟩
  | cons path rest ih =>
    obtain ⟨changed, fs₁, hfirst, hrun₁⟩ := bind_eq_ok_iff.1 hrun
    obtain ⟨found', fs₂, hrest, hrun₂⟩ := bind_eq_ok_iff.1 hrun₁
    cases hrun₂
    obtain ⟨hP₁, hreported⟩ := hstep path List.mem_cons_self fs fs₁ changed hP hfirst
    obtain ⟨hP₂, hreported'⟩ := ih (fun path' hpath => hstep path' (List.mem_cons_of_mem path hpath)) hP₁ hrest
    exact ⟨hP₂, hreported.next hreported'⟩

/-- The paths of which something is reported. -/
def reportedPaths (found : List (String × Option Outcome)) : List String := (found.filter fun p => p.2.isSome).map Prod.fst

theorem outcomes_report {step : String → FileM (Option Outcome)} {P : FileSystem → Prop} {todo : List String}
    {found : List (String × Option Outcome)}
    (hstep : ∀ path ∈ todo, ∀ fs fs' outcome, P fs → step path fs = .ok outcome fs' →
      P fs' ∧ Reported instanceRoot fs fs' (if outcome.isSome then [path] else []))
    (hP : P fs) (hrun : outcomes step todo fs = .ok found fs') : P fs' ∧ Reported instanceRoot fs fs' (reportedPaths found) := by
  induction todo generalizing fs found with
  | nil =>
    cases hrun
    exact ⟨hP, reported_of_files fun _ => rfl⟩
  | cons path rest ih =>
    obtain ⟨outcome, fs₁, hfirst, hrun₁⟩ := bind_eq_ok_iff.1 hrun
    obtain ⟨found', fs₂, hrest, hrun₂⟩ := bind_eq_ok_iff.1 hrun₁
    cases hrun₂
    obtain ⟨hP₁, hreported⟩ := hstep path List.mem_cons_self fs fs₁ outcome hP hfirst
    obtain ⟨hP₂, hreported'⟩ := ih (fun path' hpath => hstep path' (List.mem_cons_of_mem path hpath)) hP₁ hrest
    have hcons : reportedPaths ((path, outcome) :: found') =
        if outcome.isSome then path :: reportedPaths found' else reportedPaths found' := by
      cases outcome <;> rfl
    rw [hcons]
    exact ⟨hP₂, hreported.next hreported'⟩

theorem applyReplace_reports {paths : Finset String} {report : Replaced} (htrees : Trees fs oldRoot newRoot instanceRoot)
    (hpaths : ∀ p ∈ paths, ∃ q : PurePath, p = q.name ∧ q.Normal ∧ q ≠ [])
    (hrun : applyReplace oldRoot newRoot instanceRoot paths fs = .ok report fs') :
    Trees fs' oldRoot newRoot instanceRoot ∧ Reported instanceRoot fs fs' (report.updated ++ report.removed) := by
  unfold applyReplace at hrun
  rw [get_bind] at hrun
  obtain ⟨updated, fs₁, hupdated, hrun₁⟩ := bind_eq_ok_iff.1 hrun
  obtain ⟨removed, fs₂, hremoved, hrun₂⟩ := bind_eq_ok_iff.1 hrun₁
  cases hrun₂
  obtain ⟨htrees₁, hfirst⟩ := collect_reports (P := fun fs => Trees fs oldRoot newRoot instanceRoot) (by
    intro p hp fs fs' changed h hstep
    obtain ⟨q, rfl, hq, hne⟩ := canonical_sort hpaths (Finset.filter_subset _ _) p hp
    exact ⟨trees_of_keeps (fun root => keeps_replaceOne (plainStays_tame root) _ _ _) hstep h,
      replaceOne_reports h.instancePlain hq hne hstep⟩) htrees hupdated
  obtain ⟨htrees₂, hsecond⟩ := collect_reports (P := fun fs => Trees fs oldRoot newRoot instanceRoot) (by
    intro p hp fs fs' changed h hstep
    obtain ⟨q, rfl, hq, hne⟩ := canonical_sort hpaths (Finset.sdiff_subset.trans (Finset.filter_subset _ _)) p hp
    exact ⟨trees_of_keeps (fun root => keeps_removeOne (plainStays_tame root) (plainStays_remove root) _ _) hstep h,
      removeOne_reports h.instancePlain hq hne hstep⟩) htrees₁ hremoved
  exact ⟨htrees₂, (hfirst.mono (List.subset_append_left _ _)).trans (hsecond.mono (List.subset_append_right _ _))⟩

theorem applyMerge_reports {paths : Finset String} {report : Merged} (htrees : Trees fs oldRoot newRoot instanceRoot)
    (hpaths : ∀ p ∈ paths, ∃ q : PurePath, p = q.name ∧ q.Normal ∧ q ≠ [])
    (hrun : applyMerge git oldRoot newRoot instanceRoot paths fs = .ok report fs') :
    Reported instanceRoot fs fs' (report.merged ++ report.conflicts) := by
  unfold applyMerge at hrun
  obtain ⟨found, fs₁, hfound, hrun₁⟩ := bind_eq_ok_iff.1 hrun
  cases hrun₁
  obtain ⟨-, hreported⟩ := outcomes_report (P := fun fs => Trees fs oldRoot newRoot instanceRoot) (by
    intro p hp fs fs' outcome h hstep
    obtain ⟨q, rfl, hq, hne⟩ := canonical_sort hpaths (Finset.Subset.refl paths) p hp
    exact ⟨trees_of_keeps (fun root => keeps_mergeOne (plainStays_tame root) git _ _ _ _) hstep h,
      mergeOne_reports h hq hne hstep⟩) htrees hfound
  refine hreported.mono fun p hp => ?_
  obtain ⟨⟨p, outcome⟩, hmem, rfl⟩ := List.mem_map.1 hp
  obtain ⟨hmem, hsome⟩ := List.mem_filter.1 hmem
  obtain ⟨o, rfl⟩ := Option.isSome_iff_exists.1 hsome
  dsimp only
  rw [List.mem_append, mem_withOutcome, mem_withOutcome]
  by_cases hmerged : o = .merged
  · exact .inl ⟨o, by simpa using hmerged, hmem⟩
  · exact .inr ⟨o, by simpa using hmerged, hmem⟩

/-! ### A sync -/

/-- The two loops of a sync that comes to its end. -/
theorem loops_of_cmdApply {manifest : FilePath} {text : String} {replacePaths mergePaths : Finset String}
    (hmanifest : readText manifest fs = .ok text fs)
    (hreplace : bothPaths oldRoot newRoot (parseManifest text) .replace fs = .ok replacePaths fs)
    (hmerge : bothPaths oldRoot newRoot (parseManifest text) .merge fs = .ok mergePaths fs) {status : ℕ} {s : Summary}
    (hrun : cmdApply git manifest oldRoot newRoot instanceRoot fs = .ok (status, some s) fs') :
    ∃ replace merge fs₁, applyReplace oldRoot newRoot instanceRoot replacePaths fs = .ok replace fs₁ ∧
      applyMerge git oldRoot newRoot instanceRoot mergePaths fs₁ = .ok merge fs' ∧ s = ⟨replace, merge⟩ := by
  cases hfirst : applyReplace oldRoot newRoot instanceRoot replacePaths fs with
  | error e fs₁ =>
    unfold cmdApply at hrun
    have hraised := (tryCatch_error ((bind_ok hmanifest).trans ((bind_ok hreplace).trans ((bind_ok hmerge).trans
      (bind_error hfirst))))).symm.trans hrun
    cases hraised
  | ok replace fs₁ =>
    cases hsecond : applyMerge git oldRoot newRoot instanceRoot mergePaths fs₁ with
    | error e fs₂ =>
      unfold cmdApply at hrun
      have hraised := (tryCatch_error ((bind_ok hmanifest).trans ((bind_ok hreplace).trans ((bind_ok hmerge).trans
        ((bind_ok hfirst).trans (bind_error hsecond)))))).symm.trans hrun
      cases hraised
    | ok merge fs₂ =>
      unfold cmdApply at hrun
      have hended := (tryCatch_ok ((bind_ok hmanifest).trans ((bind_ok hreplace).trans ((bind_ok hmerge).trans
        ((bind_ok hfirst).trans (bind_ok hsecond)))))).symm.trans hrun
      cases hended
      exact ⟨replace, merge, fs₁, rfl, hsecond, rfl⟩

/-- The paths that a summary names. -/
def Summary.listed (s : Summary) : List String := s.replace.updated ++ s.replace.removed ++ (s.merge.merged ++ s.merge.conflicts)

/-- Over every three trees without links and every manifest of globs and paths: a sync that comes to its end has changed the
content of no file that its summary does not name. -/
theorem cmdApply_reports {manifest : FilePath} {text : String} (htrees : Trees fs oldRoot newRoot instanceRoot)
    (hmanifest : readText manifest fs = .ok text fs)
    (hpatterns : ∀ tier ≠ .ignore, ∀ pattern ∈ parseManifest text tier, isGlob pattern = true ∨ Relative pattern)
    {status : ℕ} {s : Summary} (hrun : cmdApply git manifest oldRoot newRoot instanceRoot fs = .ok (status, some s) fs') :
    Reported instanceRoot fs fs' s.listed := by
  obtain ⟨replacePaths, hreplace, hreplacePaths⟩ :=
    bothPaths_ok htrees.oldPlain htrees.newPlain (hpatterns .replace (by decide))
  obtain ⟨mergePaths, hmerge, hmergePaths⟩ := bothPaths_ok htrees.oldPlain htrees.newPlain (hpatterns .merge (by decide))
  have hcanonical : ∀ {paths : Finset String} {tier : Tier}, (∀ p ∈ paths, ∃ q : PurePath, p = q.name ∧ q.Normal ∧ q ≠ [] ∧
      classify p (parseManifest text) = [tier]) → ∀ p ∈ paths, ∃ q : PurePath, p = q.name ∧ q.Normal ∧ q ≠ [] := by
    intro paths tier h p hp
    obtain ⟨q, hname, hq, hne, -⟩ := h p hp
    exact ⟨q, hname, hq, hne⟩
  obtain ⟨replace, merge, fs₁, hfirst, hsecond, rfl⟩ := loops_of_cmdApply hmanifest hreplace hmerge hrun
  obtain ⟨htrees₁, hreported⟩ := applyReplace_reports htrees (hcanonical hreplacePaths) hfirst
  have hreported' := applyMerge_reports htrees₁ (hcanonical hmergePaths) hsecond
  exact (hreported.mono (List.subset_append_left _ _)).trans (hreported'.mono (List.subset_append_right _ _))

end

/-! ### The pull request -/

/-- The text of a JSON string that has no surrogates of its own. -/
def text? (s : PyJson.Str) : Option String :=
  (s.mapM fun n => if n < 0xD800 ∨ 0xDFFF < n ∧ n < 0x110000 then some (Char.ofNat n) else none).map String.ofList

def strings? : Value → Option (List String)
  | .arr items => items.mapM fun v => match v with
    | .str s => text? s
    | _ => none
  | _ => none

/-- The fields that `pr_body` reads. -/
def Summary.ofJson? (v : Value) : Option Summary := do
  let replace ← item "replace" v
  let updated ← (item "updated" replace).bind strings?
  let removed ← (item "removed" replace).bind strings?
  let merge ← item "merge" v
  let merged ← (item "merged" merge).bind strings?
  let binary ← (item "binary" merge).elim (some []) strings?
  let conflicts ← (item "conflicts" merge).bind strings?
  pure ⟨⟨updated, removed⟩, ⟨merged, conflicts, binary⟩⟩

def bullet (label path : String) : String := "- " ++ label ++ ": `" ++ path ++ "`"

def conflictLabel (binary : Bool) : String :=
  if binary then
    "merge (**binary conflict, no markers; kept at this repo's version, take the new one from the template's new tag by hand**)"
  else "merge (**conflict, needs manual resolution**)"

def prLines (s : Summary) (oldTag newTag repo : String) : List String :=
  ["Syncs from `" ++ oldTag ++ "` to `" ++ newTag ++ "` of " ++ repo ++ ".", "", "### Files changed"] ++
    s.replace.updated.map (bullet "replace") ++
    s.replace.removed.map (bullet "replace (removed upstream)") ++
    s.merge.merged.map (bullet "merge (clean)") ++
    s.merge.conflicts.map (fun path => bullet (conflictLabel (path ∈ s.merge.binary)) path) ++
    (if s.merge.conflicts ≠ [] then
      ["", "Resolve every conflict above before merging: text files have `<<<<<<<` markers; " ++
        "a binary file has none (it is left at the instance's version)."]
    else []) ++
    (if "pyproject.toml" ∈ s.merge.merged ++ s.merge.conflicts then
      ["", "`pyproject.toml` changed -- run `uv lock` locally and push the updated `uv.lock` before merging."]
    else [])

def prBody (s : Summary) (oldTag newTag repo : String) : String := "\n".intercalate (prLines s oldTag newTag repo) ++ "\n"

def cmdPrBody (limit : ℕ) (summary : FilePath) (oldTag newTag repo : String) : FileM String := do
  match Summary.ofJson? (← readJson limit summary) with
  | some s => pure (prBody s oldTag newTag repo)
  | none => throw (.runtimeError "KeyError")

theorem text?_str (text : String) : text? (PyJson.str text) = some text := by
  have hchars : ∀ chars : List Char, (chars.map Char.toNat).mapM (fun n =>
      if n < 0xD800 ∨ 0xDFFF < n ∧ n < 0x110000 then some (Char.ofNat n) else none) = some chars := by
    intro chars
    induction chars with
    | nil => rfl
    | cons c rest ih =>
      have hvalid : c.toNat < 0xD800 ∨ 0xDFFF < c.toNat ∧ c.toNat < 0x110000 := c.valid
      rw [List.map_cons, List.mapM_cons, ih, if_pos hvalid, Char.ofNat_toNat]
      rfl
  rw [text?, PyJson.str, hchars, Option.map_some, String.ofList_toList]

theorem strings?_strings (texts : List String) : strings? (strings texts) = some texts := by
  rw [strings, strings?]
  induction texts with
  | nil => rfl
  | cons text rest ih =>
    rw [List.map_cons, List.mapM_cons, ih]
    dsimp only
    rw [text?_str]
    rfl

theorem str_inj {s t : String} : PyJson.str s = PyJson.str t ↔ s = t := ⟨PyJson.str_injective, congrArg PyJson.str⟩

theorem Summary.ofJson?_toJson (s : Summary) : Summary.ofJson? s.toJson = some s := by
  have hreplace : item "replace" s.toJson =
      some (.obj [member "updated" (strings s.replace.updated), member "removed" (strings s.replace.removed)]) := by
    simp [Summary.toJson, item, PyJson.lookup, member, str_inj]
  have hmerge : item "merge" s.toJson = some (.obj [member "merged" (strings s.merge.merged),
      member "conflicts" (strings s.merge.conflicts), member "binary" (strings s.merge.binary)]) := by
    simp [Summary.toJson, item, PyJson.lookup, member]
  simp only [Summary.ofJson?, hreplace, hmerge, Option.bind_eq_bind, Option.bind_some]
  simp [item, PyJson.lookup, member, str_inj, strings?_strings]

theorem bullet_mem_prLines {s : Summary} {path : String} (h : path ∈ s.listed) (oldTag newTag repo : String) :
    ∃ label, bullet label path ∈ prLines s oldTag newTag repo := by
  simp only [Summary.listed, List.mem_append] at h
  simp only [prLines, List.mem_append, List.mem_map]
  rcases h with (hpath | hpath) | hpath | hpath
  · exact ⟨_, .inl (.inl (.inl (.inl (.inl (.inr ⟨path, hpath, rfl⟩)))))⟩
  · exact ⟨_, .inl (.inl (.inl (.inl (.inr ⟨path, hpath, rfl⟩))))⟩
  · exact ⟨_, .inl (.inl (.inl (.inr ⟨path, hpath, rfl⟩)))⟩
  · exact ⟨_, .inl (.inl (.inr ⟨path, hpath, rfl⟩))⟩

section

variable {before after : FileSystem} {oldRoot newRoot instanceRoot : PurePath} {git : GitMergeFile}

/-- Over every three trees without links and every manifest of globs and paths: the body of the pull request of a sync that
came to its end has a line for every file of which the content changed. -/
theorem pullRequest_names {limit : ℕ} (hlimit : 3 ≤ limit) {manifest : FilePath} {text : String}
    (htrees : Trees before oldRoot newRoot instanceRoot) (hmanifest : readText manifest before = .ok text before)
    (hpatterns : ∀ tier ≠ .ignore, ∀ pattern ∈ parseManifest text tier, isGlob pattern = true ∨ Relative pattern)
    {status : ℕ} {s : Summary} (hrun : cmdApply git manifest oldRoot newRoot instanceRoot before = .ok (status, some s) after)
    {path : FilePath} {fs : FileSystem} (hread : readBytes path fs = .ok (standardOutput (some s)) fs)
    (oldTag newTag repo : String) :
    cmdPrBody limit path oldTag newTag repo fs = .ok (prBody s oldTag newTag repo) fs ∧
      ∀ r, contentAt after r ≠ contentAt before r →
        ∃ q label, r = instanceRoot ++ q ∧ bullet label (PurePath.name q) ∈ prLines s oldTag newTag repo := by
  constructor
  · have hjson := (readJson_of_begun (s.textual_toJson hlimit) rfl hread (List.prefix_refl _)).1 (prefix_jsonText _)
    unfold cmdPrBody
    rw [bind_ok hjson, s.ofJson?_toJson]
    rfl
  · intro r hchanged
    obtain ⟨q, hlisted, rfl⟩ := cmdApply_reports htrees hmanifest hpatterns hrun r hchanged
    obtain ⟨label, hmem⟩ := bullet_mem_prLines hlisted oldTag newTag repo
    exact ⟨q, label, rfl, hmem⟩

end

theorem manifested_facts :
    ((∀ root ∈ [["old"], ["new"]], tierPaths manifested root (parseManifest "replace:\n- a") .merge = .ok ∅) ∧
      tierPaths manifested ["old"] (parseManifest "replace:\n- a") .replace = .ok ∅ ∧
      tierPaths manifested ["new"] (parseManifest "replace:\n- a") .replace = .ok {"a"}) ∧
    ((∀ r ∈ [["own"], ["own", "a"]], manifested.fileAt r = none) ∧ manifested.lookup ["own", "a"] ≠ some .dir ∧
      manifested.fileAt ["new", "a"] = some text) ∧
    ({"a"} : Finset String).filter (fun path => manifested.pathExists (FilePath.join ["new"] path) = true) = {"a"} ∧
      ({"a"} : Finset String).filter (fun path => manifested.pathExists (FilePath.join ["old"] path) = true) = ∅ := by
  decide +kernel

theorem bothPaths_eq {fs : FileSystem} {oldRef newRef : PurePath} {tiers : Tiers} {tier : Tier} {oldPaths newPaths : Finset String}
    (hold : tierPaths fs oldRef tiers tier = .ok oldPaths) (hnew : tierPaths fs newRef tiers tier = .ok newPaths) :
    bothPaths oldRef newRef tiers tier fs = .ok (oldPaths ∪ newPaths) fs := by
  unfold bothPaths
  rw [get_bind, hold, hnew]
  rfl

/-- The new version's file is brought to the instance. -/
theorem replaceOne_manifested : ∃ after, replaceOne ["new"] ["own"] "a" manifested = .ok true after ∧
    contentAt after ["own", "a"] = some [0x61] := by
  have htrees := manifested_trees
  have hname : PurePath.Normal ["a"] := List.forall_mem_singleton.2 (by decide)
  obtain ⟨hfree, hdir, hsrc⟩ := manifested_facts.2.1
  obtain ⟨changed, after, g, hstep, hsame, -, hplaced, hchanged, -⟩ := replaceOne_ok htrees.newPlain htrees.instancePlain
    htrees.newApart hname (by decide) (g := text) hsrc accessible_text
    (fun d hd => by
      obtain rfl : d = [] := List.prefix_nil.1 hd
      exact hfree _ (by simp)) hdir (fun f hf => by
      rw [hfree _ (by simp)] at hf
      cases hf)
  obtain rfl : changed = true := hchanged.2 (by
    rw [hfree _ (by simp)]
    simp)
  rw [name_a.1] at hstep
  refine ⟨after, hstep, ?_⟩
  have hfile : after.fileAt ["own", "a"] = some g := hplaced.fileAt
  rw [contentAt, hfile, Option.map_some, hsame.1]
  rfl

theorem applyReplace_manifested {after : FileSystem} (hstep : replaceOne ["new"] ["own"] "a" manifested = .ok true after) :
    applyReplace ["old"] ["new"] ["own"] {"a"} manifested = .ok ⟨["a"], []⟩ after := by
  obtain ⟨hnew, hold⟩ := manifested_facts.2.2
  have hcollect : collect (replaceOne ["new"] ["own"]) ["a"] manifested = .ok ["a"] after := by
    rw [collect, bind_ok hstep]
    rfl
  unfold applyReplace
  rw [get_bind]
  simp only [hnew, hold, Finset.sort_singleton, Finset.empty_sdiff, Finset.sort_empty]
  rw [bind_ok hcollect]
  rfl

theorem cmdApply_manifested : ∃ after, cmdApply (fun _ _ _ => (none, 0)) ⟨[], ["m"]⟩ ["old"] ["new"] ["own"] manifested =
    .ok (0, some ⟨⟨["a"], []⟩, ⟨[], [], []⟩⟩) after ∧ contentAt after ["own", "a"] = some [0x61] := by
  obtain ⟨hnone, hold, hnew⟩ := manifested_facts.1
  have hreplace := bothPaths_eq hold hnew
  have hmerge := bothPaths_eq (hnone ["old"] (by simp)) (hnone ["new"] (by simp))
  rw [Finset.empty_union] at hreplace hmerge
  obtain ⟨after, hstep, hcontent⟩ := replaceOne_manifested
  refine ⟨after, ?_, hcontent⟩
  unfold cmdApply
  refine tryCatch_ok ?_
  rw [bind_ok readText_manifested, bind_ok hreplace, bind_ok hmerge, bind_ok (applyReplace_manifested hstep),
    bind_ok (applyMerge_empty after)]
  rfl

/-- The file that was brought has its line. -/
theorem pullRequest_names_manifested :
    ∃ label, bullet label "a" ∈ prLines ⟨⟨["a"], []⟩, ⟨[], [], []⟩⟩ "v1" "v2" "o/r" := by
  obtain ⟨after, hrun, hafter⟩ := cmdApply_manifested
  have hbefore : contentAt manifested ["own", "a"] = none := by
    rw [contentAt, manifested_facts.2.1.1 _ (by simp)]
    rfl
  obtain ⟨q, label, hq, hmem⟩ := (pullRequest_names (by decide : 3 ≤ 3) manifested_trees readText_manifested
    manifested_patterns hrun (read_handedOn _) "v1" "v2" "o/r").2 ["own", "a"] (by rw [hafter, hbefore]; simp)
  obtain rfl : q = ["a"] := by simpa using hq.symm
  rw [name_a.1] at hmem
  exact ⟨label, hmem⟩

end TemplateAxum.TemplateSync
