import TemplateAxum.ReplaceTier

/-!
# Convergence of the replace tier

A sync of the replace tier ends with the new tier in the instance, or it does not end well because something of
another kind stands in a place.
-/

namespace TemplateAxum.TemplateSync

open FileM

section

variable {fs fs' : FileSystem} {oldRoot newRoot instanceRoot q : PurePath} {f g : File}

/-! ### Files put in their places -/

/-- What has become of the instance when so many files are in their places. -/
structure Done (fs : FileSystem) (newRoot instanceRoot : PurePath) (qs : List PurePath) (fs' : FileSystem) : Prop where
  outside : fs.SameOutside instanceRoot fs'
  plain : fs'.Plain instanceRoot
  placed : ∀ q ∈ qs, ∃ g g', fs.fileAt (newRoot ++ q) = some g ∧ fs'.fileAt (instanceRoot ++ q) = some g' ∧ Same g' g ∧
    Accessible g'
  kept : ∀ q, q ∉ qs → fs'.fileAt (instanceRoot ++ q) = fs.fileAt (instanceRoot ++ q)
  dirs : ∀ d, fs'.lookup (instanceRoot ++ d) = some .dir → fs.lookup (instanceRoot ++ d) = some .dir ∨
    ∃ q ∈ qs, d <+: q ∧ d ≠ q
  dir : ∀ d, d ∉ qs → fs.lookup (instanceRoot ++ d) = some .dir → fs'.lookup (instanceRoot ++ d) = some .dir

theorem done_nil (hinstance : fs.Plain instanceRoot) : Done fs newRoot instanceRoot [] fs :=
  ⟨fun _ _ => rfl, hinstance, by simp, fun _ _ => rfl, fun _ h => .inl h, fun _ _ h => h⟩

theorem Placed.done (hinstance : fs.Plain instanceRoot) (hne : q ≠ []) (hsrc : fs.fileAt (newRoot ++ q) = some g)
    (hway : ∀ d, d <+: q.dropLast → fs.fileAt (instanceRoot ++ d) = none) (hsame : Same f g) (hf : Accessible f)
    (h : Placed fs instanceRoot q f fs') : Done fs newRoot instanceRoot [q] fs' := by
  obtain ⟨fs₁, hdirs, hputs⟩ := h
  have hother : ∀ d, d ≠ q → instanceRoot ++ d ≠ instanceRoot ++ q := fun d hd heq => hd (List.append_cancel_left heq)
  constructor
  · exact hdirs.sameOutside.trans hputs.sameOutside
  · refine hputs.plain (by simp) (hdirs.plain hinstance) ?_
    simpa using hne
  · intro q' hq'
    obtain rfl := List.mem_singleton.1 hq'
    exact ⟨g, f, hsrc, hputs.fileAt, hsame, hf⟩
  · intro d hd
    rw [hputs.fileAt_ne (hother d (by simpa using hd)), hdirs.fileAt hway]
  · intro d hdir
    rw [hputs] at hdir
    split at hdir
    · cases hdir
    · rw [hdirs] at hdir
      split at hdir
      · next hpre =>
        have hd : d <+: q.dropLast := (List.prefix_append_right_inj _).1 hpre.2
        exact .inr ⟨q, List.mem_singleton_self q, (PurePath.prefix_dropLast_iff hne).1 hd⟩
      · exact .inl hdir
  · intro d hd hdir
    rw [hputs, if_neg (hother d (by simpa using hd)), hdirs, hdir, ite_self]

theorem Placed.fileAt (h : Placed fs instanceRoot q f fs') : fs'.fileAt (instanceRoot ++ q) = some f := by
  obtain ⟨fs₁, -, hputs⟩ := h
  exact hputs.fileAt

theorem Done.cons {qs : List PurePath} {fs₁ : FileSystem} (hapart : FileSystem.Apart newRoot instanceRoot) (hq : q ∉ qs)
    (h₁ : Done fs newRoot instanceRoot [q] fs₁) (h : Done fs₁ newRoot instanceRoot qs fs') :
    Done fs newRoot instanceRoot (q :: qs) fs' := by
  constructor
  · exact h₁.outside.trans h.outside
  · exact h.plain
  · intro q' hq'
    rcases List.mem_cons.1 hq' with rfl | hq'
    · obtain ⟨g, g', hg, hg', hsame⟩ := h₁.placed q' (List.mem_singleton_self q')
      exact ⟨g, g', hg, by rw [h.kept q' hq, hg'], hsame⟩
    · obtain ⟨g, g', hg, hrest⟩ := h.placed q' hq'
      exact ⟨g, g', by rw [← hg, h₁.outside.fileAt_apart hapart], hrest⟩
  · intro d hd
    rw [List.mem_cons, not_or] at hd
    rw [h.kept d hd.2, h₁.kept d (by simpa using hd.1)]
  · intro d hdir
    rcases h.dirs d hdir with hdir | ⟨q', hq', hpre⟩
    · rcases h₁.dirs d hdir with hdir | ⟨q', hq', hpre⟩
      · exact .inl hdir
      · exact .inr ⟨q', List.mem_cons.2 (.inl (List.mem_singleton.1 hq')), hpre⟩
    · exact .inr ⟨q', List.mem_cons_of_mem _ hq', hpre⟩
  · intro d hd hdir
    rw [List.mem_cons, not_or] at hd
    exact h.dir d hd.2 (h₁.dir d (by simpa using hd.1) hdir)

/-- That a path can be replaced. -/
structure Clear (fs : FileSystem) (instanceRoot q : PurePath) : Prop where
  not_dir : fs.lookup (instanceRoot ++ q) ≠ some .dir
  way : ∀ d : PurePath, d <+: q → d ≠ q → fs.fileAt (instanceRoot ++ d) = none

theorem fileAt_ne_nil (hplain : fs.Plain newRoot) (h : fs.fileAt (newRoot ++ q) ≠ none) : q ≠ [] := by
  rintro rfl
  rw [List.append_nil, FileSystem.fileAt, hplain.dir] at h
  exact h rfl

/-- A file in its place leaves it as it was whether another path can be replaced. -/
theorem Done.clear_iff {q' : PurePath} (h : Done fs newRoot instanceRoot [q] fs') (hne : q' ≠ q)
    (hq : fs.fileAt (newRoot ++ q) ≠ none) (hq' : fs.fileAt (newRoot ++ q') ≠ none) :
    Clear fs' instanceRoot q' ↔ Clear fs instanceRoot q' := by
  have hup : ∀ d, d <+: q' → d ≠ q' → d ≠ q := by
    rintro d hd hdne rfl
    exact hdne (FileSystem.eq_of_below hq hq' hd)
  constructor
  · intro hclear
    refine ⟨fun hdir => hclear.not_dir (h.dir q' (by simpa using hne) hdir), fun d hd hdne => ?_⟩
    rw [← h.kept d (by simpa using hup d hd hdne)]
    exact hclear.way d hd hdne
  · intro hclear
    refine ⟨fun hdir => ?_, fun d hd hdne => ?_⟩
    · rcases h.dirs q' hdir with hdir | ⟨q'', hmem, hpre, -⟩
      · exact hclear.not_dir hdir
      · obtain rfl := List.mem_singleton.1 hmem
        exact hne (FileSystem.eq_of_below hq' hq hpre)
    · rw [h.kept d (by simpa using hup d hd hdne)]
      exact hclear.way d hd hdne

/-- The loop over the paths of the new version. -/
structure Updates (fs : FileSystem) (newRoot instanceRoot : PurePath) (qs : List PurePath) (updated : List String)
    (fs' : FileSystem) : Prop where
  done : Done fs newRoot instanceRoot qs fs'
  mem_iff : ∀ p, p ∈ updated ↔ ∃ q ∈ qs, p = q.name ∧ fs'.fileAt (instanceRoot ++ q) ≠ fs.fileAt (instanceRoot ++ q)
  same : ∀ q ∈ qs, ∀ f g, fs.fileAt (instanceRoot ++ q) = some f → fs.fileAt (newRoot ++ q) = some g → Same f g →
    fs'.fileAt (instanceRoot ++ q) = fs.fileAt (instanceRoot ++ q)

theorem collect_replace_ok (hapart : FileSystem.Apart newRoot instanceRoot) {qs : List PurePath} (hnodup : qs.Nodup)
    (hnew : fs.Plain newRoot) (hinstance : fs.Plain instanceRoot)
    (hqs : ∀ q ∈ qs, ∃ g, fs.fileAt (newRoot ++ q) = some g ∧ Accessible g)
    (hf : ∀ q f, fs.fileAt (instanceRoot ++ q) = some f → Accessible f) (hclear : ∀ q ∈ qs, Clear fs instanceRoot q) :
    ∃ updated fs', collect (replaceOne newRoot instanceRoot) (qs.map PurePath.name) fs = .ok updated fs' ∧
      Updates fs newRoot instanceRoot qs updated fs' := by
  induction qs generalizing fs with
  | nil => exact ⟨[], fs, rfl, done_nil hinstance, by simp, by simp⟩
  | cons q qs ih =>
    obtain ⟨hq, hnodup⟩ := List.nodup_cons.1 hnodup
    obtain ⟨g, hsrc, hg⟩ := hqs q List.mem_cons_self
    have hsrc' : fs.fileAt (newRoot ++ q) ≠ none := by rw [hsrc]; simp
    have hne := fileAt_ne_nil hnew hsrc'
    have hnormal := FileSystem.normal_of_fileAt hsrc'
    have hclearq := hclear q List.mem_cons_self
    have hway : ∀ d, d <+: q.dropLast → fs.fileAt (instanceRoot ++ d) = none := fun d hd =>
      have ⟨hpre, hdne⟩ := (PurePath.prefix_dropLast_iff hne).1 hd
      hclearq.way d hpre hdne
    obtain ⟨changed, fs₁, g', hstep, hsame, hg', hplaced, hchanged, hunchanged⟩ :=
      replaceOne_ok hnew hinstance hapart hnormal hne hsrc hg hway hclearq.not_dir (hf q)
    have hdone := hplaced.done hinstance hne hsrc hway hsame hg'
    have hnot : ∀ q' ∈ qs, q' ≠ q := fun q' hq' heq => hq (heq ▸ hq')
    have hself : fs₁.fileAt (instanceRoot ++ q) = some g' := hplaced.fileAt
    have hsrcs : ∀ q' ∈ qs, fs.fileAt (newRoot ++ q') ≠ none := fun q' hq' => by
      obtain ⟨g, hg, -⟩ := hqs q' (List.mem_cons_of_mem _ hq')
      rw [hg]
      simp
    have hqs₁ : ∀ q' ∈ qs, ∃ g, fs₁.fileAt (newRoot ++ q') = some g ∧ Accessible g := fun q' hq' => by
      rw [hdone.outside.fileAt_apart hapart]
      exact hqs q' (List.mem_cons_of_mem _ hq')
    have hf₁ : ∀ q' f, fs₁.fileAt (instanceRoot ++ q') = some f → Accessible f := by
      intro q' f hfile
      by_cases heq : q' = q
      · subst heq
        rw [hself, Option.some.injEq] at hfile
        exact hfile ▸ hg'
      · rw [hdone.kept q' (by simpa using heq)] at hfile
        exact hf q' f hfile
    have hclear₁ : ∀ q' ∈ qs, Clear fs₁ instanceRoot q' := fun q' hq' =>
      (hdone.clear_iff (hnot q' hq') hsrc' (hsrcs q' hq')).2 (hclear q' (List.mem_cons_of_mem _ hq'))
    obtain ⟨updated, fs', hrest, hupdates⟩ :=
      ih hnodup (hdone.outside.plain_apart hapart hnew) hdone.plain hqs₁ hf₁ hclear₁
    have hkept : ∀ q' ∈ qs, fs₁.fileAt (instanceRoot ++ q') = fs.fileAt (instanceRoot ++ q') := fun q' hq' =>
      hdone.kept q' (by simpa using hnot q' hq')
    have hhead : fs'.fileAt (instanceRoot ++ q) = some g' := by rw [hupdates.done.kept q hq, hself]
    refine ⟨if changed then q.name :: updated else updated, fs', ?_, hdone.cons hapart hq hupdates.done, fun p => ?_, ?_⟩
    · rw [List.map_cons, collect, bind_ok hstep, bind_ok hrest]
      rfl
    · have htail : p ∈ updated ↔ ∃ q ∈ qs, p = q.name ∧ fs'.fileAt (instanceRoot ++ q) ≠ fs.fileAt (instanceRoot ++ q) := by
        rw [hupdates.mem_iff]
        refine exists_congr fun q' => and_congr_right fun hq' => ?_
        rw [hkept q' hq']
      have hmem : p ∈ (if changed then q.name :: updated else updated) ↔
          (changed = true ∧ p = q.name) ∨ p ∈ updated := by
        cases changed <;> simp
      rw [hmem, htail, List.exists_mem_cons_iff, hchanged, hhead]
      refine or_congr_left ?_
      rw [and_comm, ne_comm]
    · intro q' hq' f g hfile hg hsame
      rcases List.mem_cons.1 hq' with rfl | hq'
      · have hsrc_eq := Option.some.inj (hsrc.symm.trans hg)
        have hfalse := hunchanged f hfile (hsrc_eq ▸ hsame)
        by_contra hne
        rw [hhead] at hne
        rw [hchanged.2 (Ne.symm hne)] at hfalse
        cases hfalse
      · rw [hupdates.same q' hq' f g (by rw [hkept q' hq', hfile]) (by rw [hdone.outside.fileAt_apart hapart, hg]) hsame, hkept q' hq']

theorem collect_raises {step : String → FileM Bool} {p : String} {ps : List String}
    (h : (∃ e fs', step p fs = .error e fs') ∨ ∃ changed fs₁, step p fs = .ok changed fs₁ ∧
      ∃ e fs', collect step ps fs₁ = .error e fs') : ∃ e fs', collect step (p :: ps) fs = .error e fs' := by
  rcases h with ⟨e, fs', hstep⟩ | ⟨changed, fs₁, hstep, e, fs', hrest⟩
  · exact ⟨e, fs', by rw [collect, bind_error hstep]⟩
  · exact ⟨e, fs', by rw [collect, bind_ok hstep, bind_error hrest]⟩

theorem collect_replace_raises (hapart : FileSystem.Apart newRoot instanceRoot) {qs : List PurePath} (hnodup : qs.Nodup)
    (hnew : fs.Plain newRoot) (hinstance : fs.Plain instanceRoot) (hnormal : ∀ q ∈ qs, q.Normal) (hne : ∀ q ∈ qs, q ≠ [])
    (hg : ∀ q g, fs.fileAt (newRoot ++ q) = some g → Accessible g)
    (hf : ∀ q f, fs.fileAt (instanceRoot ++ q) = some f → Accessible f)
    (h : ∃ q ∈ qs, ¬ (fs.fileAt (newRoot ++ q) ≠ none ∧ Clear fs instanceRoot q)) :
    ∃ e fs', collect (replaceOne newRoot instanceRoot) (qs.map PurePath.name) fs = .error e fs' := by
  induction qs generalizing fs with
  | nil => simp at h
  | cons q qs ih =>
    obtain ⟨hq, hnodup⟩ := List.nodup_cons.1 hnodup
    have hnormalq := hnormal q List.mem_cons_self
    have hneq := hne q List.mem_cons_self
    refine collect_raises ?_
    by_cases hhead : fs.fileAt (newRoot ++ q) ≠ none ∧ Clear fs instanceRoot q
    · right
      obtain ⟨hsrc', hclear⟩ := hhead
      obtain ⟨g, hsrc⟩ := Option.ne_none_iff_exists'.1 hsrc'
      have hway : ∀ d, d <+: q.dropLast → fs.fileAt (instanceRoot ++ d) = none := fun d hd =>
        have ⟨hpre, hdne⟩ := (PurePath.prefix_dropLast_iff hneq).1 hd
        hclear.way d hpre hdne
      obtain ⟨changed, fs₁, g', hstep, hsame, hg', hplaced, -⟩ :=
        replaceOne_ok hnew hinstance hapart hnormalq hneq hsrc (hg q g hsrc) hway hclear.not_dir (hf q)
      have hdone := hplaced.done hinstance hneq hsrc hway hsame hg'
      refine ⟨changed, fs₁, hstep, ih hnodup (hdone.outside.plain_apart hapart hnew) hdone.plain
        (fun q' hq' => hnormal q' (List.mem_cons_of_mem _ hq')) (fun q' hq' => hne q' (List.mem_cons_of_mem _ hq'))
        (fun q' g hg₁ => hg q' g (by rwa [hdone.outside.fileAt_apart hapart] at hg₁)) ?_ ?_⟩
      · intro q' f hfile
        by_cases heq : q' = q
        · subst heq
          rw [hplaced.fileAt, Option.some.injEq] at hfile
          exact hfile ▸ hg'
        · rw [hdone.kept q' (by simpa using heq)] at hfile
          exact hf q' f hfile
      · obtain ⟨q', hmem, hbad⟩ := h
        rcases List.mem_cons.1 hmem with rfl | hmem
        · exact absurd ⟨hsrc', hclear⟩ hbad
        · refine ⟨q', hmem, fun ⟨hsrc₁, hclear₁⟩ => hbad ?_⟩
          rw [hdone.outside.fileAt_apart hapart] at hsrc₁
          exact ⟨hsrc₁, (hdone.clear_iff (fun heq => hq (heq ▸ hmem)) hsrc' hsrc₁).1 hclear₁⟩
    · left
      refine replaceOne_raises hnew hinstance hapart hnormalq hneq ?_
      by_contra hnone
      push Not at hnone
      refine hhead ⟨hnone.2.2, hnone.2.1, fun d hd hdne => ?_⟩
      exact hnone.1 d ((PurePath.prefix_dropLast_iff hneq).2 ⟨hd, hdne⟩)

/-! ### Files taken away -/

/-- The loop over the paths that the new version has no longer. -/
structure Deletes (fs : FileSystem) (instanceRoot : PurePath) (qs : List PurePath) (removed : List String)
    (fs' : FileSystem) : Prop where
  gone : ∀ q ∈ qs, fs'.lookup (instanceRoot ++ q) = none
  frame : ∀ r, (∀ q ∈ qs, r ≠ instanceRoot ++ q) → fs'.lookup r = fs.lookup r
  mem_iff : ∀ p, p ∈ removed ↔ ∃ q ∈ qs, p = q.name ∧ fs.fileAt (instanceRoot ++ q) ≠ none

namespace Deletes

variable {qs : List PurePath} {removed : List String}

theorem fileAt_gone (h : Deletes fs instanceRoot qs removed fs') (hq : q ∈ qs) : fs'.fileAt (instanceRoot ++ q) = none := by
  rw [FileSystem.fileAt, h.gone q hq]

theorem lookup_kept (h : Deletes fs instanceRoot qs removed fs') (hq : q ∉ qs) :
    fs'.lookup (instanceRoot ++ q) = fs.lookup (instanceRoot ++ q) :=
  h.frame _ fun _ hq' heq => hq (List.append_cancel_left heq ▸ hq')

theorem fileAt_kept (h : Deletes fs instanceRoot qs removed fs') (hq : q ∉ qs) :
    fs'.fileAt (instanceRoot ++ q) = fs.fileAt (instanceRoot ++ q) := by
  rw [FileSystem.fileAt, FileSystem.fileAt, h.lookup_kept hq]

theorem sameOutside (h : Deletes fs instanceRoot qs removed fs') : fs.SameOutside instanceRoot fs' := by
  intro r hr
  refine h.frame r ?_
  rintro q - rfl
  exact hr (List.prefix_append _ _)

theorem plain (h : Deletes fs instanceRoot qs removed fs') (hne : ∀ q ∈ qs, q ≠ []) (hplain : fs.Plain instanceRoot) :
    fs'.Plain instanceRoot := by
  constructor
  · rw [h.frame _ fun q hq heq => hne q hq (by simpa using heq), hplain.dir]
  · intro q target
    by_cases hq : q ∈ qs
    · rw [h.gone q hq]
      simp
    · rw [h.lookup_kept hq]
      exact hplain.not_link q target

end Deletes

theorem collect_remove_ok {qs : List PurePath} (hnodup : qs.Nodup) (hinstance : fs.Plain instanceRoot)
    (hnormal : ∀ q ∈ qs, q.Normal) (hne : ∀ q ∈ qs, q ≠ []) (hdir : ∀ q ∈ qs, fs.lookup (instanceRoot ++ q) ≠ some .dir) :
    ∃ removed fs', collect (removeOne instanceRoot) (qs.map PurePath.name) fs = .ok removed fs' ∧
      Deletes fs instanceRoot qs removed fs' := by
  induction qs generalizing fs with
  | nil => exact ⟨[], fs, rfl, by simp, by simp, by simp⟩
  | cons q qs ih =>
    obtain ⟨hq, hnodup⟩ := List.nodup_cons.1 hnodup
    have hneq := hne q List.mem_cons_self
    obtain ⟨fs₁, hstep, hputs⟩ := removeOne_ok hinstance (hnormal q List.mem_cons_self) hneq (hdir q List.mem_cons_self)
    have hother : ∀ q' ∈ qs, instanceRoot ++ q' ≠ instanceRoot ++ q := fun q' hq' heq =>
      hq (List.append_cancel_left heq ▸ hq')
    have hkept : ∀ q' ∈ qs, fs₁.lookup (instanceRoot ++ q') = fs.lookup (instanceRoot ++ q') := fun q' hq' => by
      rw [hputs, if_neg (hother q' hq')]
    obtain ⟨removed, fs', hrest, hgone, hframe, hmem⟩ := ih hnodup (hputs.plain (by simp) hinstance (by simpa using hneq))
      (fun q' hq' => hnormal q' (List.mem_cons_of_mem _ hq')) (fun q' hq' => hne q' (List.mem_cons_of_mem _ hq'))
      fun q' hq' => by rw [hkept q' hq']; exact hdir q' (List.mem_cons_of_mem _ hq')
    refine ⟨if (fs.fileAt (instanceRoot ++ q)).isSome then q.name :: removed else removed, fs', ?_, ?_, ?_, fun p => ?_⟩
    · rw [List.map_cons, collect, bind_ok hstep, bind_ok hrest]
      rfl
    · intro q' hq'
      rcases List.mem_cons.1 hq' with rfl | hq'
      · rw [hframe _ fun q'' hq'' heq => hother q'' hq'' heq.symm, hputs, if_pos rfl]
      · exact hgone q' hq'
    · intro r hr
      rw [hframe r fun q' hq' => hr q' (List.mem_cons_of_mem _ hq'), hputs, if_neg (hr q List.mem_cons_self)]
    · have htail : p ∈ removed ↔ ∃ q ∈ qs, p = q.name ∧ fs.fileAt (instanceRoot ++ q) ≠ none := by
        rw [hmem]
        refine exists_congr fun q' => and_congr_right fun hq' => ?_
        rw [FileSystem.fileAt, FileSystem.fileAt, hkept q' hq']
      rw [List.exists_mem_cons_iff, ← htail]
      cases hfile : fs.fileAt (instanceRoot ++ q) <;> simp

theorem collect_remove_raises {qs : List PurePath} (hinstance : fs.Plain instanceRoot)
    (hnormal : ∀ q ∈ qs, q.Normal) (hne : ∀ q ∈ qs, q ≠ [])
    (h : ∃ q ∈ qs, fs.lookup (instanceRoot ++ q) = some .dir) :
    ∃ e fs', collect (removeOne instanceRoot) (qs.map PurePath.name) fs = .error e fs' := by
  induction qs generalizing fs with
  | nil => simp at h
  | cons q qs ih =>
    have hnormalq := hnormal q List.mem_cons_self
    have hneq := hne q List.mem_cons_self
    refine collect_raises ?_
    by_cases hdir : fs.lookup (instanceRoot ++ q) = some .dir
    · exact .inl (removeOne_raises hinstance hnormalq hneq hdir)
    · right
      obtain ⟨fs₁, hstep, hputs⟩ := removeOne_ok hinstance hnormalq hneq hdir
      refine ⟨_, fs₁, hstep, ih (hputs.plain (by simp) hinstance (by simpa using hneq))
        (fun q' hq' => hnormal q' (List.mem_cons_of_mem _ hq')) (fun q' hq' => hne q' (List.mem_cons_of_mem _ hq')) ?_⟩
      obtain ⟨q', hmem, hdir'⟩ := h
      have hq' : q' ≠ q := by
        rintro rfl
        exact hdir hdir'
      refine ⟨q', (List.mem_cons.1 hmem).resolve_left hq', ?_⟩
      rw [hputs, if_neg fun heq => hq' (List.append_cancel_left heq), hdir']

/-! ### Convergence -/

/-- An old version, a new version and an instance in directories of their own, without links. -/
structure Trees (fs : FileSystem) (oldRoot newRoot instanceRoot : PurePath) : Prop where
  oldPlain : fs.Plain oldRoot
  newPlain : fs.Plain newRoot
  instancePlain : fs.Plain instanceRoot
  oldApart : FileSystem.Apart oldRoot instanceRoot
  newApart : FileSystem.Apart newRoot instanceRoot

/-- The files of the old and the new version that belong to a tier. -/
def TierFiles (fs : FileSystem) (oldRoot newRoot : PurePath) (tier : PurePath → Prop) (paths : Finset String) : Prop :=
  ∀ p, p ∈ paths ↔ ∃ q, p = q.name ∧ tier q ∧ (fs.fileAt (oldRoot ++ q) ≠ none ∨ fs.fileAt (newRoot ++ q) ≠ none)

/-- What a sync of the replace tier comes to. -/
structure Converged (fs : FileSystem) (oldRoot newRoot instanceRoot : PurePath) (tier : PurePath → Prop)
    (paths : Finset String) (report : Replaced) (fs' : FileSystem) : Prop where
  new : ∀ q g, tier q → fs.fileAt (newRoot ++ q) = some g → ∃ f, fs'.fileAt (instanceRoot ++ q) = some f ∧ Same f g
  old : ∀ q, tier q → fs.fileAt (oldRoot ++ q) ≠ none → fs.fileAt (newRoot ++ q) = none →
    fs'.fileAt (instanceRoot ++ q) = none
  others : ∀ q, q.name ∉ paths → fs'.fileAt (instanceRoot ++ q) = fs.fileAt (instanceRoot ++ q)
  updated : ∀ p, p ∈ report.updated ↔ ∃ q, p = q.name ∧ fs'.fileAt (instanceRoot ++ q) ≠ none ∧
    fs'.fileAt (instanceRoot ++ q) ≠ fs.fileAt (instanceRoot ++ q)
  removed : ∀ p, p ∈ report.removed ↔ ∃ q, p = q.name ∧ fs'.fileAt (instanceRoot ++ q) = none ∧
    fs.fileAt (instanceRoot ++ q) ≠ none
  again : ∃ fs'', applyReplace oldRoot newRoot instanceRoot paths fs' = .ok ⟨[], []⟩ fs''

def Converges (fs : FileSystem) (oldRoot newRoot instanceRoot : PurePath) (tier : PurePath → Prop)
    (paths : Finset String) : Prop :=
  ∃ report fs', applyReplace oldRoot newRoot instanceRoot paths fs = .ok report fs' ∧
    Converged fs oldRoot newRoot instanceRoot tier paths report fs'

/-- No path of the tier is a directory of the new version or of the instance, and no file of the instance is
where a file of the new version needs a directory. -/
def NoClash (fs : FileSystem) (oldRoot newRoot instanceRoot : PurePath) (tier : PurePath → Prop) : Prop :=
  ∀ q, tier q → fs.fileAt (oldRoot ++ q) ≠ none ∨ fs.fileAt (newRoot ++ q) ≠ none →
    fs.lookup (newRoot ++ q) ≠ some .dir ∧ fs.lookup (instanceRoot ++ q) ≠ some .dir ∧
    (fs.fileAt (newRoot ++ q) ≠ none → ∀ d : PurePath, d <+: q → d ≠ q → fs.fileAt (instanceRoot ++ d) = none)

theorem TierFiles.normal {tier : PurePath → Prop} {paths : Finset String} (h : TierFiles fs oldRoot newRoot tier paths)
    {p : String} (hp : p ∈ paths) : ∃ q : PurePath, p = q.name ∧ q.Normal ∧ tier q ∧
      (fs.fileAt (oldRoot ++ q) ≠ none ∨ fs.fileAt (newRoot ++ q) ≠ none) := by
  obtain ⟨q, hname, htier, hfile⟩ := (h p).1 hp
  exact ⟨q, hname, hfile.elim FileSystem.normal_of_fileAt FileSystem.normal_of_fileAt, htier, hfile⟩

theorem TierFiles.name_mem_iff {tier : PurePath → Prop} {paths : Finset String} (h : TierFiles fs oldRoot newRoot tier paths)
    (hq : q.Normal) : q.name ∈ paths ↔ tier q ∧ (fs.fileAt (oldRoot ++ q) ≠ none ∨ fs.fileAt (newRoot ++ q) ≠ none) := by
  constructor
  · intro hp
    obtain ⟨q', hname, hnormal, hrest⟩ := h.normal hp
    rwa [PurePath.name_injective hq hnormal hname]
  · exact fun hrest => (h _).2 ⟨q, rfl, hrest⟩

/-- A set of paths in order, read. -/
theorem exists_sorted {paths : Finset String} (h : ∀ p ∈ paths, ∃ q : PurePath, p = q.name ∧ q.Normal) :
    ∃ qs : List PurePath, paths.sort = qs.map PurePath.name ∧ qs.Nodup ∧ (∀ q ∈ qs, q.Normal) ∧
      ∀ q : PurePath, q.Normal → (q ∈ qs ↔ q.name ∈ paths) := by
  have hname : ∀ p ∈ paths, (PurePath.ofName p).name = p ∧ (PurePath.ofName p).Normal := by
    intro p hp
    obtain ⟨q, rfl, hq⟩ := h p hp
    rw [PurePath.ofName_name hq]
    exact ⟨rfl, hq⟩
  have hmap : paths.sort = (paths.sort.map PurePath.ofName).map PurePath.name := by
    rw [List.map_map, List.map_congr_left, List.map_id]
    exact fun p hp => (hname p (by simpa using hp)).1
  refine ⟨paths.sort.map PurePath.ofName, hmap, ?_, ?_, fun q hq => ?_⟩
  · refine List.Nodup.of_map PurePath.name ?_
    rw [← hmap]
    exact Finset.sort_nodup _ _
  · intro q hq
    obtain ⟨p, hp, rfl⟩ := List.mem_map.1 hq
    exact (hname p (by simpa using hp)).2
  · rw [List.mem_map]
    constructor
    · rintro ⟨p, hp, rfl⟩
      have hp' : p ∈ paths := by simpa using hp
      rwa [(hname p hp').1]
    · intro hp
      exact ⟨q.name, by simpa using hp, PurePath.ofName_name hq⟩

theorem lookup_eq_none {root : PurePath} (hplain : fs.Plain root) (hdir : fs.lookup (root ++ q) ≠ some .dir)
    (hfile : fs.fileAt (root ++ q) = none) : fs.lookup (root ++ q) = none := by
  cases hentry : fs.lookup (root ++ q) with
  | none => rfl
  | some n =>
    cases n with
    | file f =>
      rw [FileSystem.fileAt, hentry] at hfile
      cases hfile
    | dir => exact absurd hentry hdir
    | link target => exact absurd hentry (hplain.not_link q target)

theorem lookup_ne_none (h : fs.fileAt q ≠ none) : fs.lookup q ≠ none := fun hnone => h (by rw [FileSystem.fileAt, hnone])

/-- The two loops. -/
def loops (newRoot instanceRoot : PurePath) (news olds : List PurePath) : FileM Replaced := do
  let updated ← collect (replaceOne newRoot instanceRoot) (news.map PurePath.name)
  let removed ← collect (removeOne instanceRoot) (olds.map PurePath.name)
  pure ⟨updated, removed⟩

theorem exists_loops {tier : PurePath → Prop} {paths : Finset String} (htrees : Trees fs oldRoot newRoot instanceRoot)
    (hpaths : TierFiles fs oldRoot newRoot tier paths) :
    ∃ news olds : List PurePath, applyReplace oldRoot newRoot instanceRoot paths fs = loops newRoot instanceRoot news olds fs ∧
      (news.Nodup ∧ ∀ q, q ∈ news ↔ q.Normal ∧ tier q ∧
        (fs.fileAt (oldRoot ++ q) ≠ none ∨ fs.fileAt (newRoot ++ q) ≠ none) ∧ fs.lookup (newRoot ++ q) ≠ none) ∧
      (olds.Nodup ∧ ∀ q, q ∈ olds ↔ q.Normal ∧ tier q ∧ fs.fileAt (oldRoot ++ q) ≠ none ∧ fs.lookup (newRoot ++ q) = none) := by
  let exists_ := fun (root : PurePath) (path : String) => fs.pathExists (FilePath.join root path)
  have hexists : ∀ {root q : PurePath}, fs.Plain root → q.Normal →
      (exists_ root q.name = true ↔ fs.lookup (root ++ q) ≠ none) := fun hplain hq => by
    show fs.pathExists (FilePath.join _ _) = true ↔ _
    rw [FilePath.join_name hq, hplain.pathExists_iff hq]
  have hname : ∀ p ∈ paths, ∃ q : PurePath, p = q.name ∧ q.Normal := fun p hp => by
    obtain ⟨q, heq, hq, -⟩ := hpaths.normal hp
    exact ⟨q, heq, hq⟩
  have hnews : ∀ p ∈ paths.filter (exists_ newRoot ·), ∃ q : PurePath, p = q.name ∧ q.Normal := fun p hp =>
    hname p (Finset.mem_filter.1 hp).1
  have holds : ∀ p ∈ paths.filter (exists_ oldRoot ·) \ paths.filter (exists_ newRoot ·),
      ∃ q : PurePath, p = q.name ∧ q.Normal := fun p hp =>
    hname p (Finset.mem_filter.1 (Finset.mem_sdiff.1 hp).1).1
  obtain ⟨news, hnewsort, hnewnodup, hnewnormal, hnewmem⟩ := exists_sorted hnews
  obtain ⟨olds, holdsort, holdnodup, holdnormal, holdmem⟩ := exists_sorted holds
  refine ⟨news, olds, ?_, ⟨hnewnodup, fun q => ?_⟩, holdnodup, fun q => ?_⟩
  · unfold applyReplace loops
    rw [get_bind, ← hnewsort, ← holdsort]
  · by_cases hq : q.Normal
    · rw [hnewmem q hq, Finset.mem_filter, hpaths.name_mem_iff hq, hexists htrees.newPlain hq]
      tauto
    · exact iff_of_false (fun hmem => hq (hnewnormal q hmem)) fun h => hq h.1
  · by_cases hq : q.Normal
    · rw [holdmem q hq, Finset.mem_sdiff, Finset.mem_filter, Finset.mem_filter, hpaths.name_mem_iff hq,
        hexists htrees.newPlain hq, hexists htrees.oldPlain hq]
      have hold : fs.fileAt (oldRoot ++ q) ≠ none → fs.lookup (oldRoot ++ q) ≠ none := lookup_ne_none
      have hnew : fs.fileAt (newRoot ++ q) ≠ none → fs.lookup (newRoot ++ q) ≠ none := lookup_ne_none
      tauto
    · exact iff_of_false (fun hmem => hq (holdnormal q hmem)) fun h => hq h.1

/-- A run that ends well. -/
structure Applied (fs : FileSystem) (oldRoot newRoot instanceRoot : PurePath) (tier : PurePath → Prop)
    (paths : Finset String) (report : Replaced) (fs' : FileSystem) : Prop where
  outside : fs.SameOutside instanceRoot fs'
  plain : fs'.Plain instanceRoot
  new : ∀ q g, tier q → fs.fileAt (newRoot ++ q) = some g →
    ∃ f, fs'.fileAt (instanceRoot ++ q) = some f ∧ Same f g ∧ Accessible f
  old : ∀ q, tier q → fs.fileAt (oldRoot ++ q) ≠ none → fs.fileAt (newRoot ++ q) = none →
    fs'.fileAt (instanceRoot ++ q) = none
  others : ∀ q, q.name ∉ paths → fs'.fileAt (instanceRoot ++ q) = fs.fileAt (instanceRoot ++ q)
  dirs : ∀ d, fs'.lookup (instanceRoot ++ d) = some .dir → fs.lookup (instanceRoot ++ d) = some .dir ∨
    ∃ q, fs.fileAt (newRoot ++ q) ≠ none ∧ d <+: q ∧ d ≠ q
  updated : ∀ p, p ∈ report.updated ↔ ∃ q, p = q.name ∧ fs'.fileAt (instanceRoot ++ q) ≠ none ∧
    fs'.fileAt (instanceRoot ++ q) ≠ fs.fileAt (instanceRoot ++ q)
  removed : ∀ p, p ∈ report.removed ↔ ∃ q, p = q.name ∧ fs'.fileAt (instanceRoot ++ q) = none ∧
    fs.fileAt (instanceRoot ++ q) ≠ none
  quiet : (∀ q g, tier q → fs.fileAt (newRoot ++ q) = some g → ∃ f, fs.fileAt (instanceRoot ++ q) = some f ∧ Same f g) →
    (∀ q, tier q → fs.fileAt (oldRoot ++ q) ≠ none → fs.fileAt (newRoot ++ q) = none →
      fs.fileAt (instanceRoot ++ q) = none) → report = ⟨[], []⟩

/-! What the two loops leave, when they go over different paths. -/

section Loops

variable {news olds : List PurePath} {updated removed : List String} {fs₁ : FileSystem}
  (hupdates : Updates fs newRoot instanceRoot news updated fs₁) (hdeletes : Deletes fs₁ instanceRoot olds removed fs')
  (hdisjoint : ∀ q ∈ olds, q ∉ news)
include hupdates

/-- Below a new file nothing else is new, so no directory has come where an old file was. -/
theorem Updates.not_dir (hnews : ∀ q ∈ news, fs.fileAt (newRoot ++ q) ≠ none) (hnone : fs.lookup (newRoot ++ q) = none)
    (hdir : fs.lookup (instanceRoot ++ q) ≠ some .dir) : fs₁.lookup (instanceRoot ++ q) ≠ some .dir := by
  intro h
  rcases hupdates.done.dirs q h with h | ⟨q', hq', hpre, hne⟩
  · exact hdir h
  · have hbelow : fs.lookup (newRoot ++ q) = some .dir :=
      FileSystem.dir_of_below ((List.prefix_append_right_inj newRoot).2 hpre) (fun heq => hne (List.append_cancel_left heq))
        (lookup_ne_none (hnews q' hq'))
    rw [hnone] at hbelow
    cases hbelow

include hdeletes hdisjoint

theorem mem_updated_iff (p : String) : p ∈ updated ↔ ∃ q, p = q.name ∧ fs'.fileAt (instanceRoot ++ q) ≠ none ∧
    fs'.fileAt (instanceRoot ++ q) ≠ fs.fileAt (instanceRoot ++ q) := by
  rw [hupdates.mem_iff]
  constructor
  · rintro ⟨q, hq, rfl, hchanged⟩
    obtain ⟨-, f, -, hf, -⟩ := hupdates.done.placed q hq
    have hkept := hdeletes.fileAt_kept fun hold => hdisjoint q hold hq
    exact ⟨q, rfl, by rw [hkept, hf]; simp, by rwa [hkept]⟩
  · rintro ⟨q, rfl, hthere, hchanged⟩
    rw [hdeletes.fileAt_kept fun hold => hthere (hdeletes.fileAt_gone hold)] at hchanged
    refine ⟨q, ?_, rfl, hchanged⟩
    by_contra hq
    exact hchanged (hupdates.done.kept q hq)

theorem mem_removed_iff (p : String) : p ∈ removed ↔ ∃ q, p = q.name ∧ fs'.fileAt (instanceRoot ++ q) = none ∧
    fs.fileAt (instanceRoot ++ q) ≠ none := by
  rw [hdeletes.mem_iff]
  constructor
  · rintro ⟨q, hq, rfl, hthere⟩
    rw [hupdates.done.kept q (hdisjoint q hq)] at hthere
    exact ⟨q, rfl, hdeletes.fileAt_gone hq, hthere⟩
  · rintro ⟨q, rfl, hnone, hthere⟩
    have hold : q ∈ olds := by
      by_contra hold
      rw [hdeletes.fileAt_kept hold] at hnone
      by_cases hq : q ∈ news
      · obtain ⟨-, f, -, hf, -⟩ := hupdates.done.placed q hq
        rw [hf] at hnone
        cases hnone
      · rw [hupdates.done.kept q hq] at hnone
        exact hthere hnone
    exact ⟨q, hold, rfl, by rwa [hupdates.done.kept q (hdisjoint q hold)]⟩

/-- Where everything is in its place nothing is reported. -/
theorem reports_nil
    (hsynced : ∀ q ∈ news, ∃ f g, fs.fileAt (instanceRoot ++ q) = some f ∧ fs.fileAt (newRoot ++ q) = some g ∧ Same f g)
    (habsent : ∀ q ∈ olds, fs.fileAt (instanceRoot ++ q) = none) : updated = [] ∧ removed = [] := by
  constructor
  · refine List.eq_nil_iff_forall_not_mem.2 fun p hp => ?_
    obtain ⟨q, hq, -, hchanged⟩ := (hupdates.mem_iff p).1 hp
    obtain ⟨f, g, hf, hg, hsame⟩ := hsynced q hq
    exact hchanged (hupdates.same q hq f g hf hg hsame)
  · refine List.eq_nil_iff_forall_not_mem.2 fun p hp => ?_
    obtain ⟨q, hq, -, hthere⟩ := (hdeletes.mem_iff p).1 hp
    rw [hupdates.done.kept q (hdisjoint q hq)] at hthere
    exact hthere (habsent q hq)

end Loops

/-- What the loops go over where nothing clashes: the files of the new version, and what the old one had besides. -/
theorem exists_loops_of_noClash {tier : PurePath → Prop} {paths : Finset String} (htrees : Trees fs oldRoot newRoot instanceRoot)
    (hpaths : TierFiles fs oldRoot newRoot tier paths) (hclash : NoClash fs oldRoot newRoot instanceRoot tier) :
    ∃ news olds : List PurePath, applyReplace oldRoot newRoot instanceRoot paths fs = loops newRoot instanceRoot news olds fs ∧
      (news.Nodup ∧ ∀ q, q ∈ news ↔ tier q ∧ fs.fileAt (newRoot ++ q) ≠ none) ∧
      (olds.Nodup ∧ ∀ q, q ∈ olds ↔ tier q ∧ fs.fileAt (oldRoot ++ q) ≠ none ∧ fs.lookup (newRoot ++ q) = none) := by
  obtain ⟨news, olds, hrun, ⟨hnewnodup, hnews⟩, holdnodup, holds⟩ := exists_loops htrees hpaths
  refine ⟨news, olds, hrun, ⟨hnewnodup, fun q => ?_⟩, holdnodup, fun q => ?_⟩
  · rw [hnews]
    constructor
    · rintro ⟨-, htier, hfile, hentry⟩
      exact ⟨htier, fun hnone => hentry (lookup_eq_none htrees.newPlain (hclash q htier hfile).1 hnone)⟩
    · rintro ⟨htier, hfile⟩
      exact ⟨FileSystem.normal_of_fileAt hfile, htier, .inr hfile, lookup_ne_none hfile⟩
  · rw [holds]
    exact and_iff_right_of_imp fun h => FileSystem.normal_of_fileAt h.2.1

theorem applyReplace_ok {tier : PurePath → Prop} {paths : Finset String} (htrees : Trees fs oldRoot newRoot instanceRoot)
    (hpaths : TierFiles fs oldRoot newRoot tier paths)
    (hg : ∀ q g, fs.fileAt (newRoot ++ q) = some g → Accessible g)
    (hf : ∀ q f, fs.fileAt (instanceRoot ++ q) = some f → Accessible f)
    (hclash : NoClash fs oldRoot newRoot instanceRoot tier) :
    ∃ report fs', applyReplace oldRoot newRoot instanceRoot paths fs = .ok report fs' ∧
      Applied fs oldRoot newRoot instanceRoot tier paths report fs' := by
  obtain ⟨news, olds, hrun, ⟨hnewnodup, hnews⟩, holdnodup, holds⟩ := exists_loops_of_noClash htrees hpaths hclash
  obtain ⟨hold, hnew, hinstance, holdapart, hnewapart⟩ := htrees
  have hclear : ∀ q ∈ news, Clear fs instanceRoot q := fun q hq =>
    have ⟨htier, hfile⟩ := (hnews q).1 hq
    have ⟨_, hdir, hway⟩ := hclash q htier (.inr hfile)
    ⟨hdir, hway hfile⟩
  have hsrc : ∀ q ∈ news, ∃ g, fs.fileAt (newRoot ++ q) = some g ∧ Accessible g := by
    intro q hq
    obtain ⟨g, hfile⟩ := Option.ne_none_iff_exists'.1 ((hnews q).1 hq).2
    exact ⟨g, hfile, hg q g hfile⟩
  have hdisjoint : ∀ q ∈ olds, q ∉ news := fun q hq hmem => lookup_ne_none ((hnews q).1 hmem).2 ((holds q).1 hq).2.2
  have holdne : ∀ q ∈ olds, q ≠ [] := fun q hq => fileAt_ne_nil hold ((holds q).1 hq).2.1
  obtain ⟨updated, fs₁, hupdate, hupdates⟩ := collect_replace_ok hnewapart hnewnodup hnew hinstance hsrc hf hclear
  have hdone := hupdates.done
  obtain ⟨removed, fs', hremove, hdeletes⟩ := collect_remove_ok holdnodup hdone.plain
    (fun q hq => FileSystem.normal_of_fileAt ((holds q).1 hq).2.1) holdne fun q hq =>
      have ⟨htier, hfile, hnone⟩ := (holds q).1 hq
      hupdates.not_dir (fun q' hq' => ((hnews q').1 hq').2) hnone (hclash q htier (.inl hfile)).2.1
  refine ⟨⟨updated, removed⟩, fs', ?_, ?_⟩
  · rw [hrun, loops, bind_ok hupdate, bind_ok hremove]
    rfl
  constructor
  · exact hdone.outside.trans hdeletes.sameOutside
  · exact hdeletes.plain holdne hdone.plain
  · intro q g htier hfile
    have hq := (hnews q).2 ⟨htier, by rw [hfile]; simp⟩
    obtain ⟨g', f, hg', hf', hsame, haccess⟩ := hdone.placed q hq
    rw [hfile, Option.some.injEq] at hg'
    exact ⟨f, by rw [hdeletes.fileAt_kept fun hold => hdisjoint q hold hq, hf'], hg' ▸ hsame, haccess⟩
  · intro q htier hold hnone
    exact hdeletes.fileAt_gone ((holds q).2 ⟨htier, hold, lookup_eq_none hnew (hclash q htier (.inl hold)).1 hnone⟩)
  · intro q hq
    have hnotnew : q ∉ news := fun hmem =>
      have ⟨htier, hfile⟩ := (hnews q).1 hmem
      hq ((hpaths _).2 ⟨q, rfl, htier, .inr hfile⟩)
    have hnotold : q ∉ olds := fun hmem =>
      have ⟨htier, hfile, _⟩ := (holds q).1 hmem
      hq ((hpaths _).2 ⟨q, rfl, htier, .inl hfile⟩)
    rw [hdeletes.fileAt_kept hnotold, hdone.kept q hnotnew]
  · intro d hdir
    have hd : d ∉ olds := fun hmem => by
      rw [hdeletes.gone d hmem] at hdir
      cases hdir
    rw [hdeletes.lookup_kept hd] at hdir
    exact (hdone.dirs d hdir).imp_right fun ⟨q, hq, hpre⟩ => ⟨q, ((hnews q).1 hq).2, hpre⟩
  · exact mem_updated_iff hupdates hdeletes hdisjoint
  · exact mem_removed_iff hupdates hdeletes hdisjoint
  · intro hsynced habsent
    obtain ⟨hupdated, hremoved⟩ := reports_nil hupdates hdeletes hdisjoint
      (fun q hq => by
        obtain ⟨g, hg', -⟩ := hsrc q hq
        obtain ⟨f, hf', hsame⟩ := hsynced q g ((hnews q).1 hq).1 hg'
        exact ⟨f, g, hf', hg', hsame⟩)
      fun q hq => by
        obtain ⟨htier, hfile, hnone⟩ := (holds q).1 hq
        exact habsent q htier hfile (by rw [FileSystem.fileAt, hnone])
    rw [hupdated, hremoved]

theorem applyReplace_raises {tier : PurePath → Prop} {paths : Finset String} (htrees : Trees fs oldRoot newRoot instanceRoot)
    (hpaths : TierFiles fs oldRoot newRoot tier paths)
    (hg : ∀ q g, fs.fileAt (newRoot ++ q) = some g → Accessible g)
    (hf : ∀ q f, fs.fileAt (instanceRoot ++ q) = some f → Accessible f)
    (hclash : ¬ NoClash fs oldRoot newRoot instanceRoot tier) :
    ∃ e fs', applyReplace oldRoot newRoot instanceRoot paths fs = .error e fs' := by
  obtain ⟨news, olds, hrun, ⟨hnewnodup, hnews⟩, holdnodup, holds⟩ := exists_loops htrees hpaths
  obtain ⟨hold, hnew, hinstance, holdapart, hnewapart⟩ := htrees
  have hnewne : ∀ q ∈ news, q ≠ [] := by
    intro q hq
    obtain ⟨-, -, hfile, -⟩ := (hnews q).1 hq
    exact hfile.elim (fileAt_ne_nil hold) (fileAt_ne_nil hnew)
  rw [hrun, loops]
  by_cases hbad : ∃ q ∈ news, ¬ (fs.fileAt (newRoot ++ q) ≠ none ∧ Clear fs instanceRoot q)
  · obtain ⟨e, fs', hraise⟩ := collect_replace_raises hnewapart hnewnodup hnew hinstance
      (fun q hq => ((hnews q).1 hq).1) hnewne hg hf hbad
    exact ⟨e, fs', bind_error hraise⟩
  · have hgood : ∀ q ∈ news, fs.fileAt (newRoot ++ q) ≠ none ∧ Clear fs instanceRoot q := by
      intro q hq
      by_contra hnot
      exact hbad ⟨q, hq, hnot⟩
    have hsrc : ∀ q ∈ news, ∃ g, fs.fileAt (newRoot ++ q) = some g ∧ Accessible g := by
      intro q hq
      obtain ⟨g, hfile⟩ := Option.ne_none_iff_exists'.1 (hgood q hq).1
      exact ⟨g, hfile, hg q g hfile⟩
    obtain ⟨updated, fs₁, hupdate, hupdates⟩ :=
      collect_replace_ok hnewapart hnewnodup hnew hinstance hsrc hf fun q hq => (hgood q hq).2
    -- what stands in the way of no new file stands where an old one was
    have hdir : ∃ q ∈ olds, fs.lookup (instanceRoot ++ q) = some .dir := by
      unfold NoClash at hclash
      push Not at hclash
      obtain ⟨q, htier, hfile, hclash⟩ := hclash
      have hnormal : q.Normal := hfile.elim FileSystem.normal_of_fileAt FileSystem.normal_of_fileAt
      by_cases hentry : fs.lookup (newRoot ++ q) = none
      · have hnone : fs.fileAt (newRoot ++ q) = none := by rw [FileSystem.fileAt, hentry]
        refine ⟨q, (holds q).2 ⟨hnormal, htier, hfile.resolve_right (absurd hnone), hentry⟩, ?_⟩
        by_contra hdir
        obtain ⟨hthere, -⟩ := hclash (by rw [hentry]; simp) hdir
        exact hthere hnone
      · have hq : q ∈ news := (hnews q).2 ⟨hnormal, htier, hfile, hentry⟩
        obtain ⟨hthere, hclear⟩ := hgood q hq
        obtain ⟨-, d, hd, hdne, hway⟩ := hclash (fun hdir => hthere (by rw [FileSystem.fileAt, hdir])) hclear.not_dir
        exact absurd (hclear.way d hd hdne) hway
    obtain ⟨q, hq, hdir⟩ := hdir
    have hnotnew : q ∉ news := fun hmem => lookup_ne_none (hgood q hmem).1 ((holds q).1 hq).2.2.2
    obtain ⟨e, fs', hraise⟩ := collect_remove_raises hupdates.done.plain (fun q hq => ((holds q).1 hq).1)
      (fun q hq => fileAt_ne_nil hold ((holds q).1 hq).2.2.1) ⟨q, hq, hupdates.done.dir q hnotnew hdir⟩
    exact ⟨e, fs', by rw [bind_ok hupdate, bind_error hraise]⟩

section

variable {tier : PurePath → Prop} {paths : Finset String} {report : Replaced}

theorem Applied.trees (h : Applied fs oldRoot newRoot instanceRoot tier paths report fs')
    (htrees : Trees fs oldRoot newRoot instanceRoot) : Trees fs' oldRoot newRoot instanceRoot :=
  ⟨h.outside.plain_apart htrees.oldApart htrees.oldPlain, h.outside.plain_apart htrees.newApart htrees.newPlain, h.plain,
    htrees.oldApart, htrees.newApart⟩

theorem Applied.tierFiles (h : Applied fs oldRoot newRoot instanceRoot tier paths report fs')
    (htrees : Trees fs oldRoot newRoot instanceRoot) (hpaths : TierFiles fs oldRoot newRoot tier paths) :
    TierFiles fs' oldRoot newRoot tier paths := by
  intro p
  simp only [h.outside.fileAt_apart htrees.oldApart, h.outside.fileAt_apart htrees.newApart]
  exact hpaths p

theorem Applied.accessible (h : Applied fs oldRoot newRoot instanceRoot tier paths report fs')
    (hpaths : TierFiles fs oldRoot newRoot tier paths)
    (hf : ∀ q f, fs.fileAt (instanceRoot ++ q) = some f → Accessible f) :
    ∀ q f, fs'.fileAt (instanceRoot ++ q) = some f → Accessible f := by
  intro q f hfile
  by_cases hq : q.name ∈ paths
  · have hnormal : q.Normal := @FileSystem.normal_of_fileAt fs' instanceRoot q (by rw [hfile]; simp)
    obtain ⟨htier, hthere⟩ := (hpaths.name_mem_iff hnormal).1 hq
    cases hsrc : fs.fileAt (newRoot ++ q) with
    | none =>
      rw [h.old q htier (hthere.resolve_right (absurd hsrc)) hsrc] at hfile
      cases hfile
    | some g =>
      obtain ⟨f', hf', -, haccess⟩ := h.new q g htier hsrc
      rw [hf', Option.some.injEq] at hfile
      exact hfile ▸ haccess
  · rw [h.others q hq] at hfile
    exact hf q f hfile

theorem Applied.noClash (h : Applied fs oldRoot newRoot instanceRoot tier paths report fs')
    (htrees : Trees fs oldRoot newRoot instanceRoot) (hpaths : TierFiles fs oldRoot newRoot tier paths)
    (hclash : NoClash fs oldRoot newRoot instanceRoot tier) : NoClash fs' oldRoot newRoot instanceRoot tier := by
  intro q htier hfile
  rw [h.outside.fileAt_apart htrees.oldApart, h.outside.fileAt_apart htrees.newApart] at hfile
  rw [h.outside.lookup_apart htrees.newApart, h.outside.fileAt_apart htrees.newApart]
  obtain ⟨hnewdir, hdir, hway⟩ := hclash q htier hfile
  refine ⟨hnewdir, fun hdir' => ?_, fun hsrc d hd hdne => ?_⟩
  · rcases h.dirs q hdir' with hdir' | ⟨q', hq', hpre, hne⟩
    · exact hdir hdir'
    · refine hnewdir (FileSystem.dir_of_below ((List.prefix_append_right_inj _).2 hpre) ?_ (lookup_ne_none hq'))
      exact fun heq => hne (List.append_cancel_left heq)
  · by_cases hmem : d.name ∈ paths
    · have hnormal : d.Normal := (FileSystem.normal_of_fileAt hsrc).along hd
      obtain ⟨htierd, hthere⟩ := (hpaths.name_mem_iff hnormal).1 hmem
      cases hsrcd : fs.fileAt (newRoot ++ d) with
      | none => exact h.old d htierd (hthere.resolve_right (absurd hsrcd)) hsrcd
      | some g => exact absurd (FileSystem.eq_of_below (by rw [hsrcd]; simp) hsrc hd) hdne
    · rw [h.others d hmem]
      exact hway hsrc d hd hdne

end

/-- The new tier comes to stand in the instance just where nothing of another kind is in its place. -/
theorem converges_iff {tier : PurePath → Prop} {paths : Finset String} (htrees : Trees fs oldRoot newRoot instanceRoot)
    (hpaths : TierFiles fs oldRoot newRoot tier paths)
    (hg : ∀ q g, fs.fileAt (newRoot ++ q) = some g → Accessible g)
    (hf : ∀ q f, fs.fileAt (instanceRoot ++ q) = some f → Accessible f) :
    Converges fs oldRoot newRoot instanceRoot tier paths ↔ NoClash fs oldRoot newRoot instanceRoot tier := by
  constructor
  · rintro ⟨report, fs', hrun, -⟩
    by_contra hclash
    obtain ⟨e, fs'', hraise⟩ := applyReplace_raises htrees hpaths hg hf hclash
    rw [hrun] at hraise
    cases hraise
  · intro hclash
    obtain ⟨report, fs', hrun, happlied⟩ := applyReplace_ok htrees hpaths hg hf hclash
    obtain ⟨report', fs'', hrun', happlied'⟩ := applyReplace_ok (happlied.trees htrees) (happlied.tierFiles htrees hpaths)
      (fun q g hsrc => hg q g (by rwa [happlied.outside.fileAt_apart htrees.newApart] at hsrc))
      (happlied.accessible hpaths hf) (happlied.noClash htrees hpaths hclash)
    have hquiet : report' = ⟨[], []⟩ := by
      refine happlied'.quiet (fun q g htier hsrc => ?_) fun q htier hold hnew => ?_
      · rw [happlied.outside.fileAt_apart htrees.newApart] at hsrc
        obtain ⟨f, hf', hsame, -⟩ := happlied.new q g htier hsrc
        exact ⟨f, hf', hsame⟩
      · rw [happlied.outside.fileAt_apart htrees.oldApart] at hold
        rw [happlied.outside.fileAt_apart htrees.newApart] at hnew
        exact happlied.old q htier hold hnew
    refine ⟨report, fs', hrun, ⟨fun q g htier hsrc => ?_, happlied.old, happlied.others, happlied.updated, happlied.removed,
      fs'', hquiet ▸ hrun'⟩⟩
    obtain ⟨f, hf', hsame, -⟩ := happlied.new q g htier hsrc
    exact ⟨f, hf', hsame⟩

end

/-! ### A file that becomes a directory -/

def roots : FileSystem := ((FileSystem.empty.add [] "old" .dir).add [] "new" .dir).add [] "own" .dir

def text : File := ⟨[0x61], 0o644#12⟩

/-- The new version has a file that the instance has not got. -/
def added : FileSystem := roots.add ["new"] "a" (.file text)

/-- The file `a`, in the old version and in the instance, is a directory of the new version. -/
def turned : FileSystem :=
  (((roots.add ["old"] "a" (.file text)).add ["own"] "a" (.file text)).add ["new"] "a" .dir).add ["new", "a"] "b" (.file text)

theorem lookup_roots (r : PurePath) :
    roots.lookup r = if r = ["own"] ∨ r = ["new"] ∨ r = ["old"] ∨ r = [] then some .dir else none := by
  unfold roots
  rw [FileSystem.lookup_add (by decide +kernel) (by decide +kernel) (by decide +kernel),
    FileSystem.lookup_add (by decide +kernel) (by decide +kernel) (by decide +kernel),
    FileSystem.lookup_add (by decide +kernel) (by decide +kernel) (by decide +kernel), FileSystem.lookup_empty]
  simp only [List.nil_append]
  split_ifs <;> simp_all

theorem lookup_added (r : PurePath) :
    added.lookup r = if r = ["new", "a"] then some (.file text) else roots.lookup r :=
  FileSystem.lookup_add (by decide +kernel) (by decide +kernel) (by decide +kernel)

theorem lookup_turned (r : PurePath) :
    turned.lookup r = if r = ["new", "a", "b"] then some (.file text) else if r = ["new", "a"] then some .dir
      else if r = ["own", "a"] ∨ r = ["old", "a"] then some (.file text) else roots.lookup r := by
  unfold turned
  rw [FileSystem.lookup_add (by decide +kernel) (by decide +kernel) (by decide +kernel),
    FileSystem.lookup_add (by decide +kernel) (by decide +kernel) (by decide +kernel),
    FileSystem.lookup_add (by decide +kernel) (by decide +kernel) (by decide +kernel),
    FileSystem.lookup_add (by decide +kernel) (by decide +kernel) (by decide +kernel)]
  simp only [List.cons_append, List.nil_append]
  split_ifs <;> simp_all

theorem trees_of_roots {fs : FileSystem} (hroots : ∀ r ∈ [["old"], ["new"], ["own"]], fs.lookup r = some .dir)
    (hlink : ∀ r target, fs.lookup r ≠ some (.link target)) : Trees fs ["old"] ["new"] ["own"] :=
  ⟨⟨hroots _ (by simp), fun _ => hlink _⟩, ⟨hroots _ (by simp), fun _ => hlink _⟩, ⟨hroots _ (by simp), fun _ => hlink _⟩,
    by unfold FileSystem.Apart; decide, by unfold FileSystem.Apart; decide⟩

theorem fileAt_added (r : PurePath) : added.fileAt r = if r = ["new", "a"] then some text else none := by
  unfold FileSystem.fileAt
  rw [lookup_added, lookup_roots]
  split_ifs <;> rfl

theorem fileAt_turned (r : PurePath) : turned.fileAt r =
    if r = ["new", "a", "b"] ∨ r = ["own", "a"] ∨ r = ["old", "a"] then some text else none := by
  unfold FileSystem.fileAt
  rw [lookup_turned, lookup_roots]
  split_ifs <;> simp_all

theorem name_a : PurePath.name ["a"] = "a" ∧ PurePath.name ["a", "b"] = "a/b" := by decide +kernel

theorem accessible_text : Accessible text := by unfold Accessible; decide

theorem converges_added : Converges added ["old"] ["new"] ["own"] (fun _ => True) {"a"} := by
  refine (converges_iff (trees_of_roots (by decide +kernel) fun r target => ?_) (fun p => ?_) (fun q g hsrc => ?_)
    (fun q f hfile => ?_)).2 fun q _ hfile => ?_
  · rw [lookup_added, lookup_roots]
    split_ifs <;> simp
  · simp [fileAt_added, name_a]
  · obtain ⟨-, rfl⟩ : q = ["a"] ∧ text = g := by simpa [fileAt_added] using hsrc
    exact accessible_text
  · simp [fileAt_added] at hfile
  · obtain rfl : q = ["a"] := by simpa [fileAt_added] using hfile
    simp [fileAt_added, lookup_added, lookup_roots]

/-- With every premise, a file that becomes a directory is enough. -/
theorem not_converges_turned :
    ¬ ∀ (fs : FileSystem) (oldRoot newRoot instanceRoot : PurePath) (tier : PurePath → Prop) (paths : Finset String),
      Trees fs oldRoot newRoot instanceRoot → TierFiles fs oldRoot newRoot tier paths →
      (∀ root ∈ [oldRoot, newRoot, instanceRoot], ∀ q f, fs.fileAt (root ++ q) = some f → Accessible f) →
      (∀ f, fs.fileAt (instanceRoot ++ f) ≠ none → f.name ∉ paths → ∀ q, tier q → fs.fileAt (newRoot ++ q) ≠ none →
        ¬ f <+: q ∧ ¬ q <+: f) →
      Converges fs oldRoot newRoot instanceRoot tier paths := by
  intro hall
  have htrees : Trees turned ["old"] ["new"] ["own"] := by
    refine trees_of_roots (by decide +kernel) fun r target => ?_
    rw [lookup_turned, lookup_roots]
    split_ifs <;> simp
  have hpaths : TierFiles turned ["old"] ["new"] (fun _ => True) {"a", "a/b"} := by
    intro p
    have hfile : ∀ q : PurePath, (turned.fileAt (["old"] ++ q) ≠ none ∨ turned.fileAt (["new"] ++ q) ≠ none) ↔
        q = ["a"] ∨ q = ["a", "b"] := fun q => by simp [fileAt_turned]
    simp only [hfile, true_and, Finset.mem_insert, Finset.mem_singleton]
    constructor
    · rintro (rfl | rfl)
      · exact ⟨["a"], name_a.1.symm, .inl rfl⟩
      · exact ⟨["a", "b"], name_a.2.symm, .inr rfl⟩
    · rintro ⟨q, rfl, rfl | rfl⟩
      · exact .inl name_a.1
      · exact .inr name_a.2
  have haccess : ∀ r f, turned.fileAt r = some f → Accessible f := by
    intro r f hfile
    rw [fileAt_turned] at hfile
    split_ifs at hfile
    cases hfile
    exact accessible_text
  have hinside : ∀ f, turned.fileAt (["own"] ++ f) ≠ none → PurePath.name f ∈ ({"a", "a/b"} : Finset String) := by
    intro f hthere
    obtain rfl : f = ["a"] := by simpa [fileAt_turned] using hthere
    rw [name_a.1]
    simp
  obtain ⟨report, fs', hrun, -⟩ := hall turned ["old"] ["new"] ["own"] (fun _ => True) {"a", "a/b"} htrees hpaths
    (fun _ _ _ f hfile => haccess _ f hfile) fun f hthere hpath => absurd (hinside f hthere) hpath
  obtain ⟨e, fs'', hraise⟩ := applyReplace_raises htrees hpaths (fun _ g hsrc => haccess _ g hsrc)
    (fun _ f hfile => haccess _ f hfile) fun hclash => (hclash ["a"] trivial (.inl (by decide +kernel))).1 (by decide +kernel)
  rw [hrun] at hraise
  cases hraise

end TemplateAxum.TemplateSync
