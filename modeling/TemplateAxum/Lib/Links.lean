import TemplateAxum.Lib.LinkFree

/-!
# Operations on paths that meet links

Such a path leads somewhere else than it says. Whatever an operation does, it does to the one file that its path
leads to.
-/

namespace FileSystem

variable {fs fs' fs'' : FileSystem} {real r cur base d q : PurePath} {name : String} {p : FilePath} {f : File}

/-! ### A walk and its last step -/

/-- Directories and links stay, and files stay files. -/
def Grows (fs fs' : FileSystem) : Prop :=
  ∀ r n, fs.lookup r = some n → fs'.lookup r = some n ∨ ∃ f f', n = .file f ∧ fs'.lookup r = some (.file f')

/-- What is found is found in what has grown. -/
theorem walkFrom_grows {follow follow' : PurePath → String → PurePath → Located} (hgrows : fs.Grows fs')
    (hfollow : ∀ cur target rest, follow cur target rest = .found real → follow' cur target rest = .found real)
    (h : walkFrom fs follow cur q = .found real) : walkFrom fs' follow' cur q = .found real := by
  induction q generalizing cur with
  | nil => exact h
  | cons part rest ih =>
    rw [walkFrom] at h ⊢
    by_cases hup : part = ".."
    · rw [if_pos hup] at h ⊢
      exact ih h
    · rw [if_neg hup] at h ⊢
      cases hentry : fs.lookup (cur ++ [part]) with
      | none =>
        rw [hentry] at h
        dsimp only at h
        split at h <;> cases h
      | some n =>
        rw [hentry] at h
        rcases hgrows _ _ hentry with hentry' | ⟨f, f', rfl, hentry'⟩
        · rw [hentry']
          cases n with
          | file f => exact h
          | dir => exact ih h
          | link target => exact hfollow _ _ _ h
        · rw [hentry']
          exact h

theorem walk_grows {links : ℕ} (hgrows : fs.Grows fs') (h : walk fs links cur q = .found real) :
    walk fs' links cur q = .found real := by
  induction links generalizing cur q with
  | zero => exact walkFrom_grows hgrows (fun _ _ _ h => h) h
  | succ links ih => exact walkFrom_grows hgrows (fun _ _ _ h => ih h) h

theorem Grows.locate (hgrows : fs.Grows fs') (h : fs.locate p = .found real) : fs'.locate p = .found real :=
  walk_grows hgrows h

/-- Where one step from a directory leads. -/
def last (fs : FileSystem) (real : PurePath) (name : String) : Located :=
  if fs.lookup (real ++ [name]) = none then .missing real name else .found (real ++ [name])

theorem walkFrom_snoc {follow : PurePath → String → PurePath → Located} (hname : name ≠ "..")
    (hdir : fs.lookup real = some .dir) (hlink : ∀ target, fs.lookup (real ++ [name]) ≠ some (.link target))
    (hfollow : ∀ cur target rest, follow cur target rest = .found real →
      follow cur target (rest ++ [name]) = fs.last real name)
    (h : walkFrom fs follow cur q = .found real) : walkFrom fs follow cur (q ++ [name]) = fs.last real name := by
  induction q generalizing cur with
  | nil =>
    obtain rfl : cur = real := by simpa [walkFrom] using h
    rw [List.nil_append, walkFrom, if_neg hname, last]
    cases hentry : fs.lookup (cur ++ [name]) with
    | none => rfl
    | some n =>
      cases n with
      | file f => rfl
      | dir => rfl
      | link target => exact absurd hentry (hlink target)
  | cons part rest ih =>
    rw [List.cons_append, walkFrom]
    rw [walkFrom] at h
    by_cases hup : part = ".."
    · rw [if_pos hup] at h ⊢
      exact ih h
    · rw [if_neg hup] at h ⊢
      cases hentry : fs.lookup (cur ++ [part]) with
      | none =>
        rw [hentry] at h
        dsimp only at h
        split at h <;> cases h
      | some n =>
        rw [hentry] at h
        cases n with
        | file f =>
          dsimp only at h
          split at h
          · cases h
            rw [hentry] at hdir
            cases hdir
          · cases h
        | dir => exact ih h
        | link target => exact hfollow _ _ _ h

theorem walk_snoc {links : ℕ} (hname : name ≠ "..") (hdir : fs.lookup real = some .dir)
    (hlink : ∀ target, fs.lookup (real ++ [name]) ≠ some (.link target)) (h : walk fs links cur q = .found real) :
    walk fs links cur (q ++ [name]) = fs.last real name := by
  induction links generalizing cur q with
  | zero => exact walkFrom_snoc hname hdir hlink (fun _ _ _ h => by cases h) h
  | succ links ih =>
    refine walkFrom_snoc hname hdir hlink (fun cur target rest h => ?_) h
    rw [← List.append_assoc]
    exact ih h

theorem locate_snoc (hname : name ≠ "..") (hdir : fs.lookup real = some .dir)
    (hlink : ∀ target, fs.lookup (real ++ [name]) ≠ some (.link target)) (h : fs.locate ⟨base, d⟩ = .found real) :
    fs.locate ⟨base, d ++ [name]⟩ = fs.last real name := walk_snoc hname hdir hlink h

/-- What is found is found in a directory. -/
theorem walkFrom_init {follow : PurePath → String → PurePath → Located} (hname : name ≠ "..")
    (hfollow : ∀ cur target rest, follow cur target (rest ++ [name]) = .found real →
      ∃ d, follow cur target rest = .found d ∧ fs.lookup d = some .dir)
    (h : walkFrom fs follow cur (q ++ [name]) = .found real) :
    ∃ d, walkFrom fs follow cur q = .found d ∧ fs.lookup d = some .dir := by
  induction q generalizing cur with
  | nil =>
    refine ⟨cur, by rw [walkFrom], ?_⟩
    rw [List.nil_append, walkFrom, if_neg hname] at h
    have hentry : fs.lookup (cur ++ [name]) ≠ none := by
      intro hentry
      rw [hentry] at h
      cases h
    exact (lookup_snoc hentry).1
  | cons part rest ih =>
    rw [List.cons_append, walkFrom] at h
    rw [walkFrom]
    by_cases hup : part = ".."
    · rw [if_pos hup] at h ⊢
      exact ih h
    · rw [if_neg hup] at h ⊢
      cases hentry : fs.lookup (cur ++ [part]) with
      | none =>
        rw [hentry] at h
        simp at h
      | some n =>
        rw [hentry] at h
        cases n with
        | file f => simp at h
        | dir => exact ih h
        | link target => exact hfollow _ _ _ h

theorem walk_init {links : ℕ} (hname : name ≠ "..") (h : walk fs links cur (q ++ [name]) = .found real) :
    ∃ d, walk fs links cur q = .found d ∧ fs.lookup d = some .dir := by
  induction links generalizing cur q with
  | zero => exact walkFrom_init hname (fun _ _ _ h => by cases h) h
  | succ links ih =>
    refine walkFrom_init hname (fun cur target rest h => ?_) h
    rw [← List.append_assoc] at h
    exact ih h

theorem locate_init (hname : name ≠ "..") (h : fs.locate ⟨base, d ++ [name]⟩ = .found real) :
    ∃ real', fs.locate ⟨base, d⟩ = .found real' ∧ fs.lookup real' = some .dir := walk_init hname h

/-! ### The last name of a path -/

theorem entry_snoc (hdir : fs.lookup real = some .dir) (h : fs.locate ⟨base, d⟩ = .found real) :
    fs.entry ⟨base, d ++ [name]⟩ = .ok (real, name) := by
  unfold entry
  simp only [List.append_eq_nil_iff, List.cons_ne_nil, and_false, if_false, List.getLast?_concat, FilePath.parent,
    List.dropLast_concat, h, hdir]

theorem entry_eq_ok {name' : String} (h : fs.entry ⟨base, d ++ [name]⟩ = .ok (real, name')) :
    name' = name ∧ fs.locate ⟨base, d⟩ = .found real ∧ fs.lookup real = some .dir := by
  unfold entry at h
  simp only [List.append_eq_nil_iff, List.cons_ne_nil, and_false, if_false, List.getLast?_concat, FilePath.parent,
    List.dropLast_concat] at h
  split at h
  · next real' hlocate =>
    split at h
    · next hdir =>
      cases h
      exact ⟨rfl, hlocate, hdir⟩
    · cases h
    · cases h
  · cases h
  · cases h

theorem isSymlink_iff (hname : name ≠ "..") : fs.isSymlink ⟨base, d ++ [name]⟩ = true ↔
    ∃ real target, fs.locate ⟨base, d⟩ = .found real ∧ fs.lookup (real ++ [name]) = some (.link target) := by
  constructor
  · intro h
    unfold isSymlink lstat at h
    cases hentry : fs.entry ⟨base, d ++ [name]⟩ with
    | error e => simp [hentry] at h
    | ok found =>
      obtain ⟨real, name'⟩ := found
      obtain ⟨rfl, hlocate, -⟩ := entry_eq_ok hentry
      simp only [hentry, if_neg hname] at h
      split at h
      · next target hlink => exact ⟨real, target, hlocate, hlink⟩
      · cases h
  · rintro ⟨real, target, hlocate, hlink⟩
    have hdir := (lookup_snoc (by rw [hlink]; simp)).1
    unfold isSymlink lstat
    simp only [entry_snoc hdir hlocate, if_neg hname, hlink]

theorem openFile_eq_ok_iff : fs.openFile p = .ok (real, f) ↔ fs.locate p = .found real ∧ fs.fileAt real = some f := by
  unfold openFile
  constructor
  · intro h
    split at h
    · next real' hlocate =>
      split at h
      · next f' hfile =>
        cases h
        exact ⟨hlocate, fileAt_eq_some_iff.2 hfile⟩
      · cases h
      · cases h
    · cases h
    · cases h
  · rintro ⟨hlocate, hfile⟩
    rw [fileAt_eq_some_iff] at hfile
    simp only [hlocate, hfile]

theorem pathExists_eq_true_iff : fs.pathExists p = true ↔ ∃ real, fs.locate p = .found real ∧ fs.lookup real ≠ none := by
  unfold pathExists stat
  split
  · next real hlocate => simp [hlocate, Option.isSome_iff_ne_none]
  · next hnot =>
    refine iff_of_false (by simp) ?_
    rintro ⟨real, hlocate, -⟩
    exact hnot real hlocate

theorem isDir_eq_true_iff : fs.isDir p = true ↔ ∃ real, fs.locate p = .found real ∧ fs.lookup real = some .dir := by
  unfold isDir stat
  rw [decide_eq_true_iff]
  split
  · next real hlocate => simp [hlocate]
  · next hnot =>
    refine iff_of_false (by simp) ?_
    rintro ⟨real, hlocate, -⟩
    exact hnot real hlocate

/-- A path that meets no link leads where it says. -/
theorem resolve_of_locate (hbase : fs.lookup p.base = some .dir) (hlinked : ¬ fs.Linked p) {located : Located}
    (h : fs.locate p = located) :
    (∀ real, located = .found real → real = p.resolve) ∧ ∀ d name, located = .missing d name → d ++ [name] = p.resolve := by
  have hreach := reaches_locate hbase hlinked
  rw [h] at hreach
  constructor
  · rintro real rfl
    cases hreach
    rfl
  · rintro d name rfl
    cases hreach with
    | missing heq => exact heq

/-- A link that a path ends at is a symbolic link by itself unless one comes before it. -/
theorem linked_snoc (hq : PurePath.Normal (d ++ [name]))
    (h : fs.Linked ⟨base, d ++ [name]⟩) : fs.Linked ⟨base, d⟩ ∨ fs.isSymlink ⟨base, d ++ [name]⟩ = true := by
  by_cases hlinked : fs.Linked ⟨base, d⟩
  · exact .inl hlinked
  · right
    obtain ⟨d', hd', target, hlink⟩ := h
    rw [FilePath.resolve_normal (hq.along hd')] at hlink
    rcases List.prefix_concat_iff.1 hd' with rfl | hd'
    · rw [← List.append_assoc] at hlink
      refine (isSymlink_iff (hq name (by simp)).2.2.1).2 ⟨base ++ d, target, ?_, hlink⟩
      exact locate_of_lookup hlinked (by rw [(lookup_snoc (by rw [hlink]; simp)).1]; simp)
    · refine absurd ⟨d', hd', target, ?_⟩ hlinked
      rwa [FilePath.resolve_normal (hq.along (hd'.trans (List.prefix_append _ _)))]

/-! ### What is made on the way -/

/-- The same with more directories. -/
def AddsDirs (fs fs' : FileSystem) : Prop :=
  ∀ r, fs'.lookup r = fs.lookup r ∨ fs.lookup r = none ∧ fs'.lookup r = some .dir

theorem AddsDirs.refl (fs : FileSystem) : fs.AddsDirs fs := fun _ => .inl rfl

theorem AddsDirs.trans (h : fs.AddsDirs fs') (h' : fs'.AddsDirs fs'') : fs.AddsDirs fs'' := by
  intro r
  rcases h r with heq | ⟨hnone, hdir⟩
  · rw [← heq]
    exact h' r
  · refine .inr ⟨hnone, ?_⟩
    rcases h' r with heq' | ⟨hnone', -⟩
    · rw [heq', hdir]
    · rw [hdir] at hnone'
      cases hnone'

theorem addsDirs_add : fs.AddsDirs (fs.add d name .dir) := by
  intro r
  unfold add
  split
  · next h =>
    unfold lookup
    by_cases heq : r = d ++ [name]
    · subst heq
      exact .inr ⟨h.2.2, Finmap.lookup_insert _⟩
    · exact .inl (Finmap.lookup_insert_of_ne _ heq)
  · exact .inl rfl

theorem AddsDirs.grows (h : fs.AddsDirs fs') : fs.Grows fs' := by
  intro r n hentry
  left
  rcases h r with heq | ⟨hnone, -⟩
  · rw [heq, hentry]
  · rw [hnone] at hentry
    cases hentry

theorem AddsDirs.link_iff (h : fs.AddsDirs fs') {target : String} :
    fs'.lookup r = some (.link target) ↔ fs.lookup r = some (.link target) := by
  rcases h r with heq | ⟨hnone, hdir⟩
  · rw [heq]
  · rw [hnone, hdir]
    simp

theorem AddsDirs.linked_iff (h : fs.AddsDirs fs') : fs'.Linked p ↔ fs.Linked p :=
  exists_congr fun _ => and_congr_right fun _ => exists_congr fun _ => h.link_iff

/-- No file is another, and no directory goes. -/
structure Stays (fs fs' : FileSystem) : Prop where
  fileAt : ∀ r, fs'.fileAt r = fs.fileAt r
  dir : ∀ r, fs.lookup r = some .dir → fs'.lookup r = some .dir

theorem Stays.refl (fs : FileSystem) : fs.Stays fs := ⟨fun _ => rfl, fun _ h => h⟩

theorem AddsDirs.stays (h : fs.AddsDirs fs') : fs.Stays fs' := by
  constructor
  · intro r
    rcases h r with heq | ⟨hnone, hdir⟩
    · rw [FileSystem.fileAt, heq, FileSystem.fileAt]
    · rw [FileSystem.fileAt, hdir, FileSystem.fileAt, hnone]
  · intro r hdir
    rcases h r with heq | ⟨hnone, -⟩
    · rw [heq, hdir]
    · rw [hnone] at hdir
      cases hdir

/-- One file is another, and it is where the path says if the path meets no link. -/
def Changes (fs : FileSystem) (p : FilePath) (fs' : FileSystem) : Prop :=
  ∃ real, (¬ fs.Linked p → real = p.resolve) ∧ fs'.fileAt real ≠ fs.fileAt real ∧
    (∀ r, r ≠ real → fs'.fileAt r = fs.fileAt r) ∧ ∀ r, fs.lookup r = some .dir → fs'.lookup r = some .dir

theorem AddsDirs.changes (h : fs.AddsDirs fs') (h' : fs'.Changes p fs'') : fs.Changes p fs'' := by
  obtain ⟨real, hreal, hchanged, hkept, hdir⟩ := h'
  refine ⟨real, fun hlinked => hreal fun hlinked' => hlinked (h.linked_iff.1 hlinked'), ?_, fun r hr => ?_, fun r hr => ?_⟩
  · rwa [← h.stays.fileAt]
  · rw [hkept r hr, h.stays.fileAt]
  · exact hdir r (h.stays.dir r hr)

theorem changes_of_puts {n : Option Node} (hreal : ¬ fs.Linked p → real = p.resolve) (h : fs.Puts real n fs')
    (hnot : fs.lookup real ≠ some .dir) (hchanged : fs'.fileAt real ≠ fs.fileAt real) : fs.Changes p fs' := by
  refine ⟨real, hreal, hchanged, fun r hr => h.fileAt_ne hr, fun r hr => ?_⟩
  rw [h, if_neg, hr]
  rintro rfl
  exact hnot hr

end FileSystem

namespace FileM

variable {α β : Type} {fs fs' : FileSystem} {base d q real : PurePath} {name : String} {p src dst : FilePath} {f g : File}

open FileSystem

/-- What a run leaves, whether it fails or not. -/
def left (x : FileM α) (fs : FileSystem) : FileSystem :=
  match x fs with
  | .ok _ fs' => fs'
  | .error _ fs' => fs'

section

variable {x : FileM α} {k : α → FileM β} {a : α} {e : PyError}

theorem left_ok (h : x fs = .ok a fs') : left x fs = fs' := by rw [left, h]

theorem left_error (h : x fs = .error e fs') : left x fs = fs' := by rw [left, h]

theorem left_bind_ok (h : x fs = .ok a fs') : left (x >>= k) fs = left (k a) fs' := by rw [left, left, bind_ok h]

theorem left_bind_error (h : x fs = .error e fs') : left (x >>= k) fs = fs' := by rw [left, bind_error h]

theorem left_bind_pure (hk : ∀ a fs, left (k a) fs = fs) : left (x >>= k) fs = left x fs := by
  cases hx : x fs with
  | ok a fs' => rw [left_bind_ok hx, left_ok hx, hk]
  | error e fs' => rw [left_bind_error hx, left_error hx]

end

/-! ### Directories -/

theorem mkdir_cases (p : FilePath) : (∃ e, mkdir p fs = .error e fs) ∨ ∃ real name, fs.entry p = .ok (real, name) ∧
    fs.lookup (real ++ [name]) = none ∧ mkdir p fs = .ok () (fs.add real name .dir) := by
  cases hentry : fs.entry p with
  | error e => exact .inl ⟨e, mkdir_error hentry⟩
  | ok found =>
    obtain ⟨real, name⟩ := found
    by_cases hbad : name = ".." ∨ fs.lookup (real ++ [name]) ≠ none
    · left
      refine ⟨.fileExists, ?_⟩
      unfold mkdir
      rw [get_bind, hentry]
      simp only [if_pos hbad]
      rfl
    · obtain ⟨hname, hfree⟩ := not_or.1 hbad
      exact .inr ⟨real, name, rfl, not_not.1 hfree, mkdir_ok hentry hname (not_not.1 hfree)⟩

/-- The path is a directory, as it was before or a new one. -/
def Made (fs : FileSystem) (p : FilePath) (fs' : FileSystem) : Prop :=
  ∃ real, fs'.locate p = .found real ∧ fs'.lookup real = some .dir ∧
    (fs' = fs ∨ ∀ name, fs'.lookup (real ++ [name]) = none)

theorem mkdir_base (hbase : fs.lookup base = some .dir) : ∃ e, mkdir ⟨base, []⟩ fs = .error e fs ∧ e ≠ .fileNotFound := by
  rcases List.eq_nil_or_concat' base with rfl | ⟨d, name, rfl⟩
  · exact ⟨_, mkdir_error rfl, by simp⟩
  · have hd := (lookup_snoc (by rw [hbase]; simp)).1
    have hentry : fs.entry ⟨d ++ [name], []⟩ = .ok (d, name) := by
      unfold FileSystem.entry
      simp only [if_true, List.getLast?_concat, FilePath.parent, List.dropLast_concat]
      rw [show fs.locate ⟨d, []⟩ = .found d from rfl]
      simp only [hd]
    exact ⟨_, mkdir_exists hentry (by rw [hbase]; simp), by simp⟩

theorem made_of_mkdir (hbase : fs.lookup base = some .dir) (hq : q.Normal) (h : mkdir ⟨base, q⟩ fs = .ok () fs') :
    Made fs ⟨base, q⟩ fs' := by
  rcases List.eq_nil_or_concat' q with rfl | ⟨d, name, rfl⟩
  · obtain ⟨e, hmkdir, -⟩ := mkdir_base hbase
    rw [hmkdir] at h
    cases h
  · have hname : PurePath.IsName name := hq name (by simp)
    rcases @mkdir_cases fs ⟨base, d ++ [name]⟩ with ⟨e, hmkdir⟩ | ⟨real, name', hentry, hfree, hmkdir⟩
    · rw [hmkdir] at h
      cases h
    · rw [hmkdir] at h
      cases h
      obtain ⟨rfl, hparent, hdir⟩ := entry_eq_ok hentry
      have hlookup := fun r => @lookup_add fs r real name' .dir hdir hname hfree
      have hself : (fs.add real name' .dir).lookup (real ++ [name']) = some .dir := by rw [hlookup, if_pos rfl]
      have hgrows : fs.Grows (fs.add real name' .dir) := addsDirs_add.grows
      have hdir' : (fs.add real name' .dir).lookup real = some .dir := by rw [hlookup, if_neg (by simp), hdir]
      have hlast := locate_snoc hname.2.2.1 hdir' (by rw [hself]; simp) (hgrows.locate hparent)
      rw [last, if_neg (by rw [hself]; simp)] at hlast
      refine ⟨_, hlast, hself, .inr fun name => ?_⟩
      rw [hlookup, if_neg (by simp)]
      by_contra hbelow
      rw [(lookup_snoc hbelow).1] at hfree
      cases hfree

theorem made_of_isDir (h : fs.isDir p = true) : Made fs p fs := by
  obtain ⟨real, hlocate, hdir⟩ := isDir_eq_true_iff.1 h
  exact ⟨real, hlocate, hdir, .inl rfl⟩

theorem mkdirExistOk_made (hbase : fs.lookup base = some .dir) (hq : q.Normal) :
    fs.AddsDirs (left (mkdirExistOk ⟨base, q⟩) fs) ∧
      ∀ fs', mkdirExistOk ⟨base, q⟩ fs = .ok () fs' → Made fs ⟨base, q⟩ fs' := by
  unfold mkdirExistOk
  rcases @mkdir_cases fs ⟨base, q⟩ with ⟨e, hmkdir⟩ | ⟨real, name, -, -, hmkdir⟩
  · have hrun := fun handle => @tryCatch_error Unit fs fs (mkdir ⟨base, q⟩) e handle hmkdir
    rw [left, hrun]
    rw [get_bind]
    by_cases hdir : fs.isDir ⟨base, q⟩ = true
    · rw [if_pos hdir]
      refine ⟨AddsDirs.refl _, fun fs' h => ?_⟩
      cases h
      exact made_of_isDir hdir
    · rw [if_neg hdir]
      refine ⟨AddsDirs.refl _, fun fs' h => ?_⟩
      cases h
  · rw [left_ok (tryCatch_ok hmkdir)]
    refine ⟨addsDirs_add, fun fs' h => ?_⟩
    rw [tryCatch_ok hmkdir] at h
    cases h
    exact made_of_mkdir hbase hq hmkdir

theorem mkdir_found (hdir : fs.lookup real = some .dir) (hparent : fs.locate ⟨base, d⟩ = .found real) :
    mkdir ⟨base, d ++ [name]⟩ fs ≠ .error .fileNotFound fs := by
  intro h
  unfold mkdir at h
  rw [get_bind, entry_snoc hdir hparent] at h
  dsimp only at h
  split at h
  · cases h
  · cases h

theorem mkdirParents_made {levels : ℕ} (hbase : fs.lookup base = some .dir) (hq : q.Normal) :
    fs.AddsDirs (left (mkdirParents levels ⟨base, q⟩) fs) ∧
      ∀ fs', mkdirParents levels ⟨base, q⟩ fs = .ok () fs' → Made fs ⟨base, q⟩ fs' := by
  induction levels generalizing q with
  | zero => exact mkdirExistOk_made hbase hq
  | succ levels ih =>
    rw [mkdirParents]
    rcases @mkdir_cases fs ⟨base, q⟩ with ⟨e, hmkdir⟩ | ⟨real, name, -, -, hmkdir⟩
    · have hrun := fun handle => @tryCatch_error Unit fs fs (mkdir ⟨base, q⟩) e handle hmkdir
      rw [left, hrun]
      by_cases he : e = .fileNotFound
      · subst he
        obtain ⟨d, name, rfl⟩ := (List.eq_nil_or_concat' q).resolve_left (by
          rintro rfl
          obtain ⟨e, hraise, he⟩ := mkdir_base hbase
          rw [hraise] at hmkdir
          cases hmkdir
          exact he rfl)
        have hd : PurePath.Normal d := hq.along (List.prefix_append d [name])
        have hname : PurePath.IsName name := hq name (by simp)
        have hparent : FilePath.parent ⟨base, d ++ [name]⟩ = ⟨base, d⟩ := by simp [FilePath.parent]
        rw [if_pos rfl, hparent]
        obtain ⟨hadds, hmade⟩ := ih hd
        cases hparents : mkdirParents levels ⟨base, d⟩ fs with
        | error e fs₁ =>
          rw [left_error hparents] at hadds
          rw [bind_error hparents]
          exact ⟨hadds, fun fs' h => by cases h⟩
        | ok _ fs₁ =>
          rw [left_ok hparents] at hadds
          rw [bind_ok hparents]
          obtain ⟨real, hlocate, hdir, hnew⟩ := hmade fs₁ hparents
          obtain ⟨hadds', hmade'⟩ := mkdirExistOk_made (hadds.stays.dir _ hbase) hq
          refine ⟨hadds.trans hadds', fun fs' h => ?_⟩
          obtain ⟨real', hlocate', hdir', hnew'⟩ := hmade' fs' h
          refine ⟨real', hlocate', hdir', .inr ?_⟩
          rcases hnew' with rfl | hempty
          · exfalso
            rcases hnew with rfl | hempty
            · exact mkdir_found hdir hlocate hmkdir
            · rw [locate_snoc hname.2.2.1 hdir (by rw [hempty]; simp) hlocate, last, if_pos (hempty name)] at hlocate'
              cases hlocate'
          · exact hempty
      · rw [if_neg he, get_bind]
        by_cases hdir : fs.isDir ⟨base, q⟩ = true
        · rw [if_pos hdir]
          refine ⟨AddsDirs.refl _, fun fs' h => ?_⟩
          cases h
          exact made_of_isDir hdir
        · rw [if_neg hdir]
          refine ⟨AddsDirs.refl _, fun fs' h => ?_⟩
          cases h
    · rw [left_ok (tryCatch_ok hmkdir)]
      refine ⟨addsDirs_add, fun fs' h => ?_⟩
      rw [tryCatch_ok hmkdir] at h
      cases h
      exact made_of_mkdir hbase hq hmkdir

/-- Nothing but directories is made, and what was not there to be written to is not there now. -/
theorem makeDirs_made (hbase : fs.lookup base = some .dir) (hq : q.Normal) :
    fs.AddsDirs (left (makeDirs ⟨base, q⟩) fs) ∧ ∀ fs', makeDirs ⟨base, q⟩ fs = .ok () fs' → Made fs ⟨base, q⟩ fs' :=
  mkdirParents_made hbase hq

/-- A directory, or a link to one, is there already. -/
theorem makeDirs_there (hparent : fs.locate ⟨base, d⟩ = .found real) (hdir : fs.lookup real = some .dir)
    (hmem : fs.lookup (real ++ [name]) ≠ none) (h : fs.isDir ⟨base, d ++ [name]⟩ = true) :
    makeDirs ⟨base, d ++ [name]⟩ fs = .ok () fs := by
  have hlevels : (FilePath.mk base (d ++ [name])).parts.length + base.length = d.length + base.length + 1 := by
    simp only [List.length_append, List.length_singleton]
    omega
  unfold makeDirs
  rw [hlevels, mkdirParents, tryCatch_error (mkdir_exists (entry_snoc hdir hparent) hmem), if_neg (by simp), get_bind, if_pos h]
  rfl

/-- A path in a directory just made is there only if the directory was. -/
theorem Made.free {fs' : FileSystem} (h : Made fs ⟨base, d⟩ fs') (hname : name ≠ "..")
    (hlink : ¬ fs.isSymlink ⟨base, d ++ [name]⟩ = true) : ∃ real, fs'.locate ⟨base, d⟩ = .found real ∧
      fs'.lookup real = some .dir ∧ (fs' = fs ∨ fs'.lookup (real ++ [name]) = none) ∧
      (fs'.pathExists ⟨base, d ++ [name]⟩ = true ↔ fs'.lookup (real ++ [name]) ≠ none) := by
  obtain ⟨real, hlocate, hdir, hnew⟩ := h
  have hlinks : ∀ target, fs'.lookup (real ++ [name]) ≠ some (.link target) := by
    intro target htarget
    rcases hnew with rfl | hempty
    · exact hlink ((isSymlink_iff hname).2 ⟨real, target, hlocate, htarget⟩)
    · rw [hempty] at htarget
      cases htarget
  refine ⟨real, hlocate, hdir, hnew.imp_right fun h => h name, ?_⟩
  rw [pathExists_eq_true_iff, locate_snoc hname hdir hlinks hlocate, last]
  split
  · next hnone =>
    refine iff_of_false ?_ (not_not.2 hnone)
    rintro ⟨real', heq, -⟩
    cases heq
  · next hsome => exact iff_of_true ⟨_, rfl, hsome⟩ hsome

/-! ### Files -/

section

variable {r : PurePath}

theorem file_of_openFile (h : fs.openFile p = .ok (real, f)) : fs.fileAt real = some f := (openFile_eq_ok_iff.1 h).2

theorem not_isDir_of_openFile (h : fs.openFile p = .ok (real, f)) : ¬ fs.isDir p = true := by
  obtain ⟨hlocate, hfile⟩ := openFile_eq_ok_iff.1 h
  intro hdir
  obtain ⟨real', hlocate', hdir⟩ := isDir_eq_true_iff.1 hdir
  rw [hlocate] at hlocate'
  cases hlocate'
  rw [FileSystem.fileAt, hdir] at hfile
  cases hfile

theorem grows_of_puts (h : fs.Puts real (some (.file f)) fs') (hplace : fs.lookup real = none ∨ fs.fileAt real ≠ none) :
    fs.Grows fs' := by
  intro r n hentry
  by_cases heq : r = real
  · subst heq
    right
    rcases hplace with hnone | hfile
    · rw [hnone] at hentry
      cases hentry
    · obtain ⟨f', hfile⟩ := Option.ne_none_iff_exists'.1 hfile
      rw [fileAt_eq_some_iff, hentry] at hfile
      exact ⟨f', f, Option.some.inj hfile, by rw [h, if_pos rfl]⟩
  · left
    rw [h, if_neg heq, hentry]

/-- Another file is open as before, and the file that is put opens as it is put. -/
theorem openFile_of_puts (h : fs.Puts real (some (.file f)) fs') (hplace : fs.lookup real = none ∨ fs.fileAt real ≠ none)
    (hopen : fs.openFile p = .ok (r, g)) : fs'.openFile p = .ok (r, if r = real then f else g) := by
  obtain ⟨hlocate, hfile⟩ := openFile_eq_ok_iff.1 hopen
  refine openFile_eq_ok_iff.2 ⟨(grows_of_puts h hplace).locate hlocate, ?_⟩
  split
  · next heq => rw [heq, h.fileAt]
  · next hne => rw [h.fileAt_ne hne, hfile]

theorem copyfile_over (hsrc : fs.openFile src = .ok (r, g)) (hread : g.readable = true) (hdst : fs.openFile dst = .ok (real, f))
    (hwrite : f.writable = true) (hne : f.content ≠ g.content) : ∃ fs', copyfile src dst fs = .ok () fs' ∧
      fs.Puts real (some (.file { f with content := g.content })) fs' ∧ fs'.openFile src = .ok (r, g) ∧
      fs'.openFile dst = .ok (real, { f with content := g.content }) := by
  have hfile := file_of_openFile hdst
  have hputs := puts_set (by rw [hfile]; simp) { f with content := g.content }
  have hdiffer : r ≠ real := by
    rintro rfl
    rw [file_of_openFile hsrc] at hfile
    cases hfile
    exact hne rfl
  refine ⟨_, ?_, hputs, ?_, ?_⟩
  · unfold copyfile
    rw [get_bind, if_neg]
    · show (readBytes _ >>= _) fs = _
      rw [bind_ok (readBytes_ok hsrc hread)]
      exact writeBytes_ok hdst hwrite _
    · rintro ⟨-, hsame⟩
      rw [(openFile_eq_ok_iff.1 hsrc).1, (openFile_eq_ok_iff.1 hdst).1] at hsame
      cases hsame
      exact hdiffer rfl
  · rw [openFile_of_puts hputs (.inr (by rw [hfile]; simp)) hsrc, if_neg hdiffer]
  · rw [openFile_of_puts hputs (.inr (by rw [hfile]; simp)) hdst, if_pos rfl]

theorem copyfile_denied (hdst : fs.openFile dst = .ok (real, f)) (hwrite : f.writable = false) (src : FilePath) :
    ∃ e, copyfile src dst fs = .error e fs := by
  unfold copyfile
  rw [get_bind]
  split
  · exact ⟨_, rfl⟩
  · show ∃ e, (readBytes _ >>= _) fs = _
    rcases readBytes_total src with ⟨content, hread⟩ | ⟨e, hread⟩
    · exact ⟨_, (bind_ok hread).trans (writeBytes_denied hdst hwrite _)⟩
    · exact ⟨e, bind_error hread⟩

theorem copy2_denied (hdst : fs.openFile dst = .ok (real, f)) (hwrite : f.writable = false) (src : FilePath) :
    ∃ e, copy2 src dst fs = .error e fs := by
  unfold copy2
  rw [get_bind, if_neg (not_isDir_of_openFile hdst)]
  obtain ⟨e, hcopy⟩ := copyfile_denied hdst hwrite src
  exact ⟨e, bind_error hcopy⟩

theorem copy2_over (hsrc : fs.openFile src = .ok (r, g)) (hread : g.readable = true) (hdst : fs.openFile dst = .ok (real, f))
    (hwrite : f.writable = true) (hne : f.content ≠ g.content) :
    ∃ fs', copy2 src dst fs = .ok () fs' ∧ fs.Puts real (some (.file g)) fs' := by
  obtain ⟨fs₁, hcopy, hputs, hsrc₁, hdst₁⟩ := copyfile_over hsrc hread hdst hwrite hne
  refine ⟨fs₁.set real g, ?_, hputs.trans (puts_set (by rw [hputs.fileAt]; simp) g)⟩
  unfold copy2
  rw [get_bind, if_neg (not_isDir_of_openFile hdst), bind_ok hcopy, bind_ok (mode_ok hsrc₁)]
  exact chmod_ok hdst₁ _

/-- A new file in a directory that is there. -/
theorem copy2_new (hsrc : fs.openFile src = .ok (r, g)) (hread : g.readable = true) (hname : PurePath.IsName name)
    (hparent : fs.locate ⟨base, d⟩ = .found real) (hdir : fs.lookup real = some .dir)
    (hnone : fs.lookup (real ++ [name]) = none) :
    ∃ fs', copy2 src ⟨base, d ++ [name]⟩ fs = .ok () fs' ∧ fs.Puts (real ++ [name]) (some (.file g)) fs' := by
  have hmissing : fs.locate ⟨base, d ++ [name]⟩ = .missing real name := by
    rw [locate_snoc hname.2.2.1 hdir (by rw [hnone]; simp) hparent, last, if_pos hnone]
  have hnot : ¬ fs.isDir ⟨base, d ++ [name]⟩ = true := by
    intro h
    obtain ⟨real', hlocate, -⟩ := isDir_eq_true_iff.1 h
    rw [hmissing] at hlocate
    cases hlocate
  have hputs : fs.Puts (real ++ [name]) (some (.file ⟨g.content, 0o644#12⟩)) (fs.add real name (.file ⟨g.content, 0o644#12⟩)) :=
    fun r => lookup_add hdir hname hnone
  have hgrows := grows_of_puts hputs (.inl hnone)
  have hsrc₁ := openFile_of_puts hputs (.inl hnone) hsrc
  rw [if_neg] at hsrc₁
  · have hdst₁ : (fs.add real name (.file ⟨g.content, 0o644#12⟩)).openFile ⟨base, d ++ [name]⟩ =
        .ok (real ++ [name], ⟨g.content, 0o644#12⟩) := by
      refine openFile_eq_ok_iff.2 ⟨?_, hputs.fileAt⟩
      rw [locate_snoc hname.2.2.1 (by rw [hputs, if_neg (by simp), hdir]) (by rw [hputs, if_pos rfl]; simp)
        (hgrows.locate hparent), last, if_neg (by rw [hputs, if_pos rfl]; simp)]
    refine ⟨_, ?_, hputs.trans (puts_set (by rw [hputs.fileAt]; simp) g)⟩
    have hcopy : copyfile src ⟨base, d ++ [name]⟩ fs = .ok () (fs.add real name (.file ⟨g.content, 0o644#12⟩)) := by
      unfold copyfile
      rw [get_bind, if_neg]
      · show (readBytes _ >>= _) fs = _
        rw [bind_ok (readBytes_ok hsrc hread)]
        exact writeBytes_new hmissing _
      · rintro ⟨-, hsame⟩
        rw [(openFile_eq_ok_iff.1 hsrc).1, hmissing] at hsame
        cases hsame
    unfold copy2
    rw [get_bind, if_neg hnot, bind_ok hcopy, bind_ok (mode_ok hsrc₁)]
    exact chmod_ok hdst₁ _
  · rintro rfl
    have hfile := file_of_openFile hsrc
    rw [FileSystem.fileAt, hnone] at hfile
    cases hfile

/-- Where a path opens a file and is no link, the file goes. -/
theorem unlink_file (hname : name ≠ "..") (hlink : ¬ fs.isSymlink ⟨base, d ++ [name]⟩ = true)
    (h : fs.openFile ⟨base, d ++ [name]⟩ = .ok (real, f)) :
    ∃ fs', unlink ⟨base, d ++ [name]⟩ fs = .ok () fs' ∧ fs.Puts real none fs' := by
  obtain ⟨hlocate, hfile⟩ := openFile_eq_ok_iff.1 h
  obtain ⟨real', hparent, hdir⟩ := locate_init hname hlocate
  have hlast := locate_snoc hname hdir
    (fun target htarget => hlink ((isSymlink_iff hname).2 ⟨real', target, hparent, htarget⟩)) hparent
  rw [hlocate, last] at hlast
  split at hlast
  · cases hlast
  · cases hlast
    have hlookup := fileAt_eq_some_iff.1 hfile
    refine ⟨_, unlink_ok (entry_snoc hdir hparent) hname (by rw [hlookup]; simp) (by rw [hlookup]; simp), fun r => ?_⟩
    exact lookup_remove (by rw [hlookup]; simp)

end

end FileM
