import TemplateAxum.Lib.FileSystem

/-!
# Below a directory without links

There a path leads where it says, an operation succeeds or fails by what stands at the path and on the way to
it, and what it changes is there.
-/

/-! ### Walks without links -/

namespace FilePath

theorem resolve_cons (base parts : PurePath) (part : String) :
    resolve ⟨base, part :: parts⟩ = if part = ".." then resolve ⟨base.dropLast, parts⟩ else resolve ⟨base ++ [part], parts⟩ := by
  unfold resolve
  rw [List.foldl_cons]
  split <;> rfl

theorem resolve_normal {parts : PurePath} (h : parts.Normal) (base : PurePath) : resolve ⟨base, parts⟩ = base ++ parts := by
  induction parts generalizing base with
  | nil => simp [resolve]
  | cons part rest ih =>
    have hpart : part ≠ ".." := (h part List.mem_cons_self).2.2.1
    rw [resolve_cons, if_neg hpart, ih (fun part' hmem => h part' (List.mem_cons_of_mem _ hmem)), List.append_assoc,
      List.singleton_append]

theorem join_name {q : PurePath} (h : q.Normal) (root : PurePath) : join root q.name = ⟨root, q⟩ := by
  unfold join
  rw [if_neg (by rw [PurePath.isAbsolute_name h]; exact Bool.false_ne_true), PurePath.ofName_name h]

end FilePath

namespace FileSystem

variable {fs : FileSystem} {root cur : PurePath} {p : FilePath}

theorem normal_of_fileAt {q : PurePath} (h : fs.fileAt (root ++ q) ≠ none) : q.Normal := by
  have hnormal : PurePath.Normal (root ++ q) := normal_of_lookup fun hnone => h (by rw [fileAt, hnone])
  exact fun part hpart => hnormal part (List.mem_append_right _ hpart)

/-- No file is below another. -/
theorem eq_of_below {d q : PurePath} (hd : fs.fileAt (root ++ d) ≠ none) (hq : fs.fileAt (root ++ q) ≠ none) (hpre : d <+: q) :
    d = q := by
  by_contra hne
  have hdir := @dir_of_below fs (root ++ q) (root ++ d) ((List.prefix_append_right_inj _).2 hpre)
    (fun heq => hne (List.append_cancel_left heq)) fun hnone => hq (by rw [fileAt, hnone])
  exact hd (by rw [fileAt, hdir])

/-- A path that meets a link on its way or at its end. -/
def Linked (fs : FileSystem) (p : FilePath) : Prop :=
  ∃ d, d <+: p.parts ∧ ∃ target, fs.lookup (FilePath.resolve ⟨p.base, d⟩) = some (.link target)

/-- How a walk to a real location may end. -/
inductive Reaches (fs : FileSystem) (real : PurePath) : Located → Prop
  | found : fs.lookup real ≠ none → Reaches fs real (.found real)
  | missing {d : PurePath} {name : String} :
    d ++ [name] = real → fs.lookup d = some .dir → fs.lookup real = none → Reaches fs real (.missing d name)
  | failed (e : PyError) : Reaches fs real (.failed e)

theorem dir_dropLast (h : fs.lookup cur = some .dir) : fs.lookup cur.dropLast = some .dir := by
  rcases List.eq_nil_or_concat cur with rfl | ⟨d, name, rfl⟩
  · exact h
  · rw [List.concat_eq_append] at h ⊢
    rw [List.dropLast_concat]
    exact (lookup_snoc (by rw [h]; simp)).1

theorem not_linked_up {part : String} {rest : PurePath} (hup : part = "..") (h : ¬ fs.Linked ⟨cur, part :: rest⟩) :
    ¬ fs.Linked ⟨cur.dropLast, rest⟩ := by
  rintro ⟨d, hd, target, hlink⟩
  refine h ⟨part :: d, by simpa using hd, target, ?_⟩
  rwa [FilePath.resolve_cons, if_pos hup]

theorem not_linked_cons {part : String} {rest : PurePath} (hup : part ≠ "..") (h : ¬ fs.Linked ⟨cur, part :: rest⟩) :
    (∀ target, fs.lookup (cur ++ [part]) ≠ some (.link target)) ∧ ¬ fs.Linked ⟨cur ++ [part], rest⟩ := by
  constructor
  · intro target hlink
    refine h ⟨[part], by simp, target, ?_⟩
    rwa [FilePath.resolve_cons, if_neg hup]
  · rintro ⟨d, hd, target, hlink⟩
    refine h ⟨part :: d, by simpa using hd, target, ?_⟩
    rwa [FilePath.resolve_cons, if_neg hup]

/-- A path that meets no link leads where it says. -/
theorem reaches_walkFrom {follow : PurePath → String → PurePath → Located} {q : PurePath}
    (hcur : fs.lookup cur = some .dir) (h : ¬ fs.Linked ⟨cur, q⟩) :
    fs.Reaches (FilePath.resolve ⟨cur, q⟩) (walkFrom fs follow cur q) := by
  induction q generalizing cur with
  | nil =>
    refine .found ?_
    rw [show FilePath.resolve ⟨cur, []⟩ = cur from rfl, hcur]
    simp
  | cons part rest ih =>
    rw [FilePath.resolve_cons, walkFrom]
    split
    · next hup => exact ih (dir_dropLast hcur) (not_linked_up hup h)
    · next hup =>
      obtain ⟨hhead, hrest⟩ := not_linked_cons hup h
      split
      · next hnone =>
        split
        · next hrest =>
          subst hrest
          exact .missing rfl hcur hnone
        · exact .failed _
      · next hdir => exact ih hdir hrest
      · next f hfile =>
        split
        · next hrest =>
          subst hrest
          refine .found ?_
          rw [show FilePath.resolve ⟨cur ++ [part], []⟩ = cur ++ [part] from rfl, hfile]
          simp
        · exact .failed _
      · next target hlink => exact absurd hlink (hhead target)

theorem reaches_locate (hbase : fs.lookup p.base = some .dir) (h : ¬ fs.Linked p) : fs.Reaches p.resolve (fs.locate p) :=
  reaches_walkFrom hbase h

/-- A directory with no link below it. -/
structure Plain (fs : FileSystem) (root : PurePath) : Prop where
  dir : fs.lookup root = some .dir
  not_link : ∀ q target, fs.lookup (root ++ q) ≠ some (.link target)

theorem Plain.add (h : fs.Plain root) {d : PurePath} {name : String} {n : Node} (hn : ∀ target, n ≠ .link target) :
    (fs.add d name n).Plain root := by
  refine ⟨?_, fun q target hlink => ?_⟩
  · rcases lookup_add_or fs d name n root with heq | ⟨hnone, -⟩
    · rw [heq, h.dir]
    · cases h.dir.symm.trans hnone
  · rcases lookup_add_or fs d name n (root ++ q) with heq | ⟨-, heq⟩
    · exact h.not_link q target (heq ▸ hlink)
    · exact hn target (Option.some.inj (heq.symm.trans hlink))

theorem Plain.not_linked (h : fs.Plain root) {q : PurePath} (hq : q.Normal) : ¬ fs.Linked ⟨root, q⟩ := by
  rintro ⟨d, hd, target, hlink⟩
  rw [FilePath.resolve_normal (hq.along hd)] at hlink
  exact h.not_link d target hlink

theorem Plain.sub (h : fs.Plain root) {d : PurePath} (hd : fs.lookup (root ++ d) = some .dir) : fs.Plain (root ++ d) :=
  ⟨hd, fun q target => by rw [List.append_assoc]; exact h.not_link _ _⟩

/-- Where there is an entry, the walk finds it. -/
theorem walkFrom_of_lookup {follow : PurePath → String → PurePath → Located} {q : PurePath} (hlinked : ¬ fs.Linked ⟨cur, q⟩)
    (h : fs.lookup (cur ++ q) ≠ none) : walkFrom fs follow cur q = .found (cur ++ q) := by
  induction q generalizing cur with
  | nil => simp [walkFrom]
  | cons part rest ih =>
    rw [← List.singleton_append, ← List.append_assoc] at h ⊢
    have hpart : part ≠ ".." := (normal_of_lookup h part (by simp)).2.2.1
    obtain ⟨hhead, hlinked'⟩ := not_linked_cons hpart hlinked
    rw [List.singleton_append, walkFrom, if_neg hpart]
    by_cases hrest : rest = []
    · subst hrest
      rw [List.append_nil] at h ⊢
      cases hentry : fs.lookup (cur ++ [part]) with
      | none => exact absurd hentry h
      | some n =>
        cases n with
        | file f => rfl
        | dir => simp [walkFrom]
        | link target => exact absurd hentry (hhead target)
    · have hdir : fs.lookup (cur ++ [part]) = some .dir := dir_of_below (List.prefix_append _ _) (by simpa using hrest) h
      rw [hdir]
      exact ih hlinked' h

theorem locate_of_lookup {q : PurePath} (hlinked : ¬ fs.Linked ⟨root, q⟩) (h : fs.lookup (root ++ q) ≠ none) :
    fs.locate ⟨root, q⟩ = .found (root ++ q) := walkFrom_of_lookup hlinked h

theorem Plain.locate (hplain : fs.Plain root) {q : PurePath} (h : fs.lookup (root ++ q) ≠ none) :
    fs.locate ⟨root, q⟩ = .found (root ++ q) :=
  locate_of_lookup (hplain.not_linked fun part hpart => normal_of_lookup h part (List.mem_append_right _ hpart)) h

theorem Plain.stat (hplain : fs.Plain root) {q : PurePath} (hq : q.Normal) : fs.stat ⟨root, q⟩ = fs.lookup (root ++ q) := by
  unfold FileSystem.stat
  by_cases h : fs.lookup (root ++ q) = none
  · have hreach := reaches_locate (p := ⟨root, q⟩) hplain.dir (hplain.not_linked hq)
    rw [FilePath.resolve_normal hq] at hreach
    rw [h]
    generalize fs.locate ⟨root, q⟩ = located at hreach
    cases hreach with
    | found hfound => exact absurd h hfound
    | missing => rfl
    | failed => rfl
  · rw [hplain.locate h]

end FileSystem

/-! ### The operations below a directory without links -/

namespace FileSystem

variable {fs fs' : FileSystem} {root cur q : PurePath} {p : FilePath} {f : File}

theorem Plain.walkFrom_missing {follow : PurePath → String → PurePath → Located} (hplain : fs.Plain cur) (hq : q.Normal)
    (h : fs.lookup (cur ++ q) = none) (hfiles : ∀ d, d <+: q → fs.fileAt (cur ++ d) = none) :
    (∃ d name, walkFrom fs follow cur q = .missing d name) ∨ walkFrom fs follow cur q = .failed .fileNotFound := by
  induction q generalizing cur with
  | nil =>
    rw [List.append_nil, hplain.dir] at h
    cases h
  | cons part rest ih =>
    rw [walkFrom, if_neg (hq part List.mem_cons_self).2.2.1]
    cases hentry : fs.lookup (cur ++ [part]) with
    | none =>
      by_cases hrest : rest = []
      · exact .inl ⟨cur, part, if_pos hrest⟩
      · exact .inr (if_neg hrest)
    | some n =>
      cases n with
      | file f =>
        have := hfiles [part] (by simp)
        rw [fileAt, hentry] at this
        cases this
      | dir =>
        rw [← List.singleton_append, ← List.append_assoc] at h
        refine ih (hplain.sub hentry) (fun part' hmem => hq part' (List.mem_cons_of_mem _ hmem)) h fun d hd => ?_
        rw [List.append_assoc]
        exact hfiles _ (by simpa using hd)
      | link target => exact absurd hentry (hplain.not_link _ target)

theorem Plain.walkFrom_blocked {follow : PurePath → String → PurePath → Located} (hplain : fs.Plain cur) (hq : q.Normal)
    (h : fs.lookup (cur ++ q) = none) {d : PurePath} (hd : d <+: q) (hfile : fs.fileAt (cur ++ d) ≠ none) :
    walkFrom fs follow cur q = .failed .notADirectory := by
  induction q generalizing cur d with
  | nil =>
    rw [List.append_nil, hplain.dir] at h
    cases h
  | cons part rest ih =>
    rw [walkFrom, if_neg (hq part List.mem_cons_self).2.2.1]
    match d with
    | [] =>
      rw [List.append_nil, fileAt, hplain.dir] at hfile
      exact absurd rfl hfile
    | part' :: d =>
      obtain ⟨rfl, hd'⟩ := List.cons_prefix_cons.1 hd
      have hsplit : cur ++ part' :: d = cur ++ [part'] ++ d := by simp
      rw [hsplit] at hfile
      have hbelow : fs.lookup (cur ++ [part'] ++ d) ≠ none := fun hnone => hfile (by rw [fileAt, hnone])
      cases hentry : fs.lookup (cur ++ [part']) with
      | none =>
        have hne : cur ++ [part'] ≠ cur ++ [part'] ++ d := by
          intro heq
          rw [← heq, hentry] at hbelow
          exact hbelow rfl
        rw [dir_of_below (List.prefix_append _ _) hne hbelow] at hentry
        cases hentry
      | some n =>
        cases n with
        | file f =>
          refine if_neg fun hrest => ?_
          subst hrest
          rw [hentry] at h
          cases h
        | dir =>
          rw [← List.singleton_append, ← List.append_assoc] at h
          exact ih (hplain.sub hentry) (fun part' hmem => hq part' (List.mem_cons_of_mem _ hmem)) h hd' hfile
        | link target => exact absurd hentry (hplain.not_link _ target)

theorem Plain.openFile (hplain : fs.Plain root) (h : fs.fileAt (root ++ q) = some f) :
    fs.openFile ⟨root, q⟩ = .ok (root ++ q, f) := by
  have hlookup := fileAt_eq_some_iff.1 h
  unfold FileSystem.openFile
  rw [hplain.locate (by rw [hlookup]; simp)]
  simp only [hlookup]

theorem Plain.not_openFile (hplain : fs.Plain root) (hq : q.Normal) (h : fs.fileAt (root ++ q) = none) :
    ∃ e, fs.openFile ⟨root, q⟩ = .error e := by
  unfold FileSystem.openFile
  have hreach := reaches_locate (p := ⟨root, q⟩) hplain.dir (hplain.not_linked hq)
  rw [FilePath.resolve_normal hq] at hreach
  generalize fs.locate ⟨root, q⟩ = located at hreach
  cases hreach with
  | found hfound =>
    cases hentry : fs.lookup (root ++ q) with
    | none => exact absurd hentry hfound
    | some n =>
      simp only [hentry]
      cases n with
      | file f =>
        rw [fileAt, hentry] at h
        cases h
      | dir => exact ⟨_, rfl⟩
      | link target => exact ⟨_, rfl⟩
  | missing => exact ⟨_, rfl⟩
  | failed => exact ⟨_, rfl⟩

theorem Plain.isDir_iff (hplain : fs.Plain root) (hq : q.Normal) :
    fs.isDir ⟨root, q⟩ = true ↔ fs.lookup (root ++ q) = some .dir := by
  rw [isDir, hplain.stat hq, decide_eq_true_iff]

theorem Plain.pathExists_iff (hplain : fs.Plain root) (hq : q.Normal) :
    fs.pathExists ⟨root, q⟩ = true ↔ fs.lookup (root ++ q) ≠ none := by
  rw [pathExists, hplain.stat hq, Option.isSome_iff_ne_none]

theorem Plain.entry (hplain : fs.Plain root) {name : String} (hdir : fs.lookup (root ++ q) = some .dir) :
    fs.entry ⟨root, q ++ [name]⟩ = .ok (root ++ q, name) := by
  unfold FileSystem.entry
  simp only [List.append_eq_nil_iff, List.cons_ne_nil, and_false, if_false, List.getLast?_concat, FilePath.parent,
    List.dropLast_concat]
  rw [hplain.locate (by rw [hdir]; simp)]
  simp only [hdir]

theorem Plain.entry_or (hplain : fs.Plain root) {name : String} (hq : q.Normal) :
    (fs.lookup (root ++ q) = some .dir ∧ fs.entry ⟨root, q ++ [name]⟩ = .ok (root ++ q, name)) ∨
      ∃ e, fs.entry ⟨root, q ++ [name]⟩ = .error e := by
  by_cases hdir : fs.lookup (root ++ q) = some .dir
  · exact .inl ⟨hdir, hplain.entry hdir⟩
  · right
    unfold FileSystem.entry
    simp only [List.append_eq_nil_iff, List.cons_ne_nil, and_false, if_false, List.getLast?_concat, FilePath.parent,
      List.dropLast_concat]
    have hreach := reaches_locate (p := ⟨root, q⟩) hplain.dir (hplain.not_linked hq)
    rw [FilePath.resolve_normal hq] at hreach
    generalize fs.locate ⟨root, q⟩ = located at hreach
    cases hreach with
    | found =>
      dsimp only
      split
      · next heq => exact absurd heq hdir
      · exact ⟨_, rfl⟩
      · exact ⟨_, rfl⟩
    | missing => exact ⟨_, rfl⟩
    | failed => exact ⟨_, rfl⟩

theorem Plain.lstat (hplain : fs.Plain root) (hq : q.Normal) (hne : q ≠ []) :
    fs.lstat ⟨root, q⟩ = fs.lookup (root ++ q) ∨ fs.lstat ⟨root, q⟩ = none := by
  obtain ⟨d, name, rfl⟩ := (List.eq_nil_or_concat' q).resolve_left hne
  have hname : name ≠ ".." := (hq name (by simp)).2.2.1
  unfold FileSystem.lstat
  rcases @Plain.entry_or fs root d hplain name (hq.along (List.prefix_append d [name])) with ⟨-, hentry⟩ | ⟨e, hentry⟩
  · left
    simp only [hentry, if_neg hname, List.append_assoc]
  · right
    simp only [hentry]
    exact if_neg hne

theorem Plain.not_isSymlink (hplain : fs.Plain root) (hq : q.Normal) (hne : q ≠ []) : fs.isSymlink ⟨root, q⟩ = false := by
  unfold isSymlink
  rcases hplain.lstat hq hne with hlstat | hlstat
  · rw [hlstat]
    split
    · next target hlink => exact absurd hlink (hplain.not_link q target)
    · rfl
  · rw [hlstat]

end FileSystem

namespace FileM

variable {α β : Type} {fs fs' fs'' : FileSystem} {p src dst : FilePath} {real : PurePath} {f g : File}

section

variable {x : FileM α} {k : α → FileM β} {a : α} {b : β} {e : PyError} {handle : PyError → FileM α}

theorem bind_ok (h : x fs = .ok a fs') : (x >>= k) fs = k a fs' := by
  show EStateM.bind x k fs = _
  rw [EStateM.bind, h]

theorem bind_error (h : x fs = .error e fs') : (x >>= k) fs = .error e fs' := by
  show EStateM.bind x k fs = _
  rw [EStateM.bind, h]

theorem get_bind (k : FileSystem → FileM β) : (get >>= k) fs = k fs fs := rfl

theorem bind_eq_ok_iff : (x >>= k) fs = .ok b fs'' ↔ ∃ a fs', x fs = .ok a fs' ∧ k a fs' = .ok b fs'' := by
  cases h : x fs with
  | ok a fs' => simp [bind_ok h]
  | error e fs' => simp [bind_error h]

theorem tryCatch_ok (h : x fs = .ok a fs') : tryCatch x handle fs = .ok a fs' := by
  show EStateM.tryCatch x handle fs = _
  rw [EStateM.tryCatch, h]

theorem tryCatch_error (h : x fs = .error e fs') : tryCatch x handle fs = handle e fs' := by
  show EStateM.tryCatch x handle fs = _
  rw [EStateM.tryCatch, h]
  rfl

end

theorem readBytes_ok (h : fs.openFile p = .ok (real, f)) (hread : f.readable = true) :
    readBytes p fs = .ok f.content fs := by
  unfold readBytes
  rw [get_bind, h]
  simp [hread]
  rfl

theorem readBytes_error {e : PyError} (h : fs.openFile p = .error e) : readBytes p fs = .error e fs := by
  unfold readBytes
  rw [get_bind, h]
  rfl

theorem readBytes_denied (h : fs.openFile p = .ok (real, f)) (hread : f.readable = false) :
    readBytes p fs = .error .permission fs := by
  unfold readBytes
  rw [get_bind, h]
  simp [hread]
  rfl

/-- Reading changes nothing. -/
theorem readBytes_total (p : FilePath) :
    (∃ content, readBytes p fs = .ok content fs) ∨ ∃ e, readBytes p fs = .error e fs := by
  cases hopen : fs.openFile p with
  | error e => exact .inr ⟨e, readBytes_error hopen⟩
  | ok opened =>
    cases hread : opened.2.readable with
    | true => exact .inl ⟨_, readBytes_ok hopen hread⟩
    | false => exact .inr ⟨_, readBytes_denied hopen hread⟩

theorem readBytes_eq_ok_iff {content : List UInt8} : readBytes p fs = .ok content fs' ↔
    fs' = fs ∧ ∃ real f, fs.openFile p = .ok (real, f) ∧ f.readable = true ∧ content = f.content := by
  cases hopen : fs.openFile p with
  | error e => simp [readBytes_error hopen]
  | ok opened =>
    obtain ⟨real, f⟩ := opened
    cases hread : f.readable with
    | true =>
      rw [readBytes_ok hopen hread]
      constructor
      · intro h
        cases h
        exact ⟨rfl, real, f, rfl, hread, rfl⟩
      · rintro ⟨rfl, real', f', heq, -, rfl⟩
        cases heq
        rfl
    | false =>
      rw [readBytes_denied hopen hread]
      constructor
      · intro h
        cases h
      · rintro ⟨-, real', f', heq, hread', -⟩
        cases heq
        rw [hread] at hread'
        cases hread'

theorem mode_ok (h : fs.openFile p = .ok (real, f)) : mode p fs = .ok f.mode fs := by
  unfold mode
  rw [get_bind, h]
  rfl

theorem chmod_ok (h : fs.openFile p = .ok (real, f)) (mode : BitVec 12) :
    chmod p mode fs = .ok () (fs.set real { f with mode }) := by
  unfold chmod
  rw [get_bind, h]
  rfl

theorem writeBytes_ok (h : fs.openFile p = .ok (real, f)) (hwrite : f.writable = true) (content : List UInt8) :
    writeBytes p content fs = .ok () (fs.set real { f with content }) := by
  unfold writeBytes
  rw [get_bind, h]
  simp [hwrite]
  rfl

theorem writeBytes_denied (h : fs.openFile p = .ok (real, f)) (hwrite : f.writable = false) (content : List UInt8) :
    writeBytes p content fs = .error .permission fs := by
  unfold writeBytes
  rw [get_bind, h]
  simp [hwrite]
  rfl

theorem writeBytes_new {d : PurePath} {name : String} (h : fs.locate p = .missing d name) (content : List UInt8) :
    writeBytes p content fs = .ok () (fs.add d name (.file ⟨content, 0o644#12⟩)) := by
  have hopen : fs.openFile p = .error .fileNotFound := by
    unfold FileSystem.openFile
    rw [h]
  unfold writeBytes
  rw [get_bind, hopen]
  simp only [h]
  rfl

theorem unlink_ok {d : PurePath} {name : String} (h : fs.entry p = .ok (d, name)) (hname : name ≠ "..")
    (hdir : fs.lookup (d ++ [name]) ≠ some .dir) (hmem : fs.lookup (d ++ [name]) ≠ none) :
    unlink p fs = .ok () (fs.remove (d ++ [name])) := by
  unfold unlink
  rw [get_bind, h]
  simp [hname, hdir, hmem]
  rfl

theorem mkdir_ok {d : PurePath} {name : String} (h : fs.entry p = .ok (d, name)) (hname : name ≠ "..")
    (hfree : fs.lookup (d ++ [name]) = none) : mkdir p fs = .ok () (fs.add d name .dir) := by
  unfold mkdir
  rw [get_bind, h]
  simp [hname, hfree]
  rfl

theorem mkdir_exists {d : PurePath} {name : String} (h : fs.entry p = .ok (d, name))
    (hmem : fs.lookup (d ++ [name]) ≠ none) : mkdir p fs = .error .fileExists fs := by
  unfold mkdir
  rw [get_bind, h]
  simp [hmem]
  rfl

theorem mkdir_error {e : PyError} (h : fs.entry p = .error e) : mkdir p fs = .error e fs := by
  unfold mkdir
  rw [get_bind, h]
  rfl

end FileM

/-! ### `makeDirs` below a directory without links -/

namespace FileSystem

variable {fs fs' : FileSystem} {root q d : PurePath}

/-- The same with the directories down to a path. -/
def WithDirs (fs : FileSystem) (root q : PurePath) (fs' : FileSystem) : Prop :=
  ∀ r, fs'.lookup r = if root <+: r ∧ r <+: root ++ q then some .dir else fs.lookup r

theorem WithDirs.plain (h : fs.WithDirs root q fs') (hplain : fs.Plain root) : fs'.Plain root := by
  constructor
  · rw [h, if_pos ⟨List.prefix_refl _, List.prefix_append _ _⟩]
  · intro r target
    rw [h]
    split
    · simp
    · exact hplain.not_link r target

theorem lookup_of_below (hdir : fs.lookup (root ++ q) = some .dir) {r : PurePath} (hr : r <+: root ++ q) :
    fs.lookup r = some .dir := by
  by_cases heq : r = root ++ q
  · rwa [heq]
  · exact dir_of_below hr heq (by rw [hdir]; simp)

theorem withDirs_self (hdir : fs.lookup (root ++ q) = some .dir) : fs.WithDirs root q fs := by
  intro r
  split
  · next h => exact lookup_of_below hdir h.2
  · rfl

theorem WithDirs.free {name : String} (h : fs.WithDirs root q fs') (hfree : fs.lookup (root ++ (q ++ [name])) = none) :
    fs'.lookup (root ++ q ++ [name]) = none := by
  have hlong : ¬ root ++ q ++ [name] <+: root ++ q := by
    intro hpre
    have := hpre.length_le
    simp only [List.length_append, List.length_singleton] at this
    omega
  rw [h, if_neg fun hpre => hlong hpre.2, List.append_assoc, hfree]

theorem WithDirs.dir (h : fs.WithDirs root q fs') : fs'.lookup (root ++ q) = some .dir := by
  rw [h, if_pos ⟨List.prefix_append _ _, List.prefix_refl _⟩]

/-- One more directory. -/
theorem WithDirs.add {name : String} (h : fs.WithDirs root q fs') (hname : PurePath.IsName name)
    (hfree : fs.lookup (root ++ (q ++ [name])) = none) : fs.WithDirs root (q ++ [name]) (fs'.add (root ++ q) name .dir) := by
  intro r
  rw [lookup_add h.dir hname (h.free hfree), h, ← List.append_assoc]
  by_cases heq : r = root ++ q ++ [name]
  · subst heq
    rw [if_pos rfl, if_pos ⟨by rw [List.append_assoc]; exact List.prefix_append _ _, List.prefix_refl _⟩]
  · rw [if_neg heq]
    refine if_congr (and_congr_right fun _ => ?_) rfl rfl
    rw [List.prefix_concat_iff]
    exact ⟨.inr, fun hr => hr.resolve_left heq⟩

end FileSystem

namespace FileM

variable {fs fs' : FileSystem} {root q d : PurePath}

theorem mkdir_dir (hplain : fs.Plain root) (hdir : fs.lookup (root ++ q) = some .dir) :
    ∃ e, mkdir ⟨root, q⟩ fs = .error e fs ∧ e ≠ .fileNotFound := by
  rcases List.eq_nil_or_concat' q with rfl | ⟨q, name, rfl⟩
  · rcases List.eq_nil_or_concat' root with rfl | ⟨d, name, rfl⟩
    · exact ⟨_, mkdir_error rfl, by simp⟩
    · have hd := (FileSystem.lookup_snoc (by rw [hplain.dir]; simp)).1
      have hentry : fs.entry ⟨d ++ [name], []⟩ = .ok (d, name) := by
        unfold FileSystem.entry
        simp only [if_true, List.getLast?_concat, FilePath.parent, List.dropLast_concat]
        rw [show fs.locate ⟨d, []⟩ = .found d from rfl]
        simp only [hd]
      exact ⟨_, mkdir_exists hentry (by rw [hplain.dir]; simp), by simp⟩
  · rw [← List.append_assoc] at hdir
    have hd := (FileSystem.lookup_snoc (by rw [hdir]; simp)).1
    exact ⟨_, mkdir_exists (hplain.entry hd) (by rw [hdir]; simp), by simp⟩

theorem mkdirExistOk_dir (hplain : fs.Plain root) (hq : q.Normal) (hdir : fs.lookup (root ++ q) = some .dir) :
    mkdirExistOk ⟨root, q⟩ fs = .ok () fs := by
  obtain ⟨e, hmkdir, -⟩ := mkdir_dir hplain hdir
  rw [mkdirExistOk, tryCatch_error hmkdir, get_bind, if_pos ((hplain.isDir_iff hq).2 hdir)]
  rfl

theorem mkdirParents_dir (hplain : fs.Plain root) (hq : q.Normal) (hdir : fs.lookup (root ++ q) = some .dir) (levels : ℕ) :
    mkdirParents levels ⟨root, q⟩ fs = .ok () fs := by
  cases levels with
  | zero => exact mkdirExistOk_dir hplain hq hdir
  | succ levels =>
    obtain ⟨e, hmkdir, he⟩ := mkdir_dir hplain hdir
    rw [mkdirParents, tryCatch_error hmkdir, if_neg he, get_bind, if_pos ((hplain.isDir_iff hq).2 hdir)]
    rfl

theorem mkdir_new {name : String} (hplain : fs.Plain root) (hname : PurePath.IsName name)
    (hdir : fs.lookup (root ++ q) = some .dir) (hfree : fs.lookup (root ++ q ++ [name]) = none) :
    mkdir ⟨root, q ++ [name]⟩ fs = .ok () (fs.add (root ++ q) name .dir) :=
  mkdir_ok (hplain.entry hdir) hname.2.2.1 hfree

theorem entry_missing {name : String} (hplain : fs.Plain root) (hq : q.Normal) (hnone : fs.lookup (root ++ q) = none)
    (hfiles : ∀ d, d <+: q → fs.fileAt (root ++ d) = none) : fs.entry ⟨root, q ++ [name]⟩ = .error .fileNotFound := by
  unfold FileSystem.entry
  simp only [List.append_eq_nil_iff, List.cons_ne_nil, and_false, if_false, List.getLast?_concat, FilePath.parent,
    List.dropLast_concat]
  unfold FileSystem.locate FileSystem.walk
  rcases hplain.walkFrom_missing hq hnone hfiles with ⟨d, name, hwalk⟩ | hwalk
  · rw [hwalk]
  · rw [hwalk]

/-- Directories are made where nothing but directories is on the way. -/
theorem mkdirParents_ok {levels : ℕ} (hplain : fs.Plain root) (hq : q.Normal) (hlevels : q.length ≤ levels)
    (hfiles : ∀ d, d <+: q → fs.fileAt (root ++ d) = none) :
    ∃ fs', mkdirParents levels ⟨root, q⟩ fs = .ok () fs' ∧ fs.WithDirs root q fs' := by
  induction levels generalizing q with
  | zero =>
    obtain rfl := List.length_eq_zero_iff.1 (Nat.le_zero.1 hlevels)
    have hdir : fs.lookup (root ++ []) = some .dir := by rw [List.append_nil]; exact hplain.dir
    exact ⟨fs, mkdirParents_dir hplain hq hdir 0, FileSystem.withDirs_self hdir⟩
  | succ levels ih =>
    cases hentry : fs.lookup (root ++ q) with
    | some n =>
      cases n with
      | file f =>
        have := hfiles q (List.prefix_refl q)
        rw [FileSystem.fileAt, hentry] at this
        cases this
      | dir => exact ⟨fs, mkdirParents_dir hplain hq hentry _, FileSystem.withDirs_self hentry⟩
      | link target => exact absurd hentry (hplain.not_link q target)
    | none =>
      rcases List.eq_nil_or_concat' q with rfl | ⟨q, name, rfl⟩
      · rw [List.append_nil, hplain.dir] at hentry
        cases hentry
      · have hq' : PurePath.Normal q := hq.along (List.prefix_append q [name])
        have hname : PurePath.IsName name := hq name (by simp)
        have hfiles' : ∀ d, d <+: q → fs.fileAt (root ++ d) = none := fun d hd =>
          hfiles d (hd.trans (List.prefix_append q [name]))
        rw [mkdirParents]
        by_cases hdir : fs.lookup (root ++ q) = some .dir
        · refine ⟨_, tryCatch_ok (mkdir_new hplain hname hdir (by rwa [List.append_assoc])), ?_⟩
          exact (FileSystem.withDirs_self hdir).add hname hentry
        · have hnone : fs.lookup (root ++ q) = none := by
            cases hparent : fs.lookup (root ++ q) with
            | none => rfl
            | some n =>
              cases n with
              | file f =>
                have := hfiles' q (List.prefix_refl q)
                rw [FileSystem.fileAt, hparent] at this
                cases this
              | dir => exact absurd hparent hdir
              | link target => exact absurd hparent (hplain.not_link q target)
          obtain ⟨fs₁, hparents, hdirs⟩ := ih hq' (by simpa using hlevels) hfiles'
          have hparent : FilePath.parent ⟨root, q ++ [name]⟩ = ⟨root, q⟩ := by simp [FilePath.parent]
          refine ⟨_, ?_, hdirs.add hname hentry⟩
          rw [tryCatch_error (mkdir_error (entry_missing hplain hq' hnone hfiles')), if_pos rfl, hparent, bind_ok hparents]
          exact tryCatch_ok (mkdir_new (hdirs.plain hplain) hname hdirs.dir (hdirs.free hentry))

theorem makeDirs_ok (hplain : fs.Plain root) (hq : q.Normal) (hfiles : ∀ d, d <+: q → fs.fileAt (root ++ d) = none) :
    ∃ fs', makeDirs ⟨root, q⟩ fs = .ok () fs' ∧ fs.WithDirs root q fs' :=
  mkdirParents_ok hplain hq (Nat.le_add_right _ _) hfiles

theorem entry_blocked {name : String} (hplain : fs.Plain root) (hq : q.Normal) (hd : d <+: q)
    (hfile : fs.fileAt (root ++ d) ≠ none) : fs.entry ⟨root, q ++ [name]⟩ = .error .notADirectory := by
  unfold FileSystem.entry
  simp only [List.append_eq_nil_iff, List.cons_ne_nil, and_false, if_false, List.getLast?_concat, FilePath.parent,
    List.dropLast_concat]
  cases hentry : fs.lookup (root ++ q) with
  | none =>
    unfold FileSystem.locate FileSystem.walk
    rw [hplain.walkFrom_blocked hq hentry hd hfile]
  | some n =>
    rw [hplain.locate (by rw [hentry]; simp)]
    simp only [hentry]
    cases n with
    | file f => rfl
    | dir =>
      have := FileSystem.lookup_of_below hentry (r := root ++ d) ((List.prefix_append_right_inj _).2 hd)
      rw [FileSystem.fileAt, this] at hfile
      exact absurd rfl hfile
    | link target => exact absurd hentry (hplain.not_link q target)

/-- A file on the way is an error, and nothing is made. -/
theorem makeDirs_blocked (hplain : fs.Plain root) (hq : q.Normal) (hd : d <+: q) (hfile : fs.fileAt (root ++ d) ≠ none) :
    ∃ e, makeDirs ⟨root, q⟩ fs = .error e fs := by
  have hdir : fs.lookup (root ++ q) ≠ some .dir := by
    intro hdir
    have := FileSystem.lookup_of_below hdir (r := root ++ d) ((List.prefix_append_right_inj _).2 hd)
    rw [FileSystem.fileAt, this] at hfile
    exact hfile rfl
  obtain ⟨q, name, rfl⟩ := (List.eq_nil_or_concat' q).resolve_left (by
    rintro rfl
    exact hdir (by rw [List.append_nil]; exact hplain.dir))
  have hmkdir : ∃ e, mkdir ⟨root, q ++ [name]⟩ fs = .error e fs ∧ e ≠ .fileNotFound := by
    rcases List.prefix_concat_iff.1 hd with rfl | hd'
    · have hmem : fs.lookup (root ++ q ++ [name]) ≠ none := by
        intro hnone
        rw [← List.append_assoc, FileSystem.fileAt, hnone] at hfile
        exact hfile rfl
      exact ⟨_, mkdir_exists (hplain.entry (FileSystem.lookup_snoc hmem).1) hmem, by simp⟩
    · exact ⟨_, mkdir_error (entry_blocked hplain (hq.along (List.prefix_append q [name])) hd' hfile), by simp⟩
  obtain ⟨e, hmkdir, he⟩ := hmkdir
  have hnot : ¬ fs.isDir ⟨root, q ++ [name]⟩ = true := fun h => hdir ((hplain.isDir_iff hq).1 h)
  refine ⟨e, ?_⟩
  unfold makeDirs
  rw [show (FilePath.mk root (q ++ [name])).parts.length + root.length = q.length + root.length + 1 by simp; omega]
  rw [mkdirParents, tryCatch_error hmkdir, if_neg he, get_bind, if_neg hnot]
  rfl

end FileM

/-! ### One file put in its place -/

namespace FileSystem

variable {fs fs' fs'' : FileSystem} {root root' real r q : PurePath} {n : Option Node} {f g : File}

/-- The same but for one location. -/
def Puts (fs : FileSystem) (real : PurePath) (n : Option Node) (fs' : FileSystem) : Prop :=
  ∀ r, fs'.lookup r = if r = real then n else fs.lookup r

theorem puts_set (h : fs.fileAt real ≠ none) (f : File) : fs.Puts real (some (.file f)) (fs.set real f) :=
  fun _ => lookup_set h

theorem Puts.trans {n' : Option Node} (h : fs.Puts real n fs') (h' : fs'.Puts real n' fs'') : fs.Puts real n' fs'' := by
  intro r
  rw [h' r, h r]
  split <;> rfl

theorem Puts.fileAt (h : fs.Puts real (some (.file f)) fs') : fs'.fileAt real = some f := by
  rw [FileSystem.fileAt, h real, if_pos rfl]

theorem Puts.fileAt_ne (h : fs.Puts real n fs') (hne : r ≠ real) : fs'.fileAt r = fs.fileAt r := by
  rw [FileSystem.fileAt, FileSystem.fileAt, h r, if_neg hne]

theorem Puts.plain (h : fs.Puts real n fs') (hlink : ∀ target, n ≠ some (.link target)) (hplain : fs.Plain root)
    (hne : root ≠ real) : fs'.Plain root := by
  constructor
  · rw [h, if_neg hne, hplain.dir]
  · intro q target
    rw [h]
    split
    · exact hlink target
    · exact hplain.not_link q target

/-- Two directories neither of which is below the other. -/
def Apart (root root' : PurePath) : Prop := ¬ root <+: root' ∧ ¬ root' <+: root

theorem Apart.not_below (h : Apart root root') {q : PurePath} : ¬ root' <+: root ++ q := by
  intro hpre
  rcases List.prefix_or_prefix_of_prefix hpre (List.prefix_append root q) with h' | h'
  · exact h.2 h'
  · exact h.1 h'

theorem Apart.ne (h : Apart root root') {q q' : PurePath} : root ++ q ≠ root' ++ q' := fun heq =>
  h.not_below (heq ▸ List.prefix_append root' q')

theorem Apart.ne_root (h : Apart root root') {q' : PurePath} : root ≠ root' ++ q' := by
  have := @Apart.ne root root' h [] q'
  rwa [List.append_nil] at this

/-- What is not below a directory stays. -/
def SameOutside (fs : FileSystem) (root : PurePath) (fs' : FileSystem) : Prop :=
  ∀ r, ¬ root <+: r → fs'.lookup r = fs.lookup r

theorem SameOutside.trans (h : fs.SameOutside root fs') (h' : fs'.SameOutside root fs'') : fs.SameOutside root fs'' :=
  fun r hr => by rw [h' r hr, h r hr]

theorem SameOutside.lookup_apart (h : fs.SameOutside root fs') (hapart : Apart root' root) :
    fs'.lookup (root' ++ r) = fs.lookup (root' ++ r) := h _ hapart.not_below

theorem SameOutside.fileAt_apart (h : fs.SameOutside root fs') (hapart : Apart root' root) :
    fs'.fileAt (root' ++ r) = fs.fileAt (root' ++ r) := by
  rw [FileSystem.fileAt, FileSystem.fileAt, h.lookup_apart hapart]

theorem SameOutside.plain_apart (h : fs.SameOutside root fs') (hapart : Apart root' root) (hplain : fs.Plain root') :
    fs'.Plain root' := by
  refine ⟨by rw [h _ hapart.2, hplain.dir], fun r target => ?_⟩
  rw [h.lookup_apart hapart]
  exact hplain.not_link r target

theorem Puts.sameOutside (h : fs.Puts (root ++ q) n fs') : fs.SameOutside root fs' := by
  intro r hr
  have hne : r ≠ root ++ q := by
    rintro rfl
    exact hr (List.prefix_append _ _)
  rw [h, if_neg hne]

theorem WithDirs.sameOutside (h : fs.WithDirs root q fs') : fs.SameOutside root fs' := fun r hr => by
  rw [h, if_neg fun hpre => hr hpre.1]

theorem WithDirs.lookup_self (h : fs.WithDirs root q.dropLast fs') (hne : q ≠ []) :
    fs'.lookup (root ++ q) = fs.lookup (root ++ q) := by
  have hlong : ¬ root ++ q <+: root ++ q.dropLast := by
    intro hpre
    have hlen := hpre.length_le
    have := List.length_pos_iff.2 hne
    simp only [List.length_append, List.length_dropLast] at hlen
    omega
  rw [h, if_neg fun hpre => hlong hpre.2]

theorem WithDirs.fileAt_self (h : fs.WithDirs root q.dropLast fs') (hne : q ≠ []) :
    fs'.fileAt (root ++ q) = fs.fileAt (root ++ q) := by
  rw [FileSystem.fileAt, FileSystem.fileAt, h.lookup_self hne]

/-- Directories are made of nothing but what was none. -/
theorem WithDirs.fileAt (h : fs.WithDirs root q fs') (hfiles : ∀ d, d <+: q → fs.fileAt (root ++ d) = none) (r : PurePath) :
    fs'.fileAt r = fs.fileAt r := by
  rw [FileSystem.fileAt, h]
  by_cases hpre : root <+: r ∧ r <+: root ++ q
  · rw [if_pos hpre]
    obtain ⟨⟨d, rfl⟩, hd⟩ := hpre
    exact (hfiles d ((List.prefix_append_right_inj _).1 hd)).symm
  · rw [if_neg hpre]
    rfl

theorem walkFrom_last {follow : PurePath → String → PurePath → Located} {cur : PurePath} {name : String}
    (hname : name ≠ "..") (hdir : fs.lookup (cur ++ q) = some .dir) (hnone : fs.lookup (cur ++ q ++ [name]) = none) :
    walkFrom fs follow cur (q ++ [name]) = .missing (cur ++ q) name := by
  induction q generalizing cur with
  | nil =>
    rw [List.append_nil] at hdir hnone ⊢
    rw [List.nil_append, walkFrom, if_neg hname, hnone]
    rfl
  | cons part rest ih =>
    rw [← List.singleton_append, ← List.append_assoc] at hdir hnone ⊢
    have hpart : part ≠ ".." := (normal_of_lookup (by rw [hdir]; simp) part (by simp)).2.2.1
    have hcur : fs.lookup (cur ++ [part]) = some .dir := lookup_of_below hdir (List.prefix_append _ _)
    rw [List.append_assoc, List.singleton_append, walkFrom, if_neg hpart, hcur]
    exact ih hdir hnone

theorem missing {name : String} (hname : name ≠ "..") (hdir : fs.lookup (root ++ q) = some .dir)
    (hnone : fs.lookup (root ++ q ++ [name]) = none) : fs.locate ⟨root, q ++ [name]⟩ = .missing (root ++ q) name :=
  walkFrom_last hname hdir hnone

end FileSystem

namespace FileM

variable {fs fs' : FileSystem} {newRoot root q : PurePath} {f g : File}

open FileSystem

/-- Where a file can be written: over another, or as a new entry of a directory. -/
def Writable (fs : FileSystem) (root q : PurePath) : Prop :=
  fs.lookup (root ++ q) = none ∧ fs.lookup (root ++ q.dropLast) = some .dir ∨
    ∃ f, fs.fileAt (root ++ q) = some f ∧ f.writable = true

theorem writeBytes_puts (hplain : fs.Plain root) (hq : q.Normal) (hplace : Writable fs root q) (content : List UInt8) :
    ∃ fs' f, writeBytes ⟨root, q⟩ content fs = .ok () fs' ∧ fs.Puts (root ++ q) (some (.file f)) fs' ∧
      f.content = content := by
  rcases hplace with ⟨hnone, hdir⟩ | ⟨f, hfile, hwrite⟩
  · obtain ⟨d, name, rfl⟩ := (List.eq_nil_or_concat' q).resolve_left (by
      rintro rfl
      rw [List.append_nil, hplain.dir] at hnone
      cases hnone)
    rw [List.dropLast_concat] at hdir
    have hname : PurePath.IsName name := hq name (by simp)
    rw [← List.append_assoc] at hnone ⊢
    exact ⟨_, _, writeBytes_new (missing hname.2.2.1 hdir hnone) content, fun r => lookup_add hdir hname hnone, rfl⟩
  · exact ⟨_, _, writeBytes_ok (hplain.openFile hfile) hwrite content, puts_set (by rw [hfile]; simp) _, rfl⟩

theorem Writable.not_dir (hplace : Writable fs root q) : fs.lookup (root ++ q) ≠ some .dir := by
  rcases hplace with ⟨hnone, -⟩ | ⟨f, hfile, -⟩
  · rw [hnone]
    simp
  · rw [fileAt_eq_some_iff.1 hfile]
    simp

theorem Writable.ne_root (hplain : fs.Plain root) (hplace : Writable fs root q) : root ≠ root ++ q := by
  intro heq
  exact hplace.not_dir (heq ▸ hplain.dir)

/-- `copyfile` keeps the mode, which it has yet to get where the file is new. -/
theorem copyfile_puts (hsrc : fs.Plain newRoot) (hdst : fs.Plain root) (hapart : Apart newRoot root) (hq : q.Normal)
    (hfile : fs.fileAt (newRoot ++ q) = some g) (hread : g.readable = true) (hplace : Writable fs root q) :
    ∃ fs' f, copyfile ⟨newRoot, q⟩ ⟨root, q⟩ fs = .ok () fs' ∧ fs.Puts (root ++ q) (some (.file f)) fs' ∧
      f.content = g.content := by
  have hopen := hsrc.openFile hfile
  have hlocate : fs.locate ⟨newRoot, q⟩ = .found (newRoot ++ q) := hsrc.locate (by rw [fileAt_eq_some_iff.1 hfile]; simp)
  have hdiffer : fs.locate ⟨newRoot, q⟩ ≠ fs.locate ⟨root, q⟩ := by
    have hreach := reaches_locate (p := ⟨root, q⟩) hdst.dir (hdst.not_linked hq)
    rw [FilePath.resolve_normal hq] at hreach
    intro heq
    rw [← heq, hlocate] at hreach
    generalize hreal : newRoot ++ q = real at hreach
    cases hreach with
    | found => exact hapart.ne hreal
  obtain ⟨fs', f, hwrite, hputs, hcontent⟩ := writeBytes_puts hdst hq hplace g.content
  refine ⟨fs', f, ?_, hputs, hcontent⟩
  unfold copyfile
  rw [get_bind, if_neg fun h => hdiffer h.2]
  show (readBytes _ >>= _) fs = _
  rw [bind_ok (readBytes_ok hopen hread)]
  exact hwrite

theorem copy2_puts (hsrc : fs.Plain newRoot) (hdst : fs.Plain root) (hapart : Apart newRoot root) (hq : q.Normal)
    (hfile : fs.fileAt (newRoot ++ q) = some g) (hread : g.readable = true) (hplace : Writable fs root q) :
    ∃ fs', copy2 ⟨newRoot, q⟩ ⟨root, q⟩ fs = .ok () fs' ∧ fs.Puts (root ++ q) (some (.file g)) fs' := by
  obtain ⟨fs₁, f, hcopy, hputs, hcontent⟩ := copyfile_puts hsrc hdst hapart hq hfile hread hplace
  have hdst₁ : fs₁.Plain root := hputs.plain (by simp) hdst (hplace.ne_root hdst)
  have hsrc₁ : fs₁.Plain newRoot := hputs.plain (by simp) hsrc hapart.ne_root
  have hfile₁ : fs₁.fileAt (newRoot ++ q) = some g := by rw [hputs.fileAt_ne hapart.ne, hfile]
  have hopen₁ := hdst₁.openFile hputs.fileAt
  have hdir : ¬ fs.isDir ⟨root, q⟩ = true := fun h => hplace.not_dir ((hdst.isDir_iff hq).1 h)
  refine ⟨fs₁.set (root ++ q) { f with mode := g.mode }, ?_, ?_⟩
  · unfold copy2
    rw [get_bind]
    simp only [if_neg hdir]
    rw [bind_ok hcopy, bind_ok (mode_ok (hsrc₁.openFile hfile₁))]
    exact chmod_ok hopen₁ _
  · have hg : (⟨f.content, g.mode⟩ : File) = g := by rw [hcontent]
    rw [← hg]
    exact hputs.trans (puts_set (by rw [hputs.fileAt]; simp) _)

theorem copyfile_eq_ok {src dst : FilePath} (h : copyfile src dst fs = .ok () fs') :
    ∃ content, readBytes src fs = .ok content fs ∧ writeBytes dst content fs = .ok () fs' := by
  unfold copyfile at h
  rw [get_bind] at h
  split at h
  · cases h
  · rcases readBytes_total src with ⟨content, hread⟩ | ⟨e, hread⟩
    · exact ⟨content, hread, (bind_ok hread).symm.trans h⟩
    · have hraise := (bind_error hread).symm.trans h
      cases hraise

theorem writeBytes_over (hplain : fs.Plain root) (hfile : fs.fileAt (root ++ q) = some f) {content : List UInt8}
    (h : writeBytes ⟨root, q⟩ content fs = .ok () fs') : fs.Puts (root ++ q) (some (.file { f with content })) fs' := by
  have hopen := hplain.openFile hfile
  cases hwrite : f.writable with
  | true =>
    rw [writeBytes_ok hopen hwrite] at h
    cases h
    exact puts_set (by rw [hfile]; simp) _
  | false =>
    rw [writeBytes_denied hopen hwrite] at h
    cases h

theorem copyfile_raises {src : FilePath} {e : PyError} (h : readBytes src fs = .error e fs) (dst : FilePath) :
    ∃ e, copyfile src dst fs = .error e fs := by
  unfold copyfile
  rw [get_bind]
  split
  · exact ⟨_, rfl⟩
  · exact ⟨e, bind_error h⟩

theorem copy2_raises {src : FilePath} {e : PyError} (h : readBytes src fs = .error e fs) (dst : FilePath) :
    ∃ e, copy2 src dst fs = .error e fs := by
  unfold copy2
  rw [get_bind]
  obtain ⟨e, hcopy⟩ := copyfile_raises h
    (if fs.isDir dst = true then ⟨dst.base, dst.parts ++ src.parts.getLast?.toList⟩ else dst)
  exact ⟨e, bind_error hcopy⟩

/-- In a tree without links a file is read or nothing is. -/
theorem readBytes_cases (hplain : fs.Plain root) (hq : q.Normal) :
    (∃ f, fs.fileAt (root ++ q) = some f ∧ f.readable = true ∧ readBytes ⟨root, q⟩ fs = .ok f.content fs) ∨
      ∃ e, readBytes ⟨root, q⟩ fs = .error e fs := by
  cases hfile : fs.fileAt (root ++ q) with
  | none =>
    obtain ⟨e, hopen⟩ := hplain.not_openFile hq hfile
    exact .inr ⟨e, readBytes_error hopen⟩
  | some f =>
    have hopen := hplain.openFile hfile
    cases hread : f.readable with
    | true => exact .inl ⟨f, rfl, hread, readBytes_ok hopen hread⟩
    | false => exact .inr ⟨_, readBytes_denied hopen hread⟩

end FileM
