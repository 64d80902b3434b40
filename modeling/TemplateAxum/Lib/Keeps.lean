import TemplateAxum.Lib.Links

/-!
# What programs on files keep

A relation that no single write breaks is kept by every program made of them, whether it comes to its end or fails
on the way.
-/

namespace FileM

open FileSystem

variable {α β : Type} {R : FileSystem → FileSystem → Prop} {fs fs' fs'' : FileSystem} {p src dst : FilePath}

/-- A relation between what was and what is, which a changed file and a new file or directory keep. -/
structure Tame (R : FileSystem → FileSystem → Prop) : Prop where
  refl : ∀ fs, R fs fs
  trans : ∀ fs fs' fs'', R fs fs' → R fs' fs'' → R fs fs''
  set : ∀ (fs : FileSystem) real f, R fs (fs.set real f)
  addFile : ∀ (fs : FileSystem) d name f, R fs (fs.add d name (.file f))
  addDir : ∀ (fs : FileSystem) d name, R fs (fs.add d name .dir)

def Keeps (R : FileSystem → FileSystem → Prop) (x : FileM α) : Prop := ∀ fs, R fs (left x fs)

section

variable {x : FileM α} {k : α → FileM β} (h : Tame R)
include h

theorem Tame.of_left (hx : ∀ fs, left x fs = fs) : Keeps R x := fun fs => by
  rw [hx]
  exact h.refl fs

theorem Tame.pure (a : α) : Keeps R (pure a : FileM α) := h.of_left fun _ => rfl

theorem Tame.throw (e : PyError) : Keeps R (throw e : FileM α) := h.of_left fun _ => rfl

theorem Tame.bind (hx : Keeps R x) (hk : ∀ a, Keeps R (k a)) : Keeps R (x >>= k) := by
  intro fs
  cases hrun : x fs with
  | ok a fs' =>
    have hfirst := hx fs
    rw [left_ok hrun] at hfirst
    rw [left_bind_ok hrun]
    exact h.trans _ _ _ hfirst (hk a fs')
  | error e fs' =>
    have hfirst := hx fs
    rw [left_error hrun] at hfirst
    rw [left_bind_error hrun]
    exact hfirst

theorem Tame.tryCatch {handle : PyError → FileM α} (hx : Keeps R x) (hhandle : ∀ e, Keeps R (handle e)) :
    Keeps R (tryCatch x handle) := by
  intro fs
  have hfirst := hx fs
  cases hrun : x fs with
  | ok a fs' =>
    rw [left_ok hrun] at hfirst
    rw [left_ok (tryCatch_ok hrun)]
    exact hfirst
  | error e fs' =>
    rw [left_error hrun] at hfirst
    rw [left, tryCatch_error hrun]
    exact h.trans _ _ _ hfirst (hhandle e fs')

end

theorem Keeps.ite {c : Prop} [Decidable c] {x y : FileM α} (hx : Keeps R x) (hy : Keeps R y) : Keeps R (if c then x else y) := by
  split
  · exact hx
  · exact hy

/-- A handler that writes nothing leaves what the failing run left. -/
theorem left_tryCatch_pure {x : FileM α} {handle : PyError → FileM α} (hhandle : ∀ e fs, left (handle e) fs = fs) :
    left (tryCatch x handle) fs = left x fs := by
  cases hrun : x fs with
  | ok a fs' => rw [left_ok (tryCatch_ok hrun), left_ok hrun]
  | error e fs' => rw [left, tryCatch_error hrun, ← left, hhandle, left_error hrun]

theorem Keeps.get_bind {k : FileSystem → FileM β} (hk : ∀ fs, Keeps R (k fs)) : Keeps R (get >>= k) := fun fs => hk fs fs

/-! ### The operations -/

theorem left_readBytes (p : FilePath) (fs : FileSystem) : left (readBytes p) fs = fs := by
  obtain ⟨content, h⟩ | ⟨e, h⟩ := readBytes_total p
  · exact left_ok h
  · exact left_error h

theorem left_get_bind (k : FileSystem → FileM β) : left (get >>= k) fs = left (k fs) fs := rfl

theorem left_mode (p : FilePath) (fs : FileSystem) : left (mode p) fs = fs := by
  unfold mode
  rw [left_get_bind]
  split <;> rfl

namespace Tame

variable (h : Tame R)
include h

theorem readBytes (p : FilePath) : Keeps R (readBytes p) := h.of_left (left_readBytes p)

theorem mode (p : FilePath) : Keeps R (mode p) := h.of_left (left_mode p)

theorem writeBytes (p : FilePath) (content : List UInt8) : Keeps R (writeBytes p content) := by
  intro fs
  unfold FileM.writeBytes
  rw [left_get_bind]
  split
  · split
    · exact h.set _ _ _
    · exact h.refl _
  · split
    · exact h.addFile _ _ _ _
    · exact h.refl _

theorem chmod (p : FilePath) (mode : BitVec 12) : Keeps R (chmod p mode) := by
  intro fs
  unfold FileM.chmod
  rw [left_get_bind]
  split
  · exact h.set _ _ _
  · exact h.refl _
  · exact h.refl _

/-- What also keeps a removal keeps this. -/
theorem unlink (hremove : ∀ (fs : FileSystem) real, R fs (fs.remove real)) (p : FilePath) : Keeps R (unlink p) := by
  intro fs
  unfold FileM.unlink
  rw [left_get_bind]
  split
  · split
    · exact h.refl _
    · split
      · exact h.refl _
      · exact hremove _ _
  · exact h.refl _

theorem mkdir (p : FilePath) : Keeps R (mkdir p) := by
  intro fs
  unfold FileM.mkdir
  rw [left_get_bind]
  split
  · split
    · exact h.refl _
    · exact h.addDir _ _ _
  · exact h.refl _

theorem mkdirExistOk (p : FilePath) : Keeps R (mkdirExistOk p) :=
  h.tryCatch (h.mkdir p) fun e => .get_bind fun _ => .ite (h.pure ()) (h.throw e)

theorem mkdirParents (levels : ℕ) (p : FilePath) : Keeps R (mkdirParents levels p) := by
  induction levels generalizing p with
  | zero => exact h.mkdirExistOk p
  | succ levels ih =>
    refine h.tryCatch (h.mkdir p) fun e => .ite ?_ (.get_bind fun _ => .ite (h.pure ()) (h.throw e))
    exact h.bind (ih p.parent) fun _ => h.mkdirExistOk p

theorem makeDirs (p : FilePath) : Keeps R (makeDirs p) := h.mkdirParents _ p

theorem copyfile (src dst : FilePath) : Keeps R (copyfile src dst) := by
  refine .get_bind fun fs => ?_
  split
  · exact h.throw _
  · exact h.bind (h.readBytes src) fun content => h.writeBytes dst content

theorem copy2 (src dst : FilePath) : Keeps R (copy2 src dst) := by
  refine .get_bind fun fs => ?_
  refine h.bind (h.copyfile src _) fun _ => ?_
  exact h.bind (h.mode src) fun mode => h.chmod _ mode

end Tame

/-! ### What is kept -/

/-- No file goes. -/
def FilesStay (fs fs' : FileSystem) : Prop := ∀ r, fs.fileAt r ≠ none → fs'.fileAt r ≠ none

theorem lookup_set_or (fs : FileSystem) (real : PurePath) (f : File) (r : PurePath) :
    (fs.set real f).lookup r = fs.lookup r ∨ fs.fileAt r ≠ none ∧ (fs.set real f).lookup r = some (.file f) := by
  by_cases hfile : fs.fileAt real ≠ none
  · rw [lookup_set hfile]
    split
    · rename_i heq
      exact .inr ⟨heq ▸ hfile, rfl⟩
    · exact .inl rfl
  · left
    rw [FileSystem.set, dif_neg hfile]

/-- A tree without links stays one. -/
def PlainStays (root : PurePath) (fs fs' : FileSystem) : Prop := fs.Plain root → fs'.Plain root

theorem plainStays_tame (root : PurePath) : Tame (PlainStays root) where
  refl _ h := h
  trans _ _ _ h h' hplain := h' (h hplain)
  set fs real f hplain := by
    constructor
    · rcases lookup_set_or fs real f root with heq | ⟨hfile, -⟩
      · rw [heq, hplain.dir]
      · exact absurd hplain.dir (not_dir_of_fileAt hfile)
    · intro q target hlink
      rcases lookup_set_or fs real f (root ++ q) with heq | ⟨-, heq⟩
      · exact hplain.not_link q target (heq ▸ hlink)
      · rw [heq] at hlink
        cases hlink
  addFile fs d name f hplain := by
    constructor
    · rcases lookup_add_or fs d name (.file f) root with heq | ⟨hnone, -⟩
      · rw [heq, hplain.dir]
      · rw [hplain.dir] at hnone
        cases hnone
    · intro q target hlink
      rcases lookup_add_or fs d name (.file f) (root ++ q) with heq | ⟨-, heq⟩
      · exact hplain.not_link q target (heq ▸ hlink)
      · rw [heq] at hlink
        cases hlink
  addDir fs d name hplain := by
    constructor
    · rcases lookup_add_or fs d name .dir root with heq | ⟨hnone, -⟩
      · rw [heq, hplain.dir]
      · rw [hplain.dir] at hnone
        cases hnone
    · intro q target hlink
      rcases lookup_add_or fs d name .dir (root ++ q) with heq | ⟨-, heq⟩
      · exact hplain.not_link q target (heq ▸ hlink)
      · rw [heq] at hlink
        cases hlink

theorem plainStays_remove (root : PurePath) (fs : FileSystem) (real : PurePath) : PlainStays root fs (fs.remove real) := by
  intro hplain
  by_cases hdir : fs.lookup real ≠ some .dir
  · constructor
    · rw [lookup_remove hdir, if_neg, hplain.dir]
      rintro rfl
      exact hdir hplain.dir
    · intro q target hlink
      rw [lookup_remove hdir] at hlink
      split at hlink
      · cases hlink
      · exact hplain.not_link q target hlink
  · rwa [FileSystem.remove, dif_neg hdir]

theorem filesStay_tame : Tame FilesStay where
  refl _ _ h := h
  trans _ _ _ h h' r hfile := h' r (h r hfile)
  set fs real f r hfile := by
    rcases lookup_set_or fs real f r with heq | ⟨-, heq⟩
    · rwa [fileAt, heq]
    · rw [fileAt, heq]
      simp
  addFile fs d name f r hfile := by
    rcases lookup_add_or fs d name (.file f) r with heq | ⟨hnone, -⟩
    · rwa [fileAt, heq]
    · exact absurd (by rw [fileAt, hnone]) hfile
  addDir fs d name r hfile := by
    rcases lookup_add_or fs d name .dir r with heq | ⟨hnone, -⟩
    · rwa [fileAt, heq]
    · exact absurd (by rw [fileAt, hnone]) hfile

end FileM
