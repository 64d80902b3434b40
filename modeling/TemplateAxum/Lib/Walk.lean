import Mathlib
import TemplateAxum.Lib.LinkFree

/-!
# Walking a tree

The regular files below a directory, as `os.walk` and `rglob` find them: a link is never descended into, and
directories of some names may be left out.
-/

namespace FileSystem

variable {fs : FileSystem} {base d q rel : PurePath} {name : String} {skip : String → Bool} {levels : ℕ}

/-- The names in a directory. -/
def entries (fs : FileSystem) (d : PurePath) : Finset String :=
  (fs.nodes.keys.filter fun real => real ≠ [] ∧ real.dropLast = d).image fun real => real.getLast?.getD ""

/-- The files so many levels down, as paths from `base`. -/
def filesFrom (fs : FileSystem) (skip : String → Bool) (base : PurePath) : ℕ → PurePath → Finset PurePath
  | 0, _ => ∅
  | levels + 1, rel => (fs.entries (base ++ rel)).biUnion fun name =>
    if fs.lookup (base ++ (rel ++ [name])) = some .dir then
      if skip name then ∅ else filesFrom fs skip base levels (rel ++ [name])
    else if fs.isFile ⟨base, rel ++ [name]⟩ then {rel ++ [name]} else ∅

/-- No entry is deeper. -/
def depth (fs : FileSystem) : ℕ := fs.nodes.keys.sup List.length

def files (fs : FileSystem) (skip : String → Bool) (base : PurePath) : Finset PurePath :=
  fs.filesFrom skip base fs.depth []

theorem mem_keys : q ∈ fs.nodes.keys ↔ fs.lookup q ≠ none := by
  rw [Finmap.mem_keys, ← Finmap.lookup_isSome, Option.isSome_iff_ne_none]
  rfl

theorem mem_entries : name ∈ fs.entries d ↔ fs.lookup (d ++ [name]) ≠ none := by
  simp only [entries, Finset.mem_image, Finset.mem_filter, mem_keys]
  constructor
  · rintro ⟨real, ⟨hreal, hne, rfl⟩, rfl⟩
    obtain ⟨d, name, rfl⟩ := (List.eq_nil_or_concat' real).resolve_left hne
    simpa using hreal
  · intro h
    exact ⟨d ++ [name], ⟨h, by simp, by simp⟩, by simp⟩

theorem length_le_depth (h : fs.lookup q ≠ none) : q.length ≤ fs.depth := @Finset.le_sup _ _ _ _ _ List.length _ (mem_keys.2 h)

theorem Plain.isFile_iff (hplain : fs.Plain base) (hq : q.Normal) : fs.isFile ⟨base, q⟩ = true ↔ fs.fileAt (base ++ q) ≠ none := by
  rw [isFile, hplain.stat hq, fileAt]
  split <;> simp_all

theorem mem_filesFrom (hplain : fs.Plain base) : q ∈ fs.filesFrom skip base levels rel ↔
    ∃ rest, q = rel ++ rest ∧ rest ≠ [] ∧ rest.length ≤ levels ∧ fs.fileAt (base ++ q) ≠ none ∧
      ∀ part ∈ rest.dropLast, skip part = false := by
  induction levels generalizing rel with
  | zero =>
    refine iff_of_false (Finset.notMem_empty q) ?_
    rintro ⟨rest, -, hne, hlen, -⟩
    exact hne (List.eq_nil_of_length_eq_zero (Nat.le_zero.1 hlen))
  | succ levels ih =>
    rw [filesFrom, Finset.mem_biUnion]
    constructor
    · rintro ⟨name, hname, hq⟩
      have hthere : fs.lookup (base ++ (rel ++ [name])) ≠ none := by
        rw [← List.append_assoc]
        exact mem_entries.1 hname
      have hnormal : PurePath.Normal (rel ++ [name]) := fun part hpart =>
        normal_of_lookup hthere part (List.mem_append_right _ hpart)
      split at hq
      · split at hq
        · exact absurd hq (Finset.notMem_empty q)
        · rename_i hskip
          obtain ⟨rest, rfl, hne, hlen, hfile, hparts⟩ := ih.1 hq
          refine ⟨name :: rest, by simp, by simp, Nat.succ_le_succ hlen, hfile, fun part hpart => ?_⟩
          rw [List.dropLast_cons_of_ne_nil hne] at hpart
          rcases List.mem_cons.1 hpart with rfl | hpart
          · exact Bool.eq_false_iff.2 hskip
          · exact hparts part hpart
      · split at hq
        · rename_i hfile
          rw [Finset.mem_singleton.1 hq]
          exact ⟨[name], rfl, by simp, by simp, (hplain.isFile_iff hnormal).1 hfile, by simp⟩
        · exact absurd hq (Finset.notMem_empty q)
    · rintro ⟨rest, rfl, hne, hlen, hfile, hparts⟩
      obtain ⟨name, rest, rfl⟩ := List.exists_cons_of_ne_nil hne
      have hthere : fs.lookup (base ++ (rel ++ name :: rest)) ≠ none := fun hnone => hfile (by rw [fileAt, hnone])
      have hpre : base ++ (rel ++ [name]) <+: base ++ (rel ++ name :: rest) := ⟨rest, by simp⟩
      cases rest with
      | nil =>
        refine ⟨name, mem_entries.2 (by rwa [List.append_assoc]), ?_⟩
        have hnormal : PurePath.Normal (rel ++ [name]) := fun part hpart =>
          normal_of_lookup hthere part (List.mem_append_right _ hpart)
        rw [if_neg (not_dir_of_fileAt hfile), if_pos ((hplain.isFile_iff hnormal).2 hfile)]
        exact Finset.mem_singleton_self _
      | cons next rest =>
        have hdir : fs.lookup (base ++ (rel ++ [name])) = some .dir := dir_of_below hpre (by simp) hthere
        refine ⟨name, mem_entries.2 (by rw [List.append_assoc, hdir]; simp), ?_⟩
        have hskip : skip name = false := hparts name (by simp)
        rw [if_pos hdir, if_neg (by rw [hskip]; exact Bool.false_ne_true)]
        refine ih.2 ⟨next :: rest, by simp, by simp, Nat.le_of_succ_le_succ hlen, hfile, fun part hpart => hparts part ?_⟩
        rw [List.dropLast_cons_of_ne_nil (by simp)]
        exact List.mem_cons_of_mem _ hpart

/-- The walk finds every file that no directory left out holds. -/
theorem mem_files (hplain : fs.Plain base) :
    q ∈ fs.files skip base ↔ q ≠ [] ∧ fs.fileAt (base ++ q) ≠ none ∧ ∀ part ∈ q.dropLast, skip part = false := by
  rw [files, mem_filesFrom hplain]
  constructor
  · rintro ⟨rest, rfl, hne, -, hfile, hparts⟩
    exact ⟨hne, hfile, hparts⟩
  · rintro ⟨hne, hfile, hparts⟩
    have hthere : fs.lookup (base ++ q) ≠ none := fun hnone => hfile (by rw [fileAt, hnone])
    have hlen := length_le_depth hthere
    rw [List.length_append] at hlen
    exact ⟨q, rfl, hne, by omega, hfile, hparts⟩

end FileSystem
