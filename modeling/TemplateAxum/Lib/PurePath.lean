import Mathlib.Data.List.Infix

/-!
# Paths without a file system

A relative path is the list of its parts. A name is read as POSIX reads it: empty parts and `.` say
nothing, `..` is a part like any other.
-/

/-- The parts of a path; the root has none. -/
abbrev PurePath := List String

namespace PurePath

def ofName (name : String) : PurePath :=
  ((name.toList.splitOn '/').map String.ofList).filter fun part => part ≠ "" ∧ part ≠ "."

def isAbsolute (name : String) : Bool := name.toList.head? = some '/'

def name (path : PurePath) : String := if path = [] then "." else "/".intercalate path

/-- What an entry of a directory may be called. -/
def IsName (part : String) : Prop := part ≠ "" ∧ part ≠ "." ∧ part ≠ ".." ∧ '/' ∉ part.toList

instance (part : String) : Decidable (IsName part) := inferInstanceAs (Decidable (_ ∧ _))

/-- A path that leads down only. -/
def Normal (path : PurePath) : Prop := ∀ part ∈ path, IsName part

/-- The ancestors, the nearest first, the root last. -/
def parents (path : PurePath) : List PurePath := (List.range path.length).reverse.map path.take

variable {path d : PurePath}

theorem mem_parents : d ∈ parents path ↔ d <+: path ∧ d ≠ path := by
  unfold parents
  simp only [List.mem_map, List.mem_reverse, List.mem_range]
  constructor
  · rintro ⟨n, hn, rfl⟩
    refine ⟨List.take_prefix n path, fun heq => ?_⟩
    have := congrArg List.length heq
    rw [List.length_take] at this
    omega
  · rintro ⟨hpre, hne⟩
    refine ⟨d.length, Nat.lt_of_le_of_ne hpre.length_le fun hlen => hne (hpre.eq_of_length hlen), ?_⟩
    exact (List.prefix_iff_eq_take.1 hpre).symm

theorem not_mem_ofName (name : String) : "" ∉ ofName name ∧ "." ∉ ofName name := by
  constructor
  · intro h
    simpa using (List.mem_filter.1 h).2
  · intro h
    simpa using (List.mem_filter.1 h).2

/-- Of the paths without a `.` only the root is written so. -/
theorem name_eq_dot_iff (hdot : "." ∉ path) : path.name = "." ↔ path = [] := by
  constructor
  · intro h
    match path with
    | [] => rfl
    | [part] =>
      rw [name, if_neg (by simp)] at h
      exact absurd (by simpa using h.symm) hdot
    | part :: part' :: rest =>
      rw [name, if_neg (by simp), String.intercalate_cons_cons] at h
      have hslash : '/' ∈ (part ++ "/" ++ "/".intercalate (part' :: rest)).toList := by simp
      rw [h] at hslash
      exact absurd hslash (by decide)
  · rintro rfl
    rfl

theorem Normal.along (h : Normal path) (hd : d <+: path) : Normal d := fun part hpart => h part (hd.subset hpart)

theorem toList_name (hne : path ≠ []) : path.name.toList = ['/'].intercalate (path.map String.toList) := by
  rw [name, if_neg hne, String.toList_intercalate]
  rfl

/-- A path is read as it was written. -/
theorem ofName_name (h : Normal path) : ofName path.name = path := by
  by_cases hne : path = []
  · subst hne
    decide +kernel
  · have hslash : ∀ part ∈ path.map String.toList, '/' ∉ part := by
      intro part hpart
      obtain ⟨part, hmem, rfl⟩ := List.mem_map.1 hpart
      exact (h part hmem).2.2.2
    unfold ofName
    rw [toList_name hne, List.splitOn_intercalate '/' hslash (by simpa using hne), List.map_map]
    have hid : String.ofList ∘ String.toList = id := by
      funext part
      simp
    rw [hid, List.map_id, List.filter_eq_self]
    intro part hpart
    simpa using ⟨(h part hpart).1, (h part hpart).2.1⟩

theorem isAbsolute_name (h : Normal path) : isAbsolute path.name = false := by
  match path with
  | [] => rfl
  | part :: rest =>
    have hpart := h part List.mem_cons_self
    unfold isAbsolute
    rw [toList_name (by simp), List.map_cons]
    match hchars : part.toList with
    | [] => exact absurd (String.toList_eq_nil_iff.1 hchars) hpart.1
    | c :: chars =>
      have hc : c ≠ '/' := by
        rintro rfl
        exact hpart.2.2.2 (hchars ▸ List.mem_cons_self)
      cases rest with
      | nil => simpa using hc
      | cons part' rest => simpa [List.intercalate_cons_cons] using hc

theorem name_injective {path path' : PurePath} (h : Normal path) (h' : Normal path') (heq : path.name = path'.name) :
    path = path' := by
  rw [← ofName_name h, heq, ofName_name h']

/-- The parts of two names with a slash between them. -/
theorem ofName_append (a b : List Char) :
    ofName (String.ofList (a ++ '/' :: b)) = ofName (String.ofList a) ++ ofName (String.ofList b) := by
  simp only [ofName, String.toList_ofList]
  rw [List.splitOn_append_cons_self, List.map_append, List.filter_append]

/-- A name does not end in a slash. -/
theorem getLast?_name (h : Normal path) : path.name.toList.getLast? ≠ some '/' := by
  intro hlast
  obtain ⟨front, hfront⟩ := List.getLast?_eq_some_iff.1 hlast
  by_cases hne : path = []
  · subst hne
    have hdot : PurePath.name [] = "." := rfl
    rw [hdot] at hlast
    exact absurd hlast (by decide)
  · have hslash : ∀ part ∈ path.map String.toList, '/' ∉ part := by
      intro part hpart
      obtain ⟨part, hmem, rfl⟩ := List.mem_map.1 hpart
      exact (h part hmem).2.2.2
    have hsplit := List.splitOn_intercalate '/' hslash (by simpa using hne)
    rw [← toList_name hne, hfront, List.splitOn_append_cons_self, List.splitOn_nil] at hsplit
    have hempty : [] ∈ path.map String.toList := by
      rw [← hsplit]
      exact List.mem_append_right _ (List.mem_singleton_self _)
    obtain ⟨part, hmem, hpart⟩ := List.mem_map.1 hempty
    exact (h part hmem).1 (String.toList_eq_nil_iff.1 hpart)

theorem intercalate_append {sep : List Char} {front back : List (List Char)} (hfront : front ≠ []) (hback : back ≠ []) :
    sep.intercalate (front ++ back) = sep.intercalate front ++ (sep ++ sep.intercalate back) := by
  induction front with
  | nil => exact absurd rfl hfront
  | cons part front ih =>
    cases front with
    | nil =>
      rw [List.singleton_append, List.intercalate_cons_of_ne_nil hback, List.intercalate_singleton]
      simp
    | cons next front =>
      rw [List.cons_append, List.intercalate_cons_of_ne_nil (by simp), ih (by simp), List.intercalate_cons_cons]
      simp only [List.append_assoc]

/-- A name followed by a slash begins the names of what lies below. -/
theorem prefix_name_iff (hd : Normal d) (hdne : d ≠ []) (h : Normal path) :
    d.name.toList ++ ['/'] <+: path.name.toList ↔ d <+: path ∧ d ≠ path := by
  constructor
  · rintro ⟨rest, hrest⟩
    have hname : path.name = String.ofList (d.name.toList ++ '/' :: rest) := by
      rw [← String.toList_inj, String.toList_ofList, ← hrest]
      simp
    have hparts : path = d ++ ofName (String.ofList rest) := by
      rw [← ofName_name h, hname, ofName_append, String.ofList_toList, ofName_name hd]
    refine ⟨⟨_, hparts.symm⟩, ?_⟩
    rintro rfl
    have hlen := congrArg List.length hrest
    simp at hlen
  · rintro ⟨⟨rest, rfl⟩, hne⟩
    have hrest : rest ≠ [] := fun hnil => hne (by rw [hnil, List.append_nil])
    refine ⟨['/'].intercalate (rest.map String.toList), ?_⟩
    rw [toList_name hdne, toList_name (by simp [hdne]), List.map_append, intercalate_append (by simpa using hdne) (by simpa using hrest),
      List.append_assoc]

/-- What leads to the directory that a path is in leads to the path, and is not the path. -/
theorem prefix_dropLast_iff (hne : path ≠ []) : d <+: path.dropLast ↔ d <+: path ∧ d ≠ path := by
  obtain ⟨path, part, rfl⟩ := (List.eq_nil_or_concat' path).resolve_left hne
  rw [List.dropLast_concat, List.prefix_concat_iff]
  constructor
  · intro hpre
    refine ⟨.inr hpre, ?_⟩
    rintro rfl
    have := hpre.length_le
    rw [List.length_append, List.length_singleton] at this
    omega
  · rintro ⟨heq | hpre, hne⟩
    · exact absurd heq hne
    · exact hpre

end PurePath
