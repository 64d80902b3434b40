import Mathlib

/-!
# Crate paths of a Rust text

A Rust text as the tokens it is made of, none left out, and the paths that its code roots at `crate`, one for
each leaf of a use tree.
-/

/-- The characters of identifiers; beyond ASCII they are left open. -/
structure RustChars where
  identStart : Char → Bool
  identContinue : Char → Bool
  identStart_ascii : ∀ c : Char, c.toNat < 128 → identStart c = (c.isAlpha || c = '_')
  identContinue_ascii : ∀ c : Char, c.toNat < 128 → identContinue c = (c.isAlphanum || c = '_')

inductive RustToken
  | white (c : Char)
  | lineComment (body : List Char)
  | blockComment (body : List Char)
  | literal (text : List Char)
  | lifetime (name : List Char)
  | ident (name : List Char)
  | rawIdent (name : List Char)
  | pathSep
  | punct (c : Char)
deriving DecidableEq

namespace RustToken

def isWhite (c : Char) : Bool :=
  [0x09, 0x0a, 0x0b, 0x0c, 0x0d, 0x20, 0x85, 0x200e, 0x200f, 0x2028, 0x2029].contains c.toNat

def isPunct (c : Char) : Bool :=
  [';', ',', '.', '(', ')', '{', '}', '[', ']', '@', '#', '~', '?', ':', '$', '=', '!', '<', '>', '-', '&', '|', '+', '*',
    '/', '^', '%'].contains c

/-- What the token is written as. -/
def text : RustToken → List Char
  | white c | punct c => [c]
  | lineComment body => '/' :: '/' :: body
  | blockComment body => '/' :: '*' :: (body ++ ['*', '/'])
  | literal text => text
  | lifetime name => '\'' :: name
  | ident name => name
  | rawIdent name => 'r' :: '#' :: name
  | pathSep => [':', ':']

def textOf (tokens : List RustToken) : List Char := tokens.flatMap text

/-- A token of the code. -/
def isCode : RustToken → Bool
  | white _ | lineComment _ | blockComment _ => false
  | _ => true

def code (tokens : List RustToken) : List RustToken := tokens.filter isCode

variable (chars : RustChars)

/-- Of a literal, only that no colon begins or ends it. -/
def Shape : RustToken → Prop
  | white c => isWhite c = true
  | punct c => isPunct c = true
  | literal text => text ≠ [] ∧ text.head? ≠ some ':' ∧ text.getLast? ≠ some ':'
  | lifetime name => ∀ c ∈ name, chars.identContinue c = true
  | ident name | rawIdent name =>
    (∃ c, name.head? = some c ∧ chars.identStart c = true) ∧ ∀ c ∈ name, chars.identContinue c = true
  | _ => True

/-- The token is the longest one: what comes next does not go on with it. -/
def EndsBefore (next : List Char) : RustToken → Prop
  | lineComment _ => ∀ c, next.head? = some c → c = '\n'
  | lifetime _ | ident _ | rawIdent _ => ∀ c, next.head? = some c → chars.identContinue c = false
  | literal _ => ∀ c, next.head? = some c → chars.identStart c = false
  | punct ':' => next.head? ≠ some ':'
  | _ => True

def Lexes : List RustToken → Prop
  | [] => True
  | t :: tokens => t.Shape chars ∧ t.EndsBefore chars (textOf tokens) ∧ Lexes tokens

/-! ### Paths -/

mutual

/-- The leaves of the tree whose next segment stands here, within groups that were opened behind the paths of `groups`. -/
def atSegment (groups : List (List (List Char))) (path : List (List Char)) : List RustToken → List (List (List Char))
  | ident name :: tokens =>
    if groups ≠ [] ∧ name = "self".toList then behind groups path tokens else behind groups (path ++ [name]) tokens
  | rawIdent name :: tokens => behind groups (path ++ [name]) tokens
  | punct '*' :: tokens => path :: behindGroup groups tokens
  | punct '{' :: tokens => atSegment (path :: groups) path tokens
  | punct '}' :: tokens => behindGroup groups.tail tokens
  | _ => [path]

/-- A path that calls a macro has no leaf. -/
def behind (groups : List (List (List Char))) (path : List (List Char)) : List RustToken → List (List (List Char))
  | pathSep :: tokens => atSegment groups path tokens
  | punct '!' :: punct c :: _ => if c = '(' ∨ c = '[' ∨ c = '{' then [] else [path]
  | ident name :: ident _ :: tokens => if groups ≠ [] ∧ name = "as".toList then path :: behindGroup groups tokens else [path]
  | punct ',' :: tokens =>
    match groups with
    | [] => [path]
    | group :: groups => path :: atSegment (group :: groups) group tokens
  | punct '}' :: tokens =>
    match groups with
    | [] => [path]
    | _ :: groups => path :: behindGroup groups tokens
  | _ => [path]

def behindGroup (groups : List (List (List Char))) : List RustToken → List (List (List Char))
  | punct ',' :: tokens =>
    match groups with
    | [] => []
    | group :: groups => atSegment (group :: groups) group tokens
  | punct '}' :: tokens =>
    match groups with
    | [] => []
    | _ :: groups => behindGroup groups tokens
  | _ => []

end

/-- The paths rooted at the `crate` that these tokens come behind. The root itself is none. -/
def rooted (tokens : List RustToken) : List (List (List Char)) :=
  match code tokens with
  | pathSep :: tokens => (atSegment [] [] tokens).filter (· ≠ [])
  | _ => []

/-- `crate` stands here, and nothing before it in its path. -/
structure CrateAt (tokens before after : List RustToken) : Prop where
  split : tokens = before ++ ident "crate".toList :: after
  first : (code before).getLast? ≠ some pathSep

/-! ### Leaves -/

/-- Every leaf goes on with the path, or with that of a group. -/
theorem leaves_prefix {base : List (List Char)} :
    (∀ groups path tokens, base <+: path → (∀ group ∈ groups, base <+: group) →
      ∀ p ∈ atSegment groups path tokens, base <+: p) ∧
    (∀ groups tokens, (∀ group ∈ groups, base <+: group) → ∀ p ∈ behindGroup groups tokens, base <+: p) ∧
    (∀ groups path tokens, base <+: path → (∀ group ∈ groups, base <+: group) →
      ∀ p ∈ behind groups path tokens, base <+: p) := by
  refine atSegment.mutual_induct _ _ _ ?_ ?_ ?_ ?_ ?_ ?_ ?_ ?_ ?_ ?_ ?_ ?_ ?_ ?_ ?_ ?_ ?_ ?_ ?_ ?_ ?_ ?_
  case refine_1 =>
    intro groups path name tokens hself ih hpath hgroups
    rw [atSegment, if_pos hself]
    exact ih hpath hgroups
  case refine_2 =>
    intro groups path name tokens hself ih hpath hgroups
    rw [atSegment, if_neg hself]
    exact ih (hpath.trans (List.prefix_append ..)) hgroups
  case refine_3 =>
    intro groups path name tokens ih hpath hgroups
    rw [atSegment]
    exact ih (hpath.trans (List.prefix_append ..)) hgroups
  case refine_4 =>
    intro groups path tokens ih hpath hgroups
    rw [atSegment]
    exact List.forall_mem_cons.2 ⟨hpath, ih hgroups⟩
  case refine_5 =>
    intro groups path tokens ih hpath hgroups
    rw [atSegment]
    exact ih hpath (List.forall_mem_cons.2 ⟨hpath, hgroups⟩)
  case refine_6 =>
    intro groups path tokens ih hpath hgroups
    rw [atSegment]
    exact ih fun group hgroup => hgroups group (List.mem_of_mem_tail hgroup)
  case refine_7 =>
    intro tokens groups path h₁ h₂ h₃ h₄ h₅ hpath hgroups
    rw [atSegment.eq_6 _ _ _ h₁ h₂ h₃ h₄ h₅]
    exact List.forall_mem_singleton.2 hpath
  case refine_8 => simp [behindGroup]
  case refine_9 =>
    intro tokens group groups ih hgroups
    rw [behindGroup]
    exact ih (hgroups group (List.mem_cons_self ..)) hgroups
  case refine_10 => simp [behindGroup]
  case refine_11 =>
    intro tokens group groups ih hgroups
    rw [behindGroup]
    exact ih (List.forall_mem_cons.1 hgroups).2
  case refine_12 =>
    intro tokens groups h₁ h₂ hgroups
    rw [behindGroup.eq_5 _ _ h₁ h₂]
    simp
  case refine_13 =>
    intro groups path tokens ih hpath hgroups
    rw [behind]
    exact ih hpath hgroups
  case refine_14 =>
    intro groups path c tail hc hpath hgroups
    rw [behind, if_pos hc]
    simp
  case refine_15 =>
    intro groups path c tail hc hpath hgroups
    rw [behind, if_neg hc]
    exact List.forall_mem_singleton.2 hpath
  case refine_16 =>
    intro groups path name renamed tokens has ih hpath hgroups
    rw [behind, if_pos has]
    exact List.forall_mem_cons.2 ⟨hpath, ih hgroups⟩
  case refine_17 =>
    intro groups path name renamed tokens has hpath hgroups
    rw [behind, if_neg has]
    exact List.forall_mem_singleton.2 hpath
  case refine_18 =>
    intro path tokens hpath hgroups
    rw [behind]
    exact List.forall_mem_singleton.2 hpath
  case refine_19 =>
    intro path tokens group groups ih hpath hgroups
    rw [behind]
    exact List.forall_mem_cons.2 ⟨hpath, ih (hgroups group (List.mem_cons_self ..)) hgroups⟩
  case refine_20 =>
    intro path tokens hpath hgroups
    rw [behind]
    exact List.forall_mem_singleton.2 hpath
  case refine_21 =>
    intro path tokens group groups ih hpath hgroups
    rw [behind]
    exact List.forall_mem_cons.2 ⟨hpath, ih (List.forall_mem_cons.1 hgroups).2⟩
  case refine_22 =>
    intro tokens groups path h₁ h₂ h₃ h₄ h₅ hpath hgroups
    rw [behind.eq_8 _ _ _ h₁ h₂ h₃ h₄ h₅]
    exact List.forall_mem_singleton.2 hpath

theorem behindGroup_nil (tokens : List RustToken) : behindGroup [] tokens = [] := by
  unfold behindGroup
  split <;> rfl

/-- A token that a name or a group may begin with. -/
def Names : RustToken → Prop
  | ident _ | rawIdent _ | literal _ | punct '{' => True
  | _ => False

/-- The path goes on behind these tokens. -/
def GoesOn (tokens : List RustToken) : Prop := ∃ t rest, code tokens = pathSep :: t :: rest ∧ t.Names

theorem leaf_eq_of_not_names {t : RustToken} {rest : List RustToken} {path p : List (List Char)} (ht : ¬ t.Names)
    (hp : p ∈ atSegment [] path (t :: rest)) : p = path := by
  unfold atSegment at hp
  split at hp
  case h_1 h => simp_all [Names]
  case h_2 h => simp_all [Names]
  case h_3 => simpa [behindGroup_nil] using hp
  case h_4 h => simp_all [Names]
  case h_5 => simp [behindGroup_nil] at hp
  case h_6 => exact List.mem_singleton.1 hp

theorem leaf_eq_of_not_goesOn {tokens : List RustToken} {path p : List (List Char)} (h : ¬ GoesOn tokens)
    (hp : p ∈ behind [] path (code tokens)) : p = path := by
  unfold behind at hp
  split at hp
  case h_1 rest htokens =>
    cases rest with
    | nil => simpa [atSegment] using hp
    | cons t rest => exact leaf_eq_of_not_names (fun ht => h ⟨t, rest, htokens, ht⟩) hp
  case h_2 => split at hp <;> simp_all
  case h_3 => simp_all
  all_goals simp_all

/-! ### Where `crate` stands -/

section

variable {chars : RustChars}

theorem lexes_append {tokens tokens' : List RustToken} (h : Lexes chars (tokens ++ tokens')) : Lexes chars tokens' := by
  induction tokens with
  | nil => exact h
  | cons t tokens ih => exact ih h.2.2

theorem identStart_c : chars.identStart 'c' = true := by
  rw [chars.identStart_ascii _ (by decide)]
  decide

theorem identContinue_c : chars.identContinue 'c' = true := by
  rw [chars.identContinue_ascii _ (by decide)]
  decide

theorem identContinue_colon : chars.identContinue ':' = false := by
  rw [chars.identContinue_ascii _ (by decide)]
  decide

theorem text_ne_nil {t : RustToken} (h : t.Shape chars) : t.text ≠ [] := by
  cases t with
  | ident name | rawIdent name =>
    obtain ⟨⟨c, hc, -⟩, -⟩ := h
    cases name <;> simp_all [text]
  | literal text => exact h.1
  | _ => simp [text]

theorem textOf_getLast? (init : List RustToken) {t : RustToken} (h : t.Shape chars) :
    (textOf (init ++ [t])).getLast? = t.text.getLast? := by
  rw [textOf, List.flatMap_append, List.getLast?_append, List.flatMap_singleton, Option.or_of_isSome]
  exact List.getLast?_isSome.2 (text_ne_nil h)

/-- The character before `crate` is one of white space or of punctuation. -/
theorem before_crate {before after : List RustToken} (h : Lexes chars (before ++ ident "crate".toList :: after)) {c : Char}
    (hc : (textOf before).getLast? = some c) : isWhite c = true ∨ isPunct c = true := by
  obtain rfl | ⟨init, t, rfl⟩ := List.eq_nil_or_concat' before
  · simp [textOf] at hc
  rw [List.append_assoc] at h
  obtain ⟨hshape, hends, -⟩ := lexes_append h
  rw [textOf_getLast? _ hshape] at hc
  have hcont := @identContinue_c chars
  have hstart := @identStart_c chars
  have hnext : (textOf ([] ++ ident "crate".toList :: after)).head? = some 'c' := rfl
  cases t with
  | white c' =>
    obtain rfl := Option.some_inj.1 hc
    exact .inl hshape
  | lineComment body => cases hends 'c' hnext
  | blockComment body =>
    rw [text, ← List.cons_append, ← List.cons_append, List.getLast?_append] at hc
    obtain rfl := Option.some_inj.1 hc
    exact .inr rfl
  | literal text => exact absurd (hends 'c' hnext) (by simp [hstart])
  | lifetime name | ident name | rawIdent name => exact absurd (hends 'c' hnext) (by simp [hcont])
  | pathSep =>
    obtain rfl := Option.some_inj.1 hc
    exact .inr rfl
  | punct c' =>
    obtain rfl := Option.some_inj.1 hc
    exact .inr hshape

theorem ends_colon {t : RustToken} (h : t.Shape chars) (hlast : t.text.getLast? = some ':') :
    t = pathSep ∨ t = punct ':' ∨ ∃ body, t = lineComment body := by
  have hname : ∀ name : List Char, (∀ c ∈ name, chars.identContinue c = true) → name.getLast? ≠ some ':' := fun name hname h =>
    absurd (hname ':' (List.mem_of_getLast? h)) (by simp [identContinue_colon])
  cases t with
  | white c =>
    obtain rfl := Option.some_inj.1 hlast
    cases h
  | lineComment body => exact .inr (.inr ⟨body, rfl⟩)
  | blockComment body =>
    rw [text, ← List.cons_append, ← List.cons_append, List.getLast?_append] at hlast
    cases hlast
  | literal text => exact absurd hlast h.2.2
  | lifetime name =>
    cases name with
    | nil => cases hlast
    | cons c name =>
      rw [text, List.getLast?_cons_cons] at hlast
      exact absurd hlast (hname _ h)
  | ident name => exact absurd hlast (hname _ h.2)
  | rawIdent name =>
    cases name with
    | nil => cases hlast
    | cons c name =>
      rw [text, List.getLast?_cons_cons, List.getLast?_cons_cons] at hlast
      exact absurd hlast (hname _ h.2)
  | pathSep => exact .inl rfl
  | punct c =>
    obtain rfl := Option.some_inj.1 hlast
    exact .inr (.inl rfl)

/-- Nothing but a colon stands before two colons that stand before `crate`. -/
theorem before_colons {tokens before after : List RustToken} (hcrate : CrateAt tokens before after) (h : Lexes chars tokens)
    {c : Char} (hc : [c, ':', ':'] <:+ textOf before) : c = ':' := by
  obtain ⟨rfl, hfirst⟩ := hcrate
  obtain ⟨u, hu⟩ := hc
  obtain rfl | ⟨init, t, rfl⟩ := List.eq_nil_or_concat' before
  · simp [textOf] at hu
  rw [List.append_assoc] at h
  obtain ⟨hshape, hends, -⟩ := lexes_append h
  have hlast : t.text.getLast? = some ':' := by rw [← textOf_getLast? init hshape, ← hu]; simp
  obtain rfl | rfl | ⟨body, rfl⟩ := ends_colon hshape hlast
  · simp [code, isCode] at hfirst
  · -- the colon before it does not end a token of its own
    have hinit : textOf init = u ++ [c, ':'] := by
      have : textOf init ++ [':'] = u ++ [c, ':'] ++ [':'] := by simpa [textOf, text] using hu.symm
      exact List.append_cancel_right this
    obtain rfl | ⟨init', t', rfl⟩ := List.eq_nil_or_concat' init
    · simp [textOf] at hinit
    rw [List.append_assoc] at h
    obtain ⟨hshape', hends', -⟩ := lexes_append h
    have hlast' : t'.text.getLast? = some ':' := by rw [← textOf_getLast? init' hshape', hinit]; simp
    obtain rfl | rfl | ⟨body, rfl⟩ := ends_colon hshape' hlast'
    · have : textOf init' ++ [':'] ++ [':'] = u ++ [c] ++ [':'] := by simpa [textOf, text] using hinit
      have := congrArg List.getLast? (List.append_cancel_right this)
      simpa using this.symm
    · exact absurd rfl hends'
    · cases hends' ':' rfl
  · cases hends 'c' rfl

theorem toNat_of_isAlpha {c : Char} (h : c.isAlpha = true) : 65 ≤ c.toNat ∧ c.toNat ≤ 122 := by
  simp only [Char.isAlpha, Char.isUpper, Char.isLower, Bool.or_eq_true, Bool.and_eq_true, decide_eq_true_eq,
    UInt32.le_iff_toNat_le, ge_iff_le] at h
  have hc : c.toNat = c.val.toNat := rfl
  have hA : 'A'.val.toNat = 65 := rfl
  have hZ : 'Z'.val.toNat = 90 := rfl
  have ha : 'a'.val.toNat = 97 := rfl
  have hz : 'z'.val.toNat = 122 := rfl
  omega

theorem not_isWhite {c : Char} (hc : c.isAlpha = true ∨ c = '_') : isWhite c = false := by
  obtain h | rfl := hc
  · have := toNat_of_isAlpha h
    rw [isWhite, List.contains_eq_any_beq, List.any_eq_false]
    simp only [List.mem_cons, List.not_mem_nil, or_false, beq_iff_eq]
    omega
  · rfl

theorem not_isPunct {c : Char} (hc : c.isAlpha = true ∨ c = '_') : isPunct c = false := by
  by_contra h
  simp only [isPunct, Bool.not_eq_false, List.contains_iff_mem, List.mem_cons, List.not_mem_nil, or_false] at h
  obtain hc | rfl := hc
  · rcases h with rfl | rfl | rfl | rfl | rfl | rfl | rfl | rfl | rfl | rfl | rfl | rfl | rfl | rfl | rfl | rfl | rfl | rfl |
      rfl | rfl | rfl | rfl | rfl | rfl | rfl | rfl | rfl <;> cases hc
  · simp at h

theorem names_of_starts {t : RustToken} (h : t.Shape chars) {c : Char} (hc : c.isAlpha = true ∨ c = '_')
    (hhead : t.text.head? = some c) : t.Names ∧ t.isCode = true := by
  have hne : c ≠ '/' ∧ c ≠ '\'' ∧ c ≠ ':' := by
    refine ⟨?_, ?_, ?_⟩ <;> rintro rfl <;> simp [Char.isAlpha, Char.isUpper, Char.isLower] at hc
  cases t with
  | white c' =>
    obtain rfl := Option.some_inj.1 hhead
    exact absurd h (by simp [Shape, not_isWhite hc])
  | punct c' =>
    obtain rfl := Option.some_inj.1 hhead
    exact absurd h (by simp [Shape, not_isPunct hc])
  | literal text | ident name | rawIdent name => exact ⟨trivial, rfl⟩
  | lineComment body | blockComment body => exact absurd (Option.some_inj.1 hhead).symm hne.1
  | lifetime name => exact absurd (Option.some_inj.1 hhead).symm hne.2.1
  | pathSep => exact absurd (Option.some_inj.1 hhead).symm hne.2.2

theorem starts_colon {t : RustToken} (h : t.Shape chars) (hhead : t.text.head? = some ':') : t = pathSep ∨ t = punct ':' := by
  cases t with
  | white c =>
    obtain rfl := Option.some_inj.1 hhead
    cases h
  | literal text => exact absurd hhead h.2.1
  | ident name =>
    obtain ⟨⟨c, hc, hstart⟩, -⟩ := h
    obtain rfl := Option.some_inj.1 (hc.symm.trans hhead)
    rw [chars.identStart_ascii _ (by decide)] at hstart
    cases hstart
  | punct c =>
    obtain rfl := Option.some_inj.1 hhead
    exact .inr rfl
  | pathSep => exact .inl rfl
  | lineComment body | blockComment body | lifetime name | rawIdent name => cases hhead

theorem head?_textOf {t : RustToken} (tokens : List RustToken) (h : t.Shape chars) :
    (textOf (t :: tokens)).head? = t.text.head? := by
  rw [textOf, List.flatMap_cons, List.head?_append, Option.or_of_isSome]
  cases ht : t.text with
  | nil => exact absurd ht (text_ne_nil h)
  | cons c cs => rfl

/-- Behind `::` and a name the path goes on. -/
theorem goesOn_of_colons {tokens : List RustToken} (h : Lexes chars tokens) {c : Char} {rest : List Char}
    (hc : c.isAlpha = true ∨ c = '_') (htext : textOf tokens = ':' :: ':' :: c :: rest) : GoesOn tokens := by
  match tokens with
  | [] => cases htext
  | t :: tokens =>
    obtain ⟨hshape, hends, htail⟩ := h
    obtain rfl | rfl := starts_colon hshape (by rw [← head?_textOf tokens hshape, htext]; rfl)
    · match tokens with
      | [] => cases htext
      | t' :: tokens =>
        have htext' : textOf (t' :: tokens) = c :: rest := @List.append_cancel_left _ [':', ':'] _ _ htext
        obtain ⟨hnames, hcode⟩ := names_of_starts htail.1 hc
          (by rw [← head?_textOf tokens htail.1, htext']; rfl)
        refine ⟨t', code tokens, ?_, hnames⟩
        rw [code, List.filter_cons_of_pos rfl, List.filter_cons_of_pos hcode, code]
    · have htext' : textOf tokens = ':' :: c :: rest := @List.append_cancel_left _ [':'] _ _ htext
      exact absurd (by rw [htext']; rfl) hends

end

end RustToken
