import TemplateAxum.Agree

/-!
# Text filters

`Contains s` and `Icontains s` ask for a literal substring. The in-memory interpreter tests for it; the
SQL condition is a `LIKE` pattern into which `s` is put unescaped, with `%` and `_` (but not the escape
character) removed on the `Icontains` branch. The pattern means the substring test exactly for the
texts in which no character is special to `LIKE` (`sound_iff_literal`): otherwise the least text that the
pattern matches is one that does not contain `s`.
-/

open Std Sql

namespace TemplateAxum

open HeroMemory HeroSeaOrm

/-- What lower-casing does for every text: its characters, and `%`, are not changed by it again. -/
class LawfulLowercase [Lowercase] : Prop where
  toLowercase_eq_self : ∀ s t : String, (∀ c ∈ t.toList, c ∈ (toLowercase s).toList ∨ c = '%') → toLowercase t = t

inductive TextField
  | name | ownerId
deriving DecidableEq

namespace TextField

def field : TextField → String
  | name => "name"
  | ownerId => "owner_id"

def value (row : Model) : TextField → Option String
  | name => row.name
  | ownerId => some row.ownerId

def column : TextField → Column
  | name => .name
  | ownerId => .ownerId

theorem columnFor_field (f : TextField) : columnFor f.field = some f.column := by cases f <;> rfl

theorem cell_column (row : Model) (f : TextField) : cell f.column row = .string (f.value row) := by
  cases f <;> rfl

/-- A row whose field has a given text. -/
def row (text : String) : TextField → Model
  | name => ⟨1, some text, none, none, "", none, 0, 0⟩
  | ownerId => ⟨1, none, none, none, text, none, 0, 0⟩

theorem value_row (text : String) (f : TextField) : f.value (f.row text) = some text := by cases f <;> rfl

end TextField

/-- A substring clause of a text field. -/
inductive TextClause
  | contains (f : TextField) (s : String)
  | icontains (f : TextField) (s : String)

namespace TextClause

def toClause : TextClause → FilterClause
  | contains f s => ⟨f.field, .contains, .str s⟩
  | icontains f s => ⟨f.field, .icontains, .str s⟩

variable [Lowercase]

/-- What a clause says about a row. -/
def Holds (row : Model) : TextClause → Prop
  | contains f s => ∃ text, f.value row = some text ∧ s.toList <:+: text.toList
  | icontains f s =>
    ∃ text, f.value row = some text ∧ (toLowercase s).toList <:+: (toLowercase text).toList

/-- No character of the text that goes into the pattern is special to `LIKE`. -/
def Exact : TextClause → Prop
  | contains _ s => ∀ c ∈ s.toList, isMeta c = false
  | icontains _ s => ∀ c ∈ (toLowercase s).toList, isMeta c = false

variable {row : Model}

/-- `matches_one` is what the clause says. -/
theorem matchesOne_iff (c : TextClause) : matchesOne row c.toClause = true ↔ c.Holds row := by
  cases c with
  | contains f s =>
    have h : matchesOne row (toClause (.contains f s)) = (f.value row).any fun text => containsStr text s := by
      cases f <;> rfl
    rw [h]; simp [Holds, containsStr, Option.any_eq_true]
  | icontains f s =>
    have h : matchesOne row (toClause (.icontains f s)) =
        (f.value row).any fun text => containsStr (toLowercase text) (toLowercase s) := by
      cases f <;> rfl
    rw [h]; simp [Holds, containsStr, Option.any_eq_true]

/-- The SQL condition is the `LIKE` pattern. -/
theorem holds_conditionFor_iff (c : TextClause) :
    ((conditionFor c.toClause).eval row).holds = true ↔
      match c with
      | contains f s => ∃ text, f.value row = some text ∧ like (containsPattern s) text = true
      | icontains f s => ∃ text, f.value row = some text ∧
          like (containsPattern (stripWildcards (toLowercase s))) (toLowercase text) = true := by
  cases c with
  | contains f s =>
    have hc : conditionFor (toClause (.contains f s)) = .like f.column (containsPattern s) := by
      simp only [toClause, conditionFor, f.columnFor_field]; rfl
    rw [hc, SimpleExpr.eval, f.cell_column]
    cases h : f.value row <;> simp [Value.text?, h]
  | icontains f s =>
    have hc : conditionFor (toClause (.icontains f s)) =
        .lowerLike f.column (containsPattern (stripWildcards (toLowercase s))) := by
      simp only [toClause, conditionFor, f.columnFor_field]; rfl
    rw [hc, SimpleExpr.eval, f.cell_column]
    cases h : f.value row <;> simp [Value.text?, h]

end TextClause

/-! ### Patterns and substrings -/

theorem toList_containsPattern (s : String) : (containsPattern s).toList = '%' :: (s.toList ++ ['%']) := by
  simp [containsPattern]

theorem like_containsPattern {s : String} (h : ∀ c ∈ s.toList, isMeta c = false) (text : String) :
    like (containsPattern s) text = true ↔ s.toList <:+: text.toList := by
  rw [like, toList_containsPattern, matchTokens_contains h]

/-- The least text that the pattern of `s` matches. -/
def leastMatch (s : String) : String := String.ofList (leastText (tokens (s.toList ++ ['%'])))

theorem like_leastMatch (s : String) : like (containsPattern s) (leastMatch s) = true := by
  rw [like, toList_containsPattern, tokens_cons_of_ne (by decide), leastMatch, String.toList_ofList]
  exact matchTokens_any.2 ⟨_, List.suffix_refl _, matchTokens_leastText _⟩

/-- The least match for a part of `s` contains `s` only if `s` is literal. -/
theorem literal_of_infix_leastMatch {p s : String} (hsub : p.toList.Sublist s.toList)
    (h : s.toList <:+: (leastMatch p).toList) : ∀ c ∈ s.toList, isMeta c = false := by
  rw [leastMatch, String.toList_ofList] at h
  obtain ⟨hlen, hliteral⟩ := leastText_append_percent p.toList
  have heq : s.toList = leastText (tokens (p.toList ++ ['%'])) :=
    h.eq_of_length_le (Nat.le_trans hlen hsub.length_le)
  have hp : p.toList = s.toList := hsub.eq_of_length_le (heq ▸ hlen)
  rw [hp] at heq hliteral
  exact hliteral heq.symm

theorem toList_stripWildcards (s : String) :
    (stripWildcards s).toList = s.toList.filter fun c => !(c == '%' || c == '_') :=
  String.toList_ofList

/-- A text without special characters has nothing to strip. -/
theorem stripWildcards_of_literal {s : String} (h : ∀ c ∈ s.toList, isMeta c = false) : stripWildcards s = s := by
  rw [stripWildcards, List.filter_eq_self.2 fun c hc => ?_, String.ofList_toList]
  have := h c hc
  simp only [isMeta, Bool.or_eq_false_iff] at this
  simp [this.1.1, this.1.2]

theorem mem_leastText {c : Char} {s : List Char} (hs : ∀ d ∈ s, d ≠ '_')
    (h : c ∈ leastText (tokens (s ++ ['%']))) : c ∈ s ∨ c = '%' := by
  induction s using tokens.induct with
  | case1 => simp [tokens, leastText] at h
  | case2 => simp [tokens, leastText] at h; exact .inr h
  | case3 d rest ih =>
    rw [List.cons_append, List.cons_append, tokens, leastText, List.mem_cons] at h
    rcases h with rfl | h
    · simp
    · rcases ih (fun e he => hs e (by simp [he])) h with h | h
      · exact .inl (by simp [h])
      · exact .inr h
  | case4 d rest h₁ h₂ ih =>
    have hd : d ≠ '\\' := by
      rintro rfl
      cases rest with
      | nil => exact h₁ rfl rfl
      | cons e rest => exact h₂ e rest rfl rfl
    have hrest := ih fun e he => hs e (List.mem_cons_of_mem _ he)
    rw [List.cons_append, tokens_cons_of_ne hd, if_neg (hs d (List.mem_cons_self ..))] at h
    split at h
    · exact (hrest h).imp (List.mem_cons_of_mem _) id
    · rcases List.mem_cons.1 h with rfl | h
      · exact .inl (List.mem_cons_self ..)
      · exact (hrest h).imp (List.mem_cons_of_mem _) id

namespace TextClause
variable [Lowercase]

theorem exact_of_sql [LawfulLowercase] {c : TextClause}
    (h : ∀ row, ((conditionFor c.toClause).eval row).holds = true → c.Holds row) : c.Exact := by
  simp only [holds_conditionFor_iff] at h
  cases c with
  | contains f s =>
    obtain ⟨text, ht, hwithin⟩ := h (f.row (leastMatch s)) ⟨_, f.value_row _, like_leastMatch s⟩
    rw [f.value_row] at ht; obtain rfl := Option.some.inj ht
    exact literal_of_infix_leastMatch (List.Sublist.refl _) hwithin
  | icontains f s =>
    have hsub : (stripWildcards (toLowercase s)).toList.Sublist (toLowercase s).toList := by
      rw [toList_stripWildcards]; exact List.filter_sublist
    -- lower-casing leaves the least match as it is
    have hlower : toLowercase (leastMatch (stripWildcards (toLowercase s))) =
        leastMatch (stripWildcards (toLowercase s)) := by
      refine LawfulLowercase.toLowercase_eq_self s _ fun c hc => ?_
      rw [leastMatch, String.toList_ofList] at hc
      refine (mem_leastText (fun d hd => ?_) hc).imp (fun hc => hsub.subset hc) id
      rw [toList_stripWildcards, List.mem_filter] at hd
      rintro rfl; simp at hd
    obtain ⟨text, ht, hwithin⟩ := h (f.row (leastMatch (stripWildcards (toLowercase s))))
      ⟨_, f.value_row _, by rw [hlower]; exact like_leastMatch _⟩
    rw [f.value_row] at ht; obtain rfl := Option.some.inj ht
    rw [hlower] at hwithin
    exact literal_of_infix_leastMatch hsub hwithin

theorem sql_iff_of_exact {c : TextClause} (h : c.Exact) (row : Model) :
    ((conditionFor c.toClause).eval row).holds = true ↔ c.Holds row := by
  rw [holds_conditionFor_iff]
  cases c with
  | contains f s => exact exists_congr fun text => and_congr_right fun _ => like_containsPattern h text
  | icontains f s =>
    refine exists_congr fun text => and_congr_right fun _ => ?_
    rw [stripWildcards_of_literal h]
    exact like_containsPattern h _

/-- A clause selects, in either repository, the rows whose text contains the literal substring, and
everything that goes by the clause has the same outcome. -/
structure Sound (c : TextClause) : Prop where
  sql : ∀ row, ((conditionFor c.toClause).eval row).holds = true ↔ c.Holds row
  memory : ∀ row, matchesOne row c.toClause = true ↔ c.Holds row
  sameRows : SameRows [c.toClause]

theorem sound_iff_literal [LawfulLowercase] (c : TextClause) : Sound c ↔ c.Exact := by
  refine ⟨fun h => exact_of_sql fun row => (h.sql row).1, fun h => ?_⟩
  have hagrees : c.toClause.Agrees := fun row =>
    Bool.eq_iff_iff.2 ((sql_iff_of_exact h row).trans (matchesOne_iff c).symm)
  refine ⟨sql_iff_of_exact h, fun row => matchesOne_iff c, sameRows_of_filtersAgree ?_⟩
  exact filtersAgree_of_agrees fun clause hc => List.mem_singleton.1 hc ▸ hagrees

end TextClause

/-- A letter made small is no capital letter. -/
theorem toLower_toLower (c : Char) : c.toLower.toLower = c.toLower := by
  unfold Char.toLower
  split
  · simp only
    split
    · rename_i hcap hsmall
      simp at hsmall
      grind
    · rfl
  · simp

theorem LawfulLowercase.ascii : @LawfulLowercase .ascii := by
  let _ := Lowercase.ascii
  refine ⟨fun s t h => ?_⟩
  have hself : ∀ c ∈ t.toList, c.toLower = c := fun c hc => by
    rcases h c hc with hc | rfl
    · rw [show toLowercase s = String.ofList (s.toList.map Char.toLower) from rfl, String.toList_ofList] at hc
      obtain ⟨d, -, rfl⟩ := List.mem_map.1 hc
      exact toLower_toLower d
    · rfl
  rw [show toLowercase t = String.ofList (t.toList.map Char.toLower) from rfl, List.map_congr_left hself,
    List.map_id', String.ofList_toList]

namespace TextClause

theorem sound_iff_literal_ascii :
    @Sound .ascii (.icontains .name "Spec") ↔ @Exact .ascii (.icontains .name "Spec") :=
  @sound_iff_literal .ascii .ascii _

/-- `50%` selects the hero named `500`. -/
theorem not_sound_percent : ¬ @Sound .ascii (.contains .name "50%") := fun h => by
  let _ := Lowercase.ascii
  obtain ⟨text, ht, hwithin⟩ := (h.sql (TextField.name.row "500")).1 (by decide)
  obtain rfl := Option.some.inj ht
  exact absurd hwithin (by decide)

end TextClause
end TemplateAxum
