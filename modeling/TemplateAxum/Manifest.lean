import TemplateAxum.Lib.JsonSchema
import TemplateAxum.Validity

/-!
# The create schema of the manifest

`hero_descriptor` of `lib.rs` publishes a schema of the body that creates a hero. The routes decode the body
with the derived `Deserialize` of the payload, and then validate it.
-/

namespace TemplateAxum

inductive Version
  | v1 | v2
deriving DecidableEq

/-! ### The schema -/

namespace Manifest

def schema (properties : List (String × Schema)) (required : List String) : Schema :=
  ⟨[.object], none, none, none, none, properties, required⟩

def text : Schema := ⟨[.string], some 1, some 200, none, none, [], []⟩

def powerKey : Version → String
  | .v1 => "superpower"
  | .v2 => "powers"

def power : Version → Schema
  | .v1 => text
  | .v2 => ⟨[.array], none, none, some 1, some text, [], []⟩

def body (version : Version) (required : List String) : Schema :=
  schema [("name", text), ("power_level", ⟨[.integer, .null], none, none, none, none, [], []⟩),
    (powerKey version, power version)] required

/-- The create schema of `hero_descriptor`. -/
def create (version : Version) : Schema := body version ["name", powerKey version]

end Manifest

/-! ### `Deserialize` -/

namespace Serde

def string? : JsonValue → Option String
  | .str s => some s
  | _ => none

def strings? : JsonValue → Option (List String)
  | .arr items => items.mapM string?
  | _ => none

/-- Digits that fit. A number in any other form, and `-0`, is read as a float, which an integer does not take. -/
def int32? : JsonNumber → Option Int32
  | .int negative digits =>
    let n : Int := if negative then -digits else digits
    if negative = true ∧ digits = 0 then none
    else if -2 ^ 31 ≤ n ∧ n < 2 ^ 31 then some (Int32.ofInt n)
    else none
  | .float _ => none

def level? : JsonValue → Option (Option Int32)
  | .null => some none
  | .num n => (int32? n).map some
  | _ => none

variable {α β : Type}

/-- The fields read so far. -/
structure Fields (β : Type) where
  name : Option String
  power : Option β
  powerLevel : Option (Option Int32)

/-- A field that has been read is a duplicate. -/
def fill (field : Option α) (value : Option α) : Option (Option α) := if field.isSome then none else value.map some

variable (key : String) (power? : JsonValue → Option β)

/-- A member with any other name is ignored. -/
def visitMember (fields : Fields β) (m : String × JsonValue) : Option (Fields β) :=
  if m.1 = "name" then (fill fields.name (string? m.2)).map fun name => { fields with name }
  else if m.1 = key then (fill fields.power (power? m.2)).map fun power => { fields with power }
  else if m.1 = "power_level" then (fill fields.powerLevel (level? m.2)).map fun powerLevel => { fields with powerLevel }
  else some fields

/-- A `power_level` that is not there is none. -/
def visitMap (members : List (String × JsonValue)) : Option (String × β × Option Int32) := do
  let fields ← members.foldlM (visitMember key power?) ⟨none, none, none⟩
  let name ← fields.name
  let power ← fields.power
  pure (name, power, fields.powerLevel.getD none)

/-- A struct may also be written as the sequence of its fields. -/
def visitSeq (items : List JsonValue) : Option (String × β × Option Int32) := do
  match items with
  | [name, power] => pure (← string? name, ← power? power, none)
  | [name, power, level] => pure (← string? name, ← power? power, ← level? level)
  | _ => none

def deserializeStruct : JsonValue → Option (String × β × Option Int32)
  | .obj members => visitMap key power? members
  | .arr items => visitSeq power? items
  | _ => none

end Serde

open Serde

def HeroCreate.deserialize (v : JsonValue) : Option HeroCreate :=
  (deserializeStruct "powers" strings? v).map fun (name, powers, powerLevel) => { name, powers, powerLevel }

def HeroCreateV1.deserialize (v : JsonValue) : Option HeroCreateV1 :=
  (deserializeStruct "superpower" string? v).map fun (name, superpower, powerLevel) => { name, superpower, powerLevel }

/-- `POST` decodes the body and validates it. -/
def Version.Posts : Version → JsonValue → Prop
  | v1, v => ∃ payload, HeroCreateV1.deserialize v = some payload ∧ payload.validate = .ok ()
  | v2, v => ∃ payload, HeroCreate.deserialize v = some payload ∧ payload.validate = .ok ()

/-! ### Reading an object -/

namespace Serde

variable {β : Type} {key : String} {power? : JsonValue → Option β}

/-- What a field holds after the rest of the members. -/
def slot {α : Type} (name : String) (read? : JsonValue → Option α) (field : Option α) (members : List (String × JsonValue)) :
    Option (Option α) :=
  match JsonValue.member name members with
  | none => some field
  | some v => fill field (read? v)

section

variable {α : Type} {name : String} {read? : JsonValue → Option α} {field : Option α} {m : String × JsonValue}
  {members : List (String × JsonValue)}

theorem slot_cons_of_ne (h : m.1 ≠ name) : slot name read? field (m :: members) = slot name read? field members := by
  rw [slot, slot, JsonValue.member_cons, if_neg h]

theorem slot_cons_self (hfresh : m.1 ∉ members.map Prod.fst) :
    slot m.1 read? field (m :: members) = (fill field (read? m.2)).bind fun field => slot m.1 read? field members := by
  have hrest : ∀ field, slot m.1 read? field members = some field := fun field => by
    rw [slot, JsonValue.member_eq_none hfresh]
  rw [slot, JsonValue.member_cons, if_pos rfl]
  cases hfill : fill field (read? m.2) with
  | none => exact hfill
  | some value => exact hfill.trans (hrest value).symm

end

theorem foldlM_visitMember (hname : key ≠ "name") (hlevel : key ≠ "power_level") {members : List (String × JsonValue)}
    (hdistinct : (members.map Prod.fst).Nodup) (fields : Fields β) :
    members.foldlM (visitMember key power?) fields =
      (slot "name" string? fields.name members).bind fun name =>
        (slot key power? fields.power members).bind fun power =>
          (slot "power_level" level? fields.powerLevel members).map fun powerLevel => ⟨name, power, powerLevel⟩ := by
  induction members generalizing fields with
  | nil => rfl
  | cons m members ih =>
    obtain ⟨k, v⟩ := m
    obtain ⟨hfresh, htail⟩ := List.nodup_cons.1 hdistinct
    rw [List.foldlM_cons, visitMember]
    by_cases h₁ : k = "name"
    · subst h₁
      rw [slot_cons_self hfresh, slot_cons_of_ne (Ne.symm hname), slot_cons_of_ne (by simp), if_pos rfl]
      cases fill fields.name (string? v) with
      | none => rfl
      | some name => exact ih htail _
    rw [slot_cons_of_ne h₁, if_neg h₁]
    by_cases h₂ : k = key
    · subst h₂
      rw [slot_cons_self hfresh, slot_cons_of_ne hlevel, if_pos rfl]
      cases fill fields.power (power? v) with
      | none => cases slot "name" string? fields.name members <;> rfl
      | some power => exact ih htail _
    rw [slot_cons_of_ne h₂, if_neg h₂]
    by_cases h₃ : k = "power_level"
    · subst h₃
      rw [slot_cons_self hfresh, if_pos rfl]
      cases fill fields.powerLevel (level? v) with
      | none => cases slot "name" string? fields.name members <;> cases slot key power? fields.power members <;> rfl
      | some powerLevel => exact ih htail _
    rw [slot_cons_of_ne h₃, if_neg h₃]
    exact ih htail fields

theorem slot_none_eq {α : Type} {name : String} {read? : JsonValue → Option α} {members : List (String × JsonValue)} {a : α} :
    slot name read? none members = some (some a) ↔ ∃ v, JsonValue.member name members = some v ∧ read? v = some a := by
  cases h : JsonValue.member name members <;> simp [slot, fill, h]

theorem visitMap_eq (hname : key ≠ "name") (hlevel : key ≠ "power_level") {members : List (String × JsonValue)}
    (hdistinct : (members.map Prod.fst).Nodup) {name : String} {power : β} {level : Option Int32} :
    visitMap key power? members = some (name, power, level) ↔
      (∃ v, JsonValue.member "name" members = some v ∧ string? v = some name) ∧
      (∃ v, JsonValue.member key members = some v ∧ power? v = some power) ∧
      match JsonValue.member "power_level" members with
      | none => level = none
      | some v => level? v = some level := by
  have hslot : (match JsonValue.member "power_level" members with
      | none => level = none
      | some v => level? v = some level) ↔
      ∃ field, slot "power_level" level? none members = some field ∧ field.getD none = level := by
    cases h : JsonValue.member "power_level" members <;> simp [slot, fill, h, eq_comm]
  rw [visitMap, foldlM_visitMember hname hlevel hdistinct, hslot, ← slot_none_eq, ← slot_none_eq]
  cases slot "name" string? none members with
  | none => simp
  | some field =>
    cases slot key power? none members with
    | none => simp
    | some field' =>
      cases slot "power_level" level? none members <;> cases field <;> cases field' <;> simp

end Serde

/-! ### What is read and what is accepted -/

namespace Manifest

open JsonValue

/-- Digits, without `-0`, of a number of 32 bits. -/
def Plain (n : JsonNumber) : Prop :=
  ∃ negative digits, n = .int negative digits ∧ ¬ (negative = true ∧ digits = 0) ∧
    (if negative = true then digits ≤ 2 ^ 31 else digits < 2 ^ 31)

def IsText (v : JsonValue) : Prop := ∃ s, v = .str s ∧ ValidText s

def IsPower : Version → JsonValue → Prop
  | .v1, v => IsText v
  | .v2, v => ∃ items, v = .arr items ∧ items ≠ [] ∧ ∀ item ∈ items, IsText item

/-- A level that the schema accepts. -/
def IsLevel (v : JsonValue) : Prop := v = .null ∨ ∃ n : JsonNumber, v = .num n ∧ n.isInteger = true

/-- A level that is read. -/
def ReadsLevel (v : JsonValue) : Prop := v = .null ∨ ∃ n : JsonNumber, v = .num n ∧ Plain n

theorem accepts_text {v : JsonValue} : text.accepts v = true ↔ IsText v := by
  cases v <;> simp [text, Schema.accepts, JsonType.admits, Schema.lengthWithin, Schema.itemsEnough, Schema.acceptsItems,
    Schema.acceptsProperties, Schema.hasRequired, IsText, ValidText, maxLen]

theorem accepts_power {version : Version} {v : JsonValue} : (power version).accepts v = true ↔ IsPower version v := by
  cases version with
  | v1 => exact accepts_text
  | v2 =>
    cases v with
    | arr items =>
      have hitems : Schema.acceptsItems (some text) (.arr items) = true ↔ ∀ item ∈ items, IsText item := by
        simp [Schema.acceptsItems, accepts_text]
      cases items <;> simp_all [power, Schema.accepts, JsonType.admits, Schema.lengthWithin, Schema.itemsEnough,
        Schema.acceptsProperties, Schema.hasRequired, IsPower]
    | _ => simp [power, Schema.accepts, JsonType.admits, IsPower]

theorem accepts_level {v : JsonValue} : (Schema.mk [.integer, .null] none none none none [] []).accepts v = true ↔ IsLevel v := by
  cases v <;> simp [Schema.accepts, JsonType.admits, Schema.lengthWithin, Schema.itemsEnough, Schema.acceptsItems,
    Schema.acceptsProperties, Schema.hasRequired, IsLevel]

theorem accepts_create {version : Version} {members : List (String × JsonValue)} :
    (create version).accepts (.obj members) = true ↔
      (∃ v, member "name" members = some v ∧ IsText v) ∧
      (∃ v, member (powerKey version) members = some v ∧ IsPower version v) ∧
      ∀ v, member "power_level" members = some v → IsLevel v := by
  rw [create, body, schema, Schema.accepts]
  simp only [Schema.acceptsProperties, Schema.hasRequired, Schema.acceptsItems, Schema.itemsEnough, Schema.lengthWithin]
  cases hn : member "name" members with
  | none => simp [hn]
  | some n =>
    cases hp : member (powerKey version) members with
    | none => simp [hn, hp]
    | some p =>
      cases hl : member "power_level" members with
      | none => simp [JsonType.admits, hn, hp, accepts_text, accepts_power]
      | some l => simp [JsonType.admits, hn, hp, accepts_text, accepts_power, accepts_level, and_comm]

theorem not_accepts_of_not_obj {version : Version} {v : JsonValue} (h : ∀ members, v ≠ .obj members) :
    (create version).accepts v = false := by
  cases v <;> simp_all [create, body, schema, Schema.accepts, JsonType.admits]

theorem level?_isSome {v : JsonValue} : (∃ level, level? v = some level) ↔ ReadsLevel v := by
  cases v with
  | num n =>
    cases n with
    | int negative digits =>
      by_cases hzero : negative = true ∧ digits = 0
      · simp [level?, int32?, ReadsLevel, Plain, hzero]
      · cases negative with
        | false => simp [level?, int32?, ReadsLevel, Plain]
        | true => simp [level?, int32?, ReadsLevel, Plain]; grind
    | float value => simp [level?, int32?, ReadsLevel, Plain]
  | _ => simp [level?, ReadsLevel]

theorem isLevel_of_reads {v : JsonValue} (h : ReadsLevel v) : IsLevel v := by
  obtain rfl | ⟨n, rfl, negative, digits, rfl, -, -⟩ := h
  · exact .inl rfl
  · refine .inr ⟨_, rfl, ?_⟩
    cases negative <;> simp [JsonNumber.isInteger, JsonNumber.value]

theorem string?_eq {v : JsonValue} {s : String} : string? v = some s ↔ v = .str s := by
  cases v <;> simp [string?]

theorem mapM_string?_eq {items : List JsonValue} {strings : List String} :
    items.mapM string? = some strings ↔ items = strings.map .str := by
  induction items generalizing strings with
  | nil => simp [eq_comm]
  | cons item items ih =>
    rw [List.mapM_cons]
    constructor
    · intro h
      obtain ⟨s, hs, h⟩ := Option.bind_eq_some_iff.1 h
      obtain ⟨rest, hrest, h⟩ := Option.bind_eq_some_iff.1 h
      obtain rfl := Option.some_inj.1 h
      rw [List.map_cons, string?_eq.1 hs, ih.1 hrest]
    · intro h
      obtain ⟨s, rest, rfl, rfl, hrest⟩ := List.map_eq_cons_iff.1 h.symm
      rw [string?_eq.2 rfl, ih.2 hrest.symm]
      rfl

theorem isText_iff {v : JsonValue} : IsText v ↔ ∃ s, string? v = some s ∧ ValidText s := by
  simp [IsText, string?_eq]

theorem exists_texts {items : List JsonValue} (h : ∀ item ∈ items, IsText item) :
    ∃ strings : List String, items = strings.map .str ∧ ∀ s ∈ strings, ValidText s := by
  induction items with
  | nil => exact ⟨[], rfl, by simp⟩
  | cons item items ih =>
    obtain ⟨s, rfl, hs⟩ := h item (List.mem_cons_self ..)
    obtain ⟨strings, rfl, hstrings⟩ := ih fun item hitem => h item (List.mem_cons_of_mem _ hitem)
    exact ⟨s :: strings, rfl, List.forall_mem_cons.2 ⟨hs, hstrings⟩⟩

theorem isPower_v2_iff {v : JsonValue} : IsPower .v2 v ↔ ∃ powers, strings? v = some powers ∧ ValidPowers powers := by
  cases v with
  | arr items =>
    simp only [IsPower, strings?, mapM_string?_eq]
    constructor
    · rintro ⟨items', h, hne, hitems⟩
      obtain rfl := JsonValue.arr.inj h
      obtain ⟨powers, rfl, hpowers⟩ := exists_texts hitems
      exact ⟨powers, rfl, by simpa using hne, hpowers⟩
    · rintro ⟨powers, rfl, hne, hpowers⟩
      refine ⟨_, rfl, by simpa using hne, fun item hitem => ?_⟩
      obtain ⟨power, hpower, rfl⟩ := List.mem_map.1 hitem
      exact ⟨power, rfl, hpowers power hpower⟩
  | _ => simp [IsPower, strings?]

/-! ### What is posted -/

/-- A text, a power and a level or none, in this order. -/
def Positional (version : Version) (v : JsonValue) : Prop :=
  ∃ name power, IsText name ∧ IsPower version power ∧
    (v = .arr [name, power] ∨ ∃ level, ReadsLevel level ∧ v = .arr [name, power, level])

/-- An object whose level is a whole number that is not written plainly in 32 bits. -/
def Wide (version : Version) (v : JsonValue) : Prop :=
  ∃ members name power n, v = .obj members ∧ member "name" members = some name ∧ IsText name ∧
    member (powerKey version) members = some power ∧ IsPower version power ∧
    member "power_level" members = some (.num n) ∧ n.isInteger = true ∧ ¬ Plain n

section

variable {β : Type} {key : String} {power? : JsonValue → Option β} {valid : β → Prop}

def Decodes (key : String) (power? : JsonValue → Option β) (valid : β → Prop) (v : JsonValue) : Prop :=
  ∃ name power level, deserializeStruct key power? v = some (name, power, level) ∧ ValidText name ∧ valid power

theorem decodes_obj (hname : key ≠ "name") (hlevel : key ≠ "power_level") {members : List (String × JsonValue)}
    (hdistinct : (members.map Prod.fst).Nodup) :
    Decodes key power? valid (.obj members) ↔
      (∃ v, member "name" members = some v ∧ IsText v) ∧
      (∃ v, member key members = some v ∧ ∃ power, power? v = some power ∧ valid power) ∧
      ∀ v, member "power_level" members = some v → ReadsLevel v := by
  simp only [Decodes, deserializeStruct, visitMap_eq hname hlevel hdistinct, isText_iff, ← level?_isSome]
  constructor
  · rintro ⟨name, power, level, ⟨⟨n, hn, hname⟩, ⟨p, hp, hpower⟩, hread⟩, htext, hvalid⟩
    refine ⟨⟨n, hn, name, hname, htext⟩, ⟨p, hp, power, hpower, hvalid⟩, fun v hv => ⟨level, ?_⟩⟩
    rwa [hv] at hread
  · rintro ⟨⟨n, hn, name, hname, htext⟩, ⟨p, hp, power, hpower, hvalid⟩, hread⟩
    cases hl : member "power_level" members with
    | none => exact ⟨name, power, none, ⟨⟨n, hn, hname⟩, ⟨p, hp, hpower⟩, rfl⟩, htext, hvalid⟩
    | some l =>
      obtain ⟨level, hl⟩ := hread l hl
      exact ⟨name, power, level, ⟨⟨n, hn, hname⟩, ⟨p, hp, hpower⟩, hl⟩, htext, hvalid⟩

theorem decodes_arr {items : List JsonValue} :
    Decodes key power? valid (.arr items) ↔
      ∃ name power, IsText name ∧ (∃ p, power? power = some p ∧ valid p) ∧
        (items = [name, power] ∨ ∃ level, ReadsLevel level ∧ items = [name, power, level]) := by
  simp only [Decodes, deserializeStruct, isText_iff, ← level?_isSome]
  match items with
  | [] | [_] | _ :: _ :: _ :: _ :: _ => simp [visitSeq]
  | [n, p] =>
    constructor
    · rintro ⟨name, power, level, h, htext, hvalid⟩
      simp only [visitSeq, Option.bind_eq_bind, Option.bind_eq_some_iff] at h
      obtain ⟨_, hname, _, hpower, h⟩ := h
      obtain ⟨rfl, rfl, -⟩ : _ = name ∧ _ = power ∧ _ := by simpa using h
      exact ⟨n, p, ⟨_, hname, htext⟩, ⟨_, hpower, hvalid⟩, .inl rfl⟩
    · rintro ⟨_, _, ⟨name, hname, htext⟩, ⟨power, hpower, hvalid⟩, h | ⟨_, -, h⟩⟩
      · obtain ⟨rfl, rfl⟩ : _ = _ ∧ _ = _ := by simpa using h
        exact ⟨name, power, none, by simp [visitSeq, hname, hpower], htext, hvalid⟩
      · simp at h
  | [n, p, l] =>
    constructor
    · rintro ⟨name, power, level, h, htext, hvalid⟩
      simp only [visitSeq, Option.bind_eq_bind, Option.bind_eq_some_iff] at h
      obtain ⟨_, hname, _, hpower, _, hl, h⟩ := h
      obtain ⟨rfl, rfl, -⟩ : _ = name ∧ _ = power ∧ _ := by simpa using h
      exact ⟨n, p, ⟨_, hname, htext⟩, ⟨_, hpower, hvalid⟩, .inr ⟨l, ⟨_, hl⟩, rfl⟩⟩
    · rintro ⟨_, _, ⟨name, hname, htext⟩, ⟨power, hpower, hvalid⟩, h | ⟨_, ⟨level, hl⟩, h⟩⟩
      · simp at h
      · obtain ⟨rfl, rfl, rfl⟩ : _ = _ ∧ _ = _ ∧ _ = _ := by simpa using h
        exact ⟨name, power, level, by simp [visitSeq, hname, hpower, hl], htext, hvalid⟩

end

theorem posts_v1 {v : JsonValue} : Version.v1.Posts v ↔ Decodes "superpower" string? ValidText v := by
  simp only [Version.Posts, HeroCreateV1.deserialize, HeroCreateV1.validate_eq_ok, Option.map_eq_some_iff]
  constructor
  · rintro ⟨_, ⟨⟨name, superpower, level⟩, h, rfl⟩, hvalid⟩
    exact ⟨name, superpower, level, h, hvalid.name, validPowers_singleton.1 hvalid.powers⟩
  · rintro ⟨name, superpower, level, h, hname, hpower⟩
    exact ⟨_, ⟨_, h, rfl⟩, hname, validPowers_singleton.2 hpower⟩

theorem posts_v2 {v : JsonValue} : Version.v2.Posts v ↔ Decodes "powers" strings? ValidPowers v := by
  simp only [Version.Posts, HeroCreate.deserialize, HeroCreate.validate_eq_ok, Option.map_eq_some_iff]
  constructor
  · rintro ⟨_, ⟨⟨name, powers, level⟩, h, rfl⟩, hvalid⟩
    exact ⟨name, powers, level, h, hvalid.name, hvalid.powers⟩
  · rintro ⟨name, powers, level, h, hname, hpowers⟩
    exact ⟨_, ⟨_, h, rfl⟩, hname, hpowers⟩

theorem posts_obj {version : Version} {members : List (String × JsonValue)} (hdistinct : (members.map Prod.fst).Nodup) :
    version.Posts (.obj members) ↔
      (∃ v, member "name" members = some v ∧ IsText v) ∧
      (∃ v, member (powerKey version) members = some v ∧ IsPower version v) ∧
      ∀ v, member "power_level" members = some v → ReadsLevel v := by
  cases version with
  | v1 =>
    rw [posts_v1, decodes_obj (by decide) (by decide) hdistinct]
    simp only [← isText_iff]
    rfl
  | v2 =>
    rw [posts_v2, decodes_obj (by decide) (by decide) hdistinct]
    simp only [← isPower_v2_iff]
    rfl

theorem posts_arr {version : Version} {items : List JsonValue} :
    version.Posts (.arr items) ↔ Positional version (.arr items) := by
  cases version with
  | v1 =>
    rw [posts_v1, decodes_arr]
    simp only [← isText_iff, Positional, JsonValue.arr.injEq]
    rfl
  | v2 =>
    rw [posts_v2, decodes_arr]
    simp only [← isPower_v2_iff, Positional, JsonValue.arr.injEq]

theorem posts_of_scalar {version : Version} {v : JsonValue} (hobj : ∀ members, v ≠ .obj members)
    (harr : ∀ items, v ≠ .arr items) : ¬ version.Posts v := by
  cases version <;> cases v <;> simp_all [posts_v1, posts_v2, Decodes, deserializeStruct]

/-- The schema and the route disagree about the sequences that are read as a body, which are not objects, and about
the whole numbers that are not read as 32 bits. -/
theorem create_iff_posts {version : Version} {v : JsonValue} (hdistinct : v.Distinct) :
    ((create version).accepts v = true ↔ version.Posts v) ↔ ¬ Positional version v ∧ ¬ Wide version v := by
  cases v with
  | obj members =>
    have hpos : ¬ Positional version (.obj members) := by simp [Positional]
    rw [accepts_create, posts_obj hdistinct, and_iff_right hpos]
    constructor
    · rintro h ⟨_, name, power, n, hv, hname, hn, hpower, hp, hlevel, hinteger, hwide⟩
      obtain rfl := JsonValue.obj.inj hv
      have haccepts : ∀ v, member "power_level" members = some v → IsLevel v := fun v hv =>
        .inr ⟨n, Option.some_inj.1 (hv.symm.trans hlevel), hinteger⟩
      obtain h | ⟨m, h, hplain⟩ := (h.1 ⟨⟨name, hname, hn⟩, ⟨power, hpower, hp⟩, haccepts⟩).2.2 _ hlevel
      · cases h
      · cases h
        exact hwide hplain
    · intro hwide
      refine ⟨fun ⟨hn, hp, hl⟩ => ⟨hn, hp, fun v hv => ?_⟩, fun ⟨hn, hp, hl⟩ => ⟨hn, hp, fun v hv => isLevel_of_reads (hl v hv)⟩⟩
      obtain ⟨name, hname, hn⟩ := hn
      obtain ⟨power, hpower, hp⟩ := hp
      obtain rfl | ⟨n, rfl, hinteger⟩ := hl v hv
      · exact .inl rfl
      · by_contra hread
        exact hwide ⟨members, name, power, n, rfl, hname, hn, hpower, hp, hv, hinteger, fun h => hread (.inr ⟨n, rfl, h⟩)⟩
  | arr items =>
    have hwide : ¬ Wide version (.arr items) := by simp [Wide]
    rw [not_accepts_of_not_obj (by simp), posts_arr, and_iff_left hwide]
    simp
  | _ =>
    rw [not_accepts_of_not_obj (by simp), iff_false_intro (posts_of_scalar (by simp) (by simp))]
    simp [Positional, Wide]

/-- A hero with a level of 2^31. -/
def wideBody : JsonValue :=
  .obj [("name", .str "a"), ("powers", .arr [.str "b"]), ("power_level", .num (.int false 2147483648))]

theorem wideBody_distinct : wideBody.Distinct := by simp [wideBody, JsonValue.Distinct]

theorem create_iff_posts_wideBody : wideBody.Distinct ∧
    (((create .v2).accepts wideBody = true ↔ Version.v2.Posts wideBody) ↔
      ¬ Positional .v2 wideBody ∧ ¬ Wide .v2 wideBody) :=
  ⟨wideBody_distinct, create_iff_posts wideBody_distinct⟩

theorem not_accepts_iff_posts :
    ¬ ∀ (version : Version) (v : JsonValue), v.Distinct → ((create version).accepts v = true ↔ version.Posts v) := by
  intro h
  have ha : ValidText "a" := ⟨by decide, by decide⟩
  have hb : ValidText "b" := ⟨by decide, by decide⟩
  have haccepts : (create .v2).accepts wideBody = true := accepts_create.2
    ⟨⟨_, rfl, "a", rfl, ha⟩, ⟨_, rfl, [.str "b"], rfl, by simp, by simp [IsText, hb]⟩,
      fun v hv => .inr ⟨.int false 2147483648, (Option.some_inj.1 hv).symm, by simp [JsonNumber.isInteger, JsonNumber.value]⟩⟩
  have hreads := ((posts_obj wideBody_distinct).1 ((h .v2 wideBody wideBody_distinct).1 haccepts)).2.2 _ rfl
  simp [ReadsLevel, Plain] at hreads

end Manifest
end TemplateAxum
