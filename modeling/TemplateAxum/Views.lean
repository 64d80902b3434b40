import TemplateAxum.Model

/-!
# Views

The request and response types of the Hero routes (`views/*.rs`) with the checks a payload passes:
the v2 shape, the deprecated v1 shape with its conversions, and the form.
-/

namespace TemplateAxum

/-- `craftainer_crud::views::FieldError`. -/
structure FieldError where
  field : String
  message : String
deriving DecidableEq, Repr

abbrev Checked (α : Type) := Except (List FieldError) α

def maxLen : Nat := 200

/-- `validate_text_field`, what it pushes onto the errors. -/
def validateTextField (field value : String) : List FieldError :=
  if 1 ≤ value.length ∧ value.length ≤ maxLen then [] else [⟨field, s!"must be 1-{maxLen} characters"⟩]

def validatePowers (powers : List String) : List FieldError :=
  if powers.isEmpty then [⟨"powers", "must contain at least one power"⟩]
  else powers.zipIdx.flatMap fun (power, index) =>
    if 1 ≤ power.length ∧ power.length ≤ maxLen then []
    else [⟨"powers", s!"powers[{index}] must be 1-{maxLen} characters"⟩]

/-- The end of every `validate`. -/
def checked (errors : List FieldError) : Checked Unit := if errors.isEmpty then .ok () else .error errors

/-! ### v2 -/

def HeroCreate.validate (payload : HeroCreate) : Checked Unit :=
  checked (validateTextField "name" payload.name ++ validatePowers payload.powers)

def HeroUpdate.validate (payload : HeroUpdate) : Checked Unit :=
  checked ((payload.name.elim [] (validateTextField "name")) ++ payload.powers.elim [] validatePowers)

/-- `HeroRead`, of which `HeroReadXml` is a copy that leaves `None` fields out of its XML. -/
structure HeroRead where
  id : Int32
  name : Option String
  powers : Option (List String)
  powerLevel : Option Int32
  ownerId : String
  archivedAt : Option DateTime
  createdAt : DateTime
  updatedAt : DateTime
deriving DecidableEq, Repr

def HeroRead.ofModel (hero : Model) : HeroRead :=
  { id := hero.id, name := hero.name, powers := hero.powers, powerLevel := hero.powerLevel,
    ownerId := hero.ownerId, archivedAt := hero.archivedAt, createdAt := hero.createdAt,
    updatedAt := hero.updatedAt }

structure HeroListQuery where
  id : Option Int32
  skip : Option Nat
  limit : Option Nat
deriving DecidableEq, Repr

/-! ### v1 -/

structure HeroCreateV1 where
  name : String
  superpower : String
  powerLevel : Option Int32
deriving DecidableEq, Repr

structure HeroUpdateV1 where
  name : Option String
  superpower : Option String
  powerLevel : Option Int32
deriving DecidableEq, Repr

def HeroCreateV1.validate (payload : HeroCreateV1) : Checked Unit :=
  checked (validateTextField "name" payload.name ++ validateTextField "superpower" payload.superpower)

def HeroUpdateV1.validate (payload : HeroUpdateV1) : Checked Unit :=
  checked (payload.name.elim [] (validateTextField "name") ++
    payload.superpower.elim [] (validateTextField "superpower"))

def HeroCreateV1.toHeroCreate (v1 : HeroCreateV1) : HeroCreate :=
  { name := v1.name, powers := [v1.superpower], powerLevel := v1.powerLevel }

def HeroUpdateV1.toHeroUpdate (v1 : HeroUpdateV1) : HeroUpdate :=
  { name := v1.name, powers := v1.superpower.map fun superpower => [superpower], powerLevel := v1.powerLevel }

/-- `HeroReadV1` and its XML copy `HeroReadV1Xml`. -/
structure HeroReadV1 where
  id : Int32
  name : Option String
  superpower : Option String
  powerLevel : Option Int32
  ownerId : String
  archivedAt : Option DateTime
  createdAt : DateTime
  updatedAt : DateTime
deriving DecidableEq, Repr

def HeroReadV1.ofModel (hero : Model) : HeroReadV1 :=
  { id := hero.id, name := hero.name, superpower := hero.powers.bind List.head?, powerLevel := hero.powerLevel,
    ownerId := hero.ownerId, archivedAt := hero.archivedAt, createdAt := hero.createdAt,
    updatedAt := hero.updatedAt }

/-! ### The form -/

structure HeroFormFields where
  name : String
  powers : String
  powerLevel : String
deriving DecidableEq, Repr

/-- The Unicode `White_Space` characters, which `str::trim` removes. -/
def isWhitespace (c : Char) : Bool :=
  let n := c.toNat
  (9 ≤ n && n ≤ 13) || n == 0x20 || n == 0x85 || n == 0xA0 || n == 0x1680 || (0x2000 ≤ n && n ≤ 0x200A) ||
    n == 0x2028 || n == 0x2029 || n == 0x202F || n == 0x205F || n == 0x3000

/-- `str::trim`. -/
def trim (raw : List Char) : List Char := ((raw.dropWhile isWhitespace).reverse.dropWhile isWhitespace).reverse

def parsePowers (raw : String) : List String :=
  (((raw.toList.splitOn ',').map trim).filter fun power => !power.isEmpty).map String.ofList

/-- The decimal digits of a number, most significant first. -/
def digitsValue : List Char → Option Nat
  | [] => none
  | digits =>
    if digits.all Char.isDigit then some (digits.foldl (fun n c => 10 * n + (c.toNat - '0'.toNat)) 0) else none

/-- `str::parse::<i32>`: an optional sign, then digits, in range. -/
def parseI32 (text : List Char) : Option Int32 :=
  let value : Option Int :=
    match text with
    | '-' :: digits => (digitsValue digits).map fun n => -(n : Int)
    | '+' :: digits => (digitsValue digits).map fun n => (n : Int)
    | digits => (digitsValue digits).map fun n => (n : Int)
  value.bind fun v => if Int32.minValue.toInt ≤ v ∧ v ≤ Int32.maxValue.toInt then some (Int32.ofInt v) else none

def parsePowerLevel (raw : String) : Except FieldError (Option Int32) :=
  let trimmed := trim raw.toList
  if trimmed.isEmpty then .ok none
  else
    match parseI32 trimmed with
    | some n => .ok (some n)
    | none => .error ⟨"power_level", "must be a whole number"⟩

namespace HeroFormFields

/-- The errors of `power_level` come first, and a bad one counts as absent for the other checks. -/
def parsed (fields : HeroFormFields) : List FieldError × Option Int32 :=
  match parsePowerLevel fields.powerLevel with
  | .ok value => ([], value)
  | .error err => ([err], none)

def intoHeroCreate (fields : HeroFormFields) : Checked HeroCreate :=
  let (fieldErrors, powerLevel) := fields.parsed
  let create : HeroCreate := { name := fields.name, powers := parsePowers fields.powers, powerLevel }
  let fieldErrors := match create.validate with | .ok () => fieldErrors | .error errors => fieldErrors ++ errors
  if fieldErrors.isEmpty then .ok create else .error fieldErrors

/-- A full replace: name and powers are always given. -/
def intoHeroUpdate (fields : HeroFormFields) : Checked HeroUpdate :=
  let (fieldErrors, powerLevel) := fields.parsed
  let update : HeroUpdate := { name := some fields.name, powers := some (parsePowers fields.powers), powerLevel }
  let fieldErrors := match update.validate with | .ok () => fieldErrors | .error errors => fieldErrors ++ errors
  if fieldErrors.isEmpty then .ok update else .error fieldErrors

end HeroFormFields
end TemplateAxum
