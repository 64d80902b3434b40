import TemplateAxum.Http

/-!
# Token claims

The decoded claims of a bearer token and what the handlers read off them (`oidc/mod.rs`).
-/

namespace TemplateAxum

/-- `serde_json::Value`; a number is `coefficient · 10 ^ exponent`. -/
inductive Json
  | null
  | bool (b : Bool)
  | number (coefficient exponent : Int)
  | string (s : String)
  | array (items : List Json)
  | object (fields : List (String × Json))

namespace Json

def get (json : Json) (name : String) : Option Json :=
  match json with
  | object fields => (fields.find? fun field => field.1 == name).map Prod.snd
  | _ => none

def asStr : Json → Option String
  | string s => some s
  | _ => none

def asArray : Json → Option (List Json)
  | array items => some items
  | _ => none

end Json

structure Claims where
  value : Json

namespace Claims

def subject (claims : Claims) : Except AppError String :=
  match (claims.value.get "sub").bind Json.asStr with
  | some sub => .ok sub
  | none => .error (.unauthorized "token has no sub claim")

/-- `resource_access.<client>.roles`, the entries that are strings. -/
def grantedRoles (claims : Claims) (clientId : String) : List String :=
  match (((claims.value.get "resource_access").bind fun ra => ra.get clientId).bind fun client =>
    client.get "roles").bind Json.asArray with
  | some roles => roles.filterMap Json.asStr
  | none => []

def requireAnyRole (claims : Claims) (clientId : String) (roles : List String) : Except AppError Unit :=
  if roles.any fun role => (claims.grantedRoles clientId).any fun granted => granted == role then .ok ()
  else .error (.forbidden "Insufficient role")

theorem requireAnyRole_eq_ok {claims : Claims} {clientId : String} {roles : List String} :
    claims.requireAnyRole clientId roles = .ok () ↔ ∃ role ∈ roles, role ∈ claims.grantedRoles clientId := by
  unfold requireAnyRole
  split
  · rename_i h; simpa using h
  · rename_i h; simpa using h

end Claims

/-! ### Keys -/

/-- A key of the issuer's set, by its id and material. -/
structure Jwk where
  kid : Option String
  material : List UInt8
deriving DecidableEq

abbrev JwkSet := List Jwk

namespace JwkSet

/-- `JwkSet::find`. -/
def find (keys : JwkSet) (kid : String) : Option Jwk := List.find? (fun jwk => jwk.kid == some kid) keys

end JwkSet
end TemplateAxum
