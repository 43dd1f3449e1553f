import LedgerFront.Json.Decode
import LedgerFront.Json.Described

/-!
# Companies

A company of a remote session. Only the number and the name are interpreted; all
other members are carried along.
-/

namespace LedgerFront

/-- A company that a session can see. -/
structure Company where
  id : Int
  name : String
  extra : Members
deriving DecidableEq

namespace Company

/-- The company that a value encodes; a missing name is empty. -/
def decode? (j : Json) : Option Company := do
  let m ← j.members?
  let id ← Fields.required m "CompanyId" Json.int32?
  let name ← Fields.optional m "Name" "" Json.str?
  pure ⟨id, name, (m.erase "CompanyId").erase "Name"⟩

/-- Why an object is no company. -/
def problem (m : Members) : String :=
  match m.find? "CompanyId", m.find? "Name" with
  | some id, name =>
    match Json.int32? id, id, name with
    | some _, _, some n => n.wrongType "a string"
    | some _, _, none => ""
    | none, .num (.int _), _ => "invalid value: " ++ id.described ++ ", expected i32"
    | none, _, _ => id.wrongType "i32"
  | none, some (.str _) | none, none => "missing field \x60CompanyId\x60"
  | none, some n => n.wrongType "a string"

/-- The list of companies that a value encodes, or why it is none. -/
def decodeList (j : Json) : Except String (List Company) :=
  match j with
  | .arr items =>
    items.mapM fun item =>
      match decode? item, item with
      | some c, _ => .ok c
      | none, .obj m => .error (problem m)
      | none, _ => .error (item.wrongType "struct Company")
  | _ => .error (j.wrongType "a sequence")

/-- The company as a value. -/
def encode (c : Company) : Json :=
  .obj ((c.extra.insert "CompanyId" (.ofInt c.id)).insert "Name" (.str c.name))

/-- The first company with a number. -/
def find? (companies : List Company) (id : Int) : Option Company := companies.find? (·.id == id)

end Company

end LedgerFront
