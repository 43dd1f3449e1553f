import LedgerFront.Json.Basic
import LedgerFront.Literal
import LedgerFront.Text.Quoted

/-!
# Values in error messages

What an error says about a value of the wrong type: its kind, and the value itself
unless it has parts.
-/

namespace LedgerFront.Json

/-- What a value is, in the words of a decoding error. -/
def described : Json → String
  | .null => "null"
  | .bool b => "boolean \x60" ++ Literal.boolText b ++ "\x60"
  | .num (.int i) => "integer \x60" ++ Text.intText i ++ "\x60"
  | .num (.double d) =>
    let s := d.plainText
    "floating point \x60" ++ (if s.toList.contains '.' then s else s ++ ".0") ++ "\x60"
  | .str s => "string " ++ Text.quoted s
  | .arr _ => "sequence"
  | .obj _ => "map"

/-- The text of the error. -/
def wrongType (j : Json) (expected : String) : String :=
  "invalid type: " ++ j.described ++ ", expected " ++ expected

end LedgerFront.Json
