import LedgerFront.Number.Reading
import LedgerFront.Row
import LedgerFront.Text.Cut

/-!
# Raw expressions

The part of the remote query language that is understood here: terms
`Name = literal` with ` or ` between them. A literal between single quotes is a
text, any other literal a number or a truth value.

* `Where.parse?`: the terms of an expression.
* `Where.fold`: the expression for one column and its alternatives.
* `Where.Term.holds`: a term on a row.
-/

namespace LedgerFront.Where

/-- One alternative of an expression. -/
structure Term where
  name : String
  literal : String
  quoted : Bool
deriving DecidableEq, Repr

/-- The separator of terms; any ASCII letter case will do. -/
def separator : List Char := [' ', 'o', 'r', ' ']

/-- Characters that differ in ASCII letter case only. -/
def sameLetter (c d : Char) : Bool := c == d.toLower

/-- A literal without its quotes, if it has one at each end. -/
def unquote? : List Char → Option (List Char)
  | '\'' :: r => if r.getLast? = some '\'' then some r.dropLast else none
  | _ => none

/-- The term that a piece of an expression spells. -/
def term? (piece : List Char) : Option Term := do
  let (name, literal) ← Text.splitFirst? '=' piece
  let name := Text.trimChars name
  let literal := Text.trimChars literal
  if name.isEmpty || literal.isEmpty then none
  else
    match unquote? literal with
    | some inner => some ⟨String.ofList name, String.ofList inner, true⟩
    | none => some ⟨String.ofList name, String.ofList literal, false⟩

/-- The terms of an expression. -/
def parse? (expression : String) : Option (List Term) :=
  (Text.cutAt sameLetter separator expression.toList).mapM term?

/-- A literal as it stands in an expression; a quoted one cannot hold a single quote. -/
def literal? (valueType : ValueType) (value : String) : Option String :=
  if valueType.isBare then some value
  else if value.toList.contains '\'' then none
  else some ("'" ++ value ++ "'")

/-- The part of an expression for one value, or the value if it cannot be embedded. -/
def part (name : String) (valueType : ValueType) (value : String) : Except String String :=
  match literal? valueType value with
  | some l => .ok (name ++ " = " ++ l)
  | none => .error value

/-- The expression that is true where a column has one of the values; the first value that cannot be
embedded if there is one. -/
def fold (name : String) (valueType : ValueType) (values : List String) : Except String String := do
  let parts ← values.mapM (part name valueType)
  pure (" or ".intercalate parts)

/-- A column's value satisfies a term. -/
def Term.accepts (t : Term) : Json → Bool
  | .str s => t.quoted && s == t.literal
  | .num n =>
    match n.binary64?, Binary64.ofChars? t.literal.toList with
    | some a, some b => a.sameNumber b
    | _, _ => false
  | .bool b => Text.sameName t.literal (Literal.boolText b)
  | _ => false

/-- A row satisfies a term. -/
def Term.holds (t : Term) (row : Members) : Bool := (Row.column? t.name row).any t.accepts

end LedgerFront.Where
