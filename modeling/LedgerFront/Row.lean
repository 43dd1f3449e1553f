import LedgerFront.Literal
import LedgerFront.Schema.Basic

/-!
# Columns of a row

A row is a JSON object. Its columns are looked up without regard to ASCII letter
case, under the public name first and then with an underscore in front; of
several members that fit, the first in key order counts.
-/

namespace LedgerFront.Row

/-- The column that identifies a row. -/
def idKey : String := "RowId"

/-- The column that ties the lines to an order. -/
def orderKey : String := "OrderNumber"

/-- The column that ties the lines to a journal. -/
def journalKey : String := "Journal"

/-- The first member with a name, in any letter case. -/
def named? (name : String) (row : Members) : Option Json :=
  (List.find? (fun p => Text.sameName p.1 name) row).map (·.2)

/-- The column with a public name. -/
def publicColumn? (name : String) (row : Members) : Option Json :=
  (named? name row).or (named? (fieldName name) row)

/-- The column with a public name or the name of its field. -/
def column? (name : String) (row : Members) : Option Json := publicColumn? (bareName name) row

/-- The normal form of a column's value is one of the texts. -/
def isOneOf (valueType : ValueType) (values : List String) : Option Json → Run Bool
  | none => .ok false
  | some v => do
    match ← valueType.normalizeJson v with
    | some text => pure (values.contains text)
    | none => pure false

end LedgerFront.Row
