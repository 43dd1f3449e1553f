import LedgerFront.Fields
import LedgerFront.Toml.Basic

/-!
# Decoding TOML records

A record comes as a table, whose unknown entries are ignored, or as an array of
its fields in their order.
-/

namespace LedgerFront.Toml

/-- The fields of a record by name. -/
def fields? (names : List String) : Toml → Option (List (String × Toml))
  | .table entries => some entries
  | .arr items => if items.length ≤ names.length then some (names.zip items) else none
  | _ => none

/-- A text. -/
def str? : Toml → Option String
  | .str s => some s
  | _ => none

/-- The items of an array. -/
def items? : Toml → Option (List Toml)
  | .arr items => some items
  | _ => none

/-- The texts of a table, by ascending name. -/
def stringEntries? : Toml → Option (List (String × String))
  | .table entries =>
    (entries.mapM fun p => (str? p.2).map (p.1, ·)).map fun ps =>
      ps.mergeSort fun a b => !decide (b.1 < a.1)
  | _ => none

end LedgerFront.Toml
