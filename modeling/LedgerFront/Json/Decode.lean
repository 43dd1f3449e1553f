import LedgerFront.Fields
import LedgerFront.Json.Basic

/-!
# Decoding records and choices

A record comes as an object, whose unknown members are ignored, or as an array of
its fields in their order, whose last fields may be missing. A choice without
content comes as its name, or as an object with the name as its only key.
-/

namespace LedgerFront.Json

/-- The fields of a record by name. -/
def fields? (names : List String) : Json → Option Members
  | obj m => some m
  | arr a => if a.length ≤ names.length then some (names.zip a) else none
  | _ => none

/-- The name of a choice; `isUnit` says what may stand under the name. -/
def choice? (isUnit : Json → Bool) : Json → Option String
  | str s => some s
  | obj [(k, v)] => if isUnit v then some k else none
  | _ => none

/-- Nothing but null. -/
def isNull : Json → Bool
  | null => true
  | _ => false

/-- Null, or an object without members. -/
def isEmpty : Json → Bool
  | null => true
  | obj [] => true
  | _ => false

/-- A truth value. -/
def bool? : Json → Option Bool
  | bool b => some b
  | _ => none

/-- An integer from `low` to below `high`. -/
def intWithin? (low high : Int) : Json → Option Int
  | num (.int i) => if low ≤ i ∧ i < high then some i else none
  | _ => none

/-- A signed 32-bit integer. -/
def int32? : Json → Option Int := intWithin? (-0x80000000) 0x80000000

/-- A natural number below a bound. -/
def natBelow? (high : Nat) (j : Json) : Option Nat := (intWithin? 0 high j).map Int.toNat

/-- A list of texts. -/
def strings? (j : Json) : Option (List String) := j.items?.bind (·.mapM str?)

/-- A value, or `none` for null. -/
def nullable {α : Type} (decode : Json → Option α) : Json → Option (Option α)
  | null => some none
  | v => (decode v).map some

end LedgerFront.Json
