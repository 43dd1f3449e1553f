/-!
# Pairs under keys

Tables are lists of pairs, each key once. A value that is put under a key takes the
place of the one that stands there; under a new key it stands at the end.
-/

namespace LedgerFront.Pairs

variable {κ α : Type} [DecidableEq κ]

/-- The pairs with a value put under a key, in its place or at the end. -/
def put (key : κ) (value : α) : List (κ × α) → List (κ × α)
  | [] => [(key, value)]
  | (k, v) :: r => if k = key then (key, value) :: r else (k, v) :: put key value r

/-- The pairs without a key. -/
def erase (key : κ) (l : List (κ × α)) : List (κ × α) := l.filter fun p => p.1 ≠ key

end LedgerFront.Pairs
