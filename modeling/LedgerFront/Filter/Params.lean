import LedgerFront.Pairs
import LedgerFront.Text.Form
import LedgerFront.Text.Letter

/-!
# Filter parameters

The pairs of a query string, each key once: a key stands where it first appeared
and carries the value of its last appearance.
-/

namespace LedgerFront

/-- Filter parameters in the order of their keys. -/
structure Params where
  pairs : List (String × String)
deriving DecidableEq, Repr

namespace Params

/-- The parameters of these pairs. -/
def ofPairs (pairs : List (String × String)) : Params :=
  ⟨pairs.foldl (fun ps p => Pairs.put p.1 p.2 ps) []⟩

/-- A key that is one of the excluded names, in any letter case. -/
def isExcluded (excluded : List String) (key : String) : Bool :=
  excluded.any (Text.sameName · key)

/-- The parameters of a query string without the excluded keys. -/
def parseQuery (query : String) (excluded : List String) : Params :=
  ofPairs ((Text.Form.decode query).filter fun p => !isExcluded excluded p.1)

/-- The value under a key. -/
def get? (p : Params) (key : String) : Option String := p.pairs.lookup key

end Params

end LedgerFront
