import LedgerFront.Text.Percent
import LedgerFront.Text.Utf8

/-!
# Form-encoded pairs

`application/x-www-form-urlencoded`: pieces between `&`, each a name and a value
around the first `=`, with `+` for a space and percent triples for bytes. Empty
pieces are skipped, bytes that are no UTF-8 become U+FFFD.
-/

namespace LedgerFront.Text.Form

/-- The pieces between occurrences of a byte. -/
def splitOn (mark : UInt8) : List UInt8 → List (List UInt8)
  | [] => [[]]
  | b :: r =>
    if b = mark then [] :: splitOn mark r
    else match splitOn mark r with
      | [] => [[b]]
      | p :: ps => (b :: p) :: ps

/-- The parts before and after the first `=`; the second is empty when there is none. -/
def splitPair : List UInt8 → List UInt8 × List UInt8
  | [] => ([], [])
  | b :: r => if b = 61 then ([], r) else (b :: (splitPair r).1, (splitPair r).2)

/-- The text that a name or a value stands for. -/
def decodeText (s : List UInt8) : String :=
  Utf8.toStringLossy (Percent.decode (s.map fun b => if b = 43 then 32 else b))

/-- The decoded pairs in order. -/
def decodeBytes (s : List UInt8) : List (String × String) :=
  ((splitOn 38 s).filter (!·.isEmpty)).map fun piece =>
    (decodeText (splitPair piece).1, decodeText (splitPair piece).2)

/-- The decoded pairs of a query string in order. -/
def decode (query : String) : List (String × String) := decodeBytes (Utf8.ofString query)

end LedgerFront.Text.Form
