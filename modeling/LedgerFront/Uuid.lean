import LedgerFront.Json.Decode
import LedgerFront.Text.Percent
import LedgerFront.Text.Quoted
import LedgerFront.Text.Utf8

/-!
# Universally unique identifiers

A number of 128 bits. It is read plain, hyphenated, in braces or as a URN, in any
letter case, and written hyphenated in lower case.
-/

namespace LedgerFront

/-- An identifier of 128 bits. -/
structure Uuid where
  value : Nat
deriving DecidableEq, Repr

namespace Uuid

/-- The identifier zero. -/
def zero : Uuid := ⟨0⟩

/-- The number that hexadecimal digits denote. -/
def hexNat? (digits : List UInt8) : Option Nat :=
  digits.foldlM (fun n b => (Text.Percent.hexValue? b).map (16 * n + ·)) 0

/-- The identifier of 32 digits. -/
def plain? (s : List UInt8) : Option Uuid :=
  if s.length = 32 then (hexNat? s).map Uuid.mk else none

/-- The identifier of 32 digits in groups of 8, 4, 4, 4 and 12 with hyphens between them. -/
def hyphenated? (s : List UInt8) : Option Uuid :=
  let hyphens := [8, 13, 18, 23]
  if s.length = 36 ∧ hyphens.all (s[·]? == some 45) then
    plain? (s.take 8 ++ (s.drop 9).take 4 ++ (s.drop 14).take 4 ++ (s.drop 19).take 4 ++ s.drop 24)
  else none

/-- The mark of an identifier that is written as a URN. -/
def urnMark : List UInt8 := Text.Utf8.ofString "urn:uuid:"

/-- The identifier that a text denotes. -/
def ofString? (text : String) : Option Uuid :=
  let s := Text.Utf8.ofString text
  if s.length = 32 then plain? s
  else if s.length = 36 then hyphenated? s
  else if s.length = 38 ∧ s.head? = some 123 ∧ s.getLast? = some 125 then
    hyphenated? (s.drop 1).dropLast
  else if s.take 9 = urnMark then hyphenated? (s.drop 9)
  else none

/-- The hyphenated form. -/
def text (u : Uuid) : String :=
  let ds := Text.hexDigits u.value
  let s := List.replicate (32 - ds.length) '0' ++ ds
  String.ofList (s.take 8 ++ '-' :: ((s.drop 8).take 4 ++ '-' :: ((s.drop 12).take 4 ++
    '-' :: ((s.drop 16).take 4 ++ '-' :: s.drop 20))))

/-- The identifier that a value encodes. -/
def decode? (j : Json) : Option Uuid := j.str?.bind ofString?

end Uuid

end LedgerFront
