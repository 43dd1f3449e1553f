/-!
# Decimal digits

Natural numbers and integers as decimal text, and the reading of digit runs.
-/

namespace LedgerFront.Text

/-- An ASCII digit. -/
def isDigit (c : Char) : Bool := 48 ≤ c.toNat && c.toNat ≤ 57

/-- The value of a digit. -/
def digitValue (c : Char) : Nat := c.toNat - 48

/-- The digit of a value below ten. -/
def digitChar (n : Nat) : Char := Char.ofNat (48 + n)

/-- The decimal digits of a number, most significant first. -/
def digits (n : Nat) : List Char :=
  if n < 10 then [digitChar n] else digits (n / 10) ++ [digitChar (n % 10)]
termination_by n

/-- The number that a run of digits denotes. -/
def digitsValue (s : List Char) : Nat := s.foldl (fun n c => 10 * n + digitValue c) 0

/-- The digits at the start, and the rest. -/
def spanDigits (s : List Char) : List Char × List Char := (s.takeWhile isDigit, s.dropWhile isDigit)

/-- The digits of a number with zeros in front up to a width. -/
def padded (width n : Nat) : List Char :=
  List.replicate (width - (digits n).length) '0' ++ digits n

/-- The decimal text of an integer. -/
def intChars (i : Int) : List Char := if i < 0 then '-' :: digits i.natAbs else digits i.natAbs

/-- The decimal text of a number. -/
def natText (n : Nat) : String := String.ofList (digits n)

/-- The decimal text of an integer. -/
def intText (i : Int) : String := String.ofList (intChars i)

/-- A number: an optional plus sign, then digits only. -/
def nat? (s : List Char) : Option Nat :=
  let body := match s with
    | '+' :: r => r
    | r => r
  if body ≠ [] ∧ body.all isDigit then some (digitsValue body) else none

/-- An integer: an optional sign, then digits only. -/
def int? (s : List Char) : Option Int :=
  match s with
  | '-' :: r => if r ≠ [] ∧ r.all isDigit then some (-(digitsValue r : Int)) else none
  | r => (nat? r).map Int.ofNat

/-- An integer between two bounds, `low` included and `high` not. -/
def intWithin? (low high : Int) (s : List Char) : Option Int :=
  (int? s).bind fun i => if low ≤ i ∧ i < high then some i else none

/-- A signed 64-bit integer. -/
def int64? (s : List Char) : Option Int := intWithin? (-0x8000000000000000) 0x8000000000000000 s

/-- A signed 32-bit integer. -/
def int32? (s : List Char) : Option Int := intWithin? (-0x80000000) 0x80000000 s

/-- A number between zero and a bound that it does not reach. -/
def natBelow? (high : Nat) (s : List Char) : Option Nat :=
  (nat? s).bind fun n => if n < high then some n else none

end LedgerFront.Text
