import LedgerFront.Number.Binary64

/-!
# Reading decimal literals

A decimal literal has an optional sign, digits with at most one point among or
beside them, and an optional exponent. `binary64?` rounds it to the nearest
double and refuses what is no literal or has no finite value.
-/

namespace LedgerFront.Binary64

/-- The exponent part of a literal; `none` when it is malformed. -/
def exponent? : List Char → Option Int
  | [] => some 0
  | c :: r =>
    if c = 'e' ∨ c = 'E' then
      match r with
      | '-' :: ds =>
        if ds ≠ [] ∧ ds.all Text.isDigit then some (-(Text.digitsValue ds : Int)) else none
      | '+' :: ds => if ds ≠ [] ∧ ds.all Text.isDigit then some (Text.digitsValue ds) else none
      | ds => if ds ≠ [] ∧ ds.all Text.isDigit then some (Text.digitsValue ds) else none
    else none

/-- The digits of a literal without its sign, and the power of ten that they are multiplied with. -/
def decimal? (s : List Char) : Option (Nat × Int) :=
  let whole := Text.spanDigits s
  let fraction := match whole.2 with
    | '.' :: r => Text.spanDigits r
    | r => ([], r)
  if whole.1 = [] ∧ fraction.1 = [] then none
  else
    (exponent? fraction.2).map fun e =>
      (Text.digitsValue (whole.1 ++ fraction.1), e - fraction.1.length)

/-- The double nearest to a literal without its sign. -/
def unsigned? (negative : Bool) (s : List Char) : Option Binary64 :=
  (decimal? s).bind fun d => ofDecimal? negative d.1 d.2

/-- The double nearest to a decimal literal. -/
def ofChars? : List Char → Option Binary64
  | '-' :: r => unsigned? true r
  | '+' :: r => unsigned? false r
  | r => unsigned? false r

end LedgerFront.Binary64
