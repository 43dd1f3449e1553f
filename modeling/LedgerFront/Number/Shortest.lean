import LedgerFront.Number.Binary64

/-!
# The shortest decimal of a double

`shortest` gives the decimal with the fewest digits that reads back to the same
double, and of those the one closest to it. Two layouts write it out:

* `plainText`: positional without an exponent, no point on integral values.
* `jsonText`: positional from `1e-5` below `1e16` with at least one place after
  the point, otherwise with a signed exponent.
-/

namespace LedgerFront

/-- The number `digits · 10^exponent`. -/
structure Decimal where
  digits : Nat
  exponent : Int
deriving DecidableEq, Repr

/-- What to do with a value halfway between two decimals. -/
inductive Tie where
  | up
  | even
deriving DecidableEq

namespace Binary64

/-- The least `k` with `|x| < 10^k`; the binary logarithm leaves three candidates. -/
def scale (x : Binary64) : Int :=
  let low := ((x.m.log2 : Int) + x.q) * 30103 / 100000
  let below (k : Int) : Bool :=
    scaled x.m x.q * Nat.pow 10 (-k).toNat < scaled 1 (-x.q) * Nat.pow 10 k.toNat
  if below low then low else if below (low + 1) then low + 1 else low + 2

/-- The decimal denotes this double for the reader of decimals. -/
def readsBack (x : Binary64) (d : Decimal) : Bool :=
  ofDecimal? x.negative d.digits d.exponent == some x

/-- The better of the two neighbours of `|x|` on the grid `10^exponent`, if one reads back. -/
def onGrid? (tie : Tie) (x : Binary64) (exponent : Int) : Option Decimal :=
  let num := scaled x.m x.q * Nat.pow 10 (-exponent).toNat
  let den := scaled 1 (-x.q) * Nat.pow 10 exponent.toNat
  let below : Decimal := ⟨num / den, exponent⟩
  let above : Decimal := ⟨num / den + 1, exponent⟩
  match x.readsBack below, x.readsBack above with
  | true, false => some below
  | false, true => some above
  | false, false => none
  | true, true =>
    match compare (2 * num) ((2 * (num / den) + 1) * den) with
    | .lt => some below
    | .gt => some above
    | .eq => if tie = .even ∧ num / den % 2 = 0 then some below else some above

/-- All digits of the exact value. -/
def exactDecimal (x : Binary64) : Decimal :=
  if 0 ≤ x.q then ⟨scaled x.m x.q, 0⟩ else ⟨x.m * Nat.pow 5 (-x.q).toNat, x.q⟩

end Binary64

/-- The same number without zeros at the end of its digits. -/
def Decimal.strip (d : Decimal) : Decimal :=
  if d.digits ≠ 0 ∧ d.digits % 10 = 0 then Decimal.strip ⟨d.digits / 10, d.exponent + 1⟩ else d
termination_by d.digits
decreasing_by omega

namespace Binary64

/-- The decimal with the fewest digits that reads back to `x`. -/
def shortest (tie : Tie) (x : Binary64) : Decimal :=
  let shortest? := (List.range 17).findSome? fun (n : Nat) => x.onGrid? tie (x.scale - (n + 1))
  (shortest?.getD x.exactDecimal).strip

/-- The digits of `d` in positional form. -/
def positional (digits : List Char) (exponent : Int) : List Char :=
  let places := (-exponent).toNat
  let whole := digits.length - places
  if 0 ≤ exponent then digits ++ List.replicate exponent.toNat '0'
  else if places < digits.length then digits.take whole ++ '.' :: digits.drop whole
  else '0' :: '.' :: (List.replicate (places - digits.length) '0' ++ digits)

/-- The sign in front of a text. -/
def signed (x : Binary64) (text : List Char) : List Char := if x.negative then '-' :: text else text

/-- Positional text of any length, without a point on integral values. -/
def plainChars (x : Binary64) : List Char :=
  if x.isZero then x.signed ['0']
  else
    let d := x.shortest .up
    x.signed (positional (Text.digits d.digits) d.exponent)

/-- Positional text of any length, without a point on integral values. -/
def plainText (x : Binary64) : String := String.ofList x.plainChars

/-- One digit, the others behind a point, and the exponent with its sign. -/
def scientific (digits : List Char) (lead : Int) : List Char :=
  let fraction := match digits.drop 1 with
    | [] => []
    | r => '.' :: r
  digits.take 1 ++ fraction ++ 'e' :: (if lead < 0 then '-' else '+') :: Text.digits lead.natAbs

/-- The text of a double in a JSON document. -/
def jsonChars (x : Binary64) : List Char :=
  if x.isZero then x.signed ['0', '.', '0']
  else
    let d := x.shortest .even
    let ds := Text.digits d.digits
    let lead := d.exponent + ds.length - 1
    if -5 ≤ lead ∧ lead < 16 then
      let text := positional ds d.exponent
      x.signed (if 0 ≤ d.exponent then text ++ ['.', '0'] else text)
    else x.signed (scientific ds lead)

/-- The text of a double in a JSON document. -/
def jsonText (x : Binary64) : String := String.ofList x.jsonChars

end Binary64

end LedgerFront
