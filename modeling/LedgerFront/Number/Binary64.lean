import LedgerFront.Text.Digits

/-!
# Finite binary64 values

A double as the exact number `m · 2^q` with a sign, in its one canonical form,
so that two values are the same double exactly when they are equal. Every
operation computes exactly on naturals and rounds once, to nearest with ties to
even; a result beyond the largest double is `none`.

* `round?`: a quotient of naturals rounded to a double.
* `ofDecimal?`: `digits · 10^exponent` rounded to a double.
* `sameNumber`: equality as numbers, for which the two zeros are one.
-/

namespace LedgerFront

/-- A finite double: a significand of at most 53 bits, all 53 of them in use above the least
exponent. -/
structure Binary64 where
  negative : Bool
  m : Nat
  q : Int
  canonical : m < 0x20000000000000 ∧ -1074 ≤ q ∧ q ≤ 971 ∧ (0x10000000000000 ≤ m ∨ q = -1074)
deriving DecidableEq

namespace Binary64

/-- The double of these parts, if they are canonical. -/
def ofParts? (negative : Bool) (m : Nat) (q : Int) : Option Binary64 :=
  if h : m < 0x20000000000000 ∧ -1074 ≤ q ∧ q ≤ 971 ∧ (0x10000000000000 ≤ m ∨ q = -1074) then
    some ⟨negative, m, q, h⟩
  else none

/-- Zero of either sign. -/
def zero (negative : Bool) : Binary64 := ⟨negative, 0, -1074, by decide⟩

/-- The same number with the sign changed. -/
def neg (x : Binary64) : Binary64 := { x with negative := !x.negative }

/-- A quotient rounded to the nearest natural, ties to even. -/
def roundDiv (num den : Nat) : Nat :=
  let n := num / den
  match compare (2 * (num % den)) den with
  | .lt => n
  | .gt => n + 1
  | .eq => if n % 2 = 0 then n else n + 1

/-- A factor of `2^q` on the side where it is a natural. -/
def scaled (n : Nat) (q : Int) : Nat := n <<< q.toNat

/-- The exponent of the last place of the double nearest to `num / den`. -/
def lastPlace (num den : Nat) : Int :=
  let q : Int := (num.log2 : Int) - den.log2 - 53
  let q := if scaled num (-q) < 0x20000000000000 * scaled den q then q else q + 1
  max q (-1074)

/-- The double nearest to `num / den`, or `none` when that lies beyond the largest one. -/
def round? (negative : Bool) (num den : Nat) : Option Binary64 :=
  if num = 0 then some (zero negative)
  else
    let q := lastPlace num den
    let m := roundDiv (scaled num (-q)) (scaled den q)
    if m < 0x20000000000000 then ofParts? negative m q else ofParts? negative (m / 2) (q + 1)

/-- The double nearest to an integer. -/
def ofInt? (i : Int) : Option Binary64 := round? (i < 0) i.natAbs 1

/-- The double nearest to `digits · 10^exponent`. Exponents far outside the range of doubles are
settled without computing the power. -/
def ofDecimal? (negative : Bool) (digits : Nat) (exponent : Int) : Option Binary64 :=
  let magnitude := exponent + (Text.digits digits).length
  if digits = 0 ∨ magnitude < -330 then some (zero negative)
  else if 310 < magnitude then none
  else round? negative (digits * Nat.pow 10 exponent.toNat) (Nat.pow 10 (-exponent).toNat)

/-- The rounded product. -/
def mul? (x y : Binary64) : Option Binary64 :=
  let q := x.q + y.q
  round? (x.negative != y.negative) (scaled (x.m * y.m) q) (scaled 1 (-q))

/-- The rounded quotient by a number that is not zero. -/
def div? (x y : Binary64) : Option Binary64 :=
  let q := x.q - y.q
  if y.m = 0 then none
  else round? (x.negative != y.negative) (scaled x.m q) (scaled y.m (-q))

/-- Zero of either sign. -/
def isZero (x : Binary64) : Bool := x.m == 0

/-- Equality as numbers: the two zeros are the same number. -/
def sameNumber (x y : Binary64) : Bool := x == y || (x.isZero && y.isZero)

/-- A number without a fractional part. -/
def isIntegral (x : Binary64) : Bool := x.m % scaled 1 (-x.q) == 0

/-- The nearest natural to the absolute value, a half going up. -/
def roundedAbs (x : Binary64) : Nat :=
  let unit := scaled 1 (-x.q)
  (2 * scaled x.m x.q + unit) / (2 * unit)

/-- The nearest integer, a half going away from zero. -/
def rounded (x : Binary64) : Int := if x.negative then -(x.roundedAbs : Int) else x.roundedAbs

end Binary64

end LedgerFront
