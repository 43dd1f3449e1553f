/-!
# Base64

The standard alphabet with padding. Decoding is strict: whole groups of four,
padding only at the end, and the bits that no byte uses are zero, so that each
byte sequence has exactly one written form.
-/

namespace LedgerFront.Text.Base64

/-- The letter of a value below 64. -/
def letter (n : Nat) : UInt8 :=
  if n < 26 then (65 + n).toUInt8
  else if n < 52 then (71 + n).toUInt8
  else if n < 62 then (n - 4).toUInt8
  else if n = 62 then 43
  else 47

/-- The value of a letter. -/
def value? (b : UInt8) : Option Nat :=
  let n := b.toNat
  if 65 ≤ n ∧ n ≤ 90 then some (n - 65)
  else if 97 ≤ n ∧ n ≤ 122 then some (n - 71)
  else if 48 ≤ n ∧ n ≤ 57 then some (n + 4)
  else if n = 43 then some 62
  else if n = 47 then some 63
  else none

/-- Three bytes become four letters; the last group is filled with `=`. -/
def encode : List UInt8 → List UInt8
  | [] => []
  | [a] =>
    let n := a.toNat
    [letter (n / 4), letter (n % 4 * 16), 61, 61]
  | [a, b] =>
    let n := a.toNat * 256 + b.toNat
    [letter (n / 1024), letter (n / 16 % 64), letter (n % 16 * 4), 61]
  | a :: b :: c :: r =>
    let n := a.toNat * 65536 + b.toNat * 256 + c.toNat
    letter (n / 262144) :: letter (n / 4096 % 64) :: letter (n / 64 % 64) :: letter (n % 64) ::
      encode r

/-- The bytes of one group, which is the last one if `isLast`. -/
def group? (isLast : Bool) (a b c d : UInt8) : Option (List UInt8) :=
  match value? a, value? b, value? c, value? d with
  | some p, some q, some r, some s =>
    let n := p * 262144 + q * 4096 + r * 64 + s
    some [(n / 65536).toUInt8, (n / 256 % 256).toUInt8, (n % 256).toUInt8]
  | some p, some q, some r, none =>
    let n := p * 4096 + q * 64 + r
    if isLast ∧ d = 61 ∧ n % 4 = 0 then some [(n / 1024).toUInt8, (n / 4 % 256).toUInt8] else none
  | some p, some q, none, none =>
    let n := p * 64 + q
    if isLast ∧ c = 61 ∧ d = 61 ∧ n % 16 = 0 then some [(n / 16).toUInt8] else none
  | _, _, _, _ => none

/-- The bytes that the letters stand for. -/
def decode? : List UInt8 → Option (List UInt8)
  | [] => some []
  | a :: b :: c :: d :: r =>
    match group? r.isEmpty a b c d, decode? r with
    | some g, some t => some (g ++ t)
    | _, _ => none
  | _ => none

end LedgerFront.Text.Base64
