/-!
# Percent encoding

A byte is written `%XX` with two hexadecimal digits. Encoding escapes the bytes
of a given set, decoding leaves a `%` that starts no such triple as it is.
-/

namespace LedgerFront.Text.Percent

/-- The value of a hexadecimal digit in either letter case. -/
def hexValue? (b : UInt8) : Option Nat :=
  let n := b.toNat
  if 48 ≤ n ∧ n ≤ 57 then some (n - 48)
  else if 65 ≤ n ∧ n ≤ 70 then some (n - 55)
  else if 97 ≤ n ∧ n ≤ 102 then some (n - 87)
  else none

/-- An upper-case hexadecimal digit. -/
def hexDigit (n : Nat) : UInt8 := if n < 10 then (48 + n).toUInt8 else (55 + n).toUInt8

/-- The triple that stands for a byte. -/
def triple (b : UInt8) : List UInt8 := [37, hexDigit (b.toNat / 16), hexDigit (b.toNat % 16)]

/-- Writes the bytes of `escaped` as triples and all others as they are. -/
def encode (escaped : UInt8 → Bool) (s : List UInt8) : List UInt8 :=
  s.flatMap fun b => if escaped b then triple b else [b]

/-- Replaces every triple by its byte. -/
def decode : List UInt8 → List UInt8
  | [] => []
  | [a] => [a]
  | [a, b] => [a, b]
  | a :: b :: c :: r =>
    if a = 37 then
      match hexValue? b, hexValue? c with
      | some h, some l => (16 * h + l).toUInt8 :: decode r
      | _, _ => a :: decode (b :: c :: r)
    else a :: decode (b :: c :: r)

end LedgerFront.Text.Percent
