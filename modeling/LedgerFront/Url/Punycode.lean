import LedgerFront.Text.Cut
import LedgerFront.Text.Quoted

/-!
# International domain names

A label with other than ASCII characters is written as `xn--`, its ASCII
characters, and a list of numbers that say which characters are missing and
where. The numbers have digits of base 36 and end where a digit is below a
threshold, which follows the size of the numbers before.
-/

namespace LedgerFront.Url.Punycode

/-- The character of a digit. -/
def digit (d : Nat) : Char := if d < 26 then Char.ofNat (97 + d) else Char.ofNat (22 + d)

/-- The threshold at the digit that is the `k`-th, counted in steps of 36. -/
def threshold (k bias : Nat) : Nat := max 1 (min 26 (k - bias))

/-- A number from its lowest digit on. -/
def number (bias k q : Nat) : List Char :=
  if q < threshold k bias then [digit q]
  else
    digit (threshold k bias + (q - threshold k bias) % (36 - threshold k bias)) ::
      number bias (k + 36) ((q - threshold k bias) / (36 - threshold k bias))
termination_by q
decreasing_by
  have : 1 ≤ threshold k bias := by unfold threshold; omega
  exact Nat.lt_of_le_of_lt (Nat.div_le_self _ _) (by omega)

/-- The bias that belongs to a number of this size, found by taking it down in steps. -/
def biasFrom (delta k : Nat) : Nat :=
  if 455 < delta then biasFrom (delta / 35) (k + 36) else k + 36 * delta / (delta + 38)
termination_by delta

/-- The bias after a number, when `handled` characters are written. -/
def adapt (delta handled : Nat) (isFirst : Bool) : Nat :=
  let delta := if isFirst then delta / 700 else delta / 2
  biasFrom (delta + delta / handled) 0

/-- A label that is partly written. -/
structure Progress where
  output : List Char
  delta : Nat
  bias : Nat
  handled : Nat

/-- One character of the label while those of the code `m` are written. -/
def Progress.next (plain m : Nat) (p : Progress) (c : Char) : Progress :=
  if c.toNat < m then { p with delta := p.delta + 1 }
  else if c.toNat = m then
    ⟨p.output ++ number p.bias 36 p.delta, 0, adapt p.delta (p.handled + 1) (p.handled = plain),
      p.handled + 1⟩
  else p

/-- Writes the characters of ascending codes, of which `n` is the first that may come. -/
def codes (label : List Char) (plain : Nat) : List Nat → Nat → Progress → Progress
  | [], _, p => p
  | m :: ms, n, p =>
    let p := label.foldl (Progress.next plain m)
      { p with delta := p.delta + (m - n) * (p.handled + 1) }
    codes label plain ms (m + 1) { p with delta := p.delta + 1 }

/-- A number put into an ascending list, unless it is there. -/
def insertCode (m : Nat) : List Nat → List Nat
  | [] => [m]
  | n :: ns => if m = n then n :: ns else if m < n then m :: n :: ns else n :: insertCode m ns

/-- A label in ASCII characters. -/
def encode (label : List Char) : List Char :=
  let plain := label.filter (·.toNat < 128)
  let other := (label.filter fun c => 128 ≤ c.toNat).foldr (fun c ms => insertCode c.toNat ms) []
  let p := codes label plain.length other 128 ⟨[], 0, 72, plain.length⟩
  "xn--".toList ++ (if plain.isEmpty then [] else plain ++ ['-']) ++ p.output

/-- The lower-case letter of a Latin, Greek or Cyrillic capital. -/
def lower (c : Char) : Char :=
  let n := c.toNat
  if (0xC0 ≤ n ∧ n ≤ 0xDE ∧ n ≠ 0xD7) ∨ (0x391 ≤ n ∧ n ≤ 0x3A9) ∨ (0x410 ≤ n ∧ n ≤ 0x42F) then
    Char.ofNat (n + 32)
  else c.toLower

/-- A domain in ASCII characters; one with characters of no form of their own has none. -/
def domain? (s : List Char) : Option (List Char) :=
  if s.any fun c => 128 ≤ c.toNat && (Text.isUnprintable c || c.toNat == 0xFFFD) then none
  else
    let labels := Text.cutAt (· == ·) ['.'] (s.map lower)
    let written := labels.map fun l => if l.all (·.toNat < 128) then l else encode l
    some ((written.intersperse ['.']).flatten)

end LedgerFront.Url.Punycode
