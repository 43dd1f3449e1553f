import LedgerFront.Text.Cut
import LedgerFront.Text.Digits
import LedgerFront.Text.Percent
import LedgerFront.Text.Quoted

/-!
# IP addresses

Addresses of both versions as numbers, and their text forms: four decimal numbers
with points between them, or eight groups of hexadecimal digits with colons
between them, of which one run of zeros can be left out.
-/

namespace LedgerFront

/-- An address; one of version 6 is a list of eight groups of 16 bits. -/
inductive IpAddress where
  | v4 (value : Nat)
  | v6 (groups : List Nat)
deriving DecidableEq, Repr

namespace IpAddress

/-- The value of a digit in a base of at most 16. -/
def digit? (base : Nat) (c : Char) : Option Nat :=
  (Text.Percent.hexValue? c.toNat.toUInt8).filter fun d => c.toNat < 128 && d < base

/-- The number that digits denote. -/
def number? (base : Nat) (s : List Char) : Option Nat :=
  s.foldlM (fun n c => (digit? base c).map (base * n + ·)) 0

/-- Four numbers with points between them. -/
def dotted (n : Nat) : List Char :=
  Text.digits (n / 16777216) ++ '.' :: (Text.digits (n / 65536 % 256) ++
    '.' :: (Text.digits (n / 256 % 256) ++ '.' :: Text.digits (n % 256)))

/-- One group of an IPv6 address. -/
def group? (s : List Char) : Option Nat := if s.isEmpty ∨ 4 < s.length then none else number? 16 s

/-- A byte in decimal digits without zeros in front. -/
def byte? (s : List Char) : Option Nat :=
  if s.isEmpty ∨ 3 < s.length ∨ (1 < s.length ∧ s.head? = some '0') then none
  else (number? 10 s).filter (· < 256)

/-- The address of version 4 that a text spells. -/
def ipv4? (s : List Char) : Option Nat :=
  match (Text.cutAt (· == ·) ['.'] s).mapM byte? with
  | some [a, b, c, d] => some (16777216 * a + 65536 * b + 256 * c + d)
  | _ => none

/-- The groups that a text between `::` spells; the last one may be an IPv4 address. -/
def groups? (isEnd : Bool) (s : List Char) : Option (List Nat) :=
  if s.isEmpty then some []
  else
    let pieces := Text.cutAt (· == ·) [':'] s
    match isEnd, (pieces.getLast?.getD []).contains '.' with
    | true, true => do
      let front ← pieces.dropLast.mapM group?
        let n ← ipv4? (pieces.getLast?.getD [])
      pure (front ++ [n / 65536, n % 65536])
    | _, _ => pieces.mapM group?

/-- The eight groups of an IPv6 address; `::` stands for one or more groups of zero. -/
def ipv6? (s : List Char) : Option (List Nat) :=
  match Text.cutAt (· == ·) [':', ':'] s with
  | [whole] => (groups? true whole).filter (·.length = 8)
  | [front, back] => do
    let front ← groups? false front
    let back ← groups? true back
    let given := front.length + back.length
    if given < 8 then some (front ++ List.replicate (8 - given) 0 ++ back) else none
  | _ => none

/-- The length of the run of zeros at the start. -/
def zeros (gs : List Nat) : Nat := (gs.takeWhile (· = 0)).length

/-- The first of the longest runs of zeros: its place and length. -/
def longestZeros : Nat → List Nat → Nat × Nat
  | _, [] => (0, 0)
  | i, g :: gs =>
    let rest := longestZeros (i + 1) gs
    if rest.2 ≤ zeros (g :: gs) then (i, zeros (g :: gs)) else rest

/-- Groups in hexadecimal digits with colons between them. -/
def colons (gs : List Nat) : List Char :=
  ((gs.map Text.hexDigits).intersperse [':']).flatten

/-- The shortest form of an IPv6 address. -/
def ipv6Chars (gs : List Nat) : List Char :=
  let (i, n) := longestZeros 0 gs
  if n < 2 then colons gs else colons (gs.take i) ++ ':' :: ':' :: colons (gs.drop (i + n))

/-- The address that a text spells. -/
def ofString? (text : String) : Option IpAddress :=
  ((ipv4? text.toList).map v4).or ((ipv6? text.toList).map v6)

/-- The text of an address and a TCP port. The last groups of an address that stands for one of
version 4 are written as such. -/
def withPort (a : IpAddress) (tcpPort : Nat) : String :=
  let host := match a with
    | v4 n => dotted n
    | v6 [0, 0, 0, 0, 0, 0xFFFF, a, b] =>
      "[::ffff:".toList ++ (dotted (65536 * a + b) ++ [']'])
    | v6 gs => '[' :: (ipv6Chars gs ++ [']'])
  String.ofList (host ++ ':' :: Text.digits tcpPort)

end IpAddress

end LedgerFront
