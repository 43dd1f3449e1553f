/-!
# UTF-8

Texts as bytes and back. `decode?` accepts exactly well-formed UTF-8;
`decodeLossy` puts U+FFFD in the place of each longest broken start of a
character.
-/

namespace LedgerFront.Text.Utf8

/-- The bytes of one character. -/
def encodeChar (c : Char) : List UInt8 :=
  let n := c.toNat
  if n < 0x80 then [n.toUInt8]
  else if n < 0x800 then [(0xC0 + n / 64).toUInt8, (0x80 + n % 64).toUInt8]
  else if n < 0x10000 then
    [(0xE0 + n / 4096).toUInt8, (0x80 + n / 64 % 64).toUInt8, (0x80 + n % 64).toUInt8]
  else
    [(0xF0 + n / 262144).toUInt8, (0x80 + n / 4096 % 64).toUInt8, (0x80 + n / 64 % 64).toUInt8,
      (0x80 + n % 64).toUInt8]

/-- The bytes of a text. -/
def encode (s : List Char) : List UInt8 := s.flatMap encodeChar

/-- What the first byte of a longer sequence says: its own bits, the range of the second byte, and
how many bytes follow that one. -/
structure Lead where
  bits : Nat
  low : Nat
  high : Nat
  more : Nat

/-- The ranges leave out overlong forms, surrogates and everything above U+10FFFF. -/
def Lead.of? (b : Nat) : Option Lead :=
  if 0xC2 ≤ b ∧ b ≤ 0xDF then some ⟨b - 0xC0, 0x80, 0xBF, 0⟩
  else if b = 0xE0 then some ⟨0, 0xA0, 0xBF, 1⟩
  else if b = 0xED then some ⟨0xD, 0x80, 0x9F, 1⟩
  else if 0xE1 ≤ b ∧ b ≤ 0xEF then some ⟨b - 0xE0, 0x80, 0xBF, 1⟩
  else if b = 0xF0 then some ⟨0, 0x90, 0xBF, 2⟩
  else if 0xF1 ≤ b ∧ b ≤ 0xF3 then some ⟨b - 0xF0, 0x80, 0xBF, 2⟩
  else if b = 0xF4 then some ⟨4, 0x80, 0x8F, 2⟩
  else none

/-- Reads the `more` last bytes of a sequence whose bits so far are `v`. -/
def tail : (more v : Nat) → List UInt8 → Option Char × List UInt8
  | 0, v, r => (some (Char.ofNat v), r)
  | _ + 1, _, [] => (none, [])
  | k + 1, v, c :: r =>
    if 0x80 ≤ c.toNat ∧ c.toNat ≤ 0xBF then tail k (64 * v + (c.toNat - 0x80)) r else (none, c :: r)

/-- Reads one character, or `none` and the longest broken start of one. -/
def next (b : UInt8) (r : List UInt8) : Option Char × List UInt8 :=
  if b.toNat < 0x80 then (some (Char.ofNat b.toNat), r)
  else match Lead.of? b.toNat, r with
    | some l, c :: t =>
      if l.low ≤ c.toNat ∧ c.toNat ≤ l.high then tail l.more (64 * l.bits + (c.toNat - 0x80)) t
      else (none, c :: t)
    | _, r => (none, r)

theorem length_tail_le (k v : Nat) (r : List UInt8) : (tail k v r).2.length ≤ r.length := by
  fun_induction tail k v r with
  | case1 => simp
  | case2 => simp
  | case3 k v c r h ih =>
    simp only [List.length_cons]
    omega
  | case4 => simp

theorem length_next_le (b : UInt8) (r : List UInt8) : (next b r).2.length ≤ r.length := by
  unfold next
  split
  · simp
  · split
    · rename_i l c t _
      have := length_tail_le l.more (64 * l.bits + (c.toNat - 0x80)) t
      split
      · simp only [List.length_cons]; omega
      · simp
    · simp

/-- The characters of the bytes, with `none` for each broken start. -/
def decodeAll : List UInt8 → List (Option Char)
  | [] => []
  | b :: r => (next b r).1 :: decodeAll (next b r).2
termination_by s => s.length
decreasing_by have := length_next_le b r; simp only [List.length_cons]; omega

/-- The text of well-formed bytes. -/
def decode? (s : List UInt8) : Option (List Char) := (decodeAll s).mapM id

/-- The text of any bytes, with U+FFFD for each broken start. -/
def decodeLossy (s : List UInt8) : List Char := (decodeAll s).map (·.getD (Char.ofNat 0xFFFD))

/-- The bytes of a text. -/
def ofString (s : String) : List UInt8 := encode s.toList

/-- The text of well-formed bytes. -/
def toString? (s : List UInt8) : Option String := (decode? s).map String.ofList

/-- The text of any bytes, with U+FFFD for each broken start. -/
def toStringLossy (s : List UInt8) : String := String.ofList (decodeLossy s)

end LedgerFront.Text.Utf8
