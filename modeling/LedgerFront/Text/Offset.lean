import LedgerFront.Text.Utf8

/-!
# Places in a text

A place in a text is named by the number of bytes in front of it. Some numbers
name no place: those behind the end, and those between two bytes of one
character. A slice from or to such a number is refused.

* `Utf8.find?`: the first place at which a word stands.
* `Utf8.slice`: the characters between two places.
-/

namespace LedgerFront.Text.Utf8

/-- How many bytes a text has. -/
def size (s : List Char) : Nat := (encode s).length

/-- The byte goes on with a character that an earlier one has started. -/
def isContinuation (b : UInt8) : Bool := 0x80 ≤ b.toNat && b.toNat < 0xC0

/-- A character starts here, or the text ends. -/
def isBoundary (bytes : List UInt8) (i : Nat) : Bool :=
  match bytes[i]? with
  | some b => !isContinuation b
  | none => i == bytes.length

/-- A slice that was asked for and cannot be taken. -/
structure BadSlice where
  start : Nat
  stop : Nat
deriving DecidableEq, Repr

/-- The characters between two places, the second one not before the first. -/
def slice (s : List Char) (start stop : Nat) : Except BadSlice (List Char) :=
  if start ≤ stop ∧ isBoundary (encode s) start ∧ isBoundary (encode s) stop then
    match decode? (((encode s).take stop).drop start) with
    | some piece => .ok piece
    | none => .error ⟨start, stop⟩
  else .error ⟨start, stop⟩

/-- How many bytes there are in front of the first place at which `word` stands. -/
def indexOf? (word : List UInt8) : List UInt8 → Option Nat
  | [] => if word.isEmpty then some 0 else none
  | b :: bytes =>
    if word.isPrefixOf (b :: bytes) then some 0 else (indexOf? word bytes).map (· + 1)

/-- The first place at which a word stands in a text. -/
def find? (word s : List Char) : Option Nat := indexOf? (encode word) (encode s)

theorem le_length_of_isBoundary {bytes : List UInt8} {i : Nat} (h : isBoundary bytes i = true) :
    i ≤ bytes.length := by
  unfold isBoundary at h
  split at h
  · rename_i hb
    exact Nat.le_of_lt (List.getElem?_eq_some_iff.1 hb).1
  · exact Nat.le_of_eq (eq_of_beq h)

/-- The ends of a slice lie in the text, in order. -/
theorem bounds_of_slice {s piece : List Char} {start stop : Nat} (h : slice s start stop = .ok piece) :
    start ≤ stop ∧ stop ≤ size s := by
  unfold slice at h
  split at h
  · rename_i hb
    exact ⟨hb.1, le_length_of_isBoundary hb.2.2⟩
  · cases h

end LedgerFront.Text.Utf8
