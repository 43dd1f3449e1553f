import LedgerFront.Text.Blank

/-!
# Quoted text

A text between double quotes as it appears in diagnostics: quotes, backslashes
and control characters are escaped, also the characters that print as nothing.
-/

namespace LedgerFront.Text

/-- The lower-case hexadecimal digits of a number. -/
def hexDigits (n : Nat) : List Char :=
  let d (k : Nat) : Char := if k < 10 then Char.ofNat (48 + k) else Char.ofNat (87 + k)
  if n < 16 then [d n] else hexDigits (n / 16) ++ [d (n % 16)]
termination_by n
decreasing_by omega

/-- Characters that have no form of their own: controls, blanks other than the space, format
characters, surrogates, private use and the most common combining marks. -/
def isUnprintable (c : Char) : Bool :=
  let n := c.toNat
  n < 0x20 || (0x7F ≤ n && n < 0xA0) || n == 0xAD || (isBlank c && n != 0x20) ||
    (0x300 ≤ n && n ≤ 0x36F) || (0x600 ≤ n && n ≤ 0x605) || n == 0x61C || n == 0x6DD ||
    n == 0x70F || n == 0x180E || (0x200B ≤ n && n ≤ 0x200F) || (0x202A ≤ n && n ≤ 0x202E) ||
    (0x2060 ≤ n && n ≤ 0x206F) || (0x20D0 ≤ n && n ≤ 0x20F0) || (0xE000 ≤ n && n ≤ 0xF8FF) ||
    (0xFE00 ≤ n && n ≤ 0xFE0F) || n == 0xFEFF || (0xFFF0 ≤ n && n ≤ 0xFFFB) ||
    (0xFFFE ≤ n && n ≤ 0xFFFF) || (0xE0000 ≤ n)

/-- One character between double quotes. -/
def quoteChar (c : Char) : List Char :=
  if c = '"' then ['\\', '"']
  else if c = '\\' then ['\\', '\\']
  else if c = '\n' then ['\\', 'n']
  else if c = '\r' then ['\\', 'r']
  else if c = '\t' then ['\\', 't']
  else if c.toNat = 0 then ['\\', '0']
  else if isUnprintable c then
    '\\' :: 'u' :: Char.ofNat 123 :: (hexDigits c.toNat ++ [Char.ofNat 125])
  else [c]

/-- A text in double quotes. -/
def quoted (s : String) : String := String.ofList ('"' :: (s.toList.flatMap quoteChar ++ ['"']))

end LedgerFront.Text
