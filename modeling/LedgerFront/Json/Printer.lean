import LedgerFront.Json.Basic

/-!
# JSON text

The compact form of a value: no blanks, members by ascending key, and strings
escaped only where the format demands it.
-/

namespace LedgerFront.Json

/-- A lower-case hexadecimal digit. -/
def hexChar (n : Nat) : Char := if n < 10 then Char.ofNat (48 + n) else Char.ofNat (87 + n)

/-- One character inside quotes. -/
def escape (c : Char) : List Char :=
  if c = '"' then ['\\', '"']
  else if c = '\\' then ['\\', '\\']
  else if c = '\n' then ['\\', 'n']
  else if c = '\r' then ['\\', 'r']
  else if c = '\t' then ['\\', 't']
  else if c.toNat = 8 then ['\\', 'b']
  else if c.toNat = 12 then ['\\', 'f']
  else if c.toNat < 32 then
    ['\\', 'u', '0', '0', hexChar (c.toNat / 16), hexChar (c.toNat % 16)]
  else [c]

/-- A text in quotes. -/
def quote (s : String) : List Char := '"' :: (s.toList.flatMap escape ++ ['"'])

mutual

/-- The text of a value, in front of `rest`. -/
def chars : Json → List Char → List Char
  | null, rest => 'n' :: 'u' :: 'l' :: 'l' :: rest
  | bool true, rest => 't' :: 'r' :: 'u' :: 'e' :: rest
  | bool false, rest => 'f' :: 'a' :: 'l' :: 's' :: 'e' :: rest
  | num n, rest => n.text.toList ++ rest
  | str s, rest => quote s ++ rest
  | arr a, rest => '[' :: charsItems true a (']' :: rest)
  | obj m, rest => Char.ofNat 123 :: charsMembers true m (Char.ofNat 125 :: rest)

/-- The items with commas between them. -/
def charsItems : (first : Bool) → List Json → List Char → List Char
  | _, [], rest => rest
  | true, x :: a, rest => chars x (charsItems false a rest)
  | false, x :: a, rest => ',' :: chars x (charsItems false a rest)

/-- The members with commas between them. -/
def charsMembers : (first : Bool) → List (String × Json) → List Char → List Char
  | _, [], rest => rest
  | true, (k, x) :: m, rest => quote k ++ ':' :: chars x (charsMembers false m rest)
  | false, (k, x) :: m, rest => ',' :: (quote k ++ ':' :: chars x (charsMembers false m rest))

end

/-- The text of a value. -/
def text (j : Json) : String := String.ofList (j.chars [])

end LedgerFront.Json
