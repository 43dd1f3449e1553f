import LedgerFront.Json.Basic
import LedgerFront.Text.Cut
import LedgerFront.Text.Digits

/-!
# JSON pointers

A pointer names a place inside a value by a list of tokens, each a key or an
index. In its text every token follows a slash, with `~0` for a tilde and `~1`
for a slash.

* `Pointer.parse?`, `Pointer.text`: the text form.
* `Pointer.get?`, `Pointer.update?`: the value at a place, read and changed.
-/

namespace LedgerFront

/-- The tokens on the way to a place. -/
abbrev Pointer := List String

namespace Pointer

/-- One token without its escapes. -/
def unescape? : List Char → Option (List Char)
  | [] => some []
  | '~' :: '0' :: r => (unescape? r).map ('~' :: ·)
  | '~' :: '1' :: r => (unescape? r).map ('/' :: ·)
  | c :: r => if c = '~' then none else (unescape? r).map (c :: ·)

/-- One token with its escapes. -/
def escape : List Char → List Char
  | [] => []
  | c :: r =>
    if c = '~' then '~' :: '0' :: escape r
    else if c = '/' then '~' :: '1' :: escape r
    else c :: escape r

/-- The pointer that a text spells. -/
def parse? (text : String) : Option Pointer :=
  match text.toList with
  | [] => some []
  | '/' :: r =>
    (Text.cutAt (· == ·) ['/'] r).mapM fun token => (unescape? token).map String.ofList
  | _ => none

/-- The text of a pointer. -/
def text (p : Pointer) : String :=
  String.join (p.map fun token => "/" ++ String.ofList (escape token.toList))

/-- The index below `length` that a token spells, in decimal digits without zeros in front. -/
def index? (token : String) (length : Nat) : Option Nat :=
  let s := token.toList
  if s.isEmpty ∨ !s.all Text.isDigit ∨ (s.head? = some '0' ∧ 1 < s.length) then none
  else
    let n := Text.digitsValue s
    if n < length then some n else none

/-- The value at a place. -/
def get? : Pointer → Json → Option Json
  | [], j => some j
  | token :: rest, .obj m => (Members.find? token m).bind (get? rest)
  | token :: rest, .arr a => ((index? token a.length).bind (a[·]?)).bind (get? rest)
  | _ :: _, _ => none

/-- The whole value with the one at a place changed. -/
def update? (change : Json → Option Json) : Pointer → Json → Option Json
  | [], j => change j
  | token :: rest, .obj m => do
    let v ← Members.find? token m
    let v ← update? change rest v
    pure (.obj (Members.insert token v m))
  | token :: rest, .arr a => do
    let i ← index? token a.length
    let v ← a[i]?
    let v ← update? change rest v
    pure (.arr (a.set i v))
  | _ :: _, _ => none

/-- The place above and the last token. -/
def split? (p : Pointer) : Option (Pointer × String) :=
  p.getLast?.map fun last => (p.dropLast, last)

/-- The place lies inside another one. -/
def isInside (p outer : Pointer) : Bool := outer.length < p.length && outer.isPrefixOf p

end Pointer

end LedgerFront
