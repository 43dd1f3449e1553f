import LedgerFront.Calendar.DateTime
import LedgerFront.Number.Reading
import LedgerFront.Toml.Basic

/-!
# Reading TOML

`Toml.parse?` reads a whole document and gives its root table. Each reader takes
the start of a text and returns what follows; lists of items go on only while the
text gets shorter. Arrays and inline tables may stand inside each other 80 deep.
-/

namespace LedgerFront.Toml

/-- The start of a text and what follows it. -/
abbrev Reader (α : Type) := List Char → Option (α × List Char)

/-- A blank inside a line. -/
def isSpace (c : Char) : Bool := c = ' ' || c = '\t'

/-- A character that comments and strings may hold. -/
def isPlain (c : Char) : Bool := c = '\t' || (32 ≤ c.toNat && c.toNat != 127)

/-- The text without blanks at its start. -/
def skipSpace (s : List Char) : List Char := s.dropWhile isSpace

/-- The text without blanks and line breaks at its start. -/
def skipBlank (s : List Char) : List Char :=
  s.dropWhile fun c => isSpace c || c = '\n' || c = '\r'

/-- The text behind a comment, if one starts here. -/
def skipComment (s : List Char) : List Char :=
  match s with
  | '#' :: r => r.dropWhile isPlain
  | r => r

/-- What follows a line break. -/
def newline? : List Char → Option (List Char)
  | '\n' :: r => some r
  | '\r' :: '\n' :: r => some r
  | _ => none

/-- The text without blanks, comments and line breaks at its start. -/
def skipLines (s : List Char) : List Char :=
  let t := skipComment (skipSpace s)
  match newline? t with
  | some r => if r.length < s.length then skipLines r else r
  | none => t
termination_by s.length

/-- A reader repeated with a separator in between, up to a closing mark. `trailing` allows the
separator in front of the mark. -/
def listUntil {α : Type} (item : Reader α) (gap : List Char → List Char) (close : Char)
    (trailing first : Bool) (s : List Char) : Option (List α × List Char) :=
  match gap s with
  | [] => none
  | c :: r =>
    if c = close ∧ (first ∨ trailing) then some ([], r)
    else
      match item (c :: r) with
      | none => none
      | some (x, t) =>
        match gap t with
        | ',' :: u =>
          if u.length < s.length then
            (listUntil item gap close trailing false u).map fun p => (x :: p.1, p.2)
          else none
        | d :: u => if d = close then some ([x], u) else none
        | [] => none
termination_by s.length

/-- The value of hexadecimal digits. -/
def hexValue? (ds : List Char) : Option Nat :=
  ds.foldlM (fun n c =>
    let k := c.toNat
    if 48 ≤ k ∧ k ≤ 57 then some (16 * n + (k - 48))
    else if 65 ≤ k ∧ k ≤ 70 then some (16 * n + (k - 55))
    else if 97 ≤ k ∧ k ≤ 102 then some (16 * n + (k - 87))
    else none) 0

/-- The character with a code point in hexadecimal. -/
def charOfHex? (ds : List Char) : Option Char :=
  (hexValue? ds).bind fun n => if n.isValidChar then some (Char.ofNat n) else none

/-- The character behind a backslash, and what follows. -/
def escape? : Reader Char
  | 'b' :: r => some (Char.ofNat 8, r)
  | 't' :: r => some ('\t', r)
  | 'n' :: r => some ('\n', r)
  | 'f' :: r => some (Char.ofNat 12, r)
  | 'r' :: r => some ('\r', r)
  | '"' :: r => some ('"', r)
  | '\\' :: r => some ('\\', r)
  | 'u' :: a :: b :: c :: d :: r => (charOfHex? [a, b, c, d]).map (·, r)
  | 'U' :: a :: b :: c :: d :: e :: f :: g :: h :: r =>
    (charOfHex? [a, b, c, d, e, f, g, h]).map (·, r)
  | _ => none

/-- The rest of a string between double quotes. -/
def basicBody : Reader (List Char)
  | [] => none
  | '"' :: r => some ([], r)
  | '\\' :: r =>
    match escape? r with
    | some (c, t) =>
      if t.length ≤ r.length then (basicBody t).map fun p => (c :: p.1, p.2) else none
    | none => none
  | c :: r => if isPlain c then (basicBody r).map fun p => (c :: p.1, p.2) else none
termination_by s => s.length

/-- The rest of a string between single quotes. -/
def literalBody : Reader (List Char)
  | [] => none
  | '\'' :: r => some ([], r)
  | c :: r => if isPlain c then (literalBody r).map fun p => (c :: p.1, p.2) else none

/-- The rest of a string between triple quotes; `escapes` tells the double quotes from the single
ones. Up to two more quotes may stand in front of the closing ones. -/
def longBody (quote : Char) (escapes : Bool) : Reader (List Char)
  | [] => none
  | c :: r =>
    let quotes := (c :: r).takeWhile (· = quote)
    if c = quote ∧ 3 ≤ quotes.length then
      if 5 < quotes.length then none
      else some (List.replicate (quotes.length - 3) quote, (c :: r).drop quotes.length)
    else if c = '\\' ∧ escapes then
      match newline? (skipSpace r) with
      | some _ =>
        if (skipBlank r).length ≤ r.length then longBody quote escapes (skipBlank r) else none
      | none =>
        match escape? r with
        | some (d, t) =>
          if t.length ≤ r.length then (longBody quote escapes t).map fun p => (d :: p.1, p.2)
          else none
        | none => none
    else
      match newline? (c :: r) with
      | some t =>
        if t.length ≤ r.length then (longBody quote escapes t).map fun p => ('\n' :: p.1, p.2)
        else none
      | none =>
        if isPlain c then (longBody quote escapes r).map fun p => (c :: p.1, p.2) else none
termination_by s => s.length

/-- The text behind a line break that directly follows opening triple quotes. -/
def afterOpening (s : List Char) : List Char := (newline? s).getD s

/-- A string of any of the four kinds. -/
def string? : Reader String
  | '"' :: '"' :: '"' :: r =>
    (longBody '"' true (afterOpening r)).map fun p => (String.ofList p.1, p.2)
  | '\'' :: '\'' :: '\'' :: r =>
    (longBody '\'' false (afterOpening r)).map fun p => (String.ofList p.1, p.2)
  | '"' :: r => (basicBody r).map fun p => (String.ofList p.1, p.2)
  | '\'' :: r => (literalBody r).map fun p => (String.ofList p.1, p.2)
  | _ => none

/-- A character of a key without quotes. -/
def isBareKeyChar (c : Char) : Bool :=
  ('a' ≤ c && c ≤ 'z') || ('A' ≤ c && c ≤ 'Z') || ('0' ≤ c && c ≤ '9') || c = '_' || c = '-'

/-- One part of a key. -/
def simpleKey? : Reader String
  | '"' :: r => (basicBody r).map fun p => (String.ofList p.1, p.2)
  | '\'' :: r => (literalBody r).map fun p => (String.ofList p.1, p.2)
  | s =>
    let name := s.takeWhile isBareKeyChar
    if name = [] then none else some (String.ofList name, s.dropWhile isBareKeyChar)

/-- A key of one or more parts with points between them. -/
def key? (s : List Char) : Option (List String × List Char) :=
  match simpleKey? s with
  | none => none
  | some (k, t) =>
    match skipSpace t with
    | '.' :: r =>
      let r := skipSpace r
      if r.length < s.length then (key? r).map fun p => (k :: p.1, p.2) else none
    | t => some ([k], t)
termination_by s.length

/-- Digits in which single underscores may separate neighbours; the digits without them. -/
def underscored? (isDigit : Char → Bool) : List Char → Option (List Char)
  | [] => none
  | [c] => if isDigit c then some [c] else none
  | c :: '_' :: r => if isDigit c then (underscored? isDigit r).map (c :: ·) else none
  | c :: d :: r => if isDigit c then (underscored? isDigit (d :: r)).map (c :: ·) else none

/-- The number of digits in a base, each below it. -/
def inBase? (base : Nat) (s : List Char) : Option Nat :=
  (underscored? (fun c => (hexValue? [c]).any (· < base)) s).map fun ds =>
    ds.foldl (fun n c => base * n + (hexValue? [c]).getD 0) 0

/-- A whole number without a superfluous zero in front. -/
def decimalDigits? (s : List Char) : Option (List Char) :=
  (underscored? Text.isDigit s).bind fun ds =>
    if ds.length > 1 ∧ ds.head? = some '0' then none else some ds

/-- The float of a lexeme without its sign. -/
def float? (negative : Bool) (s : List Char) : Option TomlFloat :=
  let isMark (c : Char) : Bool := c = 'e' || c = 'E'
  let mantissa := s.takeWhile (!isMark ·)
  let whole := mantissa.takeWhile (· != '.')
  let fraction := mantissa.dropWhile (· != '.')
  let exponent := s.dropWhile (!isMark ·)
  if fraction = [] ∧ exponent = [] then none
  else do
    let whole ← decimalDigits? whole
    let fraction ← match fraction with
      | [] => some []
      | _ :: ds => underscored? Text.isDigit ds
    let power ← match exponent with
      | [] => some (0 : Int)
      | _ :: '-' :: ds => (underscored? Text.isDigit ds).map fun d => -(Text.digitsValue d : Int)
      | _ :: '+' :: ds => (underscored? Text.isDigit ds).map fun d => (Text.digitsValue d : Int)
      | _ :: ds => (underscored? Text.isDigit ds).map fun d => (Text.digitsValue d : Int)
    let digits := Text.digitsValue (whole ++ fraction)
    match Binary64.ofDecimal? negative digits (power - fraction.length) with
    | some x => some (.finite x)
    | none => some (.infinite negative)

/-- The number that a lexeme without its sign denotes. -/
def unsigned? (sign : Option Char) (s : List Char) : Option Toml :=
  let negative := sign = some '-'
  let based (base : Nat) (ds : List Char) : Option Toml :=
    if sign.isSome then none
    else (inBase? base ds).bind fun n => if n < 0x8000000000000000 then some (.int n) else none
  match s with
  | ['i', 'n', 'f'] => some (.float (.infinite negative))
  | ['n', 'a', 'n'] => some (.float .nan)
  | '0' :: 'x' :: ds => based 16 ds
  | '0' :: 'o' :: ds => based 8 ds
  | '0' :: 'b' :: ds => based 2 ds
  | s =>
    match decimalDigits? s with
    | some ds =>
      let i : Int := if negative then -(Text.digitsValue ds : Int) else Text.digitsValue ds
      if -0x8000000000000000 ≤ i ∧ i < 0x8000000000000000 then some (.int i) else none
    | none => (float? negative s).map .float

/-- The number that a lexeme denotes. -/
def number? : List Char → Option Toml
  | '+' :: s => unsigned? (some '+') s
  | '-' :: s => unsigned? (some '-') s
  | s => unsigned? none s

/-- A time of day with its fraction. -/
def clockText? (s : List Char) : Option (List Char × List Char) := do
  let ((hour, minute, second), t) ← DateTime.clock? s
  let (ds, t) := DateTime.fraction t
  let fraction := OffsetDateTime.fractionChars (OffsetDateTime.nanoseconds ds)
  if second ≤ 60 then
    some ((DateTime.mk ⟨0, 1, 1⟩ hour minute second).timeChars ++ fraction, t)
  else none

/-- A date, a time, or both with an optional offset, as a whole lexeme. -/
def time? (s : List Char) : Option Toml :=
  match clockText? s with
  | some (text, []) => some (.time (String.ofList text))
  | some _ => none
  | none => do
    let (year, t) ← Date.plainYear? s
    let (date, t) ← Date.afterYear? year t
    match t with
    | [] => some (.time (String.ofList date.chars))
    | c :: t =>
      if c = 'T' ∨ c = 't' ∨ c = ' ' then do
        let (clock, t) ← clockText? t
        let offset ← match t with
          | [] => some []
          | t => (OffsetDateTime.offset? t).bind fun p =>
            if p.2.isEmpty then some (OffsetDateTime.offsetChars p.1) else none
        some (.time (String.ofList (date.chars ++ 'T' :: (clock ++ offset))))
      else none

/-- A character of a number, a truth value or a time. -/
def isWordChar (c : Char) : Bool := isBareKeyChar c || c = '+' || c = '.' || c = ':'

/-- A value without brackets and quotes; a blank may stand between a date and a time. -/
def word? (s : List Char) : Option (Toml × List Char) :=
  let word := s.takeWhile isWordChar
  let rest := s.dropWhile isWordChar
  match word with
  | ['t', 'r', 'u', 'e'] => some (.bool true, rest)
  | ['f', 'a', 'l', 's', 'e'] => some (.bool false, rest)
  | _ =>
    match rest with
    | ' ' :: d :: r =>
      if word.length = 10 ∧ Text.isDigit d ∧ word[4]? = some '-' then
        (time? (word ++ ' ' :: (d :: r).takeWhile isWordChar)).map (·, r.dropWhile isWordChar)
      else ((time? word).or (number? word)).map (·, rest)
    | _ => ((time? word).or (number? word)).map (·, rest)

/-- A key, the equals sign and a value read by `value`. -/
def pair? (value : Reader Toml) : Reader (List String × Toml) := fun s => do
  let (path, t) ← key? s
  let t ← Text.mark? '=' (skipSpace t)
  let (v, t) ← value (skipSpace t)
  some ((path, v), t)

/-- A value with at most `depth` brackets inside each other. -/
def value? : (depth : Nat) → Reader Toml
  | depth, s =>
    match s with
    | '"' :: _ | '\'' :: _ => (string? s).map fun p => (.str p.1, p.2)
    | '[' :: r =>
      match depth with
      | 0 => none
      | d + 1 => (listUntil (value? d) skipLines ']' true true r).map fun p => (.arr p.1, p.2)
    | c :: r =>
      if c = Char.ofNat 123 then
        match depth with
        | 0 => none
        | d + 1 => do
          let (pairs, t) ← listUntil (pair? (value? d)) skipSpace (Char.ofNat 125) false true r
          let entries ← ofPairs? pairs
          some (.table entries, t)
      else word? s
    | [] => none

/-- The end of a line: blanks, a comment, and a line break or the end of the text. -/
def endOfLine? (s : List Char) : Option (List Char) :=
  match skipComment (skipSpace s) with
  | [] => some []
  | t => newline? t

/-- One statement without the end of its line. -/
def statement? : Reader Statement
  | '[' :: '[' :: r => do
    let (path, t) ← key? (skipSpace r)
    let t ← Text.mark? ']' (skipSpace t)
    let t ← Text.mark? ']' t
    some (.arrayHeader path, t)
  | '[' :: r => do
    let (path, t) ← key? (skipSpace r)
    let t ← Text.mark? ']' (skipSpace t)
    some (.header path, t)
  | s => (pair? (value? 80) s).map fun p => (.pair p.1.1 p.1.2, p.2)

/-- The statements of a document. -/
def statements? (s : List Char) : Option (List Statement) :=
  match skipLines s with
  | [] => some []
  | t =>
    match statement? t with
    | none => none
    | some (x, u) =>
      match endOfLine? u with
      | some r => if r.length < s.length then (statements? r).map (x :: ·) else none
      | none => none
termination_by s.length

/-- The root table of a document. -/
def parse? (text : String) : Option (List (String × Toml)) :=
  let s := match text.toList with
    | c :: r => if c.toNat = 0xFEFF then r else c :: r
    | [] => []
  (statements? s).bind ofStatements?

end LedgerFront.Toml
