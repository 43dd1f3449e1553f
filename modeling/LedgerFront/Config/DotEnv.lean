import LedgerFront.Config.Load
import LedgerFront.Text.Utf8

/-!
# Files with environment variables

A line `NAME=value` sets a variable, unless it is set already. Values may be
quoted and then span lines; outside single quotes a backslash escapes and a
dollar sign puts in the value of a variable. A bad line ends the file.

* `DotEnv.load`: an environment with the variables of a document.
-/

namespace LedgerFront.DotEnv

/-- A line that cannot be read, and where in it that shows. -/
structure LineProblem where
  line : List Char
  index : Nat
deriving DecidableEq, Repr

/-- The text of the problem. -/
def LineProblem.message (p : LineProblem) : String :=
  "Error parsing line: '" ++ String.ofList p.line ++ "', error at line index: " ++
    Text.natText p.index

/-- The length of a text in bytes. -/
def byteLength (s : List Char) : Nat := (Text.Utf8.encode s).length

/-- The lines of a text, with their line breaks. -/
def physicalLines : List Char → List (List Char)
  | [] => []
  | c :: s => if c = '\n' then [c] :: physicalLines s else Text.pushHead c (physicalLines s)

/-- What is open at a place of a line. -/
inductive Scan where
  | complete
  | blank
  | escape
  | weak
  | weakEscape
  | strong
  | strongEscape
deriving DecidableEq, Repr

/-- What is open after a character outside quotes. -/
def Scan.start (c : Char) : Scan :=
  if c = '\\' then escape else if c = '"' then weak else if c = '\'' then strong else complete

/-- What is open after one more character. -/
def Scan.next (c : Char) : Scan → Scan
  | complete => if Text.isBlank c && c != '\n' && c != '\r' then blank else start c
  | blank => start c
  | escape => complete
  | weak => if c = '\\' then weakEscape else if c = '"' then complete else weak
  | weakEscape => weak
  | strong => if c = '\\' then strongEscape else if c = '\'' then complete else strong
  | strongEscape => strong

/-- The part of a line in front of a comment, and what is open at its end if no comment follows. -/
def Scan.line : Scan → List Char → List Char × Option Scan
  | s, [] => ([], some s)
  | s, c :: r =>
    if s = blank ∧ c = '#' then ([], none)
    else
      let rest := line (s.next c) r
      (c :: rest.1, rest.2)

/-- A line without its line break. -/
def withoutBreak (s : List Char) : List Char :=
  match s.reverse with
  | '\n' :: '\r' :: r => r.reverse
  | '\n' :: r => r.reverse
  | _ => s

/-- The lines after `opened`, joined where something is open at the end of a line; the last one may
have no end. -/
def logicalLines (opened : List Char) (s : Scan) :
    List (List Char) → List (Except LineProblem (List Char))
  | [] => if s = .complete then [] else [.error ⟨opened, byteLength opened⟩]
  | l :: ls =>
    let whole := opened ++ l
    if (Text.trimStart whole).head? = some '#' then .ok [] :: logicalLines [] .complete ls
    else
      match s.line l with
      | (front, none) => .ok (opened ++ front) :: logicalLines [] .complete ls
      | (_, some .complete) => .ok (withoutBreak whole) :: logicalLines [] .complete ls
      | (_, some s) => logicalLines whole s ls

/-- A variable named in a value: with or without braces, and the name so far. -/
structure Reference where
  braced : Bool
  name : List Char
deriving DecidableEq, Repr

/-- The quotes around a part of a value. -/
inductive Quote where
  | none
  | weak
  | strong
deriving DecidableEq, Repr

/-- What was read of a value. -/
structure ValueState where
  output : List Char
  quote : Quote
  escaped : Bool
  ended : Bool
  reference : Option Reference
deriving DecidableEq, Repr

namespace ValueState

/-- Nothing is read yet. -/
def empty : ValueState := ⟨[], .none, false, false, none⟩

/-- The state with more output. -/
def push (s : ValueState) (more : List Char) : ValueState := { s with output := s.output ++ more }

/-- The state behind a reference. -/
def resolve (env : Environment) (s : ValueState) : ValueState :=
  match s.reference with
  | some r =>
    { s with reference := none }.push ((env.lookup (String.ofList r.name)).getD "").toList
  | none => s

/-- A character inside a reference. -/
def inReference (env : Environment) (s : ValueState) (r : Reference) (c : Char) : ValueState :=
  if c.isAlphanum then { s with reference := some { r with name := r.name ++ [c] } }
  else if r.braced then
    if c.toNat = 125 then s.resolve env
    else { s with reference := some { r with name := r.name ++ [c] } }
  else if c.toNat = 123 ∧ r.name = [] then { s with reference := some { r with braced := true } }
  else if c = '$' then { s.resolve env with reference := some ⟨false, []⟩ }
  else (s.resolve env).push [c]

/-- A character outside quotes, escapes and references. -/
def bare (s : ValueState) (c : Char) : ValueState :=
  if c = '\'' then { s with quote := .strong }
  else if c = '"' then { s with quote := .weak }
  else if c = '\\' then { s with escaped := true }
  else if c = ' ' ∨ c = '\t' then { s with ended := true }
  else s.push [c]

/-- A character inside double quotes. -/
def inWeak (s : ValueState) (c : Char) : ValueState :=
  if c = '"' then { s with quote := .none }
  else if c = '\\' then { s with escaped := true }
  else s.push [c]

/-- A character behind a backslash; few can be escaped. -/
def inEscape? (s : ValueState) (c : Char) : Option ValueState :=
  let s := { s with escaped := false }
  if ['\\', '\'', '"', '$', ' '].contains c then some (s.push [c])
  else if c = 'n' then some (s.push ['\n'])
  else none

/-- One more character; `none` if it cannot stand here. -/
def next? (env : Environment) (s : ValueState) (c : Char) : Option ValueState :=
  if s.ended then if c = ' ' ∨ c = '\t' then some s else none
  else if s.escaped then s.inEscape? c
  else if s.quote = .strong then
    some (if c = '\'' then { s with quote := .none } else s.push [c])
  else
    match s.reference with
    | some r => some (s.inReference env r c)
    | none =>
      if c = '$' then some { s with reference := some ⟨false, []⟩ }
      else some (if s.quote = .weak then s.inWeak c else s.bare c)

/-- Something has a beginning and no end. -/
def isOpen (s : ValueState) : Bool :=
  s.quote != .none || (s.reference.map Reference.braced).getD false

end ValueState

/-- The value in the rest of a line, of which `n` characters are read; a comment ends it. -/
def valueFrom (env : Environment) (text : List Char) :
    Nat → ValueState → List Char → Except LineProblem String
  | n, s, c :: r =>
    if s.ended ∧ c = '#' then .ok (String.ofList s.output)
    else
      match s.next? env c with
      | some s => valueFrom env text (n + 1) s r
      | none => .error ⟨text, n⟩
  | _, s, [] =>
    if s.isOpen then .error ⟨text, byteLength text - 1⟩
    else .ok (String.ofList (s.resolve env).output)

/-- The value that a text denotes. -/
def value (env : Environment) (text : List Char) : Except LineProblem String :=
  valueFrom env text 0 .empty text

/-- A character that starts a name. -/
def isNameStart (c : Char) : Bool := c.isAlpha || c == '_'

/-- A character of a name. -/
def isNameChar (c : Char) : Bool := c.isAlphanum || c == '_' || c == '.'

/-- The name at the start of a text, and what follows it and blanks. -/
def name? (s : List Char) : Option (List Char × List Char) :=
  if (s.head?.map isNameStart).getD false then
    some (s.takeWhile isNameChar, Text.trimStart (s.dropWhile isNameChar))
  else none

/-- What follows an equals sign and blanks. -/
def equals? : List Char → Option (List Char)
  | '=' :: r => some (Text.trimStart r)
  | _ => none

/-- The name in front of an equals sign and what follows; the word `export` may stand in front. The
other outcome is what cannot be read. -/
def assignment (s : List Char) : Except (List Char) (List Char × List Char) :=
  match name? s with
  | none => .error s
  | some (name, rest) =>
    match equals? rest with
    | some text => .ok (name, text)
    | none =>
      if name = "export".toList then
        match name? rest with
        | none => .error rest
        | some (name, rest) =>
          match equals? rest with
          | some text => .ok (name, text)
          | none => .error rest
      else .error rest

/-- The variable that a line sets, if it is not empty. -/
def setting? (env : Environment) (line : List Char) :
    Except LineProblem (Option (String × String)) :=
  let s := Text.trimStart (Text.trimEnd line)
  if s.isEmpty ∨ s.head? = some '#' then .ok none
  else
    match assignment s with
    | .error rest => .error ⟨line, byteLength (Text.trimEnd line) - byteLength rest⟩
    | .ok (name, text) =>
      if text.isEmpty ∨ text.head? = some '#' then .ok (some (String.ofList name, ""))
      else (value env text).map fun v => some (String.ofList name, v)

/-- An environment with a variable, unless it has it already. -/
def set (env : Environment) (v : String × String) : Environment :=
  if (env.lookup v.1).isSome then env else env ++ [v]

/-- An environment with the variables of lines, up to the first bad one. -/
def loadLines (env : Environment) :
    List (Except LineProblem (List Char)) → Environment × Option LineProblem
  | [] => (env, none)
  | .error p :: _ => (env, some p)
  | .ok l :: ls =>
    match setting? env l with
    | .error p => (env, some p)
    | .ok none => loadLines env ls
    | .ok (some v) => loadLines (set env v) ls

/-- An environment with the variables of a document, and the line where its reading ended early. -/
def load (document : String) (env : Environment) : Environment × Option LineProblem :=
  let s := match document.toList with
    | c :: r => if c.toNat = 0xFEFF then r else c :: r
    | [] => []
  loadLines env (logicalLines [] .complete (physicalLines s))

end LedgerFront.DotEnv
