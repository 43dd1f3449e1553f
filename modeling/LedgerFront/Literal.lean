import LedgerFront.Abort
import LedgerFront.Calendar.DateTime
import LedgerFront.Json.Basic
import LedgerFront.Number.Reading
import LedgerFront.Text.Blank
import LedgerFront.Text.Letter

/-!
# Literals and their normal forms

Each property has a value type. A literal of the type has one normal form, a
text, and so has a JSON value that fits the type; a row matches a filter exactly
when the two texts are equal.

* `ValueType.normalize`: the normal form of a literal.
* `ValueType.normalizeJson`: the normal form of a JSON value.
-/

namespace LedgerFront

/-- The type of a property, as far as filtering is concerned. -/
inductive ValueType where
  | string
  | integer
  | decimal
  | boolean
  | date
  | dateTime
  | enum
deriving DecidableEq, Repr

namespace ValueType

/-- The name of the type in configuration, messages and encoded predicates. -/
def name : ValueType → String
  | string => "string"
  | integer => "integer"
  | decimal => "decimal"
  | boolean => "boolean"
  | date => "date"
  | dateTime => "datetime"
  | enum => "enum"

/-- All value types. -/
def all : List ValueType := [string, integer, decimal, boolean, date, dateTime, enum]

/-- The type with exactly this name. -/
def ofName? (s : String) : Option ValueType := all.find? (·.name == s)

/-- The type that a configuration name stands for, in any ASCII letter case. -/
def parse? (s : String) : Option ValueType :=
  match Text.lower s with
  | "string" => some string
  | "integer" | "int" | "long" => some integer
  | "decimal" | "double" | "number" => some decimal
  | "boolean" | "bool" => some boolean
  | "date" => some date
  | "datetime" => some dateTime
  | "enum" => some enum
  | _ => none

/-- Literals of the type stand unquoted in a filter expression. -/
def isBare : ValueType → Bool
  | integer | decimal | boolean => true
  | _ => false

/-- Literals of the type are texts and keep every character. -/
def isText : ValueType → Bool
  | string | enum => true
  | _ => false

end ValueType

namespace Literal

/-- The date and time that a literal denotes: an instant, moved to UTC, or a local time, or the
midnight that starts a day. -/
def dateTime? (s : List Char) : Run (Option DateTime) :=
  match OffsetDateTime.ofChars? s with
  | some t =>
    match t.toUtc? with
    | some utc => .ok (some utc)
    | none => .error .outsideCalendar
  | none => .ok ((DateTime.ofChars? s).or ((Date.ofChars? s).map DateTime.midnight))

/-- The date that a literal denotes: a day, or the day of a date and time. -/
def date? (s : List Char) : Run (Option Date) :=
  match Date.ofChars? s with
  | some d => .ok (some d)
  | none => (dateTime? s).map (·.map (·.date))

/-- The truth value that a literal denotes. -/
def boolean? (s : String) : Option Bool :=
  match Text.lower s with
  | "true" | "1" => some true
  | "false" | "0" => some false
  | _ => none

/-- The text of a truth value. -/
def boolText (b : Bool) : String := if b then "true" else "false"

end Literal

namespace ValueType

open Literal

/-- The normal form of a literal, or `none` if it is no literal of the type. -/
def normalize (t : ValueType) (raw : String) : Run (Option String) :=
  let s := Text.trimChars raw.toList
  match t with
  | string | enum => .ok (some raw)
  | integer => .ok ((Text.int64? s).map Text.intText)
  | decimal => .ok ((Binary64.ofChars? s).map Binary64.plainText)
  | boolean => .ok ((boolean? (String.ofList s)).map boolText)
  | date => (date? s).map (·.map fun d => String.ofList d.chars)
  | dateTime => (dateTime? s).map (·.map fun d => String.ofList d.chars)

/-- The normal form of a number. -/
def normalizeNumber (t : ValueType) (n : JsonNumber) : Option String :=
  match t with
  | string | enum => some n.text
  | integer =>
    match n.int64? with
    | some i => some (Text.intText i)
    | none => (n.binary64?.filter (·.isIntegral)).map Binary64.plainText
  | decimal => n.binary64?.map Binary64.plainText
  | boolean =>
    match n.int64? with
    | some 0 => some "false"
    | some 1 => some "true"
    | _ => none
  | date | dateTime => none

/-- The normal form of a JSON value; nulls, containers and values that do not fit have none. -/
def normalizeJson (t : ValueType) : Json → Run (Option String)
  | .str s => if t.isText then .ok (some s) else t.normalize s
  | .num n => .ok (t.normalizeNumber n)
  | .bool b => .ok (if t = boolean ∨ t = string then some (boolText b) else none)
  | .null | .arr _ | .obj _ => .ok none

/-- The message for a text that is no literal of the type. -/
def invalidMessage (t : ValueType) (raw : String) : String :=
  "Invalid " ++ t.name ++ " value: '" ++ raw ++ "'"

end ValueType

end LedgerFront
