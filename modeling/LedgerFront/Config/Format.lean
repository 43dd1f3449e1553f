import LedgerFront.Json.Decode
import LedgerFront.Literal
import LedgerFront.Number.Shortest
import LedgerFront.Toml.Basic

/-!
# Formats of a configuration

A configuration is read from JSON, strictly, or from settings of a file and of
environment variables, where texts, numbers and truth values stand in for each
other. A format says how the parts of a record are read from a value.
-/

namespace LedgerFront

/-- How parts of a record are read from values of one kind. -/
structure Format (V : Type) where
  fields? : List String → V → Option (Fields V)
  items? : V → Option (List V)
  text? : V → Option String
  optionalText? : V → Option (Option String)
  choice? : V → Option String
  nat? : (bound : Nat) → V → Option Nat
  int32? : V → Option Int

namespace Format

/-- JSON values, each of exactly the type that is asked for. -/
def json : Format Json where
  fields? := Json.fields?
  items? := Json.items?
  text? := Json.str?
  optionalText? := Json.nullable Json.str?
  choice? := Json.choice? Json.isNull
  nat? := Json.natBelow?
  int32? := Json.int32?

end Format

namespace Toml

/-- A float as a text. -/
def floatText : TomlFloat → String
  | .finite x => x.plainText
  | .infinite negative => if negative then "-inf" else "inf"
  | .nan => "NaN"

/-- The integer that a float stands for, cut to a range. -/
def floatInt (low high : Int) : TomlFloat → Int
  | .finite x => max low (min high x.rounded)
  | .infinite negative => if negative then low else high
  | .nan => 0

/-- A truth value as a number. -/
def boolInt (b : Bool) : Int := if b then 1 else 0

/-- The number from `low` to `high` that a setting stands for. -/
def settingInt? (low high : Int) : Toml → Option Int
  | .int i => if low ≤ i ∧ i ≤ high then some i else none
  | .float x => some (floatInt low high x)
  | .bool b => some (boolInt b)
  | .str s | .time s =>
    match Text.lower s with
    | "true" | "on" | "yes" => some 1
    | "false" | "off" | "no" => some 0
    | _ =>
      (if 0 ≤ low then (Text.nat? s.toList).map Int.ofNat else Text.int? s.toList).filter fun i =>
        low ≤ i && i ≤ high
  | .arr _ | .table _ => none

/-- The text that a setting stands for. -/
def settingText? : Toml → Option String
  | .str s | .time s => some s
  | .int i => some (Text.intText i)
  | .float x => some (floatText x)
  | .bool b => some (Literal.boolText b)
  | .arr _ | .table _ => none

/-- The name that a setting chooses. -/
def settingChoice? : Toml → Option String
  | .str s | .time s => some s
  | .table [(k, _)] => some k
  | _ => none

/-- The fields of a record of settings. -/
def settingFields? (names : List String) : Toml → Option (Fields Toml)
  | .table entries => some entries
  | .arr items => some (names.zip items)
  | _ => none

end Toml

/-- Settings of a file or of environment variables. -/
def Format.settings : Format Toml where
  fields? := Toml.settingFields?
  items? v := match v with
    | .arr items => some items
    | _ => none
  text? := Toml.settingText?
  optionalText? v := (Toml.settingText? v).map some
  choice? := Toml.settingChoice?
  nat? bound v := ((Toml.settingInt? 0 (UInt64.size - 1) v).filter (· < (bound : Int))).map Int.toNat
  int32? v := (Toml.settingInt? (-0x8000000000000000) 0x7fffffffffffffff v).filter fun i =>
    -0x80000000 ≤ i && i < 0x80000000

end LedgerFront
