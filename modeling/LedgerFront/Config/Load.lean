import LedgerFront.Config.Basic
import LedgerFront.Number.Reading
import LedgerFront.Toml.Parser

/-!
# Loading a configuration

The settings of a file are overlaid with those of environment variables. The
variable `UNIREST__SERVER__PORT` stands for `port` in the section `server`; letter
case does not matter. Its text is read as a truth value or a number if it is one.

* `Config.load`: the configuration in a file and an environment.
-/

namespace LedgerFront

/-- Environment variables and their values. -/
abbrev Environment := List (String × String)

/-- Why a configuration cannot be loaded. -/
inductive ConfigError where
  | malformed
  | undecodable
  | invalid (problem : ConfigProblem)
deriving DecidableEq, Repr

/-- The text of the error. -/
def ConfigError.message : ConfigError → String
  | malformed => "config build error"
  | undecodable => "config deserialize error"
  | invalid problem => problem.message

namespace Toml

/-- The entries of a table; other values have none. -/
def entries : Toml → List (String × Toml)
  | table entries => entries
  | _ => []

mutual

/-- A value laid over another one: tables are merged, anything else replaces what was there. -/
def overlay (old : Toml) : Toml → Toml
  | table new => table (overlayEntries old.entries new)
  | v => v

/-- Entries laid over other ones. -/
def overlayEntries (old : List (String × Toml)) : List (String × Toml) → List (String × Toml)
  | [] => old
  | (k, v) :: r => overlayEntries (Pairs.put k (overlay ((old.lookup k).getD (table [])) v) old) r

end

/-- The tables around a value at the end of a path. -/
def nest : List String → Toml → Toml
  | [], v => v
  | k :: path, v => table [(k, nest path v)]

end Toml

namespace Settings

/-- A character of a plain key. -/
def isKeyChar (c : Char) : Bool := c.isAlphanum || c == '_' || c == '-'

/-- A piece of a path. -/
def isKey (s : String) : Bool := !s.isEmpty && s.toList.all isKeyChar

/-- The path that a key spells with points; any other key stands for itself. -/
def path (key : String) : List String :=
  let keys := Text.pieces "." key
  if keys.all isKey then keys else [key]

/-- Lays the value of a key over settings. -/
def set (settings : Toml) (key : String) (v : Toml) : Toml :=
  settings.overlay (Toml.nest (path key) v)

/-- The float that the text of a variable denotes. -/
def float? (s : List Char) : Option TomlFloat :=
  let (negative, s) := match s with
    | '-' :: r => (true, r)
    | '+' :: r => (false, r)
    | r => (false, r)
  match Text.lower (String.ofList s) with
  | "inf" | "infinity" => some (.infinite negative)
  | "nan" => some .nan
  | _ =>
    (Binary64.decimal? s).map fun d =>
      match Binary64.ofDecimal? negative d.1 d.2 with
      | some x => .finite x
      | none => .infinite negative

/-- What the text of a variable stands for. -/
def literal (text : String) : Toml :=
  match Text.lower text with
  | "true" => .bool true
  | "false" => .bool false
  | _ =>
    match Text.int64? text.toList, float? text.toList with
    | some i, _ => .int i
    | none, some x => .float x
    | none, none => .str text

/-- What the names of the variables start with. -/
def mark : String := "unirest__"

/-- The key that the name of a variable spells, if it has the mark. -/
def key? (name : String) : Option String :=
  (Text.after? (fun c d => c == d.toLower) mark.toList name.toList).map fun rest =>
    ".".intercalate (Text.pieces "__" (Text.lower (String.ofList rest)))

/-- The settings in an environment, laid over others. -/
def withEnvironment (settings : Toml) (env : Environment) : Toml :=
  env.foldl
    (fun settings v =>
      match key? v.1 with
      | some key => set settings key (literal v.2)
      | none => settings) settings

/-- The settings of a document. -/
def ofEntries (entries : List (String × Toml)) : Toml :=
  entries.foldl (fun settings e => set settings e.1 e.2) (.table [])

end Settings

/-- The settings of a configuration file; a missing one has none. -/
def Config.fileSettings? : Option String → Option Toml
  | none => some (.table [])
  | some document => (Toml.parse? document).map Settings.ofEntries

/-- The configuration in a file, which may be missing, and an environment. -/
def Config.load (file : Option String) (env : Environment) : Except ConfigError Config :=
  match fileSettings? file with
  | none => .error .malformed
  | some settings =>
    match Format.settings.config? (Settings.withEnvironment settings env) with
    | none => .error .undecodable
    | some c =>
      match c.problem? with
      | some problem => .error (.invalid problem)
      | none => .ok c

end LedgerFront
