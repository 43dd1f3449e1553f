import LedgerFront.Config.DotEnv
import LedgerFront.Server.Setup

/-!
# Starting from the command line

The program reads variables from `.env`, finds its configuration file, loads the
configuration and sets up a server. The file is the one behind `--config`, else
the one in `UNIREST_CONFIG`, else `unirest.toml`; it may be missing.

Files are read in any monad, so that a start can be run on the files of a system
and on given ones alike.

* `CommandLine.start`: what a start leads to.
-/

namespace LedgerFront.CommandLine

/-- Why the program ends before it serves. -/
inductive Failure where
  | config (e : ConfigError)
  | setup (e : SetupError)
deriving DecidableEq, Repr

/-- What the program says. -/
def Failure.message : Failure → String
  | config e => "Configuration error: " ++ e.message
  | setup e => "Server initialization failed: " ++ e.message

/-- The exit code of a program that ends before it serves. -/
def setupExitCode : UInt8 := 2

/-- The exit code of a program that cannot serve. -/
def serveExitCode : UInt8 := 1

/-- The path of the configuration file by default. -/
def defaultPath : String := "unirest.toml"

/-- The path behind the first `--config` that has something behind it. -/
def pathInArgs? : List String → Option String
  | "--config" :: path :: _ => some path
  | _ :: args => pathInArgs? args
  | [] => none

/-- The path of the configuration file. -/
def configPath (args : List String) (env : Environment) : String :=
  match pathInArgs? args, env.lookup "UNIREST_CONFIG" with
  | some path, _ => path
  | none, some path => if path.isEmpty then defaultPath else path
  | none, none => defaultPath

/-- The part of a file name after its last point, unless the point is its first character. -/
def extension? (path : String) : Option String :=
  let name := (Text.pieces "/" path).getLast?.getD ""
  match (Text.pieces "." name).reverse with
  | [] | [_] => none
  | last :: front => if front = [""] then none else some last

/-- Only files that are named so are configurations. -/
def isConfigName (path : String) : Bool := extension? path = some "toml"

/-- The configuration at a path. A missing file says nothing, one with another name is malformed. -/
def load (path : String) (file : Option String) (env : Environment) : Except ConfigError Config :=
  if file.isSome && !isConfigName path then .error .malformed else Config.load file env

/-- What a start leads to: warnings, and a server or a failure. -/
structure Start where
  warnings : List String
  outcome : Except Failure (Config × Setup)

/-- The warning about a bad line in `.env`. -/
def warning (p : DotEnv.LineProblem) : String := "Warning: Failed to load .env file: " ++ p.message

/-- Starts the program, given what the `.env` file holds. -/
def start {m : Type → Type} [Monad m] (read : String → m (Option String)) (dotEnv : Option String)
    (args : List String) (env : Environment) : m Start := do
  let (env, problem) := match dotEnv with
    | some document => DotEnv.load document env
    | none => (env, none)
  let warnings := (problem.map warning).toList
  let path := configPath args env
  match load path (← read path) env with
  | .error e => pure ⟨warnings, .error (.config e)⟩
  | .ok c => do
    let schema ← match c.schemaPath with
      | some path => read path
      | none => pure none
    match c.setup schema with
    | .error e => pure ⟨warnings, .error (.setup e)⟩
    | .ok s => pure ⟨warnings, .ok (c, s)⟩

end LedgerFront.CommandLine
