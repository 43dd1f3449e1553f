import LedgerFront.CommandLine

/-!
# The program

Starts a server from the command line. The environment is read from the process
file system, and `.env` is looked for in the directories above as well.

There is no listener here: a server that was set up reports that it cannot bind
its address, as it does for an address that is taken.
-/

namespace LedgerFront.Program

/-- The text of a file, or nothing if it cannot be read. -/
def readText (path : String) : IO (Option String) := do
  try
    let bytes ← IO.FS.readBinFile path
    pure (some (Text.Utf8.toStringLossy bytes.toList))
  catch _ => pure none

/-- The first file with a name in a directory or the ones above it. -/
def readAbove (name : String) : Nat → String → IO (Option String)
  | 0, _ => pure none
  | depth + 1, directory => do
    match ← readText (directory ++ name) with
    | some text => pure (some text)
    | none => readAbove name depth (directory ++ "../")

/-- The variables in the bytes of an environment, with a zero behind each. -/
def variablesOf (bytes : List UInt8) : Environment :=
  (Text.pieces "\x00" (Text.Utf8.toStringLossy bytes)).filterMap fun v =>
    (Text.splitFirst? '=' v.toList).map fun p => (String.ofList p.1, String.ofList p.2)

/-- The environment of the process. -/
def environment : IO Environment := do
  try
    let bytes ← IO.FS.readBinFile "/proc/self/environ"
    pure (variablesOf bytes.toList)
  catch _ => pure []

/-- Runs the program and gives its exit code. -/
def run (args : List String) : IO UInt8 := do
  let depth := (Text.pieces "/" (toString (← IO.currentDir))).length
  let start ← CommandLine.start readText (← readAbove ".env" depth "") args (← environment)
  start.warnings.forM fun w => IO.eprintln w
  match start.outcome with
  | .error e =>
    IO.eprintln e.message
    pure CommandLine.setupExitCode
  | .ok (c, _) =>
    IO.eprintln ("Server error: cannot listen on " ++ c.address)
    pure CommandLine.serveExitCode

end LedgerFront.Program

def main (args : List String) : IO UInt32 := do
  pure (← LedgerFront.Program.run args).toUInt32
