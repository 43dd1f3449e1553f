import LedgerFront.Json.Basic

/-!
# Remote status codes

A remote call that went through answers with a status code. Success is spelled
`Succes`; the usual spelling is understood too.
-/

namespace LedgerFront

/-- What a remote call reports. -/
inductive Status where
  | success
  | noLines
  | other (code : String)
deriving DecidableEq, Repr

namespace Status

/-- The code as the remote side spells it. -/
def text : Status → String
  | success => "Succes"
  | noLines => "NoLinesToUpdate"
  | other code => code

/-- The status that a code stands for. -/
def ofText : String → Status
  | "Succes" | "Success" => success
  | "NoLinesToUpdate" => noLines
  | code => other code

/-- The call did what was asked. -/
def isSuccess : Status → Bool
  | success => true
  | _ => false

/-- The status of a read that finds no row. -/
def keyNotFound : Status := other "KeyNotFound"

/-- The status as a value. -/
def encode (s : Status) : Json := .str s.text

/-- The status that a value encodes. -/
def decode? (j : Json) : Option Status := j.str?.map ofText

end Status

end LedgerFront
