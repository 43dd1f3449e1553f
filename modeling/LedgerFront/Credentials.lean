import LedgerFront.Text.Quoted

/-!
# Credentials

The user name and password of a caller. The pair is the key under which logged-in
sessions are shared; `Credentials.describe` never shows the password.
-/

namespace LedgerFront

/-- A user name and a password. -/
structure Credentials where
  username : String
  password : String
deriving DecidableEq, Repr

/-- The form shown in diagnostics. -/
def Credentials.describe (c : Credentials) : String :=
  "Credentials \x7b username: " ++ Text.quoted c.username ++ ", password: \"<redacted>\" \x7d"

end LedgerFront
