import LedgerFront.Text.Digits

/-!
# Failures of remote calls

What can go wrong on the way to the remote side and back. A call that the remote
side refuses, such as a login with a wrong password, is no failure: it answers
with a status.
-/

namespace LedgerFront

/-- Why a remote call has no answer. -/
inductive RemoteError where
  | connection (message : String)
  | timeout (operation : String)
  | remote (status : Nat) (message : String)
  | protocol (message : String)
  | notLoggedIn
  | unsupported (operation : String)
deriving DecidableEq, Repr

/-- The text of the failure. -/
def RemoteError.message : RemoteError → String
  | connection m => "Connection error: " ++ m
  | timeout operation => "Remote call timed out: " ++ operation
  | remote status m => "Remote API returned " ++ Text.natText status ++ ": " ++ m
  | protocol m => "Invalid response from remote API: " ++ m
  | notLoggedIn => "Session is not logged in"
  | unsupported operation => "Unsupported operation: " ++ operation

end LedgerFront
