import LedgerFront.Company
import LedgerFront.Remote.Error
import LedgerFront.Status

/-!
# Establishing a connection

A login opens a session, logs in and asks for the companies. The remote side may
have no company list for the moment; then it is tried again with a new session, a
limited number of times.

* `Login.start`, `Login.receive`: the login as a machine that waits for one
  answer after the other.
* `Login.establish`: the outcome for given answers.
-/

namespace LedgerFront

/-- Why there is no connection. -/
inductive ConnectionError where
  | forbidden (status : Status)
  | tooManyWaiters (waiting : Nat)
  | noCompanies (attempts : Nat)
  | remote (error : RemoteError)
  | cancelled
  | internal (message : String)
deriving DecidableEq, Repr

/-- The text of the error. -/
def ConnectionError.message : ConnectionError → String
  | forbidden status => "Login failed: " ++ status.text
  | tooManyWaiters waiting =>
    "Too many requests are waiting for the same login (" ++ Text.natText waiting ++ ")"
  | noCompanies attempts =>
    "Remote API returned no companies after " ++ Text.natText attempts ++ " attempts"
  | remote error => error.message
  | cancelled => "Cancelled while waiting for login"
  | internal m => "Login task failed: " ++ m

/-- A session that is logged in, and its companies. -/
structure Connected where
  session : Nat
  companies : List Company
deriving DecidableEq

/-- What a login waits for. -/
inductive Login.Phase where
  | opening
  | loggingIn (session : Nat)
  | listing (session : Nat)
deriving DecidableEq, Repr

/-- A login under way: the number of its attempt, from one, and what it waits for. -/
structure Login where
  attempt : Nat
  phase : Login.Phase
deriving DecidableEq, Repr

namespace Login

/-- An answer of the remote side to what a login waits for. -/
inductive Answer where
  | opened (r : Except RemoteError Nat)
  | status (r : Except RemoteError Status)
  | companies (r : Except RemoteError (Option (List Company)))

/-- Where a login stands. -/
inductive Progress where
  | waiting (l : Login)
  | finished (r : Except ConnectionError Connected)

/-- The next of `attempts` attempts after `done` of them, or the end of the login. -/
def start (attempts done : Nat) : Progress :=
  if done < attempts then .waiting ⟨done + 1, .opening⟩
  else .finished (.error (.noCompanies attempts))

/-- A login goes on with an answer; one that it does not wait for changes nothing. -/
def receive (attempts : Nat) (l : Login) (a : Answer) : Progress :=
  match l.phase, a with
  | .opening, .opened (.ok session) => .waiting ⟨l.attempt, .loggingIn session⟩
  | .opening, .opened (.error e) => .finished (.error (.remote e))
  | .loggingIn session, .status (.ok status) =>
    if status.isSuccess then .waiting ⟨l.attempt, .listing session⟩
    else .finished (.error (.forbidden status))
  | .loggingIn _, .status (.error e) => .finished (.error (.remote e))
  | .listing session, .companies (.ok (some (c :: cs))) => .finished (.ok ⟨session, c :: cs⟩)
  | .listing _, .companies (.ok _) => start attempts l.attempt
  | .listing _, .companies (.error e) => .finished (.error (.remote e))
  | _, _ => .waiting l

/-- Where a login stands after these answers; answers after its end are not asked for. -/
def after (attempts : Nat) : Progress → List Answer → Progress
  | p, [] => p
  | .finished r, _ => .finished r
  | .waiting l, a :: as => after attempts (l.receive attempts a) as

/-- Where a login of at most `attempts` attempts stands after these answers. -/
def establish (attempts : Nat) (answers : List Answer) : Progress :=
  after attempts (start attempts 0) answers

end Login

end LedgerFront
