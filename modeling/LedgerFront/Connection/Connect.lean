import LedgerFront.Connection.Cache
import LedgerFront.Remote.Side

/-!
# Connecting one caller

A single call to the cache, carried to its end while nothing else happens, with a
remote side that answers the login.
-/

namespace LedgerFront

variable {σ : Type}

/-- The answer of the remote side to what a login waits for. -/
def Login.ask (remote : Remote σ) (key : Uuid) (user : Credentials) (l : Login) (r : σ) :
    Run (Login.Answer × σ) :=
  match l.phase with
  | .opening =>
    let (reply, r) := remote.openSession r
    .ok (.opened reply, r)
  | .loggingIn session => do
    let (reply, r) ← remote.call session (.login user key) r
    pure (.status reply, r)
  | .listing session => do
    let (reply, r) ← remote.call session .companies r
    pure (.companies reply, r)

namespace Cache

/-- The most steps that a login can take: three for each attempt, one before and one after. -/
def loginSteps (s : Cache) : Nat := 3 * s.settings.loginAttempts + 2

/-- A login runs for a number of steps, or to its end. -/
def runLogin (remote : Remote σ) (id : CallId) : Nat → Cache → σ → Run (Cache × σ)
  | 0, s, r => .ok (s, r)
  | n + 1, s, r =>
    match s.tasks.lookup id with
    | none => .ok (s, r)
    | some t =>
      match t.phase with
      | .asking l => do
        let (a, r) ← l.ask remote s.settings.affiliateKey t.user r
        runLogin remote id n (s.answerTask id a) r
      | .spawned | .storing _ => runLogin remote id n (s.runTask id) r

/-- A call by a user, cancelled beforehand or not, from its arrival to its return. -/
def connect (remote : Remote σ) (user : Credentials) (cancelled : Bool) (s : Cache) (r : σ) :
    Run (Outcome × Cache × σ) := do
  let id := s.nextCall
  let (s, _) := s.step (.call user)
  let s := if cancelled then s.cancelCall id else s
  match s.resume id with
  | (s, some (_, outcome)) => pure (outcome, s, r)
  | (s, none) =>
    match s.resume id with
    | (s, some (_, outcome)) => pure (outcome, s, r)
    | (s, none) => do
      let (s, r) ← runLogin remote id s.loginSteps s r
      match s.resume id with
      | (s, some (_, outcome)) => pure (outcome, s, r)
      | (s, none) => pure (.error (.internal "login did not end"), s, r)

end Cache

end LedgerFront
