import LedgerFront.Connection.Login
import LedgerFront.Credentials
import LedgerFront.Pairs
import LedgerFront.Uuid

/-!
# The connection cache

Connections are shared by all callers with the same credentials until they get
old. A caller that finds no fresh connection waits at the gate of its
credentials, whose lock lets one login through at a time. The login is a task of
its own, so it goes on when the caller that started it gives up.

The cache is a machine. An event is one thing that happens; what a caller or a
login does between two points where it waits is one step.

* `Cache.step`: the cache after an event, and what a call returned in it.
* `Cache.run`: the same for a list of events.
-/

namespace LedgerFront

/-- How connections are shared; `ttl` is in milliseconds. -/
structure ConnectionSettings where
  ttl : Nat
  maxWaiters : Nat
  loginAttempts : Nat
  affiliateKey : Uuid
deriving DecidableEq, Repr

/-- A connection in the cache. -/
structure Entry where
  connected : Connected
  createdAt : Nat
deriving DecidableEq

/-- Calls are numbered in their order; a login has the number of the call that started it. -/
abbrev CallId := Nat

/-- Gates are numbered in the order of their making. -/
abbrev GateId := Nat

/-- A lock for the logins with the same credentials, and the calls that wait for it, first come
first served. -/
structure Gate where
  waiting : Nat
  queue : List CallId
  locked : Bool
deriving DecidableEq, Repr

/-- What a call returns. -/
abbrev Outcome := Except ConnectionError Entry

/-- How far a call has come. -/
inductive CallPhase where
  | arrived
  | queued (gate : GateId)
  | checking (gate : GateId)
  | joined (gate : GateId)
  | answered (gate : GateId) (outcome : Outcome)

/-- A call that has not returned yet. -/
structure PendingCall where
  user : Credentials
  cancelled : Bool
  phase : CallPhase

/-- How far a login has come. -/
inductive TaskPhase where
  | spawned
  | asking (l : Login)
  | storing (e : Entry)
deriving DecidableEq

/-- A login under way; it holds the lock of its gate. -/
structure LoginTask where
  user : Credentials
  gate : GateId
  phase : TaskPhase
deriving DecidableEq

/-- The cache with everything that is under way. -/
structure Cache where
  settings : ConnectionSettings
  now : Nat
  entries : List (Credentials × Entry)
  gateOf : List (Credentials × GateId)
  gates : List Gate
  nextCall : CallId
  calls : List (CallId × PendingCall)
  tasks : List (CallId × LoginTask)
  hits : Nat
  misses : Nat
  logins : Nat

namespace Cache

open Pairs

/-- A cache without connections. -/
def empty (settings : ConnectionSettings) : Cache := ⟨settings, 0, [], [], [], 0, [], [], 0, 0, 0⟩

/-- The stored connection of a user, whatever its age. -/
def entry? (s : Cache) (user : Credentials) : Option Entry := s.entries.lookup user

/-- A connection is fresh until its time to live is over. -/
def isFresh (s : Cache) (e : Entry) : Bool := s.now < e.createdAt + s.settings.ttl

/-- The fresh connection of a user. -/
def fresh? (s : Cache) (user : Credentials) : Option Entry := (s.entry? user).filter s.isFresh

/-- A gate by its number. -/
def gate (s : Cache) (g : GateId) : Gate := s.gates[g]?.getD ⟨0, [], false⟩

/-- The cache with a changed gate. -/
def setGate (g : GateId) (f : Gate → Gate) (s : Cache) : Cache :=
  { s with gates := s.gates.modify g f }

/-- The cache with a call in another phase. -/
def setPhase (id : CallId) (c : PendingCall) (phase : CallPhase) (s : Cache) : Cache :=
  { s with calls := put id { c with phase } s.calls }

/-- The gate that a call uses. -/
def CallPhase.gate? : CallPhase → Option GateId
  | .arrived => none
  | .queued g | .checking g | .joined g | .answered g _ => some g

/-- A call or a login uses the gate. -/
def isUsed (s : Cache) (g : GateId) : Bool :=
  s.calls.any (fun c => CallPhase.gate? c.2.phase == some g) || s.tasks.any (·.2.gate == g)

/-- Forgets a gate that nobody uses and whose lock is free. -/
def releaseGate (user : Credentials) (g : GateId) (s : Cache) : Cache :=
  if s.gateOf.lookup user = some g ∧ !s.isUsed g ∧ !(s.gate g).locked then
    { s with gateOf := erase user s.gateOf }
  else s

/-- A call leaves: it is no longer under way, nor is its gate if it was the last one there. -/
def leave (id : CallId) (user : Credentials) (g : GateId) (s : Cache) : Cache :=
  releaseGate user g { s with calls := erase id s.calls }

/-- The gate without a call in its queue. -/
def Gate.withdraw (id : CallId) (g : Gate) : Gate :=
  { g with waiting := g.waiting - 1, queue := g.queue.filter (· ≠ id) }

/-- The gate of a user, made if there is none. -/
def gateFor (user : Credentials) (s : Cache) : GateId × Cache :=
  match s.gateOf.lookup user with
  | some g => (g, s)
  | none =>
    let g := s.gates.length
    (g, { s with gateOf := put user g s.gateOf, gates := s.gates ++ [⟨0, [], false⟩] })

/-- What happened to a call in a step. -/
abbrev Returned := Option (CallId × Outcome)

/-- A call in the queue gives up when it is cancelled, and takes the lock when it is free and its
turn has come. -/
def proceed (id : CallId) (c : PendingCall) (g : GateId) (s : Cache) : Cache × Returned :=
  if c.cancelled then
    (leave id c.user g (s.setGate g (Gate.withdraw id)), some (id, .error .cancelled))
  else if !(s.gate g).locked ∧ (s.gate g).queue.head? = some id then
    let s := s.setGate g fun gate => { Gate.withdraw id gate with locked := true }
    (s.setPhase id c (.checking g), none)
  else (s.setPhase id c (.queued g), none)

/-- A call that found no fresh connection takes a place in the queue of its gate, unless the queue
is full. -/
def enqueue (id : CallId) (c : PendingCall) (s : Cache) : Cache × Returned :=
  let (g, s) := gateFor c.user s
  let waiting := (s.gate g).waiting
  if s.settings.maxWaiters ≤ waiting then
    (leave id c.user g s, some (id, .error (.tooManyWaiters waiting)))
  else
    let s := s.setGate g fun gate =>
      { gate with waiting := gate.waiting + 1, queue := gate.queue ++ [id] }
    proceed id c g s

/-- The first look at the store. -/
def lookUp (id : CallId) (c : PendingCall) (s : Cache) : Cache × Returned :=
  match s.fresh? c.user with
  | some e => ({ s with hits := s.hits + 1, calls := erase id s.calls }, some (id, .ok e))
  | none => enqueue id c { s with misses := s.misses + 1 }

/-- A call joins the login that it started, or gives up at once. -/
def join (id : CallId) (c : PendingCall) (g : GateId) (s : Cache) : Cache × Returned :=
  if c.cancelled then (leave id c.user g s, some (id, .error .cancelled))
  else (s.setPhase id c (.joined g), none)

/-- The lock of a gate is free again. -/
def unlock (g : GateId) (s : Cache) : Cache := s.setGate g fun gate => { gate with locked := false }

/-- The look at the store under the lock: somebody else may have logged in meanwhile. Otherwise a
login starts, which takes over the lock. -/
def check (id : CallId) (c : PendingCall) (g : GateId) (s : Cache) : Cache × Returned :=
  match s.fresh? c.user with
  | some e => (leave id c.user g (unlock g s), some (id, .ok e))
  | none => join id c g { s with tasks := put id ⟨c.user, g, .spawned⟩ s.tasks }

/-- A call goes on up to the next point where it waits. -/
def resume (id : CallId) (s : Cache) : Cache × Returned :=
  match s.calls.lookup id with
  | none => (s, none)
  | some c =>
    match c.phase with
    | .arrived => lookUp id c s
    | .queued g => proceed id c g s
    | .checking g => check id c g s
    | .joined g => join id c g s
    | .answered g outcome =>
      if c.cancelled then (leave id c.user g s, some (id, .error .cancelled))
      else (leave id c.user g s, some (id, outcome))

/-- A call is dropped by its caller. -/
def dropCall (id : CallId) (s : Cache) : Cache :=
  match s.calls.lookup id with
  | none => s
  | some c =>
    match c.phase with
    | .arrived => { s with calls := erase id s.calls }
    | .queued g => leave id c.user g (s.setGate g (Gate.withdraw id))
    | .checking g => leave id c.user g (unlock g s)
    | .joined g | .answered g _ => leave id c.user g s

/-- The call that waits for a login gets its outcome. -/
def deliver (id : CallId) (outcome : Outcome) (s : Cache) : Cache :=
  match s.calls.lookup id with
  | some c =>
    match c.phase with
    | .joined g => s.setPhase id c (.answered g outcome)
    | _ => s
  | none => s

/-- A login ends: it gives the lock back and its outcome to the call that waits for it. -/
def endTask (id : CallId) (t : LoginTask) (outcome : Outcome) (s : Cache) : Cache :=
  releaseGate t.user t.gate
    (deliver id outcome (unlock t.gate { s with tasks := erase id s.tasks }))

/-- A login goes on from where its machine stands. A connection is counted before it is stored. -/
def advanceTask (id : CallId) (t : LoginTask) (p : Login.Progress) (s : Cache) : Cache :=
  match p with
  | .waiting l => { s with tasks := put id { t with phase := .asking l } s.tasks }
  | .finished (.ok connected) =>
    let phase := TaskPhase.storing ⟨connected, s.now⟩
    { s with logins := s.logins + 1, tasks := put id { t with phase } s.tasks }
  | .finished (.error e) => endTask id t (.error e) s

/-- A login goes on without an answer: it begins, or stores its connection and ends. -/
def runTask (id : CallId) (s : Cache) : Cache :=
  match s.tasks.lookup id with
  | none => s
  | some t =>
    match t.phase with
    | .spawned => advanceTask id t (Login.start s.settings.loginAttempts 0) s
    | .asking _ => s
    | .storing e => endTask id t (.ok e) { s with entries := put t.user e s.entries }

/-- A login gets an answer of the remote side. -/
def answerTask (id : CallId) (a : Login.Answer) (s : Cache) : Cache :=
  match s.tasks.lookup id with
  | none => s
  | some t =>
    match t.phase with
    | .asking l => advanceTask id t (l.receive s.settings.loginAttempts a) s
    | .spawned | .storing _ => s

/-- A login breaks down. The lock becomes free, but the gate is not looked at. -/
def crashTask (id : CallId) (message : String) (s : Cache) : Cache :=
  match s.tasks.lookup id with
  | none => s
  | some t =>
    deliver id (.error (.internal message)) (unlock t.gate { s with tasks := erase id s.tasks })

/-- The store forgets a connection of a user whose time to live is over. -/
def expire (user : Credentials) (s : Cache) : Cache :=
  if (s.fresh? user).isSome then s else { s with entries := erase user s.entries }

/-- Everything that can happen to the cache. -/
inductive Event where
  | call (user : Credentials)
  | resume (id : CallId)
  | cancel (id : CallId)
  | drop (id : CallId)
  | run (id : CallId)
  | answer (id : CallId) (a : Login.Answer)
  | crash (id : CallId) (message : String)
  | invalidate (user : Credentials)
  | expire (user : Credentials)
  | advance (milliseconds : Nat)

/-- The cancellation of a call, which it notices when it goes on. -/
def cancelCall (id : CallId) (s : Cache) : Cache :=
  match s.calls.lookup id with
  | some c => { s with calls := put id { c with cancelled := true } s.calls }
  | none => s

/-- The cache after an event, and what a call returned in it. -/
def step (s : Cache) : Event → Cache × Returned
  | .call user =>
    let calls := s.calls ++ [(s.nextCall, ⟨user, false, .arrived⟩)]
    ({ s with calls, nextCall := s.nextCall + 1 }, none)
  | .resume id => resume id s
  | .cancel id => (cancelCall id s, none)
  | .drop id => (dropCall id s, none)
  | .run id => (runTask id s, none)
  | .answer id a => (answerTask id a s, none)
  | .crash id message => (crashTask id message s, none)
  | .invalidate user => ({ s with entries := erase user s.entries }, none)
  | .expire user => (expire user s, none)
  | .advance ms => ({ s with now := s.now + ms }, none)

/-- The cache after events, and what calls returned, in order. -/
def run (s : Cache) : List Event → Cache × List (CallId × Outcome)
  | [] => (s, [])
  | e :: es =>
    let (s, r) := step s e
    let (s, rs) := run s es
    (s, r.toList ++ rs)

/-- The calls that wait in the queue for the login of a user. -/
def waiting (s : Cache) (user : Credentials) : Nat :=
  match s.gateOf.lookup user with
  | some g => (s.gate g).waiting
  | none => 0

end Cache

end LedgerFront
