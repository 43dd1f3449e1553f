import LedgerFront.Connection.Connect

/-!
# Scheduling calls and logins

Calls and logins that can go on stand in a queue and are taken in its order. A
call goes on until it waits for something, a login until the remote side has no
answer for it yet.

* `Scheduler.step`: an event, and the jobs that can go on after it.
* `Scheduler.settle`: everything runs until nothing can go on.
-/

namespace LedgerFront

/-- What a remote side does with what a login waits for. -/
inductive Reaction where
  | answered (a : Login.Answer)
  | crashed (message : String)
  | pending

/-- A remote side that may take its time. -/
abbrev Responder (σ : Type) := CallId → Credentials → Login → σ → Reaction × σ

/-- A call or a login that can go on. -/
inductive Job where
  | call (id : CallId)
  | login (id : CallId)
deriving DecidableEq, Repr

/-- A cache at work: the remote side, the jobs that can go on, and what calls returned. -/
structure Scheduler (σ : Type) where
  cache : Cache
  remote : σ
  ready : List Job
  returned : List (CallId × Outcome)

/-- How far a call has come, as a number that grows while it goes on. -/
def CallPhase.rank : CallPhase → Nat
  | arrived => 1
  | queued _ => 2
  | checking _ => 3
  | joined _ => 4
  | answered _ _ => 5

namespace Scheduler

variable {σ : Type}

/-- Puts a job at the end of the queue, unless it stands there. -/
def wake (j : Job) (s : Scheduler σ) : Scheduler σ :=
  if s.ready.contains j then s else { s with ready := s.ready ++ [j] }

/-- Wakes the first call at every gate whose lock is free. -/
def wakeHeads (s : Scheduler σ) : Scheduler σ :=
  s.cache.gates.foldl
    (fun s g =>
      match g.locked, g.queue.head? with
      | false, some id => s.wake (.call id)
      | _, _ => s) s

/-- The cache after an event, and what a call returned in it. -/
def apply (e : Cache.Event) (s : Scheduler σ) : Scheduler σ :=
  let (cache, returned) := s.cache.step e
  { s with cache, returned := s.returned ++ returned.toList }

/-- How far a call has come; zero once it is gone. -/
def rank (s : Scheduler σ) (id : CallId) : Nat :=
  ((s.cache.calls.lookup id).map fun c => c.phase.rank).getD 0

/-- A call goes on for a number of steps, or until it waits. One that started a login lets that go
on. -/
def resumeCall (id : CallId) : Nat → Scheduler σ → Scheduler σ
  | 0, s => s
  | n + 1, s =>
    let t := s.apply (.resume id)
    if t.rank id = 0 ∨ t.rank id = s.rank id then t
    else if t.rank id = 4 then t.wake (.login id)
    else resumeCall id n t

/-- A login is over: the call that waits for it goes on, and whoever waits at the gate. -/
def loginEnded (id : CallId) (s : Scheduler σ) : Scheduler σ := s.wakeHeads.wake (.call id)

/-- A login goes on for a number of steps, or until it waits or ends. -/
def runLogin (respond : Responder σ) (id : CallId) : Nat → Scheduler σ → Scheduler σ
  | 0, s => s
  | n + 1, s =>
    match s.cache.tasks.lookup id with
    | none => s.loginEnded id
    | some t =>
      match t.phase with
      | .spawned | .storing _ => runLogin respond id n (s.apply (.run id))
      | .asking l =>
        match respond id t.user l s.remote with
        | (.answered a, remote) => runLogin respond id n ({ s with remote }.apply (.answer id a))
        | (.crashed message, remote) =>
          ({ s with remote }.apply (.crash id message)).loginEnded id
        | (.pending, remote) => { s with remote }

/-- The steps that a call takes at most. -/
def callSteps : Nat := 6

/-- One job. -/
def perform (respond : Responder σ) (s : Scheduler σ) : Job → Scheduler σ
  | .call id => resumeCall id callSteps s
  | .login id => runLogin respond id (s.cache.loginSteps + 1) s

/-- A number of jobs from the queue, or all of them. -/
def settleWithin (respond : Responder σ) : Nat → Scheduler σ → Scheduler σ
  | 0, s => s
  | n + 1, s =>
    match s.ready with
    | [] => s
    | j :: ready => settleWithin respond n (({ s with ready }.perform respond j).wakeHeads)

/-- A bound of the jobs until nothing can go on: a call is taken from the queue a few times at most,
and for each of its steps another one may be taken in vain. -/
def jobBound (s : Scheduler σ) : Nat :=
  s.ready.length + 64 * (s.cache.calls.length + s.cache.tasks.length + 1)

/-- Everything runs until nothing can go on. -/
def settle (respond : Responder σ) (s : Scheduler σ) : Scheduler σ :=
  settleWithin respond s.jobBound s

/-- An event, and the jobs that can go on after it. -/
def step (e : Cache.Event) (s : Scheduler σ) : Scheduler σ :=
  let t := s.apply e
  match e with
  | .call _ => t.wake (.call s.cache.nextCall)
  | .cancel id => t.wake (.call id)
  | .drop _ => t.wakeHeads
  | .answer id _ | .crash id _ | .run id => t.wake (.login id)
  | .resume id => t.wake (.call id)
  | .invalidate _ | .expire _ | .advance _ => t

end Scheduler

end LedgerFront
