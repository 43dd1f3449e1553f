import LedgerFront.Proofs.Connection.Gates
import Mathlib.Logic.Relation

/-!
# The moves of calls and logins

A step of the cache is made of moves: a call comes to its gate, waits, takes the lock,
hands it to a login or leaves, and a login goes on or ends. What every move keeps, every
step keeps.

* `Move`: the moves, each with what has to be the case before it.
* `leads_step`: a step is a few moves, unless a login breaks down in it.
* `GatesOK.leads`: moves keep the gates in order.
-/

namespace LedgerFront.Cache

open Pairs

variable {s s' : Cache}

/-- The gate with a call at the end of its queue. -/
def Gate.enter (id : CallId) (g : Gate) : Gate :=
  { g with waiting := g.waiting + 1, queue := g.queue ++ [id] }

/-- The gate without a call in its queue that has taken its lock. -/
def Gate.lock (id : CallId) (g : Gate) : Gate := { Gate.withdraw id g with locked := true }

/-- Gates, calls and logins are the same; connections, clock and counters may differ. -/
structure SameQueues (s s' : Cache) : Prop where
  settings : s'.settings = s.settings
  gateOf : s'.gateOf = s.gateOf
  gates : s'.gates = s.gates
  nextCall : s'.nextCall = s.nextCall
  calls : s'.calls = s.calls
  tasks : s'.tasks = s.tasks

/-- What a call or a login does in one go. -/
inductive Move (s : Cache) : Cache → Prop where
  | store (s' : Cache) (h : SameQueues s s') : Move s s'
  | arrive (user : Credentials) : Move s (s.step (.call user)).1
  | cancel (id : CallId) : Move s (cancelCall id s)
  /-- A call leaves that has not been at a gate. -/
  | pass {id : CallId} {c : PendingCall} (hc : s.calls.lookup id = some c) (hp : c.phase = .arrived) :
    Move s { s with calls := erase id s.calls }
  /-- A call finds the queue full. -/
  | refuse {id : CallId} {c : PendingCall} (hc : s.calls.lookup id = some c) (hp : c.phase = .arrived)
    (hfull : s.settings.maxWaiters ≤ ((gateFor c.user s).2.gate (gateFor c.user s).1).waiting) :
    Move s (leave id c.user (gateFor c.user s).1 (gateFor c.user s).2)
  /-- A call takes its place in the queue. -/
  | enter {id : CallId} {c : PendingCall} (hc : s.calls.lookup id = some c) (hp : c.phase = .arrived)
    (hroom : ((gateFor c.user s).2.gate (gateFor c.user s).1).waiting < s.settings.maxWaiters) :
    Move s (((gateFor c.user s).2.setGate (gateFor c.user s).1 (Gate.enter id)).setPhase id c
      (.queued (gateFor c.user s).1))
  /-- A call leaves the queue and the gate. -/
  | withdraw {id : CallId} {c : PendingCall} {g : GateId} (hc : s.calls.lookup id = some c)
    (hp : c.phase = .queued g) : Move s (leave id c.user g (s.setGate g (Gate.withdraw id)))
  /-- The first call in the queue takes the lock. -/
  | lock {id : CallId} {c : PendingCall} {g : GateId} (hc : s.calls.lookup id = some c)
    (hp : c.phase = .queued g) (hfree : (s.gate g).locked = false)
    (hfirst : (s.gate g).queue.head? = some id) :
    Move s ((s.setGate g (Gate.lock id)).setPhase id c (.checking g))
  /-- A call with the lock gives it back and leaves. -/
  | unlock {id : CallId} {c : PendingCall} {g : GateId} (hc : s.calls.lookup id = some c)
    (hp : c.phase = .checking g) : Move s (leave id c.user g (Cache.unlock g s))
  /-- A call with the lock hands it to a login. -/
  | start {id : CallId} {c : PendingCall} {g : GateId} (hc : s.calls.lookup id = some c)
    (hp : c.phase = .checking g) (hn : s.tasks.lookup id = none) :
    Move s ({ s with tasks := put id ⟨c.user, g, .spawned⟩ s.tasks }.setPhase id c (.joined g))
  /-- A call leaves that waits for its login or has its outcome. -/
  | leave {id : CallId} {c : PendingCall} {g : GateId} (hc : s.calls.lookup id = some c)
    (hp : c.phase = .joined g ∨ ∃ o, c.phase = .answered g o) : Move s (Cache.leave id c.user g s)
  /-- A login gets further. -/
  | goOn {id : CallId} {t : LoginTask} (ht : s.tasks.lookup id = some t) (phase : TaskPhase) :
    Move s { s with tasks := put id { t with phase } s.tasks }
  /-- A login ends; a full queue is no outcome of it. -/
  | finish {id : CallId} {t : LoginTask} {outcome : Outcome} (ht : s.tasks.lookup id = some t)
    (ho : ∀ n, outcome ≠ .error (.tooManyWaiters n)) : Move s (endTask id t outcome s)

/-- No call that looks at the store under its lock has a login under way. -/
def Unstarted (s : Cache) : Prop :=
  ∀ id c g, s.calls.lookup id = some c → c.phase = .checking g → s.tasks.lookup id = none

/-- Moves lead from one state to another. -/
abbrev Leads : Cache → Cache → Prop := Relation.ReflTransGen Move

theorem Move.leads (h : Move s s') : Leads s s' := .single h

/-! ## A step is made of moves -/

theorem setPhase_self {id : CallId} {c : PendingCall} (hc : s.calls.lookup id = some c) :
    s.setPhase id c c.phase = s := by
  unfold setPhase
  rw [put_of_lookup hc]

theorem setPhase_setPhase (id : CallId) (c : PendingCall) (p q : CallPhase) (s : Cache) :
    (s.setPhase id c p).setPhase id { c with phase := p } q = s.setPhase id c q := by
  unfold setPhase
  rw [put_put]

theorem leave_setPhase (id : CallId) (c : PendingCall) (p : CallPhase) (user : Credentials)
    (g : GateId) (s : Cache) : Cache.leave id user g (s.setPhase id c p) = Cache.leave id user g s := by
  unfold Cache.leave setPhase
  rw [erase_put]

theorem lookup_setPhase (id : CallId) (c : PendingCall) (p : CallPhase) (s : Cache) :
    (s.setPhase id c p).calls.lookup id = some { c with phase := p } := by
  simp [setPhase]

/-- A call in the queue may leave it or take the lock. -/
theorem leads_proceed {id : CallId} {c : PendingCall} {g : GateId}
    (hc : s.calls.lookup id = some c) (hp : c.phase = .queued g) : Leads s (proceed id c g s).1 := by
  unfold proceed
  split
  · exact (Move.withdraw hc hp).leads
  split
  · rename_i hturn
    exact (Move.lock hc hp (by simpa using hturn.1) hturn.2).leads
  · rw [← hp, setPhase_self hc]

/-- The queue may be entered first: what the call does next does not depend on it. -/
theorem proceed_setPhase (id : CallId) (c : PendingCall) (g : GateId) (s : Cache) :
    proceed id { c with phase := .queued g } g (s.setPhase id c (.queued g)) = proceed id c g s := by
  unfold proceed
  have hgate : (s.setPhase id c (.queued g)).gate g = s.gate g := rfl
  rw [hgate]
  split
  · exact congrArg (·, _) (leave_setPhase id c _ c.user g (s.setGate g (Gate.withdraw id)))
  split
  · exact congrArg (·, _) (setPhase_setPhase id c _ _ (s.setGate g _))
  · exact congrArg (·, _) (setPhase_setPhase id c _ _ s)

theorem leads_enqueue {id : CallId} {c : PendingCall} (hc : s.calls.lookup id = some c)
    (hp : c.phase = .arrived) : Leads s (enqueue id c s).1 := by
  unfold enqueue
  have hset : (gateFor c.user s).2.settings = s.settings := by
    unfold gateFor
    split <;> rfl
  dsimp only
  split
  · rename_i hfull
    exact (Move.refuse hc hp (hset ▸ hfull)).leads
  · rename_i hroom
    rw [hset] at hroom
    refine .head (Move.enter hc hp (Nat.lt_of_not_le hroom)) ?_
    have hlook := lookup_setPhase id c (.queued (gateFor c.user s).1)
      ((gateFor c.user s).2.setGate (gateFor c.user s).1 (Gate.enter id))
    have hleads := leads_proceed hlook rfl
    rw [proceed_setPhase] at hleads
    exact hleads

theorem leads_join {id : CallId} {c : PendingCall} {g : GateId} (hc : s.calls.lookup id = some c)
    (hp : c.phase = .joined g) : Leads s (join id c g s).1 := by
  unfold join
  split
  · exact (Move.leave hc (.inl hp)).leads
  · rw [← hp, setPhase_self hc]

theorem leads_check {id : CallId} {c : PendingCall} {g : GateId} (hc : s.calls.lookup id = some c)
    (hp : c.phase = .checking g) (hn : s.tasks.lookup id = none) : Leads s (check id c g s).1 := by
  unfold check
  split
  · exact (Move.unlock hc hp).leads
  · refine .head (Move.start hc hp hn) ?_
    -- the call has joined its login before it looks whether it is cancelled
    have hleads := leads_join (lookup_setPhase id c (.joined g)
      { s with tasks := put id ⟨c.user, g, .spawned⟩ s.tasks }) rfl
    unfold join at hleads ⊢
    rw [leave_setPhase, setPhase_setPhase] at hleads
    exact hleads

theorem leads_resume (hs : Unstarted s) (id : CallId) : Leads s (resume id s).1 := by
  unfold resume
  cases hc : s.calls.lookup id with
  | none => exact .refl
  | some c =>
    cases hp : c.phase with
    | arrived =>
      simp only [hp, lookUp]
      split
      · exact .tail (Move.pass hc hp).leads (.store _ ⟨rfl, rfl, rfl, rfl, rfl, rfl⟩)
      · exact .head (.store { s with misses := s.misses + 1 } ⟨rfl, rfl, rfl, rfl, rfl, rfl⟩)
          (leads_enqueue hc hp)
    | queued g => simpa only [hp] using leads_proceed hc hp
    | checking g => simpa only [hp] using leads_check hc hp (hs id c g hc hp)
    | joined g => simpa only [hp] using leads_join hc hp
    | answered g outcome =>
      simp only [hp]
      split <;> exact (Move.leave hc (.inr ⟨outcome, hp⟩)).leads

theorem leads_dropCall (id : CallId) (s : Cache) : Leads s (dropCall id s) := by
  unfold dropCall
  cases hc : s.calls.lookup id with
  | none => exact .refl
  | some c =>
    cases hp : c.phase with
    | arrived => simpa only [hp] using (Move.pass hc hp).leads
    | queued g => simpa only [hp] using (Move.withdraw hc hp).leads
    | checking g => simpa only [hp] using (Move.unlock hc hp).leads
    | joined g => simpa only [hp] using (Move.leave hc (.inl hp)).leads
    | answered g outcome => simpa only [hp] using (Move.leave hc (.inr ⟨outcome, hp⟩)).leads

theorem start_ne_tooManyWaiters {attempts done n : Nat} :
    Login.start attempts done ≠ .finished (.error (.tooManyWaiters n)) := by
  unfold Login.start
  split <;> simp

theorem receive_ne_tooManyWaiters {attempts n : Nat} {l : Login} {a : Login.Answer} :
    l.receive attempts a ≠ .finished (.error (.tooManyWaiters n)) := by
  unfold Login.receive
  split
  case h_3 => split <;> simp
  case h_6 => exact start_ne_tooManyWaiters
  all_goals simp

theorem leads_advanceTask {id : CallId} {t : LoginTask} {p : Login.Progress}
    (ht : s.tasks.lookup id = some t) (hp : ∀ n, p ≠ .finished (.error (.tooManyWaiters n))) :
    Leads s (advanceTask id t p s) := by
  unfold advanceTask
  split
  · exact (Move.goOn ht _).leads
  · exact .tail (Move.goOn ht _).leads (.store _ ⟨rfl, rfl, rfl, rfl, rfl, rfl⟩)
  · rename_i e
    exact (Move.finish ht fun n he => hp n (by rw [Except.error.inj he])).leads

theorem leads_runTask (id : CallId) (s : Cache) : Leads s (runTask id s) := by
  unfold runTask
  cases ht : s.tasks.lookup id with
  | none => exact .refl
  | some t =>
    cases hp : t.phase with
    | spawned => simpa only [hp] using leads_advanceTask ht fun _ => start_ne_tooManyWaiters
    | asking l => simpa only [hp] using Relation.ReflTransGen.refl
    | storing e =>
      simp only [hp]
      have ht' : ({ s with entries := put t.user e s.entries } : Cache).tasks.lookup id = some t := ht
      exact .head (.store { s with entries := put t.user e s.entries }
        ⟨rfl, rfl, rfl, rfl, rfl, rfl⟩) (Move.finish ht' (by simp)).leads

theorem leads_answerTask (id : CallId) (a : Login.Answer) (s : Cache) :
    Leads s (answerTask id a s) := by
  unfold answerTask
  cases ht : s.tasks.lookup id with
  | none => exact .refl
  | some t =>
    cases hp : t.phase with
    | asking l => simpa only [hp] using leads_advanceTask ht fun _ => receive_ne_tooManyWaiters
    | _ => simpa only [hp] using Relation.ReflTransGen.refl

/-- A login breaks down. -/
def Event.isCrash : Event → Bool
  | .crash _ _ => true
  | _ => false

/-- **A step is made of moves**, unless a login breaks down. -/
theorem leads_step (hs : Unstarted s) {e : Event} (h : e.isCrash = false) : Leads s (s.step e).1 := by
  have hstore : ∀ {s'}, SameQueues s s' → Leads s s' := fun hsame => (Move.store _ hsame).leads
  cases e with
  | call user => exact (Move.arrive user).leads
  | resume id => exact leads_resume hs id
  | cancel id => exact (Move.cancel id).leads
  | drop id => exact leads_dropCall id s
  | run id => exact leads_runTask id s
  | answer id a => exact leads_answerTask id a s
  | crash id message => simp [Event.isCrash] at h
  | invalidate user => exact hstore ⟨rfl, rfl, rfl, rfl, rfl, rfl⟩
  | expire user =>
    simp only [step, expire]
    split
    · exact .refl
    · exact hstore ⟨rfl, rfl, rfl, rfl, rfl, rfl⟩
  | advance ms => exact hstore ⟨rfl, rfl, rfl, rfl, rfl, rfl⟩

/-! ## Gates -/

namespace GatesOK

/-- **A move** keeps the gates in order. -/
theorem move (h : GatesOK s) (hm : Move s s') : GatesOK s' := by
  cases hm with
  | store _ hs => exact h.of_same hs.calls hs.tasks hs.gateOf hs.gates hs.nextCall
  | arrive user => exact h.newCall user
  | cancel id => exact h.cancelCall id
  | pass => exact h.eraseCall _
  | refuse => exact (h.gateFor _).1.leave _ _ _
  | @enter id c hc hp =>
    obtain ⟨hs, hg, hcalls⟩ := h.gateFor c.user
    have hid : id ∈ (Cache.gateFor c.user s).2.calls.map (·.1) := hcalls ▸ mem_keys_of_lookup hc
    exact (hs.setGate (f := Gate.enter id) _ fun _ => rfl).setPhase hid hg rfl (by simp)
  | @withdraw id c g hc hp => exact (h.setGate (f := Gate.withdraw id) g fun _ => rfl).leave id c.user g
  | @lock id c g hc hp hfree =>
    exact h.lock (mem_keys_of_lookup hc) (h.callGate id c g hc (by simp [hp, CallPhase.gate?])) hfree
      fun _ => rfl
  | @unlock id c g hc hp =>
    have hgone : ∀ a, ¬ Holds { s with calls := erase id s.calls } g a :=
      h.free_of_call ⟨c, hc, hp⟩ (fun _ _ _ hi => lookup_of_erase hi) (by simp) rfl
    exact ((h.eraseCall id).unlock hgone).release c.user g
  | @start id c g hc hp =>
    have hg : s.gateOf.lookup c.user = some g := h.callGate id c g hc (by simp [hp, CallPhase.gate?])
    have hmoved : ∀ a, ¬ Holds { s with calls := put id { c with phase := .joined g } s.calls } g a :=
      h.free_of_call ⟨c, hc, hp⟩ (fun i d he hi => by simpa [he] using hi) (by simp) rfl
    have hput : GatesOK (s.setPhase id c (.joined g)) :=
      h.setPhase (mem_keys_of_lookup hc) hg rfl (by simp)
    exact hput.putTask (t := ⟨c.user, g, .spawned⟩) hg (h.locked g (.call id) ⟨c, hc, hp⟩)
      fun a ha => absurd ha (hmoved a)
  | @leave id c g => exact h.leave id c.user g
  | @goOn id t ht phase =>
    exact h.putTask (t := { t with phase }) (h.taskGate id t ht) (h.locked t.gate (.login id) ⟨t, ht, rfl⟩)
      fun a ha => h.alone t.gate a (.login id) ha ⟨t, ht, rfl⟩
  | finish ht => exact h.endTask ht _

theorem leads (h : GatesOK s) (hm : Leads s s') : GatesOK s' := by
  induction hm with
  | refl => exact h
  | tail _ hlast ih => exact ih.move hlast

end GatesOK

end LedgerFront.Cache
