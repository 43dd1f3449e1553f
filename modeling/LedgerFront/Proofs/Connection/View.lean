import LedgerFront.Proofs.Connection.GateLife

/-!
# The cache without the numbers of its gates

Gates come and go with their callers, and their numbers mean nothing to anybody. Every user has a desk:
the gate that is registered, or one where nobody is. Seen like that the cache is a simpler machine, in
which a step changes the store, the desk, the calls and the logins of one user in place.

* `View`, `View.step`: the machine.
* `Cache.view`: how a cache is seen.
* `view_step`, `view_run`: the cache and the machine do the same.
-/

namespace LedgerFront

/-- How far a call has come, wherever its gate is. -/
inductive Stage where
  | arrived
  | queued
  | checking
  | joined
  | answered (outcome : Outcome)

/-- How far a call has come. -/
def CallPhase.stage : CallPhase → Stage
  | .arrived => .arrived
  | .queued _ => .queued
  | .checking _ => .checking
  | .joined _ => .joined
  | .answered _ outcome => .answered outcome

/-- A call as it is seen. -/
structure Caller where
  user : Credentials
  cancelled : Bool
  stage : Stage

/-- A login as it is seen. -/
structure Attempt where
  user : Credentials
  phase : TaskPhase
deriving DecidableEq

/-- A call as it is seen. -/
def PendingCall.seen (c : PendingCall) : Caller := ⟨c.user, c.cancelled, c.phase.stage⟩

/-- A login as it is seen. -/
def LoginTask.seen (t : LoginTask) : Attempt := ⟨t.user, t.phase⟩

namespace Cache

open Pairs

/-- A cache as it is seen. -/
@[ext] structure View where
  settings : ConnectionSettings
  now : Nat
  nextCall : CallId
  entry : Credentials → Option Entry
  desk : Credentials → Gate
  call : CallId → Option Caller
  login : CallId → Option Attempt

/-! ## The machine -/

namespace View

/-- A connection is fresh until its time to live is over. -/
def isFresh (v : View) (e : Entry) : Bool := v.now < e.createdAt + v.settings.ttl

/-- The fresh connection of a user. -/
def fresh? (v : View) (user : Credentials) : Option Entry := (v.entry user).filter v.isFresh

/-- The view with another connection of a user, or none. -/
def setEntry (user : Credentials) (e : Option Entry) (v : View) : View :=
  { v with entry := Function.update v.entry user e }

/-- The view with a changed desk. -/
def setDesk (user : Credentials) (f : Gate → Gate) (v : View) : View :=
  { v with desk := Function.update v.desk user (f (v.desk user)) }

/-- The view with a call in another state, or without it. -/
def setCall (id : CallId) (c : Option Caller) (v : View) : View :=
  { v with call := Function.update v.call id c }

/-- The view with a login in another state, or without it. -/
def setLogin (id : CallId) (t : Option Attempt) (v : View) : View :=
  { v with login := Function.update v.login id t }

/-- A call in the queue gives up, takes the lock or waits. -/
def proceed (id : CallId) (c : Caller) (v : View) : View × Returned :=
  if c.cancelled then
    ((v.setDesk c.user (Gate.withdraw id)).setCall id none, some (id, .error .cancelled))
  else if !(v.desk c.user).locked ∧ (v.desk c.user).queue.head? = some id then
    ((v.setDesk c.user (Gate.lock id)).setCall id (some { c with stage := .checking }), none)
  else (v.setCall id (some { c with stage := .queued }), none)

/-- A call looks at the store, and takes a place in the queue if it finds nothing there. -/
def lookUp (id : CallId) (c : Caller) (v : View) : View × Returned :=
  match v.fresh? c.user with
  | some e => (v.setCall id none, some (id, .ok e))
  | none =>
    let waiting := (v.desk c.user).waiting
    if v.settings.maxWaiters ≤ waiting then
      (v.setCall id none, some (id, .error (.tooManyWaiters waiting)))
    else proceed id c (v.setDesk c.user (Gate.enter id))

/-- A call waits for its login, or gives up. -/
def join (id : CallId) (c : Caller) (v : View) : View × Returned :=
  if c.cancelled then (v.setCall id none, some (id, .error .cancelled))
  else (v.setCall id (some { c with stage := .joined }), none)

/-- The lock of a desk is free again. -/
def unlock (user : Credentials) (v : View) : View :=
  v.setDesk user fun gate => { gate with locked := false }

/-- A call looks at the store under the lock, and starts a login if it finds nothing there. -/
def check (id : CallId) (c : Caller) (v : View) : View × Returned :=
  match v.fresh? c.user with
  | some e => ((v.unlock c.user).setCall id none, some (id, .ok e))
  | none => join id c (v.setLogin id (some ⟨c.user, .spawned⟩))

/-- A call goes on. -/
def resume (id : CallId) (v : View) : View × Returned :=
  match v.call id with
  | none => (v, none)
  | some c =>
    match c.stage with
    | .arrived => lookUp id c v
    | .queued => proceed id c v
    | .checking => check id c v
    | .joined => join id c v
    | .answered outcome =>
      (v.setCall id none, some (id, if c.cancelled then .error .cancelled else outcome))

/-- The cancellation of a call. -/
def cancel (id : CallId) (v : View) : View :=
  match v.call id with
  | none => v
  | some c => v.setCall id (some { c with cancelled := true })

/-- A call is dropped. -/
def drop (id : CallId) (v : View) : View :=
  match v.call id with
  | none => v
  | some c =>
    match c.stage with
    | .queued => (v.setDesk c.user (Gate.withdraw id)).setCall id none
    | .checking => (v.unlock c.user).setCall id none
    | .arrived | .joined | .answered _ => v.setCall id none

/-- The call that waits for a login gets its outcome. -/
def deliver (id : CallId) (outcome : Outcome) (v : View) : View :=
  match v.call id with
  | none => v
  | some c =>
    match c.stage with
    | .joined => v.setCall id (some { c with stage := .answered outcome })
    | _ => v

/-- A login ends. -/
def finish (id : CallId) (user : Credentials) (outcome : Outcome) (v : View) : View :=
  ((v.setLogin id none).unlock user).deliver id outcome

/-- A login goes on from where its machine stands. -/
def goOn (id : CallId) (t : Attempt) (p : Login.Progress) (v : View) : View :=
  match p with
  | .waiting l => v.setLogin id (some { t with phase := .asking l })
  | .finished (.ok connected) => v.setLogin id (some { t with phase := .storing ⟨connected, v.now⟩ })
  | .finished (.error e) => v.finish id t.user (.error e)

/-- A login goes on without an answer. -/
def run (id : CallId) (v : View) : View :=
  match v.login id with
  | none => v
  | some t =>
    match t.phase with
    | .spawned => v.goOn id t (Login.start v.settings.loginAttempts 0)
    | .asking _ => v
    | .storing e => (v.setEntry t.user (some e)).finish id t.user (.ok e)

/-- A login gets an answer. -/
def answer (id : CallId) (a : Login.Answer) (v : View) : View :=
  match v.login id with
  | none => v
  | some t =>
    match t.phase with
    | .asking l => v.goOn id t (l.receive v.settings.loginAttempts a)
    | .spawned | .storing _ => v

/-- A login breaks down. -/
def crash (id : CallId) (message : String) (v : View) : View :=
  match v.login id with
  | none => v
  | some t => v.finish id t.user (.error (.internal message))

/-- The view after an event, and what a call returned in it. -/
def step (v : View) : Event → View × Returned
  | .call user =>
    ({ v.setCall v.nextCall (some ⟨user, false, .arrived⟩) with nextCall := v.nextCall + 1 }, none)
  | .resume id => v.resume id
  | .cancel id => (v.cancel id, none)
  | .drop id => (v.drop id, none)
  | .run id => (v.run id, none)
  | .answer id a => (v.answer id a, none)
  | .crash id message => (v.crash id message, none)
  | .invalidate user => (v.setEntry user none, none)
  | .expire user => (if (v.fresh? user).isSome then v else v.setEntry user none, none)
  | .advance ms => ({ v with now := v.now + ms }, none)

/-- The view after events, and what calls returned, in order. -/
def after (v : View) : List Event → View × List (CallId × Outcome)
  | [] => (v, [])
  | e :: es => (((v.step e).1.after es).1, (v.step e).2.toList ++ ((v.step e).1.after es).2)

end View

/-! ## How a cache is seen -/

variable {s : Cache} {settings : ConnectionSettings}

/-- The gate of a user, or one where nobody is. -/
def desk (s : Cache) (user : Credentials) : Gate :=
  match s.gateOf.lookup user with
  | some g => s.gate g
  | none => ⟨0, [], false⟩

/-- A cache as it is seen. -/
def view (s : Cache) : View where
  settings := s.settings
  now := s.now
  nextCall := s.nextCall
  entry := s.entry?
  desk := s.desk
  call id := (s.calls.lookup id).map PendingCall.seen
  login id := (s.tasks.lookup id).map LoginTask.seen

theorem waiting_eq (s : Cache) (user : Credentials) : s.waiting user = (s.view.desk user).waiting := by
  cases h : s.gateOf.lookup user <;> simp [waiting, view, desk, h]

theorem desk_of_gateOf {user : Credentials} {g : GateId} (h : s.gateOf.lookup user = some g) :
    s.desk user = s.gate g := by
  unfold desk
  rw [h]

/-! ## Single changes, as they are seen -/

theorem view_setPhase (id : CallId) (c : PendingCall) (phase : CallPhase) (s : Cache) :
    (s.setPhase id c phase).view =
      s.view.setCall id (some ⟨c.user, c.cancelled, phase.stage⟩) := by
  refine View.ext rfl rfl rfl rfl rfl (funext fun i => ?_) rfl
  simp only [view, setPhase, View.setCall, lookup_put, Function.update_apply]
  split <;> rfl

theorem view_putCall (id : CallId) (c : PendingCall) (s : Cache) :
    ({ s with calls := put id c s.calls } : Cache).view = s.view.setCall id (some c.seen) :=
  view_setPhase id c c.phase s

theorem view_eraseCall (id : CallId) (s : Cache) :
    ({ s with calls := erase id s.calls } : Cache).view = s.view.setCall id none := by
  refine View.ext rfl rfl rfl rfl rfl (funext fun i => ?_) rfl
  simp only [view, View.setCall, lookup_erase, Function.update_apply]
  split <;> rfl

theorem view_putTask (id : CallId) (t : LoginTask) (s : Cache) :
    ({ s with tasks := put id t s.tasks } : Cache).view = s.view.setLogin id (some t.seen) := by
  refine View.ext rfl rfl rfl rfl rfl rfl (funext fun i => ?_)
  simp only [view, View.setLogin, lookup_put, Function.update_apply]
  split <;> rfl

theorem view_eraseTask (id : CallId) (s : Cache) :
    ({ s with tasks := erase id s.tasks } : Cache).view = s.view.setLogin id none := by
  refine View.ext rfl rfl rfl rfl rfl rfl (funext fun i => ?_)
  simp only [view, View.setLogin, lookup_erase, Function.update_apply]
  split <;> rfl

theorem view_putEntry (user : Credentials) (e : Entry) (s : Cache) :
    ({ s with entries := put user e s.entries } : Cache).view = s.view.setEntry user (some e) := by
  refine View.ext rfl rfl rfl (funext fun u => ?_) rfl rfl rfl
  simp only [view, entry?, View.setEntry, lookup_put, Function.update_apply]

theorem view_eraseEntry (user : Credentials) (s : Cache) :
    ({ s with entries := erase user s.entries } : Cache).view = s.view.setEntry user none := by
  refine View.ext rfl rfl rfl (funext fun u => ?_) rfl rfl rfl
  simp only [view, entry?, View.setEntry, lookup_erase, Function.update_apply]

/-- A gate is changed, and that is the desk of one user. -/
theorem view_setGate (hok : GatesOK s) (ht : GatesTight s) {user : Credentials} {g : GateId}
    (hg : s.gateOf.lookup user = some g) (f : Gate → Gate) :
    (s.setGate g f).view = s.view.setDesk user f := by
  refine View.ext rfl rfl rfl rfl (funext fun u => ?_) rfl rfl
  have hmade : g < s.gates.length := hok.made user g hg
  show (s.setGate g f).desk u = Function.update s.desk user (f (s.desk user)) u
  rw [Function.update_apply]
  by_cases hu : u = user
  · subst hu
    rw [if_pos rfl, desk_of_gateOf (show (s.setGate g f).gateOf.lookup u = some g from hg),
      desk_of_gateOf hg, gate_setGate, if_pos ⟨rfl, hmade⟩]
  · rw [if_neg hu]
    cases hother : s.gateOf.lookup u with
    | none =>
      unfold desk
      rw [show (s.setGate g f).gateOf = s.gateOf from rfl, hother]
    | some g' =>
      have hne : g' ≠ g := fun he => hu (ht.apart u user g (he ▸ hother) hg)
      rw [desk_of_gateOf (show (s.setGate g f).gateOf.lookup u = some g' from hother),
        desk_of_gateOf hother, gate_setGate, if_neg fun h => hne h.1]

/-- A gate is made, and that is a desk where nobody is. -/
theorem view_gateFor (hok : GatesOK s) (user : Credentials) : (gateFor user s).2.view = s.view := by
  unfold gateFor
  cases hg : s.gateOf.lookup user with
  | some g => rfl
  | none =>
    refine View.ext rfl rfl rfl rfl (funext fun u => ?_) rfl rfl
    simp only [view, desk, lookup_put]
    by_cases hu : u = user
    · subst hu
      rw [if_pos rfl, hg]
      simp [gate]
    · rw [if_neg hu]
      cases hother : s.gateOf.lookup u with
      | none => rfl
      | some g' =>
        have hmade : g' < s.gates.length := hok.made u g' hother
        simp [gate, List.getElem?_append_left hmade]

/-- A gate that nobody uses looks like none. -/
theorem gate_of_unused (hq : QueuesOK s) {g : GateId} (hu : s.isUsed g = false)
    (hl : (s.gate g).locked = false) : s.gate g = ⟨0, [], false⟩ := by
  have hqueue : (s.gate g).queue = [] := by
    rw [List.eq_nil_iff_forall_not_mem]
    intro id hid
    obtain ⟨c, hc, hw⟩ := Option.bind_eq_some_iff.1 ((hq.queued g id).1 hid)
    simp [isUsed_of_call hc (gate?_of_waits? hw)] at hu
  have hwaiting : (s.gate g).waiting = 0 := by rw [hq.counted g, hqueue, List.length_nil]
  calc s.gate g = ⟨(s.gate g).waiting, (s.gate g).queue, (s.gate g).locked⟩ := rfl
    _ = ⟨0, [], false⟩ := by rw [hwaiting, hqueue, hl]

/-- A gate is forgotten, and the desk stays. -/
theorem view_releaseGate {user : Credentials} {g : GateId} (hq : QueuesOK s) :
    (releaseGate user g s).view = s.view := by
  unfold releaseGate
  split
  swap
  · rfl
  rename_i hr
  obtain ⟨hg, hu, hl⟩ := hr
  have hidle := gate_of_unused hq (by simpa using hu) (by simpa using hl)
  refine View.ext rfl rfl rfl rfl (funext fun u => ?_) rfl rfl
  simp only [view, desk, lookup_erase]
  by_cases he : u = user
  · subst he
    rw [if_pos rfl, hg]
    exact hidle.symm
  · rw [if_neg he]
    rfl

/-- Whether a gate is registered does not matter to the queues. -/
theorem queuesOK_of_release {user : Credentials} {g : GateId} (hq : QueuesOK (releaseGate user g s)) :
    QueuesOK s :=
  hq.congr_gate (Aside.releaseGate user g s).settings.symm (fun g' => (gate_releaseGate user g s g').symm)
    fun id => by simp only [waits?, releaseGate_calls]

theorem view_leave {id : CallId} {user : Credentials} {g : GateId} (hq : QueuesOK (leave id user g s)) :
    (leave id user g s).view = s.view.setCall id none := by
  unfold leave at hq ⊢
  rw [view_releaseGate (queuesOK_of_release hq), view_eraseCall]

theorem view_call (s : Cache) (id : CallId) :
    s.view.call id = (s.calls.lookup id).map PendingCall.seen := rfl

theorem view_login (s : Cache) (id : CallId) :
    s.view.login id = (s.tasks.lookup id).map LoginTask.seen := rfl

theorem view_deliver (id : CallId) (outcome : Outcome) (s : Cache) :
    (deliver id outcome s).view = s.view.deliver id outcome := by
  unfold deliver View.deliver
  rw [view_call]
  cases hc : s.calls.lookup id with
  | none => rfl
  | some c =>
    simp only [Option.map_some]
    cases hp : c.phase with
    | joined g =>
      rw [view_setPhase]
      simp only [PendingCall.seen, hp, CallPhase.stage]
    | _ => simp only [PendingCall.seen, hp, CallPhase.stage]

/-! ## Steps, as they are seen -/

/-- What a step of a call comes to, as it is seen. -/
def seen (p : Cache × Returned) : View × Returned := (p.1.view, p.2)

theorem view_proceed {id : CallId} {c : PendingCall} {g : GateId} (hok : GatesOK s) (ht : GatesTight s)
    (hg : s.gateOf.lookup c.user = some g) (hq : QueuesOK (proceed id c g s).1) :
    seen (proceed id c g s) = s.view.proceed id c.seen := by
  have hdesk : s.view.desk c.user = s.gate g := desk_of_gateOf hg
  unfold proceed at hq ⊢
  unfold View.proceed PendingCall.seen
  dsimp only
  rw [hdesk]
  split
  · rename_i hcancelled
    rw [if_pos hcancelled] at hq
    simp only [seen]
    rw [view_leave hq, view_setGate hok ht hg]
  split
  · simp only [seen]
    rw [view_setPhase, view_setGate hok ht hg]
    rfl
  · simp only [seen]
    rw [view_setPhase]
    rfl

theorem view_fresh? (s : Cache) (user : Credentials) : s.view.fresh? user = s.fresh? user := rfl

theorem view_enqueue {id : CallId} {c : PendingCall} (hok : GatesOK s) (ht : GatesTight s)
    (hq : QueuesOK (enqueue id c s).1) (hfresh : s.fresh? c.user = none) :
    seen (enqueue id c s) = s.view.lookUp id c.seen := by
  obtain ⟨hok', hg, -⟩ := hok.gateFor c.user
  have ht' := ht.gateFor hok c.user
  have hview := view_gateFor hok c.user
  have hset := (Aside.gateFor c.user s).settings
  unfold enqueue at hq ⊢
  have hlook : s.view.lookUp id c.seen =
      if s.settings.maxWaiters ≤ (s.view.desk c.user).waiting then
        (s.view.setCall id none, some (id, .error (.tooManyWaiters (s.view.desk c.user).waiting)))
      else (s.view.setDesk c.user (Gate.enter id)).proceed id c.seen := by
    unfold View.lookUp
    rw [show s.view.fresh? c.seen.user = none from hfresh]
    rfl
  rw [hlook]
  generalize gateFor c.user s = p at hok' hg ht' hview hset hq
  obtain ⟨g, s'⟩ := p
  dsimp only at hok' hg ht' hview hset hq ⊢
  have hdesk : s.view.desk c.user = s'.gate g := hview ▸ desk_of_gateOf hg
  rw [hdesk, hset]
  rw [hset] at hq
  split
  · rename_i hfull
    rw [if_pos hfull] at hq
    simp only [seen]
    rw [view_leave hq, hview]
  · rename_i hroom
    rw [if_neg hroom] at hq
    have hset' := view_setGate hok' ht' hg (Gate.enter id)
    rw [hview] at hset'
    rw [← hset']
    exact view_proceed (hok'.setGate g fun _ => rfl) (ht'.setGate g fun _ => rfl) hg hq

theorem view_join {id : CallId} {c : PendingCall} {g : GateId} (hq : QueuesOK (join id c g s).1) :
    seen (join id c g s) = s.view.join id c.seen := by
  unfold join at hq ⊢
  unfold View.join PendingCall.seen
  dsimp only
  split
  · rename_i hcancelled
    rw [if_pos hcancelled] at hq
    simp only [seen]
    rw [view_leave hq]
  · simp only [seen]
    rw [view_setPhase]
    rfl

theorem view_unlock (hok : GatesOK s) (ht : GatesTight s) {user : Credentials} {g : GateId}
    (hg : s.gateOf.lookup user = some g) : (unlock g s).view = s.view.unlock user :=
  view_setGate hok ht hg _

theorem view_check {id : CallId} {c : PendingCall} {g : GateId} (hok : GatesOK s) (ht : GatesTight s)
    (hg : s.gateOf.lookup c.user = some g) (hq : QueuesOK (check id c g s).1) :
    seen (check id c g s) = s.view.check id c.seen := by
  unfold check at hq ⊢
  unfold View.check
  rw [show s.view.fresh? c.seen.user = s.fresh? c.user from rfl]
  cases hfresh : s.fresh? c.user with
  | some e =>
    simp only [hfresh] at hq ⊢
    simp only [seen]
    rw [view_leave hq, view_unlock hok ht hg]
    rfl
  | none =>
    simp only [hfresh] at hq ⊢
    have hput := view_putTask id ⟨c.user, g, .spawned⟩ s
    rw [view_join hq, hput]
    rfl

theorem view_resume {id : CallId} (hok : GatesOK s) (ht : GatesTight s)
    (hq : QueuesOK (resume id s).1) : seen (resume id s) = s.view.resume id := by
  unfold resume at hq ⊢
  unfold View.resume
  rw [view_call]
  cases hc : s.calls.lookup id with
  | none => rfl
  | some c =>
    have hgate : ∀ g, CallPhase.gate? c.phase = some g → s.gateOf.lookup c.user = some g :=
      fun g => hok.callGate id c g hc
    simp only [hc, Option.map_some] at hq ⊢
    have hstage : c.seen.stage = c.phase.stage := rfl
    cases hp : c.phase with
    | arrived =>
      simp only [hp] at hq
      simp only [hstage, hp, CallPhase.stage]
      unfold lookUp at hq ⊢
      cases hfresh : s.fresh? c.user with
      | some e =>
        simp only [seen]
        rw [show ({ s with hits := s.hits + 1, calls := erase id s.calls } : Cache).view =
          s.view.setCall id none from view_eraseCall id s]
        unfold View.lookUp
        rw [show s.view.fresh? c.seen.user = some e from hfresh]
      | none =>
        simp only [hfresh] at hq
        exact view_enqueue (s := { s with misses := s.misses + 1 })
          (hok.of_same rfl rfl rfl rfl rfl) ⟨ht.apart, ht.held⟩ hq hfresh
    | queued g =>
      simp only [hp] at hq
      simp only [hstage, hp, CallPhase.stage]
      exact view_proceed hok ht (hgate g (by simp [hp, CallPhase.gate?])) hq
    | checking g =>
      simp only [hp] at hq
      simp only [hstage, hp, CallPhase.stage]
      exact view_check hok ht (hgate g (by simp [hp, CallPhase.gate?])) hq
    | joined g =>
      simp only [hp] at hq
      simp only [hstage, hp, CallPhase.stage]
      exact view_join hq
    | answered g outcome =>
      simp only [hp] at hq
      simp only [hstage, hp, CallPhase.stage]
      cases hcancelled : c.cancelled with
      | true =>
        rw [hcancelled, if_pos rfl] at hq
        simp [seen, PendingCall.seen, hcancelled, view_leave hq]
      | false =>
        rw [hcancelled, if_neg (by simp)] at hq
        simp [seen, PendingCall.seen, hcancelled, view_leave hq]

theorem view_dropCall {id : CallId} (hok : GatesOK s) (ht : GatesTight s)
    (hq : QueuesOK (dropCall id s)) : (dropCall id s).view = s.view.drop id := by
  unfold dropCall at hq ⊢
  unfold View.drop
  rw [view_call]
  cases hc : s.calls.lookup id with
  | none => rfl
  | some c =>
    have hgate : ∀ g, CallPhase.gate? c.phase = some g → s.gateOf.lookup c.user = some g :=
      fun g => hok.callGate id c g hc
    simp only [hc, Option.map_some] at hq ⊢
    have hstage : c.seen.stage = c.phase.stage := rfl
    have huser : c.seen.user = c.user := rfl
    cases hp : c.phase with
    | arrived =>
      simp only [hstage, hp, CallPhase.stage]
      exact view_eraseCall id s
    | queued g =>
      simp only [hp] at hq
      simp only [hstage, hp, CallPhase.stage]
      rw [view_leave hq, view_setGate hok ht (hgate g (by simp [hp, CallPhase.gate?])), huser]
    | checking g =>
      simp only [hp] at hq
      simp only [hstage, hp, CallPhase.stage]
      rw [view_leave hq, view_unlock hok ht (hgate g (by simp [hp, CallPhase.gate?])), huser]
    | joined g | answered g outcome =>
      simp only [hp] at hq
      simp only [hstage, hp, CallPhase.stage]
      exact view_leave hq

theorem view_cancelCall (id : CallId) (s : Cache) : (cancelCall id s).view = s.view.cancel id := by
  unfold cancelCall View.cancel
  rw [view_call]
  cases s.calls.lookup id with
  | none => rfl
  | some c => exact view_putCall id { c with cancelled := true } s

/-- A login is gone, its lock is free and its outcome delivered. -/
theorem view_finish {id : CallId} {t : LoginTask} (outcome : Outcome) (hok : GatesOK s)
    (ht : GatesTight s) (hi : s.tasks.lookup id = some t) :
    (deliver id outcome (unlock t.gate { s with tasks := erase id s.tasks })).view =
      s.view.finish id t.user outcome := by
  have herase := view_eraseTask id (unlock t.gate s)
  rw [view_unlock hok ht (hok.taskGate id t hi)] at herase
  rw [view_deliver]
  exact congrArg (View.deliver id outcome) herase

theorem view_endTask {id : CallId} {t : LoginTask} {outcome : Outcome} (hok : GatesOK s)
    (ht : GatesTight s) (hi : s.tasks.lookup id = some t) (hq : QueuesOK (endTask id t outcome s)) :
    (endTask id t outcome s).view = s.view.finish id t.user outcome := by
  unfold endTask at hq ⊢
  rw [view_releaseGate (queuesOK_of_release hq), view_finish outcome hok ht hi]

theorem view_advanceTask {id : CallId} {t : LoginTask} {p : Login.Progress} (hok : GatesOK s)
    (ht : GatesTight s) (hi : s.tasks.lookup id = some t) (hq : QueuesOK (advanceTask id t p s)) :
    (advanceTask id t p s).view = s.view.goOn id t.seen p := by
  unfold advanceTask at hq ⊢
  unfold View.goOn
  rcases p with l | e | connected
  · exact view_putTask id { t with phase := .asking l } s
  · exact view_endTask hok ht hi hq
  · exact view_putTask id { t with phase := .storing ⟨connected, s.now⟩ } s

theorem view_runTask {id : CallId} (hok : GatesOK s) (ht : GatesTight s) (hq : QueuesOK (runTask id s)) :
    (runTask id s).view = s.view.run id := by
  unfold runTask at hq ⊢
  unfold View.run
  rw [view_login]
  cases hi : s.tasks.lookup id with
  | none => rfl
  | some t =>
    simp only [hi, Option.map_some] at hq ⊢
    have hphase : t.seen.phase = t.phase := rfl
    cases hp : t.phase with
    | spawned =>
      simp only [hp] at hq
      simp only [hphase, hp]
      exact view_advanceTask hok ht hi hq
    | asking l => simp only [hphase, hp]
    | storing e =>
      simp only [hp] at hq
      simp only [hphase, hp]
      rw [view_endTask (s := { s with entries := put t.user e s.entries })
        (hok.of_same rfl rfl rfl rfl rfl) ⟨ht.apart, ht.held⟩ hi hq, view_putEntry]
      rfl

theorem view_answerTask {id : CallId} {a : Login.Answer} (hok : GatesOK s) (ht : GatesTight s)
    (hq : QueuesOK (answerTask id a s)) : (answerTask id a s).view = s.view.answer id a := by
  unfold answerTask at hq ⊢
  unfold View.answer
  rw [view_login]
  cases hi : s.tasks.lookup id with
  | none => rfl
  | some t =>
    simp only [hi, Option.map_some] at hq ⊢
    have hphase : t.seen.phase = t.phase := rfl
    cases hp : t.phase with
    | asking l =>
      simp only [hp] at hq
      simp only [hphase, hp]
      exact view_advanceTask hok ht hi hq
    | spawned | storing e => simp only [hphase, hp]

theorem view_crashTask {id : CallId} {message : String} (hok : GatesOK s) (ht : GatesTight s) :
    (crashTask id message s).view = s.view.crash id message := by
  unfold crashTask View.crash
  rw [view_login]
  cases hi : s.tasks.lookup id with
  | none => rfl
  | some t => exact view_finish _ hok ht hi

/-- A call arrives under a number that no call has had. -/
theorem view_newCall (hok : GatesOK s) (user : Credentials) :
    (s.step (.call user)).1.view = (s.view.step (.call user)).1 := by
  refine View.ext rfl rfl rfl rfl rfl (funext fun id => ?_) rfl
  have hnew := hok.lookup_nextCall
  simp only [step, View.step, View.setCall, view, List.lookup_append, Function.update_apply,
    lookup_cons_ite]
  by_cases hid : id = s.nextCall
  · subst hid
    rw [if_pos rfl, if_pos rfl, hnew]
    rfl
  · rw [if_neg hid, if_neg hid, List.lookup_nil, Option.or_none]

/-- **A step of the cache is a step of what is seen of it.** -/
theorem view_step (h : InOrder settings s) (e : Event) : seen (s.step e) = s.view.step e := by
  have hq := (h.step e).queues
  cases e with
  | call user => exact congrArg (·, none) (view_newCall h.gates user)
  | resume id => exact view_resume h.gates h.tight hq
  | cancel id => exact congrArg (·, none) (view_cancelCall id s)
  | drop id => exact congrArg (·, none) (view_dropCall h.gates h.tight hq)
  | run id => exact congrArg (·, none) (view_runTask h.gates h.tight hq)
  | answer id a => exact congrArg (·, none) (view_answerTask h.gates h.tight hq)
  | crash id message => exact congrArg (·, none) (view_crashTask h.gates h.tight)
  | invalidate user => exact congrArg (·, none) (view_eraseEntry user s)
  | expire user =>
    refine congrArg (·, none) ?_
    show (expire user s).view = if (s.fresh? user).isSome then s.view else s.view.setEntry user none
    unfold expire
    split
    · rfl
    · exact view_eraseEntry user s
  | advance ms => rfl

theorem step_view (h : InOrder settings s) (e : Event) : (s.step e).1.view = (s.view.step e).1 :=
  congrArg Prod.fst (view_step h e)

/-- **A run of the cache is a run of what is seen of it.** -/
theorem view_run (h : InOrder settings s) (es : List Event) :
    (s.run es).1.view = (s.view.after es).1 ∧ (s.run es).2 = (s.view.after es).2 := by
  induction es generalizing s with
  | nil => exact ⟨rfl, rfl⟩
  | cons e es ih =>
    obtain ⟨hview, hreturned⟩ := ih (h.step e)
    have hsnd : (s.step e).2 = (s.view.step e).2 := congrArg Prod.snd (view_step h e)
    rw [step_view h e] at hview hreturned
    exact ⟨hview, congrArg₂ (· ++ ·) (congrArg Option.toList hsnd) hreturned⟩

/-- The calls in the queue of a desk are calls of its user that wait there. -/
theorem InOrder.queued (h : InOrder settings s) {user : Credentials} {id : CallId}
    (hid : id ∈ (s.view.desk user).queue) :
    ∃ c, s.view.call id = some c ∧ c.user = user ∧ c.stage = .queued := by
  cases hg : s.gateOf.lookup user with
  | none => simp [view, desk, hg] at hid
  | some g =>
    have hgate : id ∈ (s.gate g).queue := desk_of_gateOf hg ▸ hid
    obtain ⟨c, hc, hw⟩ := Option.bind_eq_some_iff.1 ((h.queues.queued g id).1 hgate)
    have hreg := h.gates.callGate id c g hc (gate?_of_waits? hw)
    have huser : c.user = user := h.tight.apart _ _ g hreg hg
    refine ⟨c.seen, by rw [view_call, hc]; rfl, huser, ?_⟩
    show c.phase.stage = .queued
    cases hp : c.phase with
    | queued g' => rfl
    | _ => simp [hp, CallPhase.waits?] at hw

end Cache

end LedgerFront
