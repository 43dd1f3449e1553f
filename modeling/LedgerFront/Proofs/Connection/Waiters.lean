import Mathlib.Data.List.Perm.Subperm
import LedgerFront.Proofs.Connection.Moves
import LedgerFront.Proofs.Connection.Sound

/-!
# Queues and their counters

A call is in the queue of a gate from its admission until it gets the lock or leaves. The counter
of the gate says how many calls are in the queue, and never more than the settings allow.

* `QueuesOK.move`, `QueuesOK.step`: whatever happens keeps queues and counters in order.
* `QueuesOK.length_queuedAt`: the counter is the number of calls that wait.
* `refused_iff`: a call is refused where the queue is full, and nowhere else.
-/

namespace LedgerFront.Cache

open Pairs

variable {s s' : Cache}

/-- The gate in whose queue a call waits in this phase. -/
def CallPhase.waits? : CallPhase → Option GateId
  | .queued g => some g
  | _ => none

/-- The gate in whose queue a call waits. -/
def waits? (s : Cache) (id : CallId) : Option GateId :=
  (s.calls.lookup id).bind fun c => CallPhase.waits? c.phase

/-- The calls that wait in the queue of a gate. -/
def queuedAt (s : Cache) (g : GateId) : List (CallId × PendingCall) :=
  s.calls.filter fun p => CallPhase.waits? p.2.phase = some g

/-- **The state of the queues.** The calls that wait at a gate stand in its queue, each once; the
counter says how many they are, and there is room for all of them. -/
structure QueuesOK (s : Cache) : Prop where
  counted : ∀ g, (s.gate g).waiting = (s.gate g).queue.length
  once : ∀ g, (s.gate g).queue.Nodup
  queued : ∀ g id, id ∈ (s.gate g).queue ↔ s.waits? id = some g
  bounded : ∀ g, (s.gate g).waiting ≤ s.settings.maxWaiters

theorem queuesOK_empty (settings : ConnectionSettings) : QueuesOK (empty settings) where
  counted := by simp [empty, gate]
  once := by simp [empty, gate]
  queued := by simp [empty, gate, waits?]
  bounded := by simp [empty, gate]

/-! ## Who waits -/

theorem waits?_setPhase (id : CallId) (c : PendingCall) (phase : CallPhase) (s : Cache) (i : CallId) :
    (s.setPhase id c phase).waits? i = if i = id then CallPhase.waits? phase else s.waits? i := by
  unfold waits? setPhase
  rw [lookup_put]
  split <;> rfl

theorem waits?_leave (id : CallId) (user : Credentials) (g : GateId) (s : Cache) (i : CallId) :
    (leave id user g s).waits? i = if i = id then none else s.waits? i := by
  unfold waits?
  rw [leave_calls, lookup_erase]
  split <;> rfl

theorem waits?_of_lookup {id : CallId} {c : PendingCall} (hc : s.calls.lookup id = some c) :
    s.waits? id = CallPhase.waits? c.phase := by
  simp [waits?, hc]

/-- Nothing changes for the queues when a call that does not wait leaves. -/
theorem waits?_leave_of_none {id : CallId} (h : s.waits? id = none) (user : Credentials) (g : GateId)
    (i : CallId) : (leave id user g s).waits? i = s.waits? i := by
  rw [waits?_leave]
  split
  · rename_i hi
    rw [hi, h]
  · rfl

theorem waits?_setPhase_of_eq {id : CallId} {phase : CallPhase}
    (h : s.waits? id = CallPhase.waits? phase) (c : PendingCall) (i : CallId) :
    (s.setPhase id c phase).waits? i = s.waits? i := by
  rw [waits?_setPhase]
  split
  · rename_i hi
    rw [hi, h]
  · rfl

theorem waits?_deliver (id : CallId) (outcome : Outcome) (s : Cache) (i : CallId) :
    (deliver id outcome s).waits? i = s.waits? i := by
  unfold deliver
  split
  swap
  · rfl
  rename_i c hc
  split
  · rename_i g hp
    exact waits?_setPhase_of_eq (by rw [waits?_of_lookup hc, hp]; rfl) c i
  · rfl

theorem releaseGate_gates (user : Credentials) (g : GateId) (s : Cache) :
    (releaseGate user g s).gates = s.gates := by
  unfold releaseGate
  split <;> rfl

theorem gate_releaseGate (user : Credentials) (g : GateId) (s : Cache) (g' : GateId) :
    (releaseGate user g s).gate g' = s.gate g' := by
  unfold gate
  rw [releaseGate_gates]

theorem gate_leave (id : CallId) (user : Credentials) (g : GateId) (s : Cache) (g' : GateId) :
    (leave id user g s).gate g' = s.gate g' := gate_releaseGate ..

theorem gate_deliver (id : CallId) (outcome : Outcome) (s : Cache) (g : GateId) :
    (deliver id outcome s).gate g = s.gate g := by
  unfold deliver
  split
  · split <;> rfl
  · rfl

/-- A new gate has an empty queue and a free lock, as one has that was never made. -/
theorem gate_gateFor (user : Credentials) (s : Cache) (g : GateId) :
    (gateFor user s).2.gate g = s.gate g := by
  unfold gateFor
  split
  · rfl
  unfold gate
  simp only [List.getElem?_append]
  split
  · rfl
  · rename_i hlen
    rw [List.getElem?_eq_none (Nat.le_of_not_lt hlen)]
    cases (g - s.gates.length) <;> rfl

theorem waits?_gateFor (user : Credentials) (s : Cache) (id : CallId) :
    (gateFor user s).2.waits? id = s.waits? id := by
  unfold waits?
  rw [gateFor_calls]

/-- Whoever stands in a queue is at a gate that has been made. -/
theorem made_of_mem_queue {g : GateId} {id : CallId} (hid : id ∈ (s.gate g).queue) :
    g < s.gates.length := by
  by_contra hlen
  simp [gate, List.getElem?_eq_none (Nat.le_of_not_lt hlen)] at hid

/-! ## What moves keep -/

namespace QueuesOK

/-- Only queues, counters and waiting calls matter. -/
theorem congr (h : QueuesOK s) (hset : s'.settings = s.settings)
    (hcount : ∀ g, (s'.gate g).waiting = (s.gate g).waiting)
    (hqueue : ∀ g, (s'.gate g).queue = (s.gate g).queue) (hw : ∀ id, s'.waits? id = s.waits? id) :
    QueuesOK s' where
  counted g := by rw [hcount, hqueue, h.counted]
  once g := hqueue g ▸ h.once g
  queued g id := by rw [hqueue, hw, h.queued]
  bounded g := by rw [hcount, hset]; exact h.bounded g

/-- The gates are the same, and who waits. -/
theorem congr_gate (h : QueuesOK s) (hset : s'.settings = s.settings)
    (hgate : ∀ g, s'.gate g = s.gate g) (hw : ∀ id, s'.waits? id = s.waits? id) : QueuesOK s' :=
  h.congr hset (fun g => by rw [hgate]) (fun g => by rw [hgate]) hw

theorem unlock (h : QueuesOK s) (g : GateId) : QueuesOK (Cache.unlock g s) := by
  have hsame : ∀ g', ((Cache.unlock g s).gate g').waiting = (s.gate g').waiting ∧
      ((Cache.unlock g s).gate g').queue = (s.gate g').queue := by
    intro g'
    unfold Cache.unlock
    rw [gate_setGate]
    split
    · rename_i hg
      rw [hg.1]
      exact ⟨rfl, rfl⟩
    · exact ⟨rfl, rfl⟩
  exact h.congr rfl (fun g' => (hsame g').1) (fun g' => (hsame g').2) fun _ => rfl

theorem deliver (h : QueuesOK s) (id : CallId) (outcome : Outcome) :
    QueuesOK (Cache.deliver id outcome s) :=
  h.congr_gate (Aside.deliver id outcome s).settings (gate_deliver id outcome s)
    (waits?_deliver id outcome s)

theorem release (h : QueuesOK s) (user : Credentials) (g : GateId) :
    QueuesOK (releaseGate user g s) :=
  h.congr_gate (Aside.releaseGate user g s).settings (gate_releaseGate user g s) fun id => by
    unfold waits?
    rw [releaseGate_calls]

theorem gateFor (h : QueuesOK s) (user : Credentials) : QueuesOK (gateFor user s).2 :=
  h.congr_gate (Aside.gateFor user s).settings (gate_gateFor user s) (waits?_gateFor user s)

/-- A call that does not wait leaves. -/
theorem leave (h : QueuesOK s) {id : CallId} (hid : s.waits? id = none) (user : Credentials)
    (g : GateId) : QueuesOK (Cache.leave id user g s) :=
  h.congr_gate (Aside.leave id user g s).settings (gate_leave id user g s)
    (waits?_leave_of_none hid user g)

/-- A call goes on that does not wait, neither before nor after. -/
theorem setPhase (h : QueuesOK s) {id : CallId} {phase : CallPhase}
    (hid : s.waits? id = CallPhase.waits? phase) (c : PendingCall) : QueuesOK (s.setPhase id c phase) :=
  h.congr_gate rfl (fun _ => rfl) (waits?_setPhase_of_eq hid c)

/-- **A call takes its place in the queue** of a gate that has room. -/
theorem admitted (h : QueuesOK s) {id : CallId} {g : GateId} (hg : g < s.gates.length)
    (hid : s.waits? id = none) (hroom : (s.gate g).waiting < s.settings.maxWaiters)
    (c : PendingCall) : QueuesOK ((s.setGate g (Gate.enter id)).setPhase id c (.queued g)) := by
  have hgate : ∀ g', ((s.setGate g (Gate.enter id)).setPhase id c (.queued g)).gate g' =
      if g' = g then Gate.enter id (s.gate g) else s.gate g' := by
    intro g'
    show (s.setGate g (Gate.enter id)).gate g' = _
    simp [gate_setGate, hg]
  have hw : ∀ i, ((s.setGate g (Gate.enter id)).setPhase id c (.queued g)).waits? i =
      if i = id then some g else s.waits? i := fun i => waits?_setPhase id c _ _ i
  have hnew : ∀ g', id ∉ (s.gate g').queue := by simp [h.queued, hid]
  refine ⟨fun g' => ?_, fun g' => ?_, fun g' i => ?_, fun g' => ?_⟩ <;> rw [hgate]
  · split
    · simp [Gate.enter, h.counted]
    · exact h.counted g'
  · split
    · exact List.nodup_append.2 ⟨h.once g, by simp, by
        rintro a ha b hb rfl
        exact hnew g (List.mem_singleton.1 hb ▸ ha)⟩
    · exact h.once g'
  · rw [hw]
    by_cases hi : i = id
    · subst hi
      by_cases hg' : g' = g
      · simp [hg', Gate.enter]
      · simp [hg', hnew, Ne.symm hg']
    · by_cases hg' : g' = g
      · simp [hi, hg', Gate.enter, h.queued]
      · simp [hi, hg', h.queued]
  · split
    · exact hroom
    · exact h.bounded g'

/-- **A call leaves the queue**; the others stay in their order. -/
theorem withdrawn (h : QueuesOK s) {id : CallId} {g : GateId} (hid : s.waits? id = some g)
    (hset : s'.settings = s.settings)
    (hcount : ∀ g', (s'.gate g').waiting = if g' = g then (s.gate g).waiting - 1 else (s.gate g').waiting)
    (hqueue : ∀ g', (s'.gate g').queue =
      if g' = g then (s.gate g).queue.filter (· ≠ id) else (s.gate g').queue)
    (hw : ∀ i, s'.waits? i = if i = id then none else s.waits? i) : QueuesOK s' := by
  have hmem : id ∈ (s.gate g).queue := (h.queued g id).2 hid
  refine ⟨fun g' => ?_, fun g' => ?_, fun g' i => ?_, fun g' => ?_⟩
  · rw [hcount, hqueue]
    split
    · have hlen := List.length_erase_of_mem hmem
      rw [(h.once g).erase_eq_filter] at hlen
      rw [h.counted, ← hlen]
      congr 1
      exact List.filter_congr fun a _ => by rw [Bool.eq_iff_iff]; simp
    · exact h.counted g'
  · rw [hqueue]
    split
    · exact (h.once g).filter _
    · exact h.once g'
  · rw [hqueue, hw]
    by_cases hi : i = id
    · subst hi
      by_cases hg' : g' = g
      · simp [hg']
      · simp [hg', h.queued, hid, Ne.symm hg']
    · by_cases hg' : g' = g
      · simp [hi, hg', h.queued]
      · simp [hi, hg', h.queued]
  · rw [hcount, hset]
    split
    · exact Nat.le_trans (Nat.sub_le _ _) (h.bounded g)
    · exact h.bounded g'

theorem endTask (h : QueuesOK s) (id : CallId) (t : LoginTask) (outcome : Outcome) :
    QueuesOK (endTask id t outcome s) := by
  have hs : QueuesOK { s with tasks := erase id s.tasks } :=
    h.congr_gate rfl (fun _ => rfl) fun _ => rfl
  exact ((hs.unlock t.gate).deliver id outcome).release t.user t.gate

section

variable {id : CallId} {c : PendingCall} {g : GateId}

theorem of_sameQueues (h : QueuesOK s) (hs : SameQueues s s') : QueuesOK s' := by
  refine h.congr_gate hs.settings (fun g => ?_) fun id => ?_
  · unfold gate
    rw [hs.gates]
  · unfold waits?
    rw [hs.calls]

theorem arrived (h : QueuesOK s) (user : Credentials) : QueuesOK (s.step (.call user)).1 := by
  refine h.congr_gate rfl (fun _ => rfl) fun id => ?_
  unfold waits?
  simp only [step, List.lookup_append, lookup_cons_ite, List.lookup_nil]
  cases s.calls.lookup id with
  | some c => rfl
  | none => split <;> rfl

theorem cancelled (h : QueuesOK s) (id : CallId) : QueuesOK (cancelCall id s) := by
  refine h.congr_gate (Aside.cancelCall id s).settings (fun g => ?_) fun i => ?_
  · unfold cancelCall
    split <;> rfl
  · unfold cancelCall
    split
    swap
    · rfl
    rename_i c hc
    unfold waits?
    simp only [lookup_put]
    split
    · rename_i hi
      simp [hi, hc]
    · rfl

theorem passed (h : QueuesOK s) (hc : s.calls.lookup id = some c) (hp : c.phase = .arrived) :
    QueuesOK { s with calls := erase id s.calls } := by
  refine h.congr_gate rfl (fun _ => rfl) fun i => ?_
  unfold waits?
  simp only [lookup_erase]
  split
  · rename_i hi
    simp [hi, hc, hp, CallPhase.waits?]
  · rfl

theorem refused (h : QueuesOK s) (hc : s.calls.lookup id = some c) (hp : c.phase = .arrived) :
    QueuesOK (Cache.leave id c.user (Cache.gateFor c.user s).1 (Cache.gateFor c.user s).2) := by
  refine (h.gateFor c.user).leave ?_ c.user _
  rw [waits?_gateFor, waits?_of_lookup hc, hp]
  rfl

theorem entered (h : QueuesOK s) (hg : GatesOK s) (hc : s.calls.lookup id = some c)
    (hp : c.phase = .arrived)
    (hroom : ((Cache.gateFor c.user s).2.gate (Cache.gateFor c.user s).1).waiting < s.settings.maxWaiters) :
    QueuesOK (((Cache.gateFor c.user s).2.setGate (Cache.gateFor c.user s).1 (Gate.enter id)).setPhase
      id c (.queued (Cache.gateFor c.user s).1)) := by
  have hgate := hg.gateFor c.user
  refine (h.gateFor c.user).admitted (hgate.1.made _ _ hgate.2.1) ?_ ?_ c
  · rw [waits?_gateFor, waits?_of_lookup hc, hp]
    rfl
  · rw [(Aside.gateFor c.user s).settings]
    exact hroom

/-- A call in the queue gives up. -/
theorem gaveUp (h : QueuesOK s) (hc : s.calls.lookup id = some c) (hp : c.phase = .queued g) :
    QueuesOK (Cache.leave id c.user g (s.setGate g (Gate.withdraw id))) := by
  have hid : s.waits? id = some g := by rw [waits?_of_lookup hc, hp]; rfl
  have hmade := made_of_mem_queue ((h.queued g id).2 hid)
  refine h.withdrawn hid (Aside.leave id c.user g _).settings (fun g' => ?_) (fun g' => ?_) fun i => ?_
  · rw [gate_leave, gate_setGate]
    by_cases hg' : g' = g <;> simp [hg', hmade, Gate.withdraw]
  · rw [gate_leave, gate_setGate]
    by_cases hg' : g' = g <;> simp [hg', hmade, Gate.withdraw]
  · rw [waits?_leave]
    rfl

theorem locked (h : QueuesOK s) (hc : s.calls.lookup id = some c) (hp : c.phase = .queued g) :
    QueuesOK ((s.setGate g (Gate.lock id)).setPhase id c (.checking g)) := by
  have hid : s.waits? id = some g := by rw [waits?_of_lookup hc, hp]; rfl
  have hmade := made_of_mem_queue ((h.queued g id).2 hid)
  have hgate : ∀ g', ((s.setGate g (Gate.lock id)).setPhase id c (.checking g)).gate g' =
      if g' = g then Gate.lock id (s.gate g) else s.gate g' := by
    intro g'
    show (s.setGate g (Gate.lock id)).gate g' = _
    simp [gate_setGate, hmade]
  refine h.withdrawn hid rfl (fun g' => ?_) (fun g' => ?_) fun i => ?_
  · rw [hgate]
    split <;> rfl
  · rw [hgate]
    split <;> rfl
  · rw [waits?_setPhase]
    rfl

theorem unlocked (h : QueuesOK s) (hc : s.calls.lookup id = some c) (hp : c.phase = .checking g) :
    QueuesOK (Cache.leave id c.user g (Cache.unlock g s)) := by
  refine (h.unlock g).leave ?_ c.user g
  show s.waits? id = none
  rw [waits?_of_lookup hc, hp]
  rfl

theorem started (h : QueuesOK s) (hc : s.calls.lookup id = some c) (hp : c.phase = .checking g) :
    QueuesOK ({ s with tasks := put id ⟨c.user, g, .spawned⟩ s.tasks }.setPhase id c (.joined g)) := by
  have hs : QueuesOK { s with tasks := put id ⟨c.user, g, .spawned⟩ s.tasks } :=
    h.congr_gate rfl (fun _ => rfl) fun _ => rfl
  refine hs.setPhase ?_ c
  show s.waits? id = none
  rw [waits?_of_lookup hc, hp]
  rfl

/-- A call leaves that waits for its login or has its outcome. -/
theorem gone (h : QueuesOK s) (hc : s.calls.lookup id = some c)
    (hp : c.phase = .joined g ∨ ∃ o, c.phase = .answered g o) : QueuesOK (Cache.leave id c.user g s) := by
  refine h.leave ?_ c.user g
  rw [waits?_of_lookup hc]
  obtain hp | ⟨o, hp⟩ := hp <;> rw [hp] <;> rfl

end

/-- **A move** keeps queues and counters in order. -/
theorem move (h : QueuesOK s) (hg : GatesOK s) (hm : Move s s') : QueuesOK s' := by
  cases hm with
  | store _ hs => exact h.of_sameQueues hs
  | arrive user => exact h.arrived user
  | cancel id => exact h.cancelled id
  | pass hc hp => exact h.passed hc hp
  | refuse hc hp => exact h.refused hc hp
  | enter hc hp hroom => exact h.entered hg hc hp hroom
  | withdraw hc hp => exact h.gaveUp hc hp
  | lock hc hp => exact h.locked hc hp
  | unlock hc hp => exact h.unlocked hc hp
  | start hc hp => exact h.started hc hp
  | leave hc hp => exact h.gone hc hp
  | goOn => exact h.congr_gate rfl (fun _ => rfl) fun _ => rfl
  | finish => exact h.endTask _ _ _

theorem leads (h : QueuesOK s) (hg : GatesOK s) (hm : Leads s s') : QueuesOK s' := by
  induction hm with
  | refl => exact h
  | tail hinit hlast ih => exact ih.move (hg.leads hinit) hlast

theorem crashTask (h : QueuesOK s) (id : CallId) (message : String) :
    QueuesOK (crashTask id message s) := by
  unfold Cache.crashTask
  split
  · exact h
  rename_i t _
  have hs : QueuesOK { s with tasks := erase id s.tasks } :=
    h.congr_gate rfl (fun _ => rfl) fun _ => rfl
  exact (hs.unlock t.gate).deliver id _

/-- **Whatever happens keeps queues and counters in order.** -/
theorem step (h : QueuesOK s) (hg : GatesOK s) (hs : Unstarted s) (e : Event) :
    QueuesOK (s.step e).1 := by
  cases e with
  | crash id message => exact h.crashTask id message
  | _ => exact h.leads hg (leads_step hs rfl)

/-- **The counter of a gate** is the number of calls that wait there. -/
theorem length_queuedAt (h : QueuesOK s) (hg : GatesOK s) (g : GateId) :
    (s.queuedAt g).length = (s.gate g).waiting := by
  have hnodup : ((s.queuedAt g).map (·.1)).Nodup :=
    (List.Sublist.map Prod.fst List.filter_sublist).nodup hg.callKeys
  have hperm : ((s.queuedAt g).map (·.1)).Perm (s.gate g).queue := by
    refine (List.perm_ext_iff_of_nodup hnodup (h.once g)).2 fun id => ?_
    rw [h.queued]
    constructor
    · intro hid
      obtain ⟨⟨i, c⟩, hmem, rfl⟩ := List.mem_map.1 hid
      obtain ⟨hc, hw⟩ := List.mem_filter.1 hmem
      rw [waits?_of_lookup (lookup_of_mem hg.callKeys hc)]
      simpa using hw
    · intro hid
      obtain ⟨c, hc, hw⟩ := Option.bind_eq_some_iff.1 hid
      exact List.mem_map.2 ⟨(id, c), List.mem_filter.2 ⟨mem_of_lookup hc, by simpa using hw⟩, rfl⟩
  rw [h.counted, ← hperm.length_eq, List.length_map]

end QueuesOK

/-! ## Refusals -/

/-- The calls of a user that wait for the login. -/
def waiters (s : Cache) (user : Credentials) : List (CallId × PendingCall) :=
  s.calls.filter fun p => p.2.user = user ∧ (CallPhase.waits? p.2.phase).isSome

theorem gate?_of_waits? {phase : CallPhase} {g : GateId} (h : CallPhase.waits? phase = some g) :
    CallPhase.gate? phase = some g := by
  cases phase <;> simp_all [CallPhase.waits?, CallPhase.gate?]

/-- No call has a refusal for its answer: a call that is refused returns at once. -/
def Unrefused (s : Cache) : Prop :=
  ∀ id c g n, s.calls.lookup id = some c → c.phase ≠ .answered g (.error (.tooManyWaiters n))

namespace Unrefused

theorem of_calls (h : Unrefused s) (hcalls : ∀ id c, s'.calls.lookup id = some c →
    s.calls.lookup id = some c ∨ ∀ g n, c.phase ≠ .answered g (.error (.tooManyWaiters n))) :
    Unrefused s' := by
  intro id c g n hc
  obtain hold | hnew := hcalls id c hc
  · exact h id c g n hold
  · exact hnew g n

theorem leave (h : Unrefused s) (id : CallId) (user : Credentials) (g : GateId) :
    Unrefused (Cache.leave id user g s) :=
  h.of_calls fun _ _ hc => .inl (lookup_of_erase (leave_calls id user g s ▸ hc))

theorem setPhase (h : Unrefused s) (id : CallId) (c : PendingCall) {phase : CallPhase}
    (hp : ∀ g n, phase ≠ .answered g (.error (.tooManyWaiters n))) :
    Unrefused (s.setPhase id c phase) := by
  refine h.of_calls fun i d hd => ?_
  unfold Cache.setPhase at hd
  rw [lookup_put] at hd
  split at hd
  · obtain rfl := Option.some.inj hd
    exact .inr hp
  · exact .inl hd

theorem deliver (h : Unrefused s) (id : CallId) {outcome : Outcome}
    (ho : ∀ n, outcome ≠ .error (.tooManyWaiters n)) : Unrefused (deliver id outcome s) := by
  unfold Cache.deliver
  split
  swap
  · exact h
  split
  · exact h.setPhase id _ fun g n hp => ho n (CallPhase.answered.inj hp).2
  · exact h

theorem move (h : Unrefused s) (hm : Move s s') : Unrefused s' := by
  have hgate : ∀ user, Unrefused (gateFor user s).2 := fun user => by
    unfold Unrefused
    rw [gateFor_calls]
    exact h
  cases hm with
  | store _ hs => exact h.of_calls fun id c hc => .inl (hs.calls ▸ hc)
  | arrive user =>
    refine h.of_calls fun id c hc => ?_
    simp only [step, List.lookup_append, Option.or_eq_some_iff, lookup_cons_ite] at hc
    obtain hc | ⟨-, hc⟩ := hc
    · exact .inl hc
    · split at hc
      · obtain rfl := Option.some.inj hc
        exact .inr (by simp)
      · simp at hc
  | cancel id =>
    unfold cancelCall
    split
    · rename_i c hc
      exact h.setPhase id { c with cancelled := true } fun g n => h id c g n hc
    · exact h
  | pass => exact h.of_calls fun id c hc => .inl (lookup_of_erase hc)
  | @refuse id c => exact (hgate c.user).leave id c.user _
  | @enter id c => exact (hgate c.user).setPhase id c (by simp)
  | @withdraw id c g => exact Unrefused.leave (s := s.setGate g (Gate.withdraw id)) h id c.user g
  | @lock id c g => exact Unrefused.setPhase (s := s.setGate g (Gate.lock id)) h id c (by simp)
  | @unlock id c g => exact Unrefused.leave (s := Cache.unlock g s) h id c.user g
  | @start id c g =>
    exact Unrefused.setPhase (s := { s with tasks := put id ⟨c.user, g, .spawned⟩ s.tasks }) h id c
      (by simp)
  | @leave id c g => exact h.leave id c.user g
  | goOn => exact h
  | @finish id t outcome ht ho =>
    unfold endTask Unrefused
    rw [releaseGate_calls]
    exact Unrefused.deliver (s := Cache.unlock t.gate { s with tasks := erase id s.tasks }) h id ho

theorem step (h : Unrefused s) (hs : Unstarted s) (e : Event) : Unrefused (s.step e).1 := by
  have hmoves : ∀ {s'}, Leads s s' → Unrefused s' := by
    intro s' hm
    induction hm with
    | refl => exact h
    | tail _ hlast ih => exact ih.move hlast
  cases e with
  | crash id message =>
    simp only [Cache.step, crashTask]
    split
    · exact h
    · rename_i t _
      exact Unrefused.deliver (s := Cache.unlock t.gate { s with tasks := erase id s.tasks }) h id
        (by simp)
  | _ => exact hmoves (leads_step hs rfl)

end Unrefused

theorem proceed_ne_refused {id i : CallId} {c : PendingCall} {g : GateId} {n : Nat} :
    (proceed id c g s).2 ≠ some (i, .error (.tooManyWaiters n)) := by
  unfold proceed
  split
  · simp
  · split <;> simp

theorem join_ne_refused {id i : CallId} {c : PendingCall} {g : GateId} {n : Nat} :
    (join id c g s).2 ≠ some (i, .error (.tooManyWaiters n)) := by
  unfold join
  split <;> simp

/-- The counter that a call finds is the one that the cache reports for its user. -/
theorem waiting_gateFor (user : Credentials) (s : Cache) :
    ((gateFor user s).2.gate (gateFor user s).1).waiting = s.waiting user := by
  rw [gate_gateFor]
  unfold gateFor waiting
  split
  · rfl
  · simp [gate]

theorem enqueue_of_full {id : CallId} {c : PendingCall}
    (h : s.settings.maxWaiters ≤ s.waiting c.user) : enqueue id c s =
      (leave id c.user (gateFor c.user s).1 (gateFor c.user s).2,
        some (id, .error (.tooManyWaiters (s.waiting c.user)))) := by
  unfold enqueue
  dsimp only
  rw [waiting_gateFor, (Aside.gateFor c.user s).settings, if_pos h]

theorem enqueue_refused_iff {id i : CallId} {c : PendingCall} {n : Nat} :
    (enqueue id c s).2 = some (i, .error (.tooManyWaiters n)) ↔
      i = id ∧ n = s.waiting c.user ∧ s.settings.maxWaiters ≤ s.waiting c.user := by
  by_cases hfull : s.settings.maxWaiters ≤ s.waiting c.user
  · rw [enqueue_of_full hfull]
    simp only [Option.some.injEq, Prod.mk.injEq, Except.error.injEq, ConnectionError.tooManyWaiters.injEq]
    exact ⟨fun h => ⟨h.1.symm, h.2.symm, hfull⟩, fun h => ⟨h.1.symm, h.2.1.symm⟩⟩
  · have hroom : ¬ (gateFor c.user s).2.settings.maxWaiters ≤
        ((gateFor c.user s).2.gate (gateFor c.user s).1).waiting := by
      rw [waiting_gateFor, (Aside.gateFor c.user s).settings]
      exact hfull
    unfold enqueue
    dsimp only
    rw [if_neg hroom]
    exact ⟨fun h => absurd h proceed_ne_refused, fun h => absurd h.2.2 hfull⟩

/-- **A refusal.** A call is refused exactly where it finds no fresh connection and the queue full. -/
theorem refused_iff (h : Unrefused s) {e : Event} {id : CallId} {n : Nat} :
    (s.step e).2 = some (id, .error (.tooManyWaiters n)) ↔
      e = .resume id ∧ ∃ c, s.calls.lookup id = some c ∧ c.phase = .arrived ∧
        s.fresh? c.user = none ∧ n = s.waiting c.user ∧ s.settings.maxWaiters ≤ s.waiting c.user := by
  cases e with
  | resume i =>
    simp only [step, Event.resume.injEq]
    unfold resume
    cases hc : s.calls.lookup i with
    | none =>
      refine ⟨by simp, ?_⟩
      rintro ⟨rfl, c, hlook, -⟩
      simp [hc] at hlook
    | some c =>
      have hother : c.phase ≠ .arrived → ¬ (i = id ∧ ∃ c, s.calls.lookup id = some c ∧
          c.phase = .arrived ∧ s.fresh? c.user = none ∧ n = s.waiting c.user ∧
            s.settings.maxWaiters ≤ s.waiting c.user) := by
        rintro hp ⟨rfl, d, hd, hphase, -⟩
        obtain rfl := Option.some.inj (hc.symm.trans hd)
        exact hp hphase
      cases hp : c.phase with
      | arrived =>
        simp only [hp, lookUp]
        cases hf : s.fresh? c.user with
        | some x =>
          refine ⟨by simp, ?_⟩
          rintro ⟨rfl, d, hd, -, hnone, -⟩
          obtain rfl := Option.some.inj (hc.symm.trans hd)
          simp [hf] at hnone
        | none =>
          have hwait : ({ s with misses := s.misses + 1 } : Cache).waiting c.user = s.waiting c.user := rfl
          simp only [enqueue_refused_iff, hwait]
          constructor
          · rintro ⟨rfl, hn, hfull⟩
            exact ⟨rfl, c, hc, hp, hf, hn, hfull⟩
          · rintro ⟨rfl, d, hd, -, -, hn, hfull⟩
            obtain rfl := Option.some.inj (hc.symm.trans hd)
            exact ⟨rfl, hn, hfull⟩
      | queued g =>
        simp only [hp]
        exact ⟨fun hr => absurd hr proceed_ne_refused, fun hr => absurd hr (hother (by simp [hp]))⟩
      | checking g =>
        simp only [hp, check]
        refine ⟨fun hr => ?_, fun hr => absurd hr (hother (by simp [hp]))⟩
        split at hr
        · simp at hr
        · exact absurd hr join_ne_refused
      | joined g =>
        simp only [hp]
        exact ⟨fun hr => absurd hr join_ne_refused, fun hr => absurd hr (hother (by simp [hp]))⟩
      | answered g outcome =>
        simp only [hp]
        refine ⟨fun hr => ?_, fun hr => absurd hr (hother (by simp [hp]))⟩
        split at hr
        · simp at hr
        · obtain ⟨-, ho⟩ := Prod.mk.inj (Option.some.inj hr)
          exact absurd (ho ▸ hp) (h i c g n hc)
  | _ => simp [step]

/-- **A refusal leaves all gates and queues as they were.** -/
theorem gates_of_refused (hg : GatesOK s) {e : Event} {id : CallId} {n : Nat} (hu : Unrefused s)
    (h : (s.step e).2 = some (id, .error (.tooManyWaiters n))) (g : GateId) :
    (s.step e).1.gate g = s.gate g ∧ (s.step e).1.queuedAt g = s.queuedAt g := by
  obtain ⟨rfl, c, hc, hp, hf, -, hfull⟩ := (refused_iff hu).1 h
  have hstep : (s.step (.resume id)).1 = leave id c.user (gateFor c.user { s with misses := s.misses + 1 }).1
      (gateFor c.user { s with misses := s.misses + 1 }).2 := by
    simp only [step, resume, hc, hp, lookUp, hf]
    rw [enqueue_of_full (s := { s with misses := s.misses + 1 }) hfull]
  rw [hstep]
  refine ⟨?_, ?_⟩
  · rw [gate_leave, gate_gateFor]
    rfl
  · unfold queuedAt
    rw [leave_calls, gateFor_calls]
    unfold erase
    rw [List.filter_filter]
    refine List.filter_congr fun p hmem => ?_
    obtain ⟨i, d⟩ := p
    by_cases hi : i = id
    · -- the call itself has not been in the queue
      subst hi
      obtain rfl := Option.some.inj (hc.symm.trans (lookup_of_mem hg.callKeys hmem))
      simp [hp, CallPhase.waits?]
    · simp [hi]

end LedgerFront.Cache
