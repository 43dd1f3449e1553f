import LedgerFront.Proofs.Connection.Holders
import LedgerFront.Proofs.Connection.Provenance
import LedgerFront.Proofs.Connection.SingleFlight
import LedgerFront.Proofs.Connection.Waiters

/-!
# From the first call at a gate to the last

A gate is registered while somebody is there: a call past its first look at the store, or a login.
Whoever leaves last takes it away. Only a login that breaks down when all its callers are gone leaves
its gate behind, until the next call of the user comes by.

* `NoIdle`: a registered gate is in use.
* `waiters_and_gates`: counters, refusals and gates in every reachable state.
-/

namespace LedgerFront.Cache

open Pairs

variable {s s' : Cache} {user : Credentials}

/-! ## Gates in use -/

/-- Whatever gate is registered for the user is in use. -/
def NoIdle (s : Cache) (user : Credentials) : Prop :=
  ∀ g, s.gateOf.lookup user = some g → s.UsesGate user g

/-- The calls and logins of the user are still there, each at its gate. -/
structure Stays (user : Credentials) (s s' : Cache) : Prop where
  calls : ∀ id c g, s.calls.lookup id = some c → c.user = user → CallPhase.gate? c.phase = some g →
    ∃ d, s'.calls.lookup id = some d ∧ d.user = user ∧ CallPhase.gate? d.phase = some g
  tasks : ∀ id t, s.tasks.lookup id = some t → t.user = user →
    ∃ u, s'.tasks.lookup id = some u ∧ u.user = user ∧ u.gate = t.gate

namespace Stays

theorem usesGate (h : Stays user s s') (hok : GatesOK s) {g : GateId} (hu : s.UsesGate user g) :
    s'.UsesGate user g := by
  obtain ⟨id, c, hc, huser, hg⟩ | ⟨id, t, ht, huser, rfl⟩ := hu
  · obtain ⟨d, hd, hduser, hdg⟩ := h.calls id c g (lookup_of_mem hok.callKeys hc) huser hg
    exact .inl ⟨id, d, mem_of_lookup hd, hduser, hdg⟩
  · obtain ⟨u, hu, huuser, hug⟩ := h.tasks id t (lookup_of_mem hok.taskKeys ht) huser
    exact .inr ⟨id, u, mem_of_lookup hu, huuser, hug⟩

theorem noIdle (h : Stays user s s') (hok : GatesOK s)
    (hm : s'.gateOf.lookup user = s.gateOf.lookup user) (hn : s.NoIdle user) : s'.NoIdle user :=
  fun g hg => h.usesGate hok (hn g (hm ▸ hg))

theorem of_same (hc : s'.calls = s.calls) (ht : s'.tasks = s.tasks) : Stays user s s' where
  calls _ c _ hi hu hg := ⟨c, hc ▸ hi, hu, hg⟩
  tasks _ t hi hu := ⟨t, ht ▸ hi, hu, rfl⟩

theorem trans {s'' : Cache} (h : Stays user s s') (h' : Stays user s' s'') : Stays user s s'' where
  calls id c g hc hu hg := by
    obtain ⟨d, hd, hduser, hdg⟩ := h.calls id c g hc hu hg
    exact h'.calls id d g hd hduser hdg
  tasks id t ht hu := by
    obtain ⟨u, hu', huser, hg⟩ := h.tasks id t ht hu
    obtain ⟨v, hv, hvuser, hvg⟩ := h'.tasks id u hu' huser
    exact ⟨v, hv, hvuser, hvg.trans hg⟩

/-- A call of somebody else leaves, or one that has not been at a gate. -/
theorem eraseCall {id : CallId} {c : PendingCall} (hc : s.calls.lookup id = some c)
    (h : c.user = user → CallPhase.gate? c.phase = none) :
    Stays user s { s with calls := erase id s.calls } where
  calls i d g hd hu hg := by
    have hi : i ≠ id := by
      rintro rfl
      obtain rfl := Option.some.inj (hc.symm.trans hd)
      simp [h hu] at hg
    exact ⟨d, by simp [hi, hd], hu, hg⟩
  tasks i t ht hu := ⟨t, ht, hu, rfl⟩

/-- A call goes on at its gate. -/
theorem putCall {id : CallId} {c d : PendingCall} (hc : s.calls.lookup id = some c)
    (hu : d.user = c.user) (hg : ∀ g, CallPhase.gate? c.phase = some g → CallPhase.gate? d.phase = some g) :
    Stays user s { s with calls := put id d s.calls } where
  calls i e g he heu heg := by
    by_cases hi : i = id
    · subst hi
      obtain rfl := Option.some.inj (hc.symm.trans he)
      exact ⟨d, by simp, hu.trans heu, hg g heg⟩
    · exact ⟨e, by simp [hi, he], heu, heg⟩
  tasks i t ht hu := ⟨t, ht, hu, rfl⟩

theorem setPhase {id : CallId} {c : PendingCall} {phase : CallPhase}
    (hc : s.calls.lookup id = some c)
    (hg : ∀ g, CallPhase.gate? c.phase = some g → CallPhase.gate? phase = some g) :
    Stays user s (s.setPhase id c phase) :=
  .putCall (d := { c with phase }) hc rfl hg

theorem setGate (g : GateId) (f : Gate → Gate) : Stays user s (s.setGate g f) := .of_same rfl rfl

/-- A login of somebody else ends. -/
theorem eraseTask {id : CallId} {t : LoginTask} (ht : s.tasks.lookup id = some t)
    (h : t.user ≠ user) : Stays user s { s with tasks := erase id s.tasks } where
  calls i d g hd hu hg := ⟨d, hd, hu, hg⟩
  tasks i u hu huser := by
    have hi : i ≠ id := by
      rintro rfl
      obtain rfl := Option.some.inj (ht.symm.trans hu)
      exact h huser
    exact ⟨u, by simp [hi, hu], huser, rfl⟩

/-- A login starts, or goes on. -/
theorem putTask {id : CallId} {t : LoginTask} (h : ∀ u, s.tasks.lookup id = some u →
    t.user = u.user ∧ t.gate = u.gate) : Stays user s { s with tasks := put id t s.tasks } where
  calls i d g hd hu hg := ⟨d, hd, hu, hg⟩
  tasks i u hu huser := by
    by_cases hi : i = id
    · subst hi
      exact ⟨t, by simp, (h u hu).1.trans huser, (h u hu).2⟩
    · exact ⟨u, by simp [hi, hu], huser, rfl⟩

theorem deliver (id : CallId) (outcome : Outcome) : Stays user s (deliver id outcome s) := by
  unfold Cache.deliver
  split
  swap
  · exact .of_same rfl rfl
  rename_i c hc
  split
  · rename_i g hp
    exact .setPhase hc (by simp [hp, CallPhase.gate?])
  · exact .of_same rfl rfl

end Stays

/-- **Whoever leaves last takes the gate away**: after a release the gate of the user is in use, or
registered no more. -/
theorem noIdle_release_self (hok : GatesOK s) (ht : GatesTight s) {g : GateId}
    (hg : s.gateOf.lookup user = some g) : (releaseGate user g s).NoIdle user := by
  have hfree : ¬ s.UsesGate user g → s.isUsed g = false ∧ (s.gate g).locked = false := by
    intro hu
    have hcalls : ∀ id c, s.calls.lookup id = some c → CallPhase.gate? c.phase ≠ some g := by
      intro id c hc hcg
      have huser : c.user = user := ht.apart _ _ g (hok.callGate id c g hc hcg) hg
      exact hu (.inl ⟨id, c, mem_of_lookup hc, huser, hcg⟩)
    have htasks : ∀ id t, s.tasks.lookup id = some t → t.gate ≠ g := by
      rintro id t hi rfl
      have huser : t.user = user := ht.apart _ _ t.gate (hok.taskGate id t hi) hg
      exact hu (.inr ⟨id, t, mem_of_lookup hi, huser, rfl⟩)
    constructor
    · unfold isUsed
      rw [Bool.or_eq_false_iff, List.any_eq_false, List.any_eq_false]
      refine ⟨fun p hp => ?_, fun p hp => ?_⟩
      · simpa using hcalls p.1 p.2 (lookup_of_mem hok.callKeys hp)
      · simpa using htasks p.1 p.2 (lookup_of_mem hok.taskKeys hp)
    · -- a lock that is not free would be held by a call or a login at the gate
      rw [Bool.eq_false_iff]
      intro hl
      obtain ⟨id | id, ha⟩ := ht.held g hl
      · obtain ⟨c, hc, hp⟩ := ha
        exact hcalls id c hc (by simp [hp, CallPhase.gate?])
      · obtain ⟨t, hi, hp⟩ := ha
        exact htasks id t hi hp
  intro g' hg'
  by_cases hu : s.UsesGate user g
  · have hsame : (releaseGate user g s).calls = s.calls ∧ (releaseGate user g s).tasks = s.tasks :=
      ⟨releaseGate_calls user g s, (Aside.releaseGate user g s).tasks⟩
    have hreg : g' = g := by
      unfold releaseGate at hg'
      split at hg'
      · simp at hg'
      · exact Option.some.inj (hg'.symm.trans hg)
    rw [hreg]
    exact (Stays.of_same hsame.1 hsame.2 : Stays user s _).usesGate hok hu
  · obtain ⟨hunused, hopen⟩ := hfree hu
    unfold releaseGate at hg'
    rw [if_pos ⟨hg, by simp [hunused], by simp [hopen]⟩] at hg'
    simp at hg'

theorem gateOf_releaseGate {user' : Credentials} (h : user' ≠ user) (g : GateId) (s : Cache) :
    (releaseGate user g s).gateOf.lookup user' = s.gateOf.lookup user' := by
  unfold releaseGate
  split
  · simp [h]
  · rfl

theorem gateOf_deliver (id : CallId) (outcome : Outcome) (s : Cache) :
    (deliver id outcome s).gateOf = s.gateOf := by
  unfold deliver
  split
  · split <;> rfl
  · rfl

theorem gateOf_gateFor {user' : Credentials} (h : user' ≠ user) (s : Cache) :
    (gateFor user s).2.gateOf.lookup user' = s.gateOf.lookup user' := by
  unfold gateFor
  split
  · rfl
  · simp [h]

namespace NoIdle

theorem release {user' : Credentials} {g : GateId} (hok : GatesOK s) (ht : GatesTight s)
    (hg : s.gateOf.lookup user' = some g) (hother : user ≠ user' → s.NoIdle user) :
    (releaseGate user' g s).NoIdle user := by
  by_cases hu : user = user'
  · subst hu
    exact noIdle_release_self hok ht hg
  · have hstay : Stays user s (releaseGate user' g s) :=
      .of_same (releaseGate_calls user' g s) (Aside.releaseGate user' g s).tasks
    exact hstay.noIdle hok (gateOf_releaseGate hu g s) (hother hu)

/-- A call leaves its gate. -/
theorem left {id : CallId} {c : PendingCall} {g : GateId} (hok : GatesOK s)
    (hc : s.calls.lookup id = some c) (hg : s.gateOf.lookup c.user = some g)
    (hn : user ≠ c.user → s.NoIdle user) (hok' : GatesOK s') (ht' : GatesTight s')
    (hcalls : s'.calls = erase id s.calls) (htasks : s'.tasks = s.tasks) (hm : s'.gateOf = s.gateOf) :
    (releaseGate c.user g s').NoIdle user := by
  refine release hok' ht' (hm ▸ hg) fun hu => ?_
  have herase : Stays user s { s with calls := erase id s.calls } :=
    .eraseCall hc fun huser => absurd huser.symm hu
  have hstay : Stays user s s' := herase.trans (.of_same hcalls htasks)
  exact hstay.noIdle hok (by rw [hm]) (hn hu)

section

variable {id : CallId} {c : PendingCall} {g : GateId} {t : LoginTask}

theorem arrived (hn : s.NoIdle user) (hok : GatesOK s) (caller : Credentials) :
    (s.step (.call caller)).1.NoIdle user := by
  have hstay : Stays user s (s.step (.call caller)).1 :=
    ⟨fun id c g hc hu hg => ⟨c, by simp [step, List.lookup_append, hc], hu, hg⟩,
      fun id t hi hu => ⟨t, hi, hu, rfl⟩⟩
  exact hstay.noIdle hok rfl hn

theorem cancelled (hn : s.NoIdle user) (hok : GatesOK s) (id : CallId) :
    (cancelCall id s).NoIdle user := by
  unfold cancelCall
  split
  · rename_i c hc
    have hstay : Stays user s { s with calls := put id { c with cancelled := true } s.calls } :=
      .putCall hc rfl fun _ hg => hg
    exact hstay.noIdle hok rfl hn
  · exact hn

theorem passed (hn : s.NoIdle user) (hok : GatesOK s) (hc : s.calls.lookup id = some c)
    (hp : c.phase = .arrived) : ({ s with calls := erase id s.calls } : Cache).NoIdle user := by
  have hstay : Stays user s { s with calls := erase id s.calls } :=
    .eraseCall hc fun _ => by simp [hp, CallPhase.gate?]
  exact hstay.noIdle hok rfl hn

/-- A gate that is found or made for another user does not matter. -/
theorem gateFor_other {user' : Credentials} (hn : s.NoIdle user) (hok : GatesOK s)
    (hu : user ≠ user') : (gateFor user' s).2.NoIdle user := by
  have hstay : Stays user s (gateFor user' s).2 :=
    .of_same (gateFor_calls user' s) (Aside.gateFor user' s).tasks
  exact hstay.noIdle hok (gateOf_gateFor hu s) hn

theorem refused (hn : s.NoIdle user) (hok : GatesOK s) (ht : GatesTight s)
    (hc : s.calls.lookup id = some c) (hp : c.phase = .arrived) :
    (leave id c.user (gateFor c.user s).1 (gateFor c.user s).2).NoIdle user := by
  obtain ⟨hok', hg', hcalls⟩ := hok.gateFor c.user
  have hc' : (gateFor c.user s).2.calls.lookup id = some c := by rw [hcalls, hc]
  exact left hok' hc' hg' (hn.gateFor_other hok) (hok'.eraseCall id)
    ((ht.gateFor hok c.user).eraseCall hc' (by simp [hp])) rfl rfl rfl

theorem entered (hn : s.NoIdle user) (hok : GatesOK s) (hc : s.calls.lookup id = some c)
    (hp : c.phase = .arrived) : (((gateFor c.user s).2.setGate (gateFor c.user s).1
      (Gate.enter id)).setPhase id c (.queued (gateFor c.user s).1)).NoIdle user := by
  obtain ⟨hok', hg', hcalls⟩ := hok.gateFor c.user
  have hc' : (gateFor c.user s).2.calls.lookup id = some c := by rw [hcalls, hc]
  by_cases hu : user = c.user
  · -- the call itself is at the gate from now on
    intro g hg
    obtain rfl : (gateFor c.user s).1 = g := Option.some.inj (hg'.symm.trans (hu ▸ hg))
    exact .inl ⟨id, _, mem_of_lookup (lookup_setPhase id c _ _), hu.symm, rfl⟩
  · have hstay : Stays user (gateFor c.user s).2 (((gateFor c.user s).2.setGate (gateFor c.user s).1
        (Gate.enter id)).setPhase id c (.queued (gateFor c.user s).1)) :=
      (Stays.setGate _ _).trans (.setPhase hc' (by simp [hp, CallPhase.gate?]))
    exact hstay.noIdle hok' rfl (hn.gateFor_other hok hu)

theorem withdrawn (hn : s.NoIdle user) (hok : GatesOK s) (ht : GatesTight s)
    (hc : s.calls.lookup id = some c) (hp : c.phase = .queued g) :
    (leave id c.user g (s.setGate g (Gate.withdraw id))).NoIdle user := by
  have hgate : s.gateOf.lookup c.user = some g := hok.callGate id c g hc (by simp [hp, CallPhase.gate?])
  have hok' : GatesOK (s.setGate g (Gate.withdraw id)) := hok.setGate g fun _ => rfl
  have ht' : GatesTight (s.setGate g (Gate.withdraw id)) := ht.setGate g fun _ => rfl
  exact left hok hc hgate (fun _ => hn) (hok'.eraseCall id) (ht'.eraseCall hc (by simp [hp])) rfl rfl rfl

theorem locked (hn : s.NoIdle user) (hok : GatesOK s) (hc : s.calls.lookup id = some c)
    (hp : c.phase = .queued g) :
    ((s.setGate g (Gate.lock id)).setPhase id c (.checking g)).NoIdle user := by
  have hstay : Stays user s ((s.setGate g (Gate.lock id)).setPhase id c (.checking g)) :=
    (Stays.setGate _ _).trans (.setPhase hc (by simp [hp, CallPhase.gate?]))
  exact hstay.noIdle hok rfl hn

theorem unlocked (hn : s.NoIdle user) (hok : GatesOK s) (ht : GatesTight s)
    (hc : s.calls.lookup id = some c) (hp : c.phase = .checking g) :
    (leave id c.user g (unlock g s)).NoIdle user := by
  have hgate : s.gateOf.lookup c.user = some g := hok.callGate id c g hc (by simp [hp, CallPhase.gate?])
  have hgone : ∀ a, ¬ Holds { s with calls := erase id s.calls } g a :=
    hok.free_of_call ⟨c, hc, hp⟩ (fun _ _ _ hi => lookup_of_erase hi) (by simp) rfl
  have hok' : GatesOK { unlock g s with calls := erase id s.calls } := (hok.eraseCall id).unlock hgone
  exact left hok hc hgate (fun _ => hn) hok' (ht.unlock hc hp) rfl rfl rfl

theorem started (hn : s.NoIdle user) (hok : GatesOK s) (hc : s.calls.lookup id = some c)
    (hp : c.phase = .checking g) (hfree : s.tasks.lookup id = none) :
    ({ s with tasks := put id ⟨c.user, g, .spawned⟩ s.tasks }.setPhase id c (.joined g)).NoIdle user := by
  have htask : Stays user s { s with tasks := put id ⟨c.user, g, .spawned⟩ s.tasks } :=
    .putTask fun u hu => by simp [hfree] at hu
  have hcall : Stays user { s with tasks := put id ⟨c.user, g, .spawned⟩ s.tasks }
      ({ s with tasks := put id ⟨c.user, g, .spawned⟩ s.tasks }.setPhase id c (.joined g)) :=
    .setPhase hc (by simp [hp, CallPhase.gate?])
  exact (htask.trans hcall).noIdle hok rfl hn

/-- A call leaves that waits for its login or has its outcome. -/
theorem gone (hn : s.NoIdle user) (hok : GatesOK s) (ht : GatesTight s)
    (hc : s.calls.lookup id = some c) (hp : c.phase = .joined g ∨ ∃ o, c.phase = .answered g o) :
    (leave id c.user g s).NoIdle user := by
  have hgate : s.gateOf.lookup c.user = some g := by
    refine hok.callGate id c g hc ?_
    obtain hp | ⟨o, hp⟩ := hp <;> simp [hp, CallPhase.gate?]
  have hchecking : ∀ g', c.phase ≠ .checking g' := by
    intro g'
    obtain hp | ⟨o, hp⟩ := hp <;> simp [hp]
  exact left hok hc hgate (fun _ => hn) (hok.eraseCall id) (ht.eraseCall hc hchecking) rfl rfl rfl

theorem wentOn (hn : s.NoIdle user) (hok : GatesOK s) (hi : s.tasks.lookup id = some t)
    (phase : TaskPhase) :
    ({ s with tasks := put id { t with phase } s.tasks } : Cache).NoIdle user := by
  have hstay : Stays user s { s with tasks := put id { t with phase } s.tasks } :=
    .putTask fun u hu => by
      obtain rfl := Option.some.inj (hi.symm.trans hu)
      exact ⟨rfl, rfl⟩
  exact hstay.noIdle hok rfl hn

theorem finished (hn : s.NoIdle user) (hok : GatesOK s) (ht : GatesTight s)
    (hi : s.tasks.lookup id = some t) (outcome : Outcome) : (endTask id t outcome s).NoIdle user := by
  refine release ((hok.dropTask hi).deliver id outcome) ((ht.dropTask hi).deliver id outcome)
    ?_ fun hu => ?_
  · rw [gateOf_deliver]
    exact hok.taskGate id t hi
  · have herase : Stays user s (unlock t.gate { s with tasks := erase id s.tasks }) :=
      (Stays.eraseTask hi (Ne.symm hu)).trans (.of_same rfl rfl)
    exact (herase.trans (.deliver id outcome)).noIdle hok (by rw [gateOf_deliver]; rfl) hn

end

/-- **A move** leaves no gate behind. -/
theorem move (hn : s.NoIdle user) (hok : GatesOK s) (ht : GatesTight s) (hm : Move s s') :
    s'.NoIdle user := by
  cases hm with
  | store _ hs =>
    have hstay : Stays user s s' := .of_same hs.calls hs.tasks
    exact hstay.noIdle hok (by rw [hs.gateOf]) hn
  | arrive caller => exact hn.arrived hok caller
  | cancel id => exact hn.cancelled hok id
  | pass hc hp => exact hn.passed hok hc hp
  | refuse hc hp => exact hn.refused hok ht hc hp
  | enter hc hp => exact hn.entered hok hc hp
  | withdraw hc hp => exact hn.withdrawn hok ht hc hp
  | lock hc hp => exact hn.locked hok hc hp
  | unlock hc hp => exact hn.unlocked hok ht hc hp
  | start hc hp hfree => exact hn.started hok hc hp hfree
  | leave hc hp => exact hn.gone hok ht hc hp
  | goOn hi phase => exact hn.wentOn hok hi phase
  | finish hi => exact hn.finished hok ht hi _

end NoIdle

/-! ## Runs -/

variable {settings : ConnectionSettings}

/-- A login of the user breaks down in this event, and no call is at its gate any more. -/
def Abandons (user : Credentials) (s : Cache) : Event → Prop
  | .crash id _ => ∃ t, s.tasks.lookup id = some t ∧ t.user = user ∧
      ∀ p ∈ s.calls, CallPhase.gate? p.2.phase ≠ some t.gate
  | _ => False

/-- Whenever a login of the user breaks down, a call is still at its gate. -/
def Attended (user : Credentials) (s : Cache) : List Event → Prop
  | [] => True
  | e :: es => ¬ s.Abandons user e ∧ Attended user (s.step e).1 es

theorem attended_of_no_crash {es : List Event} (h : ∀ e ∈ es, e.isCrash = false) :
    s.Attended user es := by
  induction es generalizing s with
  | nil => trivial
  | cons e es ih =>
    rw [List.forall_mem_cons] at h
    refine ⟨fun ha => ?_, ih h.2⟩
    cases e with
    | crash id message => simp [Event.isCrash] at h
    | _ => exact ha

theorem unstarted (hg : GatesOK s) {users : List Credentials} {log : List Heard}
    (hs : Sound settings users log s) : Unstarted s :=
  fun _ _ _ hc hp => lookup_tasks_of_checking hg hs hc hp

/-- Gates, queues and connections are in order. -/
structure InOrder (settings : ConnectionSettings) (s : Cache) : Prop where
  gates : GatesOK s
  tight : GatesTight s
  queues : QueuesOK s
  unrefused : Unrefused s
  sound : ∃ users log, Sound settings users log s

theorem inOrder_empty (settings : ConnectionSettings) : InOrder settings (empty settings) where
  gates := gatesOK_empty settings
  tight := gatesTight_empty settings
  queues := queuesOK_empty settings
  unrefused := by simp [Unrefused, empty]
  sound := ⟨[], [], sound_empty settings⟩

namespace InOrder

theorem settings_eq (h : InOrder settings s) : s.settings = settings := by
  obtain ⟨users, log, hs⟩ := h.sound
  exact hs.unchanged

theorem unstarted (h : InOrder settings s) : Unstarted s := by
  obtain ⟨users, log, hs⟩ := h.sound
  exact Cache.unstarted h.gates hs

/-- **Whatever happens keeps everything in order.** -/
theorem step (h : InOrder settings s) (e : Event) : InOrder settings (s.step e).1 where
  gates := h.gates.step e
  tight := h.tight.step h.gates h.unstarted e
  queues := h.queues.step h.gates h.unstarted e
  unrefused := h.unrefused.step h.unstarted e
  sound := by
    obtain ⟨users, log, hs⟩ := h.sound
    exact ⟨_, _, (hs.step e).1⟩

theorem run (h : InOrder settings s) (es : List Event) : InOrder settings (s.run es).1 := by
  induction es generalizing s with
  | nil => exact h
  | cons e es ih => exact ih (h.step e)

end InOrder

theorem inOrder_run (settings : ConnectionSettings) (es : List Event) :
    InOrder settings ((empty settings).run es).1 :=
  (inOrder_empty settings).run es

/-- A login breaks down: the calls at its gate will take the gate away. -/
theorem NoIdle.crash (hn : s.NoIdle user) (h : InOrder settings s) {id : CallId} {message : String}
    (ha : ¬ s.Abandons user (.crash id message)) : (crashTask id message s).NoIdle user := by
  unfold crashTask
  split
  · exact hn
  rename_i t ht
  have hcalls : ∀ user', Stays user' { s with tasks := erase id s.tasks }
      (deliver id (.error (.internal message)) (unlock t.gate { s with tasks := erase id s.tasks })) :=
    fun _ => (Stays.setGate _ _).trans (.deliver id _)
  have hok := h.gates.eraseTask id
  by_cases hu : t.user = user
  · intro g hg
    rw [gateOf_deliver] at hg
    have hreg := h.gates.taskGate id t ht
    obtain rfl : t.gate = g := Option.some.inj (hreg.symm.trans (hu ▸ hg))
    -- some call is at this gate, and it is a call of this user
    have hattended : ∃ p ∈ s.calls, CallPhase.gate? p.2.phase = some t.gate := by
      by_contra hnone
      push Not at hnone
      exact ha ⟨t, ht, hu, hnone⟩
    obtain ⟨⟨i, c⟩, hmem, hcg⟩ := hattended
    have hcuser := h.tight.apart _ _ _
      (h.gates.callGate i c t.gate (lookup_of_mem h.gates.callKeys hmem) hcg) (hu ▸ hreg)
    have huses : UsesGate { s with tasks := erase id s.tasks } user t.gate :=
      .inl ⟨i, c, hmem, hcuser, hcg⟩
    exact (hcalls user).usesGate hok huses
  · have hother : NoIdle { s with tasks := erase id s.tasks } user :=
      (Stays.eraseTask ht hu).noIdle h.gates rfl hn
    exact (hcalls user).noIdle hok (by rw [gateOf_deliver]; rfl) hother

theorem NoIdle.step (hn : s.NoIdle user) (h : InOrder settings s) {e : Event}
    (ha : ¬ s.Abandons user e) : (s.step e).1.NoIdle user := by
  have hmoves : ∀ {s'}, Leads s s' → GatesTight s' ∧ s'.NoIdle user := by
    intro s' hm
    induction hm with
    | refl => exact ⟨h.tight, hn⟩
    | tail hinit hlast ih =>
      have hok := h.gates.leads hinit
      exact ⟨ih.1.move hok hlast, ih.2.move hok ih.1 hlast⟩
  cases e with
  | crash id message => exact hn.crash h ha
  | _ => exact (hmoves (leads_step h.unstarted rfl)).2

theorem NoIdle.run {es : List Event} (hn : s.NoIdle user) (h : InOrder settings s)
    (ha : s.Attended user es) : (s.run es).1.NoIdle user := by
  induction es generalizing s with
  | nil => exact hn
  | cons e es ih => exact ih (hn.step h ha.1) (h.step e) ha.2

/-- The counter that the cache reports is the number of calls of the user that wait. -/
theorem InOrder.length_waiters (h : InOrder settings s) (user : Credentials) :
    (s.waiters user).length = s.waiting user := by
  have hgate : ∀ p ∈ s.calls, ∀ g, CallPhase.waits? p.2.phase = some g →
      s.gateOf.lookup p.2.user = some g := fun p hp g hw =>
    h.gates.callGate p.1 p.2 g (lookup_of_mem h.gates.callKeys hp) (gate?_of_waits? hw)
  unfold waiting
  split
  · rename_i g hg
    rw [← h.queues.length_queuedAt h.gates]
    unfold waiters queuedAt
    refine congrArg List.length (List.filter_congr fun p hp => ?_)
    rw [decide_eq_decide]
    constructor
    · rintro ⟨hu, hw⟩
      obtain ⟨g', hw⟩ := Option.isSome_iff_exists.1 hw
      rw [hw, Option.some.injEq]
      exact Option.some.inj ((hgate p hp g' hw).symm.trans (hu ▸ hg))
    · exact fun hw => ⟨h.tight.apart _ _ g (hgate p hp g hw) hg, by simp [hw]⟩
  · rename_i hnone
    unfold waiters
    rw [List.length_eq_zero_iff, List.filter_eq_nil_iff]
    intro p hp hw
    obtain ⟨hu, hw⟩ := of_decide_eq_true hw
    obtain ⟨g, hw⟩ := Option.isSome_iff_exists.1 hw
    have hreg := hgate p hp g hw
    rw [hu, hnone] at hreg
    simp at hreg

/-- A call is refused where as many calls of its user wait as the settings allow. -/
theorem InOrder.refused_iff (h : InOrder settings s) {e : Event} {id : CallId} {n : Nat} :
    (s.step e).2 = some (id, .error (.tooManyWaiters n)) ↔
      e = .resume id ∧ n = settings.maxWaiters ∧ ∃ c, (id, c) ∈ s.calls ∧ c.phase = .arrived ∧
        s.fresh? c.user = none ∧ (s.waiters c.user).length = settings.maxWaiters := by
  have hbound : ∀ user, s.waiting user ≤ settings.maxWaiters := fun user => by
    unfold waiting
    split
    · exact h.settings_eq ▸ h.queues.bounded _
    · exact Nat.zero_le _
  rw [Cache.refused_iff h.unrefused, h.settings_eq]
  refine and_congr_right fun _ => ?_
  constructor
  · rintro ⟨c, hc, hp, hf, rfl, hfull⟩
    have hcount := Nat.le_antisymm (hbound c.user) hfull
    exact ⟨hcount, c, mem_of_lookup hc, hp, hf, (h.length_waiters c.user).trans hcount⟩
  · rintro ⟨rfl, c, hc, hp, hf, hcount⟩
    rw [h.length_waiters] at hcount
    exact ⟨c, lookup_of_mem h.gates.callKeys hc, hp, hf, hcount.symm, Nat.le_of_eq hcount.symm⟩

/-- **Waiters and gates**, in every reachable state. The counter of a gate is the number of calls that
have been let in and neither hold its lock nor have left, and it never exceeds the settings. A call is
refused exactly where it finds no fresh connection and as many calls of its user wait as the settings
allow, and that changes neither counters nor queues. The gate of a user is registered exactly while a
call of the user past its first look at the store, or a login of the user, is there, so a cache with
nothing under way has no gates; a login may break down in between as long as a call is still at its
gate. -/
theorem waiters_and_gates (settings : ConnectionSettings) (es : List Event) :
    let s := ((empty settings).run es).1
    (∀ g, (s.gate g).waiting = (s.queuedAt g).length ∧ (s.gate g).waiting ≤ settings.maxWaiters) ∧
    (∀ e id n, (s.step e).2 = some (id, .error (.tooManyWaiters n)) ↔
      e = .resume id ∧ n = settings.maxWaiters ∧ ∃ c, (id, c) ∈ s.calls ∧ c.phase = .arrived ∧
        s.fresh? c.user = none ∧ (s.waiters c.user).length = settings.maxWaiters) ∧
    (∀ e id n, (s.step e).2 = some (id, .error (.tooManyWaiters n)) →
      ∀ g, (s.step e).1.gate g = s.gate g ∧ (s.step e).1.queuedAt g = s.queuedAt g) ∧
    (∀ user, (empty settings).Attended user es →
      ∀ g, s.gateOf.lookup user = some g ↔ s.UsesGate user g) ∧
    ((∀ user, (empty settings).Attended user es) → s.calls = [] → s.tasks = [] → s.gateOf = []) := by
  intro s
  have h : InOrder settings s := (inOrder_empty settings).run es
  have hidle : ∀ user, (empty settings).Attended user es → s.NoIdle user := fun user ha =>
    NoIdle.run (by simp [NoIdle, empty]) (inOrder_empty settings) ha
  refine ⟨fun g => ⟨(h.queues.length_queuedAt h.gates g).symm, h.settings_eq ▸ h.queues.bounded g⟩,
    fun e id n => h.refused_iff, fun e id n hr => gates_of_refused h.gates h.unrefused hr,
    fun user ha g => ⟨hidle user ha g, h.gates.registered⟩, ?_⟩
  intro ha hcalls htasks
  cases hg : s.gateOf with
  | nil => rfl
  | cons p rest =>
    obtain ⟨user, g⟩ := p
    have hreg : s.gateOf.lookup user = some g := by simp [hg]
    obtain ⟨id, c, hc, -⟩ | ⟨id, t, ht, -⟩ := hidle user (ha user) g hreg
    · simp [hcalls] at hc
    · simp [htasks] at ht

/-- With room for one, the first call holds the lock, the second waits, and the third is refused. Once
the other two have given up, the gate is gone. -/
theorem waiters_and_gates_of_three :
    let settings : ConnectionSettings := ⟨1000, 1, 3, .zero⟩
    let alice : Credentials := ⟨"alice", "s3cret"⟩
    let es : List Event := [.call alice, .resume 0, .call alice, .resume 1, .call alice]
    let giveUp : List Event := [.resume 2, .cancel 1, .resume 1, .drop 0]
    let s := ((empty settings).run es).1
    let s' := ((empty settings).run (es ++ giveUp)).1
    (s.gate 0).waiting = 1 ∧ (s.queuedAt 0).length = 1 ∧
      (s.step (.resume 2)).2 = some (2, .error (.tooManyWaiters 1)) ∧
      (s.step (.resume 2)).1.gate 0 = s.gate 0 ∧ s.UsesGate alice 0 ∧ s'.gateOf = [] := by
  intro settings alice es giveUp s s'
  have h := waiters_and_gates settings es
  have h' := waiters_and_gates settings (es ++ giveUp)
  have hrefused : (s.step (.resume 2)).2 = some (2, .error (.tooManyWaiters 1)) := by decide +kernel
  refine ⟨by decide +kernel, ?_, hrefused, (h.2.2.1 _ 2 1 hrefused 0).1, ?_, ?_⟩
  · exact (h.1 0).1.symm.trans (by decide +kernel)
  · exact (h.2.2.2.1 alice (attended_of_no_crash (by decide)) 0).1 (by decide +kernel)
  · exact h'.2.2.2.2 (fun user => attended_of_no_crash (by decide)) (by decide +kernel) (by decide +kernel)

end LedgerFront.Cache
