import LedgerFront.Proofs.Connection.Waiters

/-!
# Locks and their holders

A gate belongs to one user, and a lock that is not free is in somebody's hands: those of a call that looks
at the store a second time, or those of a login.

* `GatesTight`: both of these.
* `GatesTight.move`, `GatesTight.step`: whatever happens keeps them.
-/

namespace LedgerFront.Cache

open Pairs

variable {s s' : Cache}

/-- Different users have different gates, and somebody holds each lock that is not free. -/
structure GatesTight (s : Cache) : Prop where
  apart : ∀ user user' g, s.gateOf.lookup user = some g → s.gateOf.lookup user' = some g → user = user'
  held : ∀ g, (s.gate g).locked = true → ∃ a, s.Holds g a

theorem gatesTight_empty (settings : ConnectionSettings) : GatesTight (empty settings) where
  apart := by simp [empty]
  held := by simp [empty, gate]

theorem locked_unlock {g g' : GateId} (h : ((unlock g s).gate g').locked = true) :
    g' ≠ g ∧ (s.gate g').locked = true := by
  unfold unlock at h
  rw [gate_setGate] at h
  split at h
  · simp at h
  · rename_i hg
    refine ⟨?_, h⟩
    rintro rfl
    -- a gate that was never made has a free lock
    have hlen : s.gates.length ≤ g' := Nat.le_of_not_lt fun hlt => hg ⟨rfl, hlt⟩
    simp [gate, List.getElem?_eq_none hlen] at h

namespace GatesTight

/-- The gates are the same, and whoever holds a lock goes on holding it. -/
theorem of_holds (h : GatesTight s) (hm : s'.gateOf = s.gateOf)
    (hl : ∀ g, (s'.gate g).locked = (s.gate g).locked)
    (hh : ∀ g a, s.Holds g a → s'.Holds g a) : GatesTight s' where
  apart u u' g := by rw [hm]; exact h.apart u u' g
  held g hg := by
    obtain ⟨a, ha⟩ := h.held g (hl g ▸ hg)
    exact ⟨a, hh g a ha⟩

/-- A lock is opened, and the holders of the others go on. -/
theorem opened (h : GatesTight s) {g : GateId} (hm : s'.gateOf = s.gateOf)
    (hl : ∀ g', (s'.gate g').locked = true → g' ≠ g ∧ (s.gate g').locked = true)
    (hh : ∀ g' a, g' ≠ g → s.Holds g' a → s'.Holds g' a) : GatesTight s' where
  apart u u' g' := by rw [hm]; exact h.apart u u' g'
  held g' hg := by
    obtain ⟨hne, hold⟩ := hl g' hg
    obtain ⟨a, ha⟩ := h.held g' hold
    exact ⟨a, hh g' a hne ha⟩

theorem setGate (h : GatesTight s) (g : GateId) {f : Gate → Gate} (hf : ∀ x, (f x).locked = x.locked) :
    GatesTight (s.setGate g f) :=
  h.of_holds rfl (gate_locked_setGate hf g s) fun _ a ha => by cases a <;> exact ha

/-- A call goes that does not hold a lock. -/
theorem eraseCall (h : GatesTight s) {id : CallId} {c : PendingCall} (hc : s.calls.lookup id = some c)
    (hp : ∀ g, c.phase ≠ .checking g) : GatesTight { s with calls := erase id s.calls } := by
  refine h.of_holds rfl (fun _ => rfl) fun g a ha => ?_
  cases a with
  | login i => exact ha
  | call i =>
    obtain ⟨d, hd, hphase⟩ := ha
    have hne : i ≠ id := by
      rintro rfl
      obtain rfl := Option.some.inj (hc.symm.trans hd)
      exact hp g hphase
    exact ⟨d, by simp [hne, hd], hphase⟩

/-- A call goes on that does not hold a lock. -/
theorem setPhase (h : GatesTight s) {id : CallId} {c : PendingCall} (hc : s.calls.lookup id = some c)
    (hp : ∀ g, c.phase ≠ .checking g) (d : PendingCall) (phase : CallPhase) :
    GatesTight (s.setPhase id d phase) := by
  refine h.of_holds rfl (fun _ => rfl) fun g a ha => ?_
  cases a with
  | login i => exact ha
  | call i =>
    obtain ⟨d, hd, hphase⟩ := ha
    have hne : i ≠ id := by
      rintro rfl
      obtain rfl := Option.some.inj (hc.symm.trans hd)
      exact hp g hphase
    exact ⟨d, by simp [Cache.setPhase, hne, hd], hphase⟩

theorem release (h : GatesTight s) (user : Credentials) (g : GateId) :
    GatesTight (releaseGate user g s) := by
  unfold releaseGate
  split
  swap
  · exact h
  refine ⟨fun u u' g' hu hu' => ?_, fun g' hg' => ?_⟩
  · simp only [lookup_erase] at hu hu'
    split at hu
    · simp at hu
    split at hu'
    · simp at hu'
    · exact h.apart u u' g' hu hu'
  · obtain ⟨a, ha⟩ := h.held g' hg'
    exact ⟨a, by cases a <;> exact ha⟩

theorem leave (h : GatesTight s) {id : CallId} {c : PendingCall} (hc : s.calls.lookup id = some c)
    (hp : ∀ g, c.phase ≠ .checking g) (user : Credentials) (g : GateId) :
    GatesTight (Cache.leave id user g s) :=
  (h.eraseCall hc hp).release user g

/-- A new gate has a number of its own. -/
theorem gateFor (h : GatesTight s) (hok : GatesOK s) (user : Credentials) :
    GatesTight (gateFor user s).2 := by
  have hholds : ∀ g a, s.Holds g a → (Cache.gateFor user s).2.Holds g a := by
    intro g a ha
    cases a with
    | call id =>
      unfold Holds
      rw [gateFor_calls]
      exact ha
    | login id =>
      unfold Holds
      rw [(Aside.gateFor user s).tasks]
      exact ha
  refine ⟨?_, fun g hg => ?_⟩
  · unfold Cache.gateFor
    split
    · exact h.apart
    · intro u u' g hu hu'
      simp only [lookup_put] at hu hu'
      split at hu <;> split at hu'
      · rename_i hu₁ hu₂
        exact hu₁.trans hu₂.symm
      · obtain rfl := Option.some.inj hu
        exact absurd (hok.made u' _ hu') (Nat.lt_irrefl _)
      · obtain rfl := Option.some.inj hu'
        exact absurd (hok.made u _ hu) (Nat.lt_irrefl _)
      · exact h.apart u u' g hu hu'
  · rw [gate_gateFor] at hg
    obtain ⟨a, ha⟩ := h.held g hg
    exact ⟨a, hholds g a ha⟩

theorem deliver (h : GatesTight s) (id : CallId) (outcome : Outcome) :
    GatesTight (deliver id outcome s) := by
  unfold Cache.deliver
  split
  swap
  · exact h
  rename_i c hc
  split
  · rename_i g hp
    exact h.setPhase hc (by simp [hp]) c _
  · exact h

/-- A login that is gone has opened its lock. -/
theorem dropTask (h : GatesTight s) {id : CallId} {t : LoginTask} (ht : s.tasks.lookup id = some t) :
    GatesTight (Cache.unlock t.gate { s with tasks := erase id s.tasks }) := by
  refine h.opened (g := t.gate) rfl (fun g' hg' => locked_unlock hg') fun g' a hne ha => ?_
  cases a with
  | call i => exact ha
  | login i =>
    obtain ⟨u, hu, hgate⟩ := ha
    have hi : i ≠ id := by
      rintro rfl
      obtain rfl := Option.some.inj (ht.symm.trans hu)
      exact hne hgate.symm
    exact ⟨u, by simp [Cache.unlock, Cache.setGate, hi, hu], hgate⟩

/-- A call that takes a lock holds it. -/
theorem lock (h : GatesTight s) {id : CallId} {c : PendingCall} {g : GateId}
    (hc : s.calls.lookup id = some c) (hp : c.phase = .queued g) :
    GatesTight ((s.setGate g (Gate.lock id)).setPhase id c (.checking g)) := by
  refine ⟨h.apart, fun g' hg' => ?_⟩
  by_cases he : g' = g
  · subst he
    exact ⟨.call id, _, lookup_setPhase id c _ _, rfl⟩
  · have hold : (s.gate g').locked = true := by
      have hsame : ((s.setGate g (Gate.lock id)).setPhase id c (.checking g)).gate g' = s.gate g' := by
        show (s.setGate g (Gate.lock id)).gate g' = _
        rw [gate_setGate, if_neg fun hh => he hh.1]
      exact hsame ▸ hg'
    obtain ⟨a, ha⟩ := h.held g' hold
    refine ⟨a, ?_⟩
    cases a with
    | login i => exact ha
    | call i =>
      obtain ⟨d, hd, hphase⟩ := ha
      have hi : i ≠ id := by
        rintro rfl
        obtain rfl := Option.some.inj (hc.symm.trans hd)
        simp [hp] at hphase
      exact ⟨d, by simp [Cache.setPhase, Cache.setGate, hi, hd], hphase⟩

/-- A call that holds a lock opens it and leaves. -/
theorem unlock (h : GatesTight s) {id : CallId} {c : PendingCall} {g : GateId}
    (hc : s.calls.lookup id = some c) (hp : c.phase = .checking g) :
    GatesTight { Cache.unlock g s with calls := erase id s.calls } := by
  refine h.opened (g := g) rfl (fun g' hg' => locked_unlock hg') fun g' a hne ha => ?_
  cases a with
  | login i => exact ha
  | call i =>
    obtain ⟨d, hd, hphase⟩ := ha
    have hi : i ≠ id := by
      rintro rfl
      obtain rfl := Option.some.inj (hc.symm.trans hd)
      exact hne (CallPhase.checking.inj (hphase.symm.trans hp))
    exact ⟨d, by simp [hi, hd], hphase⟩

/-- A call that holds a lock hands it to its login. -/
theorem start (h : GatesTight s) {id : CallId} {c : PendingCall} {g : GateId}
    (hc : s.calls.lookup id = some c) (hp : c.phase = .checking g) (hfree : s.tasks.lookup id = none) :
    GatesTight ({ s with tasks := put id ⟨c.user, g, .spawned⟩ s.tasks }.setPhase id c (.joined g)) := by
  refine ⟨h.apart, fun g' hg' => ?_⟩
  obtain ⟨a, ha⟩ := h.held g' hg'
  cases a with
  | login i =>
    obtain ⟨t, ht, hgate⟩ := ha
    have hi : i ≠ id := by
      rintro rfl
      simp [hfree] at ht
    exact ⟨.login i, t, by simp [Cache.setPhase, hi, ht], hgate⟩
  | call i =>
    obtain ⟨d, hd, hphase⟩ := ha
    by_cases hi : i = id
    · subst hi
      obtain rfl := Option.some.inj (hc.symm.trans hd)
      obtain rfl := CallPhase.checking.inj (hphase.symm.trans hp)
      exact ⟨.login i, ⟨c.user, g', .spawned⟩, by simp [Cache.setPhase], rfl⟩
    · exact ⟨.call i, d, by simp [Cache.setPhase, hi, hd], hphase⟩

theorem arrive (h : GatesTight s) (user : Credentials) : GatesTight (s.step (.call user)).1 := by
  refine h.of_holds rfl (fun _ => rfl) fun g a ha => ?_
  cases a with
  | login i => exact ha
  | call i =>
    obtain ⟨c, hc, hp⟩ := ha
    exact ⟨c, by simp [step, List.lookup_append, hc], hp⟩

theorem cancelCall (h : GatesTight s) (id : CallId) : GatesTight (cancelCall id s) := by
  unfold Cache.cancelCall
  split
  swap
  · exact h
  rename_i c hc
  refine h.of_holds rfl (fun _ => rfl) fun g a ha => ?_
  cases a with
  | login i => exact ha
  | call i =>
    obtain ⟨d, hd, hp⟩ := ha
    by_cases hi : i = id
    · subst hi
      obtain rfl := Option.some.inj (hc.symm.trans hd)
      exact ⟨{ c with cancelled := true }, by simp, hp⟩
    · exact ⟨d, by simp [hi, hd], hp⟩

theorem goOn (h : GatesTight s) {id : CallId} {t : LoginTask} (ht : s.tasks.lookup id = some t)
    (phase : TaskPhase) : GatesTight { s with tasks := put id { t with phase } s.tasks } := by
  refine h.of_holds rfl (fun _ => rfl) fun g a ha => ?_
  cases a with
  | call i => exact ha
  | login i =>
    obtain ⟨u, hu, hgate⟩ := ha
    by_cases hi : i = id
    · subst hi
      obtain rfl := Option.some.inj (ht.symm.trans hu)
      exact ⟨{ t with phase }, by simp, hgate⟩
    · exact ⟨u, by simp [hi, hu], hgate⟩

/-- **A move** keeps different users apart and their locks held. -/
theorem move (h : GatesTight s) (hok : GatesOK s) (hm : Move s s') : GatesTight s' := by
  have hlookup : ∀ {id c} user, s.calls.lookup id = some c →
      (Cache.gateFor user s).2.calls.lookup id = some c := fun user hc => by rwa [gateFor_calls]
  cases hm with
  | store _ hs =>
    refine h.of_holds hs.gateOf (fun g => by unfold gate; rw [hs.gates]) fun g a ha => ?_
    cases a with
    | call i =>
      unfold Holds
      rw [hs.calls]
      exact ha
    | login i =>
      unfold Holds
      rw [hs.tasks]
      exact ha
  | arrive user => exact h.arrive user
  | cancel id => exact h.cancelCall id
  | pass hc hp => exact h.eraseCall hc (by simp [hp])
  | @refuse id c hc hp =>
    exact (h.gateFor hok c.user).leave (hlookup c.user hc) (by simp [hp]) c.user _
  | @enter id c hc hp =>
    exact ((h.gateFor hok c.user).setGate (f := Gate.enter id) _ fun _ => rfl).setPhase
      (hlookup c.user hc) (by simp [hp]) c _
  | @withdraw id c g hc hp =>
    exact GatesTight.leave (c := c) (h.setGate (f := Gate.withdraw id) g fun _ => rfl) hc (by simp [hp])
      c.user g
  | lock hc hp => exact h.lock hc hp
  | @unlock id c g hc hp => exact (h.unlock hc hp).release c.user g
  | start hc hp hn => exact h.start hc hp hn
  | @leave id c g hc hp =>
    refine h.leave hc (fun g' hp' => ?_) c.user g
    obtain hp | ⟨o, hp⟩ := hp <;> simp [hp] at hp'
  | goOn ht phase => exact h.goOn ht phase
  | finish ht => exact ((h.dropTask ht).deliver _ _).release _ _

/-- **A step**, whatever it is; a login that breaks down gives its lock back. -/
theorem step (h : GatesTight s) (hok : GatesOK s) (hs : Unstarted s) (e : Event) :
    GatesTight (s.step e).1 := by
  have hmoves : ∀ {s'}, Leads s s' → GatesTight s' := by
    intro s' hm
    induction hm with
    | refl => exact h
    | tail hinit hlast ih => exact ih.move (hok.leads hinit) hlast
  cases e with
  | crash id message =>
    simp only [Cache.step, crashTask]
    split
    · exact h
    · rename_i t ht
      exact (h.dropTask ht).deliver id _
  | _ => exact hmoves (leads_step hs rfl)

end GatesTight

end LedgerFront.Cache
