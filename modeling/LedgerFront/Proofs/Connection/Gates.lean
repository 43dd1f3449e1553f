import LedgerFront.Connection.Cache
import LedgerFront.Proofs.Pairs

/-!
# Gates and the holders of their locks

A lock is held by a call that looks at the store under it, and after that by the
login that the call started. `GatesOK` ties the calls and logins under way to the
gates that are registered: each uses the gate registered for its user, and no
two hold the same lock.

* `GatesOK.step`, `gatesOK_run`: whatever happens keeps it.
-/

namespace LedgerFront.Cache

open Pairs

variable {s : Cache}

/-- Who can hold the lock of a gate. -/
inductive Holder where
  | call (id : CallId)
  | login (id : CallId)

/-- The lock of a gate is in the hands of a call or login under way. -/
def Holds (s : Cache) (g : GateId) : Holder → Prop
  | .call id => ∃ c, s.calls.lookup id = some c ∧ c.phase = .checking g
  | .login id => ∃ t, s.tasks.lookup id = some t ∧ t.gate = g

/-- **The state of the gates.** Calls and logins have numbers of their own, use the gate that is
registered for their user, and hold a lock only alone. -/
structure GatesOK (s : Cache) : Prop where
  callKeys : (s.calls.map (·.1)).Nodup
  taskKeys : (s.tasks.map (·.1)).Nodup
  old : ∀ id ∈ s.calls.map (·.1), id < s.nextCall
  made : ∀ user g, s.gateOf.lookup user = some g → g < s.gates.length
  callGate : ∀ id c g, s.calls.lookup id = some c → CallPhase.gate? c.phase = some g →
    s.gateOf.lookup c.user = some g
  taskGate : ∀ id t, s.tasks.lookup id = some t → s.gateOf.lookup t.user = some t.gate
  locked : ∀ g a, s.Holds g a → (s.gate g).locked = true
  alone : ∀ g a b, s.Holds g a → s.Holds g b → a = b

theorem gatesOK_empty (settings : ConnectionSettings) : GatesOK (empty settings) where
  callKeys := List.nodup_nil
  taskKeys := List.nodup_nil
  old := by simp [empty]
  made := by simp [empty]
  callGate := by simp [empty]
  taskGate := by simp [empty]
  locked := by rintro g (id | id) <;> simp [Holds, empty]
  alone := by rintro g (id | id) b <;> simp [Holds, empty]

/-! ## Gates -/

theorem gate_setGate (g : GateId) (f : Gate → Gate) (s : Cache) (g' : GateId) :
    (s.setGate g f).gate g' =
      if g' = g ∧ g < s.gates.length then f (s.gate g) else s.gate g' := by
  unfold gate setGate
  simp only [List.getElem?_modify]
  by_cases h : g = g'
  · subst h
    by_cases hg : g < s.gates.length
    · simp [hg]
    · simp [hg]
  · simp [h, Ne.symm h]

theorem gate_locked_setGate {f : Gate → Gate} (hf : ∀ x, (f x).locked = x.locked) (g : GateId)
    (s : Cache) (g' : GateId) : ((s.setGate g f).gate g').locked = (s.gate g').locked := by
  rw [gate_setGate]
  split
  · rename_i h
    rw [hf, h.1]
  · rfl

/-- What is used is seen by `isUsed`. -/
theorem isUsed_of_call {id : CallId} {c : PendingCall} {g : GateId}
    (h : s.calls.lookup id = some c) (hg : CallPhase.gate? c.phase = some g) : s.isUsed g = true := by
  unfold isUsed
  rw [Bool.or_eq_true]
  exact Or.inl (List.any_eq_true.2 ⟨(id, c), mem_of_lookup h, by simp [hg]⟩)

theorem isUsed_of_task {id : CallId} {t : LoginTask} (h : s.tasks.lookup id = some t) :
    s.isUsed t.gate = true := by
  unfold isUsed
  rw [Bool.or_eq_true]
  exact Or.inr (List.any_eq_true.2 ⟨(id, t), mem_of_lookup h, by simp⟩)

/-- Who holds a lock among fewer calls and logins held it among all. -/
theorem Holds.of_lookup {s' : Cache} {g : GateId} {a : Holder} (h : s'.Holds g a)
    (hc : ∀ id c, s'.calls.lookup id = some c → s.calls.lookup id = some c)
    (ht : ∀ id t, s'.tasks.lookup id = some t → s.tasks.lookup id = some t) : s.Holds g a := by
  cases a with
  | call id =>
    obtain ⟨c, hl, hp⟩ := h
    exact ⟨c, hc id c hl, hp⟩
  | login id =>
    obtain ⟨t, hl, hp⟩ := h
    exact ⟨t, ht id t hl, hp⟩

theorem lookup_of_erase {α : Type} {id i : CallId} {v : α} {l : List (CallId × α)}
    (h : (erase id l).lookup i = some v) : l.lookup i = some v := by
  rw [lookup_erase] at h
  split at h
  · simp at h
  · exact h

/-! ## What single changes keep -/

namespace GatesOK

/-- A call has a number that has been given out. -/
theorem lt_of_lookup (h : GatesOK s) {id : CallId} {c : PendingCall} (hc : s.calls.lookup id = some c) :
    id < s.nextCall :=
  h.old id (mem_keys_of_lookup hc)

theorem lookup_nextCall (h : GatesOK s) : s.calls.lookup s.nextCall = none :=
  Option.eq_none_iff_forall_ne_some.2 fun _ hc => Nat.lt_irrefl _ (h.lt_of_lookup hc)

/-- The clock, the store, the counters and the queues do not matter, and calls and logins may go
away, as long as their gates stay registered and held locks stay locked. -/
theorem of_fewer {s' : Cache} (h : GatesOK s) (hck : (s'.calls.map (·.1)).Sublist (s.calls.map (·.1)))
    (htk : (s'.tasks.map (·.1)).Sublist (s.tasks.map (·.1)))
    (hc : ∀ id c, s'.calls.lookup id = some c → s.calls.lookup id = some c)
    (ht : ∀ id t, s'.tasks.lookup id = some t → s.tasks.lookup id = some t)
    (hm : s'.gateOf = s.gateOf) (hg : s'.gates.length = s.gates.length)
    (hn : s'.nextCall = s.nextCall)
    (hl : ∀ g a, s'.Holds g a → (s.gate g).locked = true → (s'.gate g).locked = true) :
    GatesOK s' where
  callKeys := hck.nodup h.callKeys
  taskKeys := htk.nodup h.taskKeys
  old id hid := by rw [hn]; exact h.old id (hck.subset hid)
  made user g hu := by rw [hg]; exact h.made user g (hm ▸ hu)
  callGate id c g hi hp := by rw [hm]; exact h.callGate id c g (hc id c hi) hp
  taskGate id t hi := by rw [hm]; exact h.taskGate id t (ht id t hi)
  locked g a ha := hl g a ha (h.locked g a (ha.of_lookup hc ht))
  alone g a b ha hb := h.alone g a b (ha.of_lookup hc ht) (hb.of_lookup hc ht)

theorem of_same {s' : Cache} (h : GatesOK s) (hc : s'.calls = s.calls) (ht : s'.tasks = s.tasks)
    (hm : s'.gateOf = s.gateOf) (hg : s'.gates = s.gates) (hn : s'.nextCall = s.nextCall) :
    GatesOK s' :=
  h.of_fewer (by rw [hc]) (by rw [ht]) (by simp [hc]) (by simp [ht]) hm (by rw [hg]) hn
    (fun g a _ hl => by unfold gate at hl ⊢; rw [hg]; exact hl)

/-- Calls may go away. -/
theorem eraseCall (h : GatesOK s) (id : CallId) : GatesOK { s with calls := erase id s.calls } :=
  h.of_fewer (keys_erase_sublist id s.calls) (List.Sublist.refl _) (fun _ _ hi => lookup_of_erase hi)
    (fun _ _ hi => hi) rfl rfl rfl (fun _ _ _ hl => hl)

/-- Logins may go away. -/
theorem eraseTask (h : GatesOK s) (id : CallId) : GatesOK { s with tasks := erase id s.tasks } :=
  h.of_fewer (List.Sublist.refl _) (keys_erase_sublist id s.tasks) (fun _ _ hi => hi)
    (fun _ _ hi => lookup_of_erase hi) rfl rfl rfl (fun _ _ _ hl => hl)

/-- Changes to a gate that leave its lock alone. -/
theorem setGate (h : GatesOK s) (g : GateId) {f : Gate → Gate} (hf : ∀ x, (f x).locked = x.locked) :
    GatesOK (s.setGate g f) := by
  refine h.of_fewer (List.Sublist.refl _) (List.Sublist.refl _) (fun _ _ hi => hi) (fun _ _ hi => hi)
    rfl (by simp [Cache.setGate]) rfl ?_
  intro g' a _ hl
  rw [gate_locked_setGate hf]
  exact hl

/-- A lock that nobody holds may be opened. -/
theorem unlock (h : GatesOK s) {g : GateId} (hg : ∀ a, ¬ s.Holds g a) : GatesOK (unlock g s) := by
  refine h.of_fewer (List.Sublist.refl _) (List.Sublist.refl _) (fun _ _ hi => hi) (fun _ _ hi => hi)
    rfl (by simp [Cache.unlock, Cache.setGate]) rfl ?_
  intro g' a ha hl
  have ha' : s.Holds g' a := ha.of_lookup (fun _ _ hi => hi) (fun _ _ hi => hi)
  have hne : g' ≠ g := fun he => hg a (he ▸ ha')
  unfold Cache.unlock
  rw [gate_setGate, if_neg (fun hc => hne hc.1)]
  exact hl

/-- **A gate is forgotten only when nobody uses it**, so everybody still finds the own one. -/
theorem release (h : GatesOK s) (user : Credentials) (g : GateId) :
    GatesOK (releaseGate user g s) := by
  unfold releaseGate
  split
  swap
  · exact h
  rename_i hr
  obtain ⟨hg, hu, -⟩ := hr
  have hunused : s.isUsed g = false := by simpa using hu
  -- whoever is under way for this user would use this very gate
  have hcall : ∀ id c g', s.calls.lookup id = some c → CallPhase.gate? c.phase = some g' →
      c.user ≠ user := by
    rintro id c g' hc hg' rfl
    have := h.callGate id c g' hc hg'
    obtain rfl : g = g' := by rw [hg] at this; simpa using this
    simp [isUsed_of_call hc hg'] at hunused
  have htask : ∀ id t, s.tasks.lookup id = some t → t.user ≠ user := by
    rintro id t ht rfl
    have := h.taskGate id t ht
    obtain rfl : g = t.gate := by rw [hg] at this; simpa using this
    simp [isUsed_of_task ht] at hunused
  have hsame : ∀ {g a}, Holds { s with gateOf := erase user s.gateOf } g a → s.Holds g a :=
    fun ha => ha.of_lookup (fun _ _ hi => hi) (fun _ _ hi => hi)
  refine ⟨h.callKeys, h.taskKeys, h.old, ?_, ?_, ?_, fun g a ha => h.locked g a (hsame ha),
    fun g a b ha hb => h.alone g a b (hsame ha) (hsame hb)⟩
  · intro u g' hu'
    simp only [lookup_erase] at hu'
    split at hu'
    · simp at hu'
    · exact h.made u g' hu'
  · intro id c g' hc hg'
    simp only [lookup_erase, if_neg (hcall id c g' hc hg')]
    exact h.callGate id c g' hc hg'
  · intro id t ht
    simp only [lookup_erase, if_neg (htask id t ht)]
    exact h.taskGate id t ht

theorem leave (h : GatesOK s) (id : CallId) (user : Credentials) (g : GateId) :
    GatesOK (leave id user g s) :=
  (h.eraseCall id).release user g

/-- A call may move on, if it stays at the gate of its user and takes no lock. -/
theorem putCall (h : GatesOK s) {id : CallId} {c : PendingCall} (hid : id ∈ s.calls.map (·.1))
    (hg : ∀ g, CallPhase.gate? c.phase = some g → s.gateOf.lookup c.user = some g)
    (hp : ∀ g, c.phase = .checking g → s.Holds g (.call id)) :
    GatesOK { s with calls := put id c s.calls } := by
  -- no holder is new
  have hsame : ∀ {g a}, Holds { s with calls := put id c s.calls } g a → s.Holds g a := by
    rintro g (i | i) ⟨d, hd, hq⟩
    · simp only [lookup_put] at hd
      split at hd
      · rename_i he
        obtain rfl : c = d := by simpa using hd
        exact he ▸ hp g hq
      · exact ⟨d, hd, hq⟩
    · exact ⟨d, hd, hq⟩
  refine ⟨nodup_put id c h.callKeys, h.taskKeys, ?_, h.made, ?_, h.taskGate,
    fun g a ha => h.locked g a (hsame ha), fun g a b ha hb => h.alone g a b (hsame ha) (hsame hb)⟩
  · intro i hi
    rcases mem_keys_put hi with rfl | hi
    · exact h.old i hid
    · exact h.old i hi
  · intro i d g hd hq
    simp only [lookup_put] at hd
    split at hd
    · obtain rfl : c = d := by simpa using hd
      exact hg g hq
    · exact h.callGate i d g hd hq

/-- A call may move on at the gate of its user, as long as it takes no lock. -/
theorem setPhase (h : GatesOK s) {id : CallId} {c : PendingCall} {phase : CallPhase} {g : GateId}
    (hid : id ∈ s.calls.map (·.1)) (hg : s.gateOf.lookup c.user = some g)
    (hphase : CallPhase.gate? phase = some g) (hp : ∀ g', phase ≠ .checking g') :
    GatesOK (s.setPhase id c phase) := by
  refine h.putCall hid ?_ fun g' he => absurd he (hp g')
  intro g' hg'
  obtain rfl : g = g' := Option.some.inj (hphase.symm.trans hg')
  exact hg

/-- **A call takes a free lock**: nobody held it before. -/
theorem lock (h : GatesOK s) {id : CallId} {c : PendingCall} {g : GateId} {f : Gate → Gate}
    (hid : id ∈ s.calls.map (·.1)) (hg : s.gateOf.lookup c.user = some g)
    (hfree : (s.gate g).locked = false) (hf : ∀ x, (f x).locked = true) :
    GatesOK ((s.setGate g f).setPhase id c (.checking g)) := by
  have hlen : g < s.gates.length := h.made _ g hg
  have hnone : ∀ a, ¬ s.Holds g a := fun a ha => by simp [h.locked g a ha] at hfree
  have hgate : ∀ g', (((s.setGate g f).setPhase id c (.checking g)).gate g').locked =
      if g' = g then true else (s.gate g').locked := by
    intro g'
    show ((s.setGate g f).gate g').locked = _
    rw [gate_setGate]
    by_cases he : g' = g
    · simp [he, hlen, hf]
    · simp [he]
  -- the call is the only new holder, and of this lock only
  have hhold : ∀ g' a, Holds ((s.setGate g f).setPhase id c (.checking g)) g' a →
      (g' = g ∧ a = .call id) ∨ s.Holds g' a := by
    rintro g' (i | i) ⟨d, hd, hq⟩
    · simp only [Cache.setPhase, Cache.setGate, lookup_put] at hd
      split at hd
      · rename_i he
        obtain rfl := Option.some.inj hd
        obtain rfl : g = g' := by simpa using hq
        exact Or.inl ⟨rfl, by rw [he]⟩
      · exact Or.inr ⟨d, hd, hq⟩
    · exact Or.inr ⟨d, hd, hq⟩
  refine ⟨nodup_put id _ h.callKeys, h.taskKeys, ?_, ?_, ?_, h.taskGate, ?_, ?_⟩
  · intro i hi
    rcases mem_keys_put hi with rfl | hi
    · exact h.old i hid
    · exact h.old i hi
  · intro user g' hg'
    have := h.made user g' hg'
    simpa [Cache.setPhase, Cache.setGate] using this
  · intro i d g' hd hq
    simp only [Cache.setPhase, Cache.setGate, lookup_put] at hd
    split at hd
    · obtain rfl := Option.some.inj hd
      obtain rfl : g = g' := by simpa [CallPhase.gate?] using hq
      exact hg
    · exact h.callGate i d g' hd hq
  · intro g' a ha
    rw [hgate]
    rcases hhold g' a ha with ⟨rfl, -⟩ | ha
    · simp
    · split
      · rfl
      · exact h.locked g' a ha
  · intro g' a b ha hb
    rcases hhold g' a ha with ⟨rfl, rfl⟩ | ha <;> rcases hhold g' b hb with ⟨hg', rfl⟩ | hb
    · rfl
    · exact absurd hb (hnone b)
    · exact absurd ha (hg' ▸ hnone a)
    · exact h.alone g' a b ha hb

/-- A login may start or go on, if it is at the gate of its user with the lock in its hands. -/
theorem putTask (h : GatesOK s) {id : CallId} {t : LoginTask}
    (hg : s.gateOf.lookup t.user = some t.gate) (hl : (s.gate t.gate).locked = true)
    (hn : ∀ a, s.Holds t.gate a → a = .login id) :
    GatesOK { s with tasks := put id t s.tasks } := by
  -- the login is the only new holder, and of the lock at its gate only
  have hhold : ∀ g a, Holds { s with tasks := put id t s.tasks } g a →
      (g = t.gate ∧ a = .login id) ∨ s.Holds g a := by
    rintro g (i | i) ⟨d, hd, hq⟩
    · exact Or.inr ⟨d, hd, hq⟩
    · simp only [lookup_put] at hd
      split at hd
      · rename_i he
        obtain rfl := Option.some.inj hd
        exact Or.inl ⟨hq.symm, by rw [he]⟩
      · exact Or.inr ⟨d, hd, hq⟩
  refine ⟨h.callKeys, nodup_put id t h.taskKeys, h.old, h.made, h.callGate, ?_, ?_, ?_⟩
  · intro i d hd
    simp only [lookup_put] at hd
    split at hd
    · obtain rfl := Option.some.inj hd
      exact hg
    · exact h.taskGate i d hd
  · intro g a ha
    rcases hhold g a ha with ⟨rfl, -⟩ | ha
    · exact hl
    · exact h.locked g a ha
  · intro g a b ha hb
    rcases hhold g a ha with ⟨hga, rfl⟩ | ha <;> rcases hhold g b hb with ⟨hgb, rfl⟩ | hb
    · rfl
    · exact (hn b (hga ▸ hb)).symm
    · exact hn a (hgb ▸ ha)
    · exact h.alone g a b ha hb

/-- The gate of a user is found or made; nothing else changes. -/
theorem gateFor (h : GatesOK s) (user : Credentials) :
    GatesOK (gateFor user s).2 ∧ (gateFor user s).2.gateOf.lookup user = some (gateFor user s).1 ∧
      (gateFor user s).2.calls = s.calls := by
  unfold Cache.gateFor
  split
  · rename_i g hg
    exact ⟨h, hg, rfl⟩
  rename_i hnone
  refine ⟨⟨h.callKeys, h.taskKeys, h.old, ?_, ?_, ?_, ?_, ?_⟩, by simp, rfl⟩
  · intro u g hu
    simp only [lookup_put, List.length_append, List.length_singleton] at hu ⊢
    split at hu
    · obtain rfl := Option.some.inj hu
      exact Nat.lt_succ_self _
    · exact Nat.lt_succ_of_lt (h.made u g hu)
  · intro id c g hc hg
    have hu : c.user ≠ user := by
      rintro rfl
      simp [h.callGate id c g hc hg] at hnone
    simp only [lookup_put, if_neg hu]
    exact h.callGate id c g hc hg
  · intro id t ht
    have hu : t.user ≠ user := by
      rintro rfl
      simp [h.taskGate id t ht] at hnone
    simp only [lookup_put, if_neg hu]
    exact h.taskGate id t ht
  · intro g a ha
    -- a new gate is free, as is one that was never made
    have hl := h.locked g a (ha.of_lookup (fun _ _ hi => hi) (fun _ _ hi => hi))
    unfold gate at hl ⊢
    simp only [List.getElem?_append]
    split
    · exact hl
    · rename_i hlen
      simp [List.getElem?_eq_none (Nat.le_of_not_lt hlen)] at hl
  · intro g a b ha hb
    exact h.alone g a b (ha.of_lookup (fun _ _ hi => hi) (fun _ _ hi => hi))
      (hb.of_lookup (fun _ _ hi => hi) (fun _ _ hi => hi))

/-! ## Steps of calls -/

theorem proceed (h : GatesOK s) {id : CallId} {c : PendingCall} {g : GateId}
    (hid : id ∈ s.calls.map (·.1)) (hg : s.gateOf.lookup c.user = some g) :
    GatesOK (proceed id c g s).1 := by
  unfold Cache.proceed
  split
  · exact (h.setGate (f := Gate.withdraw id) g fun _ => rfl).leave id c.user g
  split
  · rename_i hfree
    have hl : (s.gate g).locked = false := by simpa using hfree.1
    exact h.lock hid hg hl (fun _ => rfl)
  · exact h.setPhase hid hg rfl (by simp)

theorem enqueue (h : GatesOK s) {id : CallId} (c : PendingCall) (hid : id ∈ s.calls.map (·.1)) :
    GatesOK (enqueue id c s).1 := by
  unfold Cache.enqueue
  obtain ⟨hs, hg, hc⟩ := h.gateFor c.user
  -- the gate may be a new one, the calls are the same
  rw [← hc] at hid
  generalize Cache.gateFor c.user s = p at hs hg hid
  obtain ⟨g, s'⟩ := p
  simp only
  split
  · exact hs.leave id c.user g
  · refine GatesOK.proceed ?_ hid hg
    exact hs.setGate g fun _ => rfl

theorem lookUp (h : GatesOK s) {id : CallId} (c : PendingCall) (hid : id ∈ s.calls.map (·.1)) :
    GatesOK (lookUp id c s).1 := by
  unfold Cache.lookUp
  split
  · exact (h.eraseCall id).of_same rfl rfl rfl rfl rfl
  · refine GatesOK.enqueue ?_ c hid
    exact h.of_same rfl rfl rfl rfl rfl

theorem join (h : GatesOK s) {id : CallId} {c : PendingCall} {g : GateId}
    (hid : id ∈ s.calls.map (·.1)) (hg : s.gateOf.lookup c.user = some g) :
    GatesOK (join id c g s).1 := by
  unfold Cache.join
  split
  · exact h.leave id c.user g
  · exact h.setPhase hid hg rfl (by simp)

/-- Once the call that holds a lock is gone or has moved on, nobody holds it. -/
theorem free_of_call (h : GatesOK s) {id : CallId} {g : GateId} (hh : s.Holds g (.call id))
    {s' : Cache} (hc : ∀ i c, i ≠ id → s'.calls.lookup i = some c → s.calls.lookup i = some c)
    (hid : ∀ c, s'.calls.lookup id = some c → c.phase ≠ .checking g) (ht : s'.tasks = s.tasks)
    (a : Holder) : ¬ s'.Holds g a := by
  intro ha
  cases a with
  | call i =>
    obtain ⟨c, hi, hp⟩ := ha
    by_cases he : i = id
    · exact hid c (he ▸ hi) hp
    · have hcall : s.Holds g (.call i) := ⟨c, hc i c he hi, hp⟩
      have := h.alone g _ _ hh hcall
      exact he (by simpa using this.symm)
  | login i =>
    obtain ⟨t, hi, hp⟩ := ha
    have hlogin : s.Holds g (.login i) := ⟨t, ht ▸ hi, hp⟩
    have := h.alone g _ _ hh hlogin
    simp at this

/-- Under the lock a call finds a connection and leaves, or hands the lock to a login. -/
theorem check (h : GatesOK s) {id : CallId} {c : PendingCall} {g : GateId}
    (hc : s.calls.lookup id = some c) (hp : c.phase = .checking g) :
    GatesOK (check id c g s).1 := by
  have hid := mem_keys_of_lookup hc
  have hh : s.Holds g (.call id) := ⟨c, hc, hp⟩
  have hg : s.gateOf.lookup c.user = some g := h.callGate id c g hc (by simp [hp, CallPhase.gate?])
  have hl := h.locked g _ hh
  -- whichever way the call goes, its own hold on the lock ends
  have hgone : ∀ a, ¬ Holds { s with calls := erase id s.calls } g a :=
    h.free_of_call hh (fun _ _ _ hi => lookup_of_erase hi) (by simp) rfl
  have hmoved : ∀ a, ¬ Holds { s with calls := put id { c with phase := .joined g } s.calls } g a :=
    h.free_of_call hh (fun i d he hi => by simpa [he] using hi) (by simp) rfl
  unfold Cache.check
  split
  · exact ((h.eraseCall id).unlock hgone).release c.user g
  unfold Cache.join
  split
  · exact ((h.eraseCall id).putTask (t := ⟨c.user, g, .spawned⟩) hg hl
      fun a ha => absurd ha (hgone a)).release c.user g
  · have hput : GatesOK (s.setPhase id c (.joined g)) := h.setPhase hid hg rfl (by simp)
    exact hput.putTask (t := ⟨c.user, g, .spawned⟩) hg hl fun a ha => absurd ha (hmoved a)

theorem resume (h : GatesOK s) (id : CallId) : GatesOK (resume id s).1 := by
  unfold Cache.resume
  cases hc : s.calls.lookup id with
  | none => exact h
  | some c =>
    have hid := mem_keys_of_lookup hc
    have hg : ∀ g, CallPhase.gate? c.phase = some g → s.gateOf.lookup c.user = some g :=
      fun g => h.callGate id c g hc
    cases hp : c.phase with
    | arrived =>
      simp only [hp]
      exact h.lookUp c hid
    | queued g =>
      simp only [hp]
      exact h.proceed hid (hg g (by simp [hp, CallPhase.gate?]))
    | checking g =>
      simp only [hp]
      exact h.check hc hp
    | joined g =>
      simp only [hp]
      exact h.join hid (hg g (by simp [hp, CallPhase.gate?]))
    | answered g outcome =>
      simp only [hp]
      split <;> exact h.leave id c.user g

theorem dropCall (h : GatesOK s) (id : CallId) : GatesOK (dropCall id s) := by
  unfold Cache.dropCall
  cases hc : s.calls.lookup id with
  | none => exact h
  | some c =>
    cases hp : c.phase with
    | arrived =>
      simp only [hp]
      exact h.eraseCall id
    | queued g =>
      simp only [hp]
      exact (h.setGate (f := Gate.withdraw id) g fun _ => rfl).leave id c.user g
    | checking g =>
      simp only [hp]
      have hgone : ∀ a, ¬ Holds { s with calls := erase id s.calls } g a :=
        h.free_of_call ⟨c, hc, hp⟩ (fun _ _ _ hi => lookup_of_erase hi) (by simp) rfl
      exact ((h.eraseCall id).unlock hgone).release c.user g
    | joined g =>
      simp only [hp]
      exact h.leave id c.user g
    | answered g outcome =>
      simp only [hp]
      exact h.leave id c.user g

theorem cancelCall (h : GatesOK s) (id : CallId) : GatesOK (cancelCall id s) := by
  unfold Cache.cancelCall
  cases hc : s.calls.lookup id with
  | none => exact h
  | some c =>
    exact h.putCall (mem_keys_of_lookup hc) (fun g => h.callGate id c g hc) fun g hp => ⟨c, hc, hp⟩

/-! ## Steps of logins -/

theorem deliver (h : GatesOK s) (id : CallId) (outcome : Outcome) : GatesOK (deliver id outcome s) := by
  unfold Cache.deliver
  cases hc : s.calls.lookup id with
  | none => exact h
  | some c =>
    cases hp : c.phase with
    | joined g =>
      simp only [hp]
      have hg : s.gateOf.lookup c.user = some g := h.callGate id c g hc (by simp [hp, CallPhase.gate?])
      exact h.setPhase (mem_keys_of_lookup hc) hg rfl (by simp)
    | _ => simpa only [hp] using h

/-- A login that is gone has opened its lock. -/
theorem dropTask (h : GatesOK s) {id : CallId} {t : LoginTask} (ht : s.tasks.lookup id = some t) :
    GatesOK (Cache.unlock t.gate { s with tasks := erase id s.tasks }) := by
  refine (h.eraseTask id).unlock fun a ha => ?_
  -- another holder would have been there beside the login
  have hown : s.Holds t.gate (.login id) := ⟨t, ht, rfl⟩
  have hold : s.Holds t.gate a :=
    ha.of_lookup (fun _ _ hi => hi) (fun _ _ hi => lookup_of_erase hi)
  obtain rfl : Holder.login id = a := h.alone t.gate _ _ hown hold
  obtain ⟨d, hd, -⟩ := ha
  simp at hd

theorem endTask (h : GatesOK s) {id : CallId} {t : LoginTask} (ht : s.tasks.lookup id = some t)
    (outcome : Outcome) : GatesOK (endTask id t outcome s) :=
  ((h.dropTask ht).deliver id outcome).release t.user t.gate

/-- A login that goes on keeps its gate and lock. -/
theorem advanceTask (h : GatesOK s) {id : CallId} {t : LoginTask} (ht : s.tasks.lookup id = some t)
    (p : Login.Progress) : GatesOK (advanceTask id t p s) := by
  have hput : ∀ phase, GatesOK { s with tasks := put id { t with phase } s.tasks } := fun phase =>
    h.putTask (t := { t with phase }) (h.taskGate id t ht) (h.locked t.gate (.login id) ⟨t, ht, rfl⟩)
      fun a ha => h.alone t.gate _ _ ha ⟨t, ht, rfl⟩
  unfold Cache.advanceTask
  split
  · exact hput _
  · exact (hput _).of_same rfl rfl rfl rfl rfl
  · exact h.endTask ht _

theorem runTask (h : GatesOK s) (id : CallId) : GatesOK (runTask id s) := by
  unfold Cache.runTask
  cases ht : s.tasks.lookup id with
  | none => exact h
  | some t =>
    cases hp : t.phase with
    | spawned =>
      simp only [hp]
      exact h.advanceTask ht _
    | asking l =>
      simp only [hp]
      exact h
    | storing e =>
      simp only [hp]
      have hs : GatesOK { s with entries := put t.user e s.entries } := h.of_same rfl rfl rfl rfl rfl
      exact hs.endTask ht (.ok e)

theorem answerTask (h : GatesOK s) (id : CallId) (a : Login.Answer) : GatesOK (answerTask id a s) := by
  unfold Cache.answerTask
  cases ht : s.tasks.lookup id with
  | none => exact h
  | some t =>
    cases hp : t.phase with
    | asking l =>
      simp only [hp]
      exact h.advanceTask ht _
    | _ => simpa only [hp] using h

theorem crashTask (h : GatesOK s) (id : CallId) (message : String) :
    GatesOK (crashTask id message s) := by
  unfold Cache.crashTask
  cases ht : s.tasks.lookup id with
  | none => exact h
  | some t => exact (h.dropTask ht).deliver id _

/-! ## Runs -/

/-- A new call has a number of its own and uses no gate yet. -/
theorem newCall (h : GatesOK s) (user : Credentials) : GatesOK (step s (.call user)).1 := by
  have hfresh : s.nextCall ∉ s.calls.map (·.1) := fun hm => Nat.lt_irrefl _ (h.old _ hm)
  -- the new call is at the end, so every other number finds what it found before
  have hold : ∀ i c, (s.calls ++ [(s.nextCall, (⟨user, false, .arrived⟩ : PendingCall))]).lookup i =
      some c → c.phase = .arrived ∨ s.calls.lookup i = some c := by
    intro i c hi
    rw [List.lookup_append, Option.or_eq_some_iff] at hi
    rcases hi with hi | ⟨-, hi⟩
    · exact Or.inr hi
    · rw [lookup_cons_ite] at hi
      split at hi
      · obtain rfl := Option.some.inj hi
        exact Or.inl rfl
      · simp at hi
  have hsame : ∀ {g a}, Holds (step s (.call user)).1 g a → s.Holds g a := by
    rintro g (i | i) ⟨c, hi, hp⟩
    · rcases hold i c hi with ha | hi
      · simp [ha] at hp
      · exact ⟨c, hi, hp⟩
    · exact ⟨c, hi, hp⟩
  refine ⟨?_, h.taskKeys, ?_, h.made, ?_, h.taskGate, fun g a ha => h.locked g a (hsame ha),
    fun g a b ha hb => h.alone g a b (hsame ha) (hsame hb)⟩
  · simp only [step, List.map_append, List.map_cons, List.map_nil]
    exact List.nodup_append.2 ⟨h.callKeys, by simp, fun a ha b hb he => by
      simp only [List.mem_singleton] at hb
      exact hfresh (hb ▸ he ▸ ha)⟩
  · intro i hi
    simp only [step, List.map_append, List.map_cons, List.map_nil, List.mem_append,
      List.mem_singleton] at hi ⊢
    rcases hi with hi | rfl
    · exact Nat.lt_succ_of_lt (h.old i hi)
    · exact Nat.lt_succ_self _
  · intro i c g hi hg
    rcases hold i c hi with ha | hi
    · simp [ha, CallPhase.gate?] at hg
    · exact h.callGate i c g hi hg

/-- **Whatever happens keeps the gates in order.** -/
theorem step (h : GatesOK s) (e : Event) : GatesOK (s.step e).1 := by
  cases e with
  | call user => exact h.newCall user
  | resume id => exact h.resume id
  | cancel id => exact h.cancelCall id
  | drop id => exact h.dropCall id
  | run id => exact h.runTask id
  | answer id a => exact h.answerTask id a
  | crash id message => exact h.crashTask id message
  | invalidate user => exact h.of_same rfl rfl rfl rfl rfl
  | expire user =>
    simp only [Cache.step, expire]
    split
    · exact h
    · exact h.of_same rfl rfl rfl rfl rfl
  | advance ms => exact h.of_same rfl rfl rfl rfl rfl

theorem run (h : GatesOK s) (es : List Event) : GatesOK (s.run es).1 := by
  induction es generalizing s with
  | nil => exact h
  | cons e es ih => exact ih (h.step e)

end GatesOK

/-- **In every reachable state the gates are in order.** -/
theorem gatesOK_run (settings : ConnectionSettings) (es : List Event) :
    GatesOK ((empty settings).run es).1 :=
  (gatesOK_empty settings).run es

end LedgerFront.Cache
