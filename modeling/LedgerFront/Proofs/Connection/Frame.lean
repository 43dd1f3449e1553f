import LedgerFront.Connection.Cache
import LedgerFront.Proofs.Pairs

/-!
# What a step leaves alone

Most of what calls and logins do moves calls and gates only (`Aside`). Besides
the clock, the store changes only when a login puts its connection in and when a
connection is dropped.

* `step_sameStore`: no other event touches the store.
* `starts_cases`: a login starts in one place, where no fresh connection was
  found.
-/

namespace LedgerFront.Cache

open Pairs

variable {s s' s'' : Cache}

/-- The same connections at the same time. -/
structure SameStore (s s' : Cache) : Prop where
  settings : s'.settings = s.settings
  now : s'.now = s.now
  entries : s'.entries = s.entries

/-- The same but for calls and gates. -/
structure Aside (s s' : Cache) : Prop extends SameStore s s' where
  nextCall : s'.nextCall = s.nextCall
  tasks : s'.tasks = s.tasks
  hits : s'.hits = s.hits
  misses : s'.misses = s.misses
  logins : s'.logins = s.logins

theorem SameStore.fresh? (h : SameStore s s') (user : Credentials) : s'.fresh? user = s.fresh? user := by
  unfold Cache.fresh? entry? isFresh
  rw [h.entries, h.now, h.settings]

theorem SameStore.refl (s : Cache) : SameStore s s := ⟨rfl, rfl, rfl⟩

namespace Aside

theorem refl (s : Cache) : Aside s s := ⟨.refl s, rfl, rfl, rfl, rfl, rfl⟩

theorem trans (h : Aside s s') (h' : Aside s' s'') : Aside s s'' :=
  ⟨⟨h'.settings.trans h.settings, h'.now.trans h.now, h'.entries.trans h.entries⟩,
    h'.nextCall.trans h.nextCall, h'.tasks.trans h.tasks, h'.hits.trans h.hits,
    h'.misses.trans h.misses, h'.logins.trans h.logins⟩

/-- Other calls. -/
theorem calls (calls : List (CallId × PendingCall)) (s : Cache) : Aside s { s with calls } :=
  ⟨⟨rfl, rfl, rfl⟩, rfl, rfl, rfl, rfl, rfl⟩

/-- Another gate. -/
theorem setGate (g : GateId) (f : Gate → Gate) (s : Cache) : Aside s (s.setGate g f) :=
  ⟨⟨rfl, rfl, rfl⟩, rfl, rfl, rfl, rfl, rfl⟩

theorem releaseGate (user : Credentials) (g : GateId) (s : Cache) :
    Aside s (releaseGate user g s) := by
  unfold Cache.releaseGate
  split
  · exact ⟨⟨rfl, rfl, rfl⟩, rfl, rfl, rfl, rfl, rfl⟩
  · exact refl s

theorem leave (id : CallId) (user : Credentials) (g : GateId) (s : Cache) :
    Aside s (leave id user g s) :=
  (calls (erase id s.calls) s).trans (releaseGate user g { s with calls := erase id s.calls })

theorem setPhase (id : CallId) (c : PendingCall) (phase : CallPhase) (s : Cache) :
    Aside s (s.setPhase id c phase) :=
  calls _ s

theorem gateFor (user : Credentials) (s : Cache) : Aside s (gateFor user s).2 := by
  unfold Cache.gateFor
  split
  · exact refl s
  · exact ⟨⟨rfl, rfl, rfl⟩, rfl, rfl, rfl, rfl, rfl⟩

theorem proceed (id : CallId) (c : PendingCall) (g : GateId) (s : Cache) :
    Aside s (proceed id c g s).1 := by
  unfold Cache.proceed
  split
  · exact (setGate g _ s).trans (leave id c.user g _)
  split
  · exact (setGate g _ s).trans (setPhase id c _ _)
  · exact setPhase id c _ s

theorem enqueue (id : CallId) (c : PendingCall) (s : Cache) : Aside s (enqueue id c s).1 := by
  unfold Cache.enqueue
  have hs := gateFor c.user s
  generalize Cache.gateFor c.user s = p at hs
  obtain ⟨g, s'⟩ := p
  simp only
  split
  · exact hs.trans (leave id c.user g s')
  · exact hs.trans ((setGate g _ s').trans (proceed id c g _))

theorem join (id : CallId) (c : PendingCall) (g : GateId) (s : Cache) :
    Aside s (join id c g s).1 := by
  unfold Cache.join
  split
  · exact leave id c.user g s
  · exact setPhase id c _ s

theorem dropCall (id : CallId) (s : Cache) : Aside s (dropCall id s) := by
  unfold Cache.dropCall
  split
  · exact refl s
  split
  · exact calls _ s
  · exact (setGate _ _ s).trans (leave id _ _ _)
  · exact (setGate _ _ s).trans (leave id _ _ _)
  all_goals exact leave id _ _ s

theorem cancelCall (id : CallId) (s : Cache) : Aside s (cancelCall id s) := by
  unfold Cache.cancelCall
  split
  · exact calls _ s
  · exact refl s

theorem deliver (id : CallId) (outcome : Outcome) (s : Cache) : Aside s (deliver id outcome s) := by
  unfold Cache.deliver
  split
  · split
    · exact setPhase id _ _ s
    · exact refl s
  · exact refl s

/-- A login that ends is gone; besides calls and gates that is all. -/
theorem endTask (id : CallId) (t : LoginTask) (outcome : Outcome) (s : Cache) :
    Aside { s with tasks := erase id s.tasks } (endTask id t outcome s) :=
  (setGate t.gate _ _).trans ((deliver id outcome _).trans (releaseGate t.user t.gate _))

theorem crash (id : CallId) (t : LoginTask) (outcome : Outcome) (s : Cache) :
    Aside { s with tasks := erase id s.tasks }
      (Cache.deliver id outcome (unlock t.gate { s with tasks := erase id s.tasks })) :=
  (setGate t.gate _ _).trans (deliver id outcome _)

end Aside

/-! ## The store -/

namespace SameStore

theorem advanceTask (id : CallId) (t : LoginTask) (p : Login.Progress) (s : Cache) :
    SameStore s (advanceTask id t p s) := by
  unfold Cache.advanceTask
  split
  · exact ⟨rfl, rfl, rfl⟩
  · exact ⟨rfl, rfl, rfl⟩
  · rename_i e
    have h := Aside.endTask id t (.error e) s
    exact ⟨h.settings, h.now, h.entries⟩

theorem check (id : CallId) (c : PendingCall) (g : GateId) (s : Cache) :
    SameStore s (check id c g s).1 := by
  unfold Cache.check
  split
  · exact ((Aside.setGate g _ s).trans (Aside.leave id c.user g (unlock g s))).toSameStore
  · have h := Aside.join id c g { s with tasks := put id ⟨c.user, g, .spawned⟩ s.tasks }
    exact ⟨h.settings, h.now, h.entries⟩

theorem resume (id : CallId) (s : Cache) : SameStore s (resume id s).1 := by
  unfold Cache.resume
  split
  · exact .refl s
  rename_i c hc
  split
  · unfold lookUp
    split
    · exact ⟨rfl, rfl, rfl⟩
    · have h := Aside.enqueue id c { s with misses := s.misses + 1 }
      exact ⟨h.settings, h.now, h.entries⟩
  · exact (Aside.proceed id c _ s).toSameStore
  · exact check id c _ s
  · exact (Aside.join id c _ s).toSameStore
  · split <;> exact (Aside.leave id c.user _ s).toSameStore

end SameStore

/-- Events that put a connection into the store, drop one, or let time pass. -/
def TouchesStore (s : Cache) : Event → Prop
  | .run id => ∃ t e, s.tasks.lookup id = some t ∧ t.phase = .storing e
  | .invalidate _ | .expire _ | .advance _ => True
  | _ => False

theorem step_sameStore {e : Event} (h : ¬ s.TouchesStore e) : SameStore s (s.step e).1 := by
  cases e with
  | call user => exact ⟨rfl, rfl, rfl⟩
  | resume id => exact .resume id s
  | cancel id => exact (Aside.cancelCall id s).toSameStore
  | drop id => exact (Aside.dropCall id s).toSameStore
  | run id =>
    simp only [step, runTask]
    split
    · exact .refl s
    rename_i t ht
    split
    · exact .advanceTask id t _ s
    · exact .refl s
    · rename_i e he
      exact absurd ⟨t, e, ht, he⟩ h
  | answer id a =>
    simp only [step, answerTask]
    split
    · exact .refl s
    rename_i t ht
    split
    · exact .advanceTask id t _ s
    all_goals exact .refl s
  | crash id message =>
    simp only [step, crashTask]
    split
    · exact .refl s
    rename_i t ht
    have h := Aside.crash id t (.error (.internal message)) s
    exact ⟨h.settings, h.now, h.entries⟩
  | invalidate user => exact absurd trivial h
  | expire user => exact absurd trivial h
  | advance ms => exact absurd trivial h

/-! ## The start of a login -/

/-- A login starts in a step: it is under way afterwards, and before there was none with its number,
or it is back at its beginning. -/
def Starts (s : Cache) (e : Event) (id : CallId) (t : LoginTask) : Prop :=
  (id, t) ∈ (s.step e).1.tasks ∧
    ((∀ u, (id, u) ∉ s.tasks) ∨ t.phase = .spawned ∧ (id, t) ∉ s.tasks)

theorem not_starts_of_subset {e : Event} {id : CallId} {t : LoginTask}
    (h : ∀ p ∈ (s.step e).1.tasks, p ∈ s.tasks) : ¬ s.Starts e id t := by
  rintro ⟨hm, hn | ⟨-, hn⟩⟩
  · exact hn t (h _ hm)
  · exact hn (h _ hm)

theorem not_starts_of_aside {e : Event} {id : CallId} {t : LoginTask} (h : Aside s (s.step e).1) :
    ¬ s.Starts e id t :=
  not_starts_of_subset fun _ hp => h.tasks ▸ hp

/-- A login that goes on is no start. -/
theorem not_starts_advanceTask {e : Event} {i id : CallId} {t u : LoginTask} {p : Login.Progress}
    (hu : s.tasks.lookup i = some u) (he : (s.step e).1 = advanceTask i u p s) :
    ¬ s.Starts e id t := by
  -- a login put back in another phase has its old number and is past its beginning
  have hput : ∀ phase, (∀ q ∈ (s.step e).1.tasks, q ∈ put i { u with phase } s.tasks) →
      phase ≠ .spawned → ¬ s.Starts e id t := by
    rintro phase hsub hphase ⟨hm, hn⟩
    rcases mem_put (hsub _ hm) with h | h
    · obtain ⟨rfl, rfl⟩ := Prod.mk.inj h
      rcases hn with hn | ⟨hn, -⟩
      · exact hn u (mem_of_lookup hu)
      · exact hphase hn
    · rcases hn with hn | ⟨-, hn⟩
      · exact hn t h
      · exact hn h
  unfold advanceTask at he
  split at he
  · exact hput _ (fun q hq => by rw [he] at hq; exact hq) (by simp)
  · exact hput _ (fun q hq => by rw [he] at hq; exact hq) (by simp)
  · refine not_starts_of_subset fun q hq => ?_
    rw [he, (Aside.endTask i u _ s).tasks] at hq
    exact List.mem_of_mem_filter hq

theorem starts_resume {i id : CallId} {t : LoginTask} (h : s.Starts (.resume i) id t) :
    ∃ c g, Event.resume i = .resume id ∧ s.calls.lookup id = some c ∧ c.phase = .checking g ∧
      t = ⟨c.user, g, .spawned⟩ ∧ s.fresh? c.user = none := by
  have hnot : ∀ {s' : Cache}, Aside s s' → (s.step (.resume i)).1 = s' → False :=
    fun hs he => not_starts_of_aside (he ▸ hs) h
  cases hc : s.calls.lookup i with
  | none => exact (hnot (.refl s) (by simp only [step, resume, hc])).elim
  | some c =>
    cases hp : c.phase with
    | arrived =>
      refine absurd h (not_starts_of_subset fun q hq => ?_)
      simp only [step, resume, hc, hp, lookUp] at hq
      split at hq
      · exact hq
      · rw [(Aside.enqueue i c { s with misses := s.misses + 1 }).tasks] at hq
        exact hq
    | queued g => exact (hnot (.proceed i c g s) (by simp only [step, resume, hc, hp])).elim
    | joined g => exact (hnot (.join i c g s) (by simp only [step, resume, hc, hp])).elim
    | answered g outcome =>
      refine (hnot (.leave i c.user g s) ?_).elim
      simp only [step, resume, hc, hp]
      split <;> rfl
    | checking g =>
      have hstep : (s.step (.resume i)).1 = (check i c g s).1 := by simp only [step, resume, hc, hp]
      unfold check at hstep
      split at hstep
      · exact (hnot ((Aside.setGate g _ s).trans (.leave i c.user g (unlock g s))) hstep).elim
      · -- no fresh connection under the lock, so the login starts here
        rename_i hfresh
        obtain ⟨hm, hn⟩ := h
        rw [hstep, (Aside.join i c g _).tasks] at hm
        rcases mem_put hm with he | he
        · obtain ⟨rfl, rfl⟩ := Prod.mk.inj he
          exact ⟨c, g, rfl, hc, hp, rfl, hfresh⟩
        · rcases hn with hn | ⟨-, hn⟩
          · exact absurd he (hn t)
          · exact absurd he hn

/-- **A login starts only where a call looks at the store under the lock and finds no fresh
connection of its user.** -/
theorem starts_cases {e : Event} {id : CallId} {t : LoginTask} (h : s.Starts e id t) :
    ∃ c g, e = .resume id ∧ s.calls.lookup id = some c ∧ c.phase = .checking g ∧
      t = ⟨c.user, g, .spawned⟩ ∧ s.fresh? c.user = none := by
  cases e with
  | call user => exact absurd h (not_starts_of_subset fun _ hp => hp)
  | resume i => exact starts_resume h
  | cancel i => exact absurd h (not_starts_of_aside (Aside.cancelCall i s))
  | drop i => exact absurd h (not_starts_of_aside (Aside.dropCall i s))
  | run i =>
    exfalso
    cases hu : s.tasks.lookup i with
    | none => exact not_starts_of_subset (fun _ hp => by simpa [step, runTask, hu] using hp) h
    | some u =>
      cases hp : u.phase with
      | spawned =>
        exact not_starts_advanceTask (p := Login.start s.settings.loginAttempts 0) hu
          (by simp only [step, runTask, hu, hp]) h
      | asking l => exact not_starts_of_subset (fun _ hm => by simpa [step, runTask, hu, hp] using hm) h
      | storing e =>
        refine not_starts_of_subset (fun q hq => ?_) h
        simp only [step, runTask, hu, hp] at hq
        rw [(Aside.endTask i u (.ok e) { s with entries := put u.user e s.entries }).tasks] at hq
        exact List.mem_of_mem_filter hq
  | answer i a =>
    exfalso
    cases hu : s.tasks.lookup i with
    | none => exact not_starts_of_subset (fun _ hp => by simpa [step, answerTask, hu] using hp) h
    | some u =>
      cases hp : u.phase with
      | asking l =>
        exact not_starts_advanceTask (p := l.receive s.settings.loginAttempts a) hu
          (by simp only [step, answerTask, hu, hp]) h
      | _ => exact not_starts_of_subset (fun _ hm => by simpa [step, answerTask, hu, hp] using hm) h
  | crash i message =>
    exfalso
    refine not_starts_of_subset (fun q hq => ?_) h
    simp only [step, crashTask] at hq
    split at hq
    · exact hq
    · rename_i u hu
      rw [(Aside.crash i u _ s).tasks] at hq
      exact List.mem_of_mem_filter hq
  | invalidate user => exact absurd h (not_starts_of_subset fun _ hp => hp)
  | expire user =>
    refine absurd h (not_starts_of_subset fun q hq => ?_)
    simp only [step, expire] at hq
    split at hq <;> exact hq
  | advance ms => exact absurd h (not_starts_of_subset fun _ hp => hp)

end LedgerFront.Cache
