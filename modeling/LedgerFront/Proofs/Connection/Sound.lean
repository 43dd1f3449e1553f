import LedgerFront.Proofs.Connection.Frame
import LedgerFront.Proofs.Connection.Record

/-!
# The origin of all connections

Connections are in the store, in the hands of logins that are about to store them,
and in those of calls that have been answered. `Sound` ties all of them to the
record of what logins asked: each comes from the user that it is kept for.

* `resumed`: what a call can do when it goes on.
* `history`: the record of a run.
* `Sound.step`, `Sound.run`: whatever happens keeps it, and what a call returns is due.
-/

namespace LedgerFront

namespace Cache

open Pairs

variable {s s' : Cache}

/-! ## What happens to the calls -/

/-- What a step of a call does to the calls: it leaves, or goes on without an answer. -/
inductive Moves (id : CallId) (c : PendingCall) (calls : List (CallId × PendingCall)) :
    List (CallId × PendingCall) → Prop where
  | left : Moves id c calls (erase id calls)
  | moved (phase : CallPhase) (h : ∀ g outcome, phase ≠ .answered g outcome) :
    Moves id c calls (put id { c with phase } calls)

/-- A step of a call: it starts a login at most, and it returns a connection only from the store or
from the login that it waited for. -/
structure Resumed (id : CallId) (c : PendingCall) (s : Cache) (p : Cache × Returned) : Prop where
  nextCall : p.1.nextCall = s.nextCall
  calls : Moves id c s.calls p.1.calls
  tasks : p.1.tasks = s.tasks ∨
    ∃ g, c.phase = .checking g ∧ p.1.tasks = put id ⟨c.user, g, .spawned⟩ s.tasks
  returned : ∀ i e, p.2 = some (i, .ok e) → i = id ∧
    (s.fresh? c.user = some e ∨ ∃ g, c.phase = .answered g (.ok e))

theorem releaseGate_calls (user : Credentials) (g : GateId) (s : Cache) :
    (releaseGate user g s).calls = s.calls := by
  unfold releaseGate
  split <;> rfl

theorem leave_calls (id : CallId) (user : Credentials) (g : GateId) (s : Cache) :
    (leave id user g s).calls = erase id s.calls := releaseGate_calls ..

theorem gateFor_calls (user : Credentials) (s : Cache) : (gateFor user s).2.calls = s.calls := by
  unfold gateFor
  split <;> rfl

theorem Resumed.leave {id : CallId} {c : PendingCall} {outcome : Outcome} (g : GateId)
    (h : Aside s s') (hcalls : s'.calls = s.calls) (ho : ∀ e, outcome = .ok e →
      s.fresh? c.user = some e ∨ ∃ g, c.phase = .answered g (.ok e)) :
    Resumed id c s (leave id c.user g s', some (id, outcome)) where
  nextCall := (h.trans (Aside.leave id c.user g s')).nextCall
  calls := by
    show Moves id c s.calls (Cache.leave id c.user g s').calls
    rw [leave_calls, hcalls]
    exact .left
  tasks := .inl (h.trans (Aside.leave id c.user g s')).tasks
  returned i e hr := by
    obtain ⟨rfl, rfl⟩ := Prod.mk.inj (Option.some.inj hr)
    exact ⟨rfl, ho e rfl⟩

theorem Resumed.moved {id : CallId} {c : PendingCall} {phase : CallPhase} (h : Aside s s')
    (hcalls : s'.calls = s.calls) (hp : ∀ g outcome, phase ≠ .answered g outcome) :
    Resumed id c s (s'.setPhase id c phase, none) where
  nextCall := h.nextCall
  calls := by
    show Moves id c s.calls (put id _ s'.calls)
    rw [hcalls]
    exact .moved phase hp
  tasks := .inl h.tasks
  returned := by simp

theorem Resumed.proceed {id : CallId} {c : PendingCall} (g : GateId) (h : Aside s s')
    (hcalls : s'.calls = s.calls) : Resumed id c s (proceed id c g s') := by
  unfold Cache.proceed
  split
  · exact .leave g (h.trans (.setGate g _ s')) hcalls (by simp)
  split
  · exact .moved (h.trans (.setGate g _ s')) hcalls (by simp)
  · exact .moved h hcalls (by simp)

theorem Resumed.join {id : CallId} {c : PendingCall} (g : GateId) (h : Aside s s')
    (hcalls : s'.calls = s.calls) : Resumed id c s (join id c g s') := by
  unfold Cache.join
  split
  · exact .leave g h hcalls (by simp)
  · exact .moved h hcalls (by simp)

theorem Resumed.enqueue {id : CallId} {c : PendingCall} (h : Aside s s')
    (hcalls : s'.calls = s.calls) : Resumed id c s (enqueue id c s') := by
  unfold Cache.enqueue
  have hg := h.trans (Aside.gateFor c.user s')
  have hgcalls := (gateFor_calls c.user s').trans hcalls
  generalize gateFor c.user s' = p at hg hgcalls
  obtain ⟨g, s''⟩ := p
  simp only
  split
  · exact .leave g hg hgcalls (by simp)
  · exact .proceed g (hg.trans (.setGate g _ s'')) hgcalls

theorem fresh?_mem {user : Credentials} {e : Entry} (h : s.fresh? user = some e) :
    (user, e) ∈ s.entries :=
  mem_of_lookup (Option.filter_eq_some_iff.1 h).1

/-- **A call goes on.** -/
theorem resumed {id : CallId} {c : PendingCall} (hc : s.calls.lookup id = some c) :
    Resumed id c s (resume id s) := by
  unfold resume
  simp only [hc]
  cases hp : c.phase with
  | arrived =>
    simp only [lookUp]
    split
    · rename_i e he
      refine ⟨rfl, .left, .inl rfl, fun i e' hr => ?_⟩
      obtain ⟨rfl, h⟩ := Prod.mk.inj (Option.some.inj hr)
      exact ⟨rfl, .inl (he.trans (congrArg some (Except.ok.inj h)))⟩
    · have h : Resumed id c { s with misses := s.misses + 1 } _ := Resumed.enqueue (.refl _) rfl
      exact ⟨h.nextCall, h.calls, h.tasks, h.returned⟩
  | queued g => exact .proceed g (.refl s) rfl
  | joined g => exact .join g (.refl s) rfl
  | checking g =>
    simp only [check]
    split
    · rename_i e he
      exact .leave g (.setGate g _ s) rfl fun e' h => .inl (he.trans (congrArg some (Except.ok.inj h)))
    · have h : Resumed id c { s with tasks := put id ⟨c.user, g, .spawned⟩ s.tasks } _ :=
        Resumed.join g (.refl _) rfl
      refine ⟨h.nextCall, h.calls, .inr ⟨g, hp, ?_⟩, h.returned⟩
      exact (Aside.join id c g { s with tasks := put id ⟨c.user, g, .spawned⟩ s.tasks }).tasks
  | answered g outcome =>
    simp only
    split
    · exact .leave g (.refl s) rfl (by simp)
    · exact .leave g (.refl s) rfl fun e h => .inr ⟨g, h ▸ hp⟩

/-! ## The record of a run -/

/-- What an event adds to the record. -/
def heard (s : Cache) : Event → List Heard
  | .answer id a =>
    match s.tasks.lookup id with
    | some ⟨user, _, .asking l⟩ => l.heard s.settings.affiliateKey id user a
    | _ => []
  | _ => []

/-- The record of the events. -/
def history (s : Cache) : List Event → List Heard
  | [] => []
  | e :: es => s.heard e ++ history (s.step e).1 es

/-- The user of a new call. -/
def Event.caller? : Event → Option Credentials
  | .call user => some user
  | _ => none

/-- The users of the calls in their order, so that each stands at the number of its call. -/
def callers (es : List Event) : List Credentials := es.filterMap Event.caller?

variable {settings : ConnectionSettings} {users : List Credentials} {log : List Heard}

/-- The connection comes from the user of the call with this number. -/
def Due (settings : ConnectionSettings) (users : List Credentials) (log : List Heard) (id : CallId)
    (e : Entry) : Prop :=
  ∃ user, users[id]? = some user ∧ ComesFrom settings.affiliateKey log user e.connected

/-- A call is by its user, and an answer that it has is meant for that user. -/
structure CallSound (settings : ConnectionSettings) (users : List Credentials) (log : List Heard)
    (id : CallId) (c : PendingCall) : Prop where
  user : users[id]? = some c.user
  answer : ∀ g e, c.phase = .answered g (.ok e) →
    ComesFrom settings.affiliateKey log c.user e.connected

/-- **The state of the connections.** Those in the store come from the users that they are stored
under, and those under way from the users of their calls. -/
structure Sound (settings : ConnectionSettings) (users : List Credentials) (log : List Heard)
    (s : Cache) : Prop where
  unchanged : s.settings = settings
  nextCall : s.nextCall = users.length
  entries : ∀ p ∈ s.entries, ComesFrom settings.affiliateKey log p.1 p.2.connected
  calls : ∀ p ∈ s.calls, CallSound settings users log p.1 p.2
  taskUser : ∀ id t, s.tasks.lookup id = some t → users[id]? = some t.user
  tasks : ∀ id t, s.tasks.lookup id = some t → Traced settings.affiliateKey log id t.user t.phase

theorem sound_empty (settings : ConnectionSettings) : Sound settings [] [] (empty settings) where
  unchanged := rfl
  nextCall := rfl
  entries := by simp [empty]
  calls := by simp [empty]
  taskUser := by simp [empty]
  tasks := by simp [empty]

namespace Sound

theorem moves {id : CallId} {c : PendingCall} {calls : List (CallId × PendingCall)}
    (h : Sound settings users log s) (hc : s.calls.lookup id = some c)
    (hm : Moves id c s.calls calls) : ∀ p ∈ calls, CallSound settings users log p.1 p.2 := by
  intro p hp
  cases hm with
  | left => exact h.calls p (List.mem_of_mem_filter hp)
  | moved phase hphase =>
    obtain rfl | hp := mem_put hp
    · exact ⟨(h.calls _ (mem_of_lookup hc)).user, fun g e hg => absurd hg (hphase g _)⟩
    · exact h.calls p hp

/-- **A call goes on**, and what it returns is its due. -/
theorem resume (h : Sound settings users log s) (id : CallId) :
    Sound settings users log (resume id s).1 ∧
      ∀ i e, (Cache.resume id s).2 = some (i, .ok e) → Due settings users log i e := by
  cases hc : s.calls.lookup id with
  | none =>
    have hsame : Cache.resume id s = (s, none) := by simp only [Cache.resume, hc]
    rw [hsame]
    exact ⟨h, by simp⟩
  | some c =>
    have hr := resumed hc
    have hstore := SameStore.resume id s
    have huser := (h.calls _ (mem_of_lookup hc)).user
    refine ⟨⟨hstore.settings.trans h.unchanged, hr.nextCall.trans h.nextCall, ?_, h.moves hc hr.calls,
      ?_, ?_⟩, ?_⟩
    · rw [hstore.entries]
      exact h.entries
    · intro i t ht
      obtain htasks | ⟨g, _, htasks⟩ := hr.tasks
      · exact h.taskUser i t (htasks ▸ ht)
      · rw [htasks, lookup_put] at ht
        split at ht
        · rename_i hi
          rw [hi, ← Option.some.inj ht]
          exact huser
        · exact h.taskUser i t ht
    · intro i t ht
      obtain htasks | ⟨g, _, htasks⟩ := hr.tasks
      · exact h.tasks i t (htasks ▸ ht)
      · rw [htasks, lookup_put] at ht
        split at ht
        · rw [← Option.some.inj ht]
          trivial
        · exact h.tasks i t ht
    · intro i e hret
      obtain ⟨rfl, hfresh | ⟨g, hp⟩⟩ := hr.returned i e hret
      · exact ⟨c.user, huser, h.entries _ (fresh?_mem hfresh)⟩
      · exact ⟨c.user, huser, (h.calls _ (mem_of_lookup hc)).answer g e hp⟩

/-- Calls and gates apart, nothing changes. -/
theorem aside (h : Sound settings users log s) (ha : Aside s s')
    (hcalls : ∀ p ∈ s'.calls, CallSound settings users log p.1 p.2) :
    Sound settings users log s' where
  unchanged := ha.settings.trans h.unchanged
  nextCall := ha.nextCall.trans h.nextCall
  entries := ha.entries ▸ h.entries
  calls := hcalls
  taskUser := ha.tasks ▸ h.taskUser
  tasks := ha.tasks ▸ h.tasks

theorem setGate (h : Sound settings users log s) (g : GateId) (f : Gate → Gate) :
    Sound settings users log (s.setGate g f) := h.aside (.setGate g f s) h.calls

theorem releaseGate (h : Sound settings users log s) (user : Credentials) (g : GateId) :
    Sound settings users log (releaseGate user g s) :=
  h.aside (.releaseGate user g s) ((releaseGate_calls user g s).symm ▸ h.calls)

/-- A call that waits for a login of its user gets what that has come to. -/
theorem deliver {id : CallId} {user : Credentials} {outcome : Outcome}
    (h : Sound settings users log s) (hu : users[id]? = some user)
    (ho : ∀ e, outcome = .ok e → ComesFrom settings.affiliateKey log user e.connected) :
    Sound settings users log (deliver id outcome s) := by
  refine h.aside (.deliver id outcome s) ?_
  unfold Cache.deliver
  split
  swap
  · exact h.calls
  rename_i c hc
  have hcall := h.calls _ (mem_of_lookup hc)
  split
  swap
  · exact h.calls
  intro p hp
  obtain rfl | hp := mem_put hp
  · refine ⟨hcall.user, fun g' e hphase => ?_⟩
    obtain rfl : user = c.user := Option.some.inj (hu.symm.trans hcall.user)
    exact ho e (CallPhase.answered.inj hphase).2
  · exact h.calls p hp

/-- A login gets further, or ends; the record of it grows. -/
theorem setTasks {id : CallId} {more : List Heard} {tasks : List (CallId × LoginTask)}
    (h : Sound settings users log s) (hmore : ∀ h ∈ more, h.login = id)
    (hother : ∀ i t, i ≠ id → tasks.lookup i = some t → s.tasks.lookup i = some t)
    (hthis : ∀ t, tasks.lookup id = some t →
      users[id]? = some t.user ∧ Traced settings.affiliateKey (log ++ more) id t.user t.phase) :
    Sound settings users (log ++ more) { s with tasks } where
  unchanged := h.unchanged
  nextCall := h.nextCall
  entries p hp := (h.entries p hp).append
  calls p hp := ⟨(h.calls p hp).user, fun g e he => ((h.calls p hp).answer g e he).append⟩
  taskUser i t ht := by
    by_cases hi : i = id
    · exact hi ▸ (hthis t (hi ▸ ht)).1
    · exact h.taskUser i t (hother i t hi ht)
  tasks i t ht := by
    by_cases hi : i = id
    · exact hi ▸ (hthis t (hi ▸ ht)).2
    · exact (h.tasks i t (hother i t hi ht)).append fun x hx => (hmore x hx).trans_ne (Ne.symm hi)

theorem eraseTask {more : List Heard} (h : Sound settings users log s) (id : CallId)
    (hmore : ∀ h ∈ more, h.login = id) :
    Sound settings users (log ++ more) { s with tasks := erase id s.tasks } :=
  h.setTasks hmore (fun i t hi hl => by simpa [hi] using hl) (by simp)

/-- **A login ends**, and what it hands over is due to its user. -/
theorem endTask {id : CallId} {t : LoginTask} {outcome : Outcome} {more : List Heard}
    (h : Sound settings users log s) (ht : s.tasks.lookup id = some t)
    (hmore : ∀ h ∈ more, h.login = id)
    (ho : ∀ e, outcome = .ok e →
      ComesFrom settings.affiliateKey (log ++ more) t.user e.connected) :
    Sound settings users (log ++ more) (endTask id t outcome s) := by
  have herase := (h.eraseTask id hmore).setGate t.gate fun gate => { gate with locked := false }
  exact (herase.deliver (h.taskUser id t ht) ho).releaseGate t.user t.gate

/-- **A login goes on** from a traced state, and the record grows. -/
theorem advanceTask {id : CallId} {t : LoginTask} {p : Login.Progress} {more : List Heard}
    (h : Sound settings users log s) (ht : s.tasks.lookup id = some t)
    (hmore : ∀ h ∈ more, h.login = id)
    (hwait : ∀ l, p = .waiting l →
      Traced settings.affiliateKey (log ++ more) id t.user (.asking l))
    (hdone : ∀ c, p = .finished (.ok c) →
      ComesFrom settings.affiliateKey (log ++ more) t.user c) :
    Sound settings users (log ++ more) (advanceTask id t p s) := by
  have hphase : ∀ phase, Traced settings.affiliateKey (log ++ more) id t.user phase →
      Sound settings users (log ++ more) { s with tasks := put id { t with phase } s.tasks } := by
    intro phase hphase
    refine h.setTasks hmore (fun i u hi hl => by simpa [hi] using hl) fun u hu => ?_
    obtain rfl : { t with phase } = u := by simpa using hu
    exact ⟨h.taskUser id t ht, hphase⟩
  unfold Cache.advanceTask
  split
  · exact hphase _ (hwait _ rfl)
  · rename_i c
    have hs := hphase (.storing ⟨c, s.now⟩) (hdone c rfl)
    exact ⟨hs.unchanged, hs.nextCall, hs.entries, hs.calls, hs.taskUser, hs.tasks⟩
  · exact h.endTask ht hmore (by simp)

/-- Other connections. -/
theorem setEntries {entries : List (Credentials × Entry)} (h : Sound settings users log s)
    (hentries : ∀ p ∈ entries, ComesFrom settings.affiliateKey log p.1 p.2.connected) :
    Sound settings users log { s with entries } :=
  ⟨h.unchanged, h.nextCall, hentries, h.calls, h.taskUser, h.tasks⟩

theorem eraseEntry (h : Sound settings users log s) (user : Credentials) :
    Sound settings users log { s with entries := erase user s.entries } :=
  h.setEntries fun p hp => h.entries p (List.mem_of_mem_filter hp)

theorem runTask (h : Sound settings users log s) (id : CallId) :
    Sound settings users log (runTask id s) := by
  unfold Cache.runTask
  split
  · exact h
  rename_i t ht
  split
  · rw [← List.append_nil log]
    exact h.advanceTask ht (by simp) (fun l hl session hs => by simp [Login.start_waiting hl] at hs)
      fun c hc => absurd hc Login.start_ne_ok
  · exact h
  · -- the connection is stored under the user who logged in
    rename_i e hp
    have he : ComesFrom settings.affiliateKey log t.user e.connected := by
      have htraced := h.tasks id t ht
      rw [hp] at htraced
      exact htraced
    have hstored : Sound settings users log { s with entries := put t.user e s.entries } := by
      refine h.setEntries fun p hmem => ?_
      obtain rfl | hmem := mem_put hmem
      · exact he
      · exact h.entries p hmem
    rw [← List.append_nil log]
    refine hstored.endTask ht (by simp) fun e' he' => ?_
    obtain rfl := Except.ok.inj he'
    exact he.append

theorem answerTask (h : Sound settings users log s) (id : CallId) (a : Login.Answer) :
    Sound settings users (log ++ s.heard (.answer id a)) (answerTask id a s) := by
  unfold Cache.answerTask
  cases ht : s.tasks.lookup id with
  | none => simpa [heard, ht] using h
  | some t =>
    obtain ⟨user, g, phase⟩ := t
    cases phase with
    | asking l =>
      have hheard : s.heard (.answer id a) = l.heard settings.affiliateKey id user a := by
        simp only [heard, ht, h.unchanged]
      have htraced := h.tasks id _ ht
      rw [hheard]
      exact h.advanceTask ht Login.login_of_heard (fun l' hl => htraced.waiting hl)
        fun c hc => htraced.finished hc
    | spawned | storing _ => simpa [heard, ht] using h

theorem crashTask (h : Sound settings users log s) (id : CallId) (message : String) :
    Sound settings users log (crashTask id message s) := by
  unfold Cache.crashTask
  split
  · exact h
  rename_i t ht
  have herase : Sound settings users (log ++ []) { s with tasks := erase id s.tasks } :=
    h.eraseTask id (by simp)
  rw [List.append_nil] at herase
  exact (herase.setGate t.gate _).deliver (h.taskUser id t ht) (by simp)

theorem call (h : Sound settings users log s) (user : Credentials) :
    Sound settings (users ++ [user]) log (s.step (.call user)).1 := by
  have hold : ∀ {i : Nat} {u : Credentials}, users[i]? = some u →
      (users ++ [user])[i]? = some u := by
    intro i u hu
    rw [List.getElem?_append_left (List.getElem?_eq_some_iff.1 hu).1, hu]
  refine ⟨h.unchanged, ?_, h.entries, ?_, fun i t ht => hold (h.taskUser i t ht), h.tasks⟩
  · simp [step, h.nextCall]
  · intro p hp
    obtain hp | hp := List.mem_append.1 hp
    · exact ⟨hold (h.calls p hp).user, (h.calls p hp).answer⟩
    · obtain rfl := List.mem_singleton.1 hp
      exact ⟨by simp [h.nextCall], by simp⟩

theorem cancelCall (h : Sound settings users log s) (id : CallId) :
    Sound settings users log (cancelCall id s) := by
  refine h.aside (.cancelCall id s) ?_
  unfold Cache.cancelCall
  split
  swap
  · exact h.calls
  rename_i c hc
  intro p hp
  obtain rfl | hp := mem_put hp
  · exact ⟨(h.calls _ (mem_of_lookup hc)).user, (h.calls _ (mem_of_lookup hc)).answer⟩
  · exact h.calls p hp

theorem dropCall (h : Sound settings users log s) (id : CallId) :
    Sound settings users log (dropCall id s) := by
  refine h.aside (.dropCall id s) fun p hp => h.calls p ?_
  have hsub : ∀ p ∈ erase id s.calls, p ∈ s.calls := fun _ hp => List.mem_of_mem_filter hp
  unfold Cache.dropCall at hp
  split at hp
  · exact hp
  split at hp
  · exact hsub p hp
  all_goals
    rw [leave_calls] at hp
    exact hsub p hp

/-- **A step.** It keeps the state of the connections, and what it returns is due. -/
theorem step (h : Sound settings users log s) (e : Event) :
    Sound settings (users ++ e.caller?.toList) (log ++ s.heard e) (s.step e).1 ∧
      ∀ i x, (s.step e).2 = some (i, .ok x) → Due settings users log i x := by
  cases e with
  | call user => exact ⟨by simpa [Event.caller?, heard, Cache.step] using h.call user, by simp [Cache.step]⟩
  | resume id => exact ⟨by simpa [Event.caller?, heard, Cache.step] using (h.resume id).1, (h.resume id).2⟩
  | cancel id => exact ⟨by simpa [Event.caller?, heard, Cache.step] using h.cancelCall id, by simp [Cache.step]⟩
  | drop id => exact ⟨by simpa [Event.caller?, heard, Cache.step] using h.dropCall id, by simp [Cache.step]⟩
  | run id => exact ⟨by simpa [Event.caller?, heard, Cache.step] using h.runTask id, by simp [Cache.step]⟩
  | answer id a => exact ⟨by simpa [Event.caller?, Cache.step] using h.answerTask id a, by simp [Cache.step]⟩
  | crash id message =>
    exact ⟨by simpa [Event.caller?, heard, Cache.step] using h.crashTask id message, by simp [Cache.step]⟩
  | invalidate user =>
    exact ⟨by simpa [Event.caller?, heard, Cache.step] using h.eraseEntry user, by simp [Cache.step]⟩
  | expire user =>
    refine ⟨?_, by simp [Cache.step]⟩
    simp only [Event.caller?, heard, Option.toList_none, List.append_nil, Cache.step, expire]
    split
    · exact h
    · exact h.eraseEntry user
  | advance ms =>
    refine ⟨?_, by simp [Cache.step]⟩
    simp only [Event.caller?, heard, Option.toList_none, List.append_nil]
    exact ⟨h.unchanged, h.nextCall, h.entries, h.calls, h.taskUser, h.tasks⟩

end Sound

/-! ## Runs -/

theorem callers_cons (e : Event) (es : List Event) :
    callers (e :: es) = e.caller?.toList ++ callers es := by
  unfold callers
  cases h : e.caller? <;> simp [h]

theorem Due.append {id : CallId} {e : Entry} (h : Due settings users log id e)
    (users' : List Credentials) (log' : List Heard) :
    Due settings (users ++ users') (log ++ log') id e := by
  obtain ⟨user, hu, hc⟩ := h
  refine ⟨user, ?_, hc.append⟩
  rw [List.getElem?_append_left (List.getElem?_eq_some_iff.1 hu).1, hu]

/-- **A run.** It keeps the state of the connections, and everything that it returns is due. -/
theorem Sound.run (h : Sound settings users log s) (es : List Event) :
    Sound settings (users ++ callers es) (log ++ s.history es) (s.run es).1 ∧
      ∀ id e, (id, .ok e) ∈ (s.run es).2 →
        Due settings (users ++ callers es) (log ++ s.history es) id e := by
  induction es generalizing s users log with
  | nil => exact ⟨by simpa [callers, history, Cache.run] using h, by simp [Cache.run]⟩
  | cons e es ih =>
    obtain ⟨hstep, hdue⟩ := h.step e
    obtain ⟨hrun, hdues⟩ := ih hstep
    rw [callers_cons, history, ← List.append_assoc, ← List.append_assoc]
    refine ⟨hrun, fun id x hx => ?_⟩
    obtain hx | hx := List.mem_append.1 hx
    · exact ((hdue id x (Option.mem_toList.1 hx)).append _ _).append _ _
    · exact hdues id x hx

end Cache

end LedgerFront
