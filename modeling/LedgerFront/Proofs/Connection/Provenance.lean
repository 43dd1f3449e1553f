import LedgerFront.Proofs.Connection.Gates
import LedgerFront.Proofs.Connection.Sound
import LedgerFront.Remote.Memory.Session

/-!
# Where connections come from

A connection is handed out to those credentials only with which its session was
logged in. A login that fails has not stored anything in any of its steps.

* `UnderWay`, `Fails`: a login in a run, and its end with an error.
* `entries_of_fails`: the steps of a login that fails leave the store as it is.
* `history_of_ask`: the record is what logins asked of the remote side and what it replied.
* `provenance`: all connections come from their users, whatever happens.
-/

namespace LedgerFront.Cache

open Pairs

variable {s : Cache} {settings : ConnectionSettings} {users : List Credentials} {log : List Heard}

/-- The event is a step of this login. -/
def Event.IsStepOf (id : CallId) : Event → Prop
  | .run i | .answer i _ | .crash i _ => i = id
  | _ => False

/-- The login is under way before the events and after each of them. -/
def UnderWay (id : CallId) (s : Cache) : List Event → Prop
  | [] => (s.tasks.lookup id).isSome
  | e :: es => (s.tasks.lookup id).isSome ∧ UnderWay id (s.step e).1 es

instance decidableUnderWay (id : CallId) : ∀ (s : Cache) (es : List Event), Decidable (UnderWay id s es)
  | s, [] => inferInstanceAs (Decidable ((s.tasks.lookup id).isSome = true))
  | s, e :: es =>
    have := decidableUnderWay id (s.step e).1 es
    inferInstanceAs (Decidable (_ ∧ _))

/-- The login ends in this step with an error that it has come to. -/
def Fails (s : Cache) (e : Event) (id : CallId) (error : ConnectionError) : Prop :=
  ∃ t, s.tasks.lookup id = some t ∧
    ((e = .run id ∧ t.phase = .spawned ∧
      Login.start s.settings.loginAttempts 0 = .finished (.error error)) ∨
    ∃ l a, e = .answer id a ∧ t.phase = .asking l ∧
      l.receive s.settings.loginAttempts a = .finished (.error error))

/-- A login does not start again under a number that a login under way has. -/
theorem lookup_tasks_of_checking (hg : GatesOK s) (hs : Sound settings users log s) {id : CallId}
    {c : PendingCall} {g : GateId} (hc : s.calls.lookup id = some c) (hp : c.phase = .checking g) :
    s.tasks.lookup id = none := by
  cases ht : s.tasks.lookup id with
  | none => rfl
  | some t =>
    -- call and login are of the same user, so they would hold the same lock
    have huser : c.user = t.user :=
      Option.some.inj ((hs.calls _ (mem_of_lookup hc)).user.symm.trans (hs.taskUser id t ht))
    have hgate : some g = some t.gate := by
      rw [← hg.callGate id c g hc (by simp [hp, CallPhase.gate?]), huser, hg.taskGate id t ht]
    have hcall : s.Holds g (.call id) := ⟨c, hc, hp⟩
    have hlogin : s.Holds g (.login id) := ⟨t, ht, (Option.some.inj hgate).symm⟩
    exact absurd (hg.alone g _ _ hcall hlogin) (by simp)

theorem lookup_endTask (id i : CallId) (t : LoginTask) (outcome : Outcome) (s : Cache) :
    (endTask i t outcome s).tasks.lookup id = if id = i then none else s.tasks.lookup id := by
  rw [(Aside.endTask i t outcome s).tasks, lookup_erase]

theorem lookup_advanceTask {id i : CallId} (hi : id ≠ i) (t : LoginTask) (p : Login.Progress)
    (s : Cache) : (advanceTask i t p s).tasks.lookup id = s.tasks.lookup id := by
  unfold advanceTask
  split
  · simp [hi]
  · simp [hi]
  · rw [lookup_endTask, if_neg hi]

/-- The steps of a login leave the others alone. -/
theorem lookup_step_of_other {e : Event} {id i : CallId} (he : e.IsStepOf i) (hi : id ≠ i) :
    (s.step e).1.tasks.lookup id = s.tasks.lookup id := by
  cases e with
  | run j =>
    obtain rfl : j = i := he
    simp only [step, runTask]
    split
    · rfl
    split
    · exact lookup_advanceTask hi _ _ s
    · rfl
    · rw [lookup_endTask, if_neg hi]
  | answer j a =>
    obtain rfl : j = i := he
    simp only [step, answerTask]
    split
    · rfl
    split
    · exact lookup_advanceTask hi _ _ s
    all_goals rfl
  | crash j message =>
    obtain rfl : j = i := he
    simp only [step, crashTask]
    split
    · rfl
    rename_i u _
    rw [(Aside.crash j u _ s).tasks, lookup_erase, if_neg hi]
  | _ => exact he.elim

/-- A login that is about to store its connection waits for its own next step. -/
theorem lookup_step_of_waiting (hg : GatesOK s) (hs : Sound settings users log s) {id : CallId}
    {t : LoginTask} {x : Entry} (ht : s.tasks.lookup id = some t) (hp : t.phase = .storing x)
    {e : Event} (hrun : e ≠ .run id) (hcrash : ∀ message, e ≠ .crash id message) :
    (s.step e).1.tasks.lookup id = some t := by
  have hother : ∀ i, e.IsStepOf i → id ≠ i → (s.step e).1.tasks.lookup id = some t :=
    fun i he hi => (lookup_step_of_other he hi).trans ht
  cases e with
  | call user => exact ht
  | resume i =>
    simp only [step]
    cases hc : s.calls.lookup i with
    | none => simp only [resume, hc]; exact ht
    | some c =>
      obtain htasks | ⟨g, hchecking, htasks⟩ := (resumed hc).tasks
      · exact htasks ▸ ht
      · have hi : id ≠ i := by
          rintro rfl
          simp [lookup_tasks_of_checking hg hs hc hchecking] at ht
        rw [htasks, lookup_put, if_neg hi]
        exact ht
  | cancel i => exact (Aside.cancelCall i s).tasks ▸ ht
  | drop i => exact (Aside.dropCall i s).tasks ▸ ht
  | run i => exact hother i rfl fun hi => hrun (hi ▸ rfl)
  | answer i a =>
    by_cases hi : id = i
    · subst hi
      simp only [step, answerTask, ht, hp]
    · exact hother i rfl hi
  | crash i message => exact hother i rfl fun hi => hcrash message (hi ▸ rfl)
  | invalidate user => exact ht
  | expire user =>
    simp only [step, expire]
    split <;> exact ht
  | advance ms => exact ht

/-- **A connection about to be stored** is stored in the next step of its login, or never. -/
theorem lookup_step_of_storing (hg : GatesOK s) (hs : Sound settings users log s) {id : CallId}
    {t : LoginTask} {x : Entry} (ht : s.tasks.lookup id = some t) (hp : t.phase = .storing x)
    (e : Event) : (s.step e).1.tasks.lookup id = some t ∨ (s.step e).1.tasks.lookup id = none := by
  by_cases hrun : e = .run id
  · subst hrun
    simp only [step, runTask, ht, hp]
    rw [lookup_endTask, if_pos rfl]
    exact .inr rfl
  by_cases hcrash : ∃ message, e = .crash id message
  · obtain ⟨message, rfl⟩ := hcrash
    simp only [step, crashTask, ht]
    rw [(Aside.crash id t _ s).tasks, lookup_erase, if_pos rfl]
    exact .inr rfl
  · exact .inl (lookup_step_of_waiting hg hs ht hp hrun fun message he => hcrash ⟨message, he⟩)

/-- The first state of a login that fails later on does not store anything. -/
theorem not_storing_of_fails (hg : GatesOK s) (hs : Sound settings users log s) {id : CallId}
    {es : List Event} {e : Event} {error : ConnectionError} (hway : UnderWay id s es)
    (hfail : (s.run es).1.Fails e id error) {t : LoginTask} {x : Entry}
    (ht : s.tasks.lookup id = some t) : t.phase ≠ .storing x := by
  intro hp
  induction es generalizing s users log with
  | nil =>
    obtain ⟨u, hu, ⟨_, hphase, _⟩ | ⟨_, _, _, hphase, _⟩⟩ := hfail
    all_goals
      obtain rfl : t = u := Option.some.inj (ht.symm.trans hu)
      simp [hp] at hphase
  | cons e' es ih =>
    obtain hstay | hgone := lookup_step_of_storing hg hs ht hp e'
    · exact ih (hg.step e') (hs.step e').1 hway.2 hfail hstay
    · -- a login that is gone is not under way
      have hpresent : ((s.step e').1.tasks.lookup id).isSome := by
        cases es with
        | nil => exact hway.2
        | cons => exact hway.2.1
      simp [hgone] at hpresent

/-- Only a login that is about to store its connection changes the store. -/
theorem entries_step_of_ownStep {id : CallId} {e : Event} (he : e.IsStepOf id)
    (hp : ∀ t x, s.tasks.lookup id = some t → t.phase ≠ .storing x) :
    (s.step e).1.entries = s.entries := by
  refine (step_sameStore fun htouch => ?_).entries
  cases e with
  | run i =>
    obtain rfl : i = id := he
    obtain ⟨t, x, ht, hstoring⟩ := htouch
    exact hp t x ht hstoring
  | answer i a => exact htouch
  | crash i message => exact htouch
  | _ => exact he

/-- **A login that fails stores nothing**: each of its steps, the last one included, leaves the store
as it is. -/
theorem entries_of_fails (hg : GatesOK s) (hs : Sound settings users log s) {id : CallId}
    {es : List Event} {e : Event} {error : ConnectionError} (hway : UnderWay id s es)
    (hfail : (s.run es).1.Fails e id error) {before after : List Event} {b : Event}
    (hsplit : es ++ [e] = before ++ b :: after) (hb : b.IsStepOf id) :
    ((s.run before).1.step b).1.entries = (s.run before).1.entries := by
  induction before generalizing s users log es with
  | nil => exact entries_step_of_ownStep hb fun t x ht => not_storing_of_fails hg hs hway hfail ht
  | cons b' before ih =>
    cases es with
    | nil => simp at hsplit
    | cons e' es =>
      obtain ⟨rfl, hrest⟩ := List.cons_eq_cons.1 hsplit
      exact ih (hg.step e') (hs.step e').1 hway.2 hfail hrest

theorem history_append (s : Cache) (es fs : List Event) :
    s.history (es ++ fs) = s.history es ++ (s.run es).1.history fs := by
  induction es generalizing s with
  | nil => rfl
  | cons e es ih =>
    rw [List.cons_append, history, history, ih, List.append_assoc]
    rfl

/-- **The record is true.** The answer of a remote side to a login adds to the record what the login
asked of its session and what the remote side replied; the opening of a session is not recorded. -/
theorem history_of_ask {σ : Type} {remote : Remote σ} {es : List Event} {id : CallId} {t : LoginTask}
    {l : Login} {a : Login.Answer} {r r' : σ} (ht : (s.run es).1.tasks.lookup id = some t)
    (hp : t.phase = .asking l)
    (hask : l.ask remote (s.run es).1.settings.affiliateKey t.user r = .ok (a, r')) :
    (l.phase = .opening ∧ (∃ reply, remote.openSession r = (reply, r') ∧ a = .opened reply) ∧
      s.history (es ++ [.answer id a]) = s.history es) ∨
    ∃ session x, remote.call session x.call r = .ok (x.reply, r') ∧
      s.history (es ++ [.answer id a]) = s.history es ++ [⟨id, session, x⟩] := by
  have hheard : (s.run es).1.history [.answer id a] =
      l.heard (s.run es).1.settings.affiliateKey id t.user a := by
    obtain ⟨user, g, phase⟩ := t
    obtain rfl : phase = .asking l := hp
    simp only [history, heard, ht, List.append_nil]
  rw [history_append, hheard]
  obtain ⟨hopening, reply, hopen, rfl⟩ | ⟨session, x, hx, hcall⟩ := Login.exchange?_of_ask hask
  · refine .inl ⟨hopening, ⟨reply, hopen, rfl⟩, ?_⟩
    simp [Login.heard, Login.exchange?, hopening]
  · refine .inr ⟨session, x, hcall, ?_⟩
    simp [Login.heard, hx]

/-- **Connections come from their users.** In every reachable state, a connection in the store is that
of a session in which a login logged in with exactly the credentials that it is stored under, and got the
companies next; what a call has returned is such a connection of the caller. A login that fails leaves
the store as it is in all its steps. The record that this is read off is what logins ask of a remote side
and what it replies, whichever it is. -/
theorem provenance (settings : ConnectionSettings) (es : List Event) :
    let s := ((empty settings).run es).1
    let log := (empty settings).history es
    (∀ user e, (user, e) ∈ s.entries →
      ComesFrom settings.affiliateKey log user e.connected) ∧
    (∀ id e, (id, .ok e) ∈ ((empty settings).run es).2 → ∃ user, (callers es)[id]? = some user ∧
      ComesFrom settings.affiliateKey log user e.connected) ∧
    (∀ id es' e error, UnderWay id s es' → (s.run es').1.Fails e id error →
      ∀ before b after, es' ++ [e] = before ++ b :: after → b.IsStepOf id →
        ((s.run before).1.step b).1.entries = (s.run before).1.entries) ∧
    ∀ (σ : Type) (remote : Remote σ) id t l a r r', s.tasks.lookup id = some t →
      t.phase = .asking l → l.ask remote settings.affiliateKey t.user r = .ok (a, r') →
        (l.phase = .opening ∧ (∃ reply, remote.openSession r = (reply, r') ∧ a = .opened reply) ∧
          (empty settings).history (es ++ [.answer id a]) = log) ∨
        ∃ session x, remote.call session x.call r = .ok (x.reply, r') ∧
          (empty settings).history (es ++ [.answer id a]) = log ++ [⟨id, session, x⟩] := by
  intro s log
  obtain ⟨hs, hdue⟩ := (sound_empty settings).run es
  refine ⟨fun user e he => hs.entries (user, e) he, hdue, ?_, ?_⟩
  · intro id es' e error hway hfail before b after hsplit hb
    exact entries_of_fails (gatesOK_run settings es) hs hway hfail hsplit hb
  · intro σ remote id t l a r r' ht hp hask
    refine history_of_ask ht hp ?_
    rw [hs.unchanged]
    exact hask

/-- A user logs in and gets the connection; the login of another user is refused. -/
theorem provenance_of_two :
    let settings : ConnectionSettings := ⟨1000, 4, 3, .zero⟩
    let alice : Credentials := ⟨"alice", "s3cret"⟩
    let bob : Credentials := ⟨"bob", "hunter2"⟩
    let entry : Entry := ⟨⟨7, [⟨1, "Demo", []⟩]⟩, 0⟩
    let es : List Event := [.call alice, .resume 0, .resume 0, .run 0, .answer 0 (.opened (.ok 7)),
      .answer 0 (.status (.ok .success)), .answer 0 (.companies (.ok (some entry.connected.companies))),
      .run 0, .resume 0, .call bob, .resume 1, .resume 1]
    let login : List Event := [.run 1, .answer 1 (.opened (.ok 8))]
    let wrong : Status := .other "UserOrPasswordIncorrect"
    let refusal : Event := .answer 1 (.status (.ok wrong))
    let s := ((empty settings).run es).1
    (alice, entry) ∈ s.entries ∧
      ComesFrom settings.affiliateKey ((empty settings).history es) alice entry.connected ∧
      (∃ user, (callers es)[0]? = some user ∧
        ComesFrom settings.affiliateKey ((empty settings).history es) user entry.connected) ∧
      (s.run login).1.Fails refusal 1 (.forbidden wrong) ∧
      ((s.run login).1.step refusal).1.entries = (s.run login).1.entries ∧
      ∃ session x,
        Memory.remote.call session x.call .empty = .ok (x.reply, { Memory.empty with logins := 1 }) ∧
        (empty settings).history (es ++ login ++ [refusal]) =
          (empty settings).history (es ++ login) ++ [⟨1, session, x⟩] := by
  intro settings alice bob entry es login wrong refusal s
  have h := provenance settings es
  have hmem : (alice, entry) ∈ s.entries := by decide +kernel
  have hret : (0, .ok entry) ∈ ((empty settings).run es).2 := by decide +kernel
  have hway : UnderWay 1 s login := by decide +kernel
  let task : LoginTask := ⟨bob, 1, .asking ⟨1, .loggingIn 8⟩⟩
  have htask : (s.run login).1.tasks.lookup 1 = some task := by decide +kernel
  have hfail : (s.run login).1.Fails refusal 1 (.forbidden wrong) :=
    ⟨task, htask, .inr ⟨_, _, rfl, rfl, rfl⟩⟩
  have hentries := h.2.2.1 1 login refusal _ hway hfail login refusal [] rfl rfl
  refine ⟨hmem, h.1 alice entry hmem, h.2.1 0 entry hret, hfail, hentries, ?_⟩
  have hlookup : ((empty settings).run (es ++ login)).1.tasks.lookup 1 = some task := by decide +kernel
  have hrecord := (provenance settings (es ++ login)).2.2.2 Memory Memory.remote 1 task _
    (.status (.ok wrong)) .empty _ hlookup rfl rfl
  exact hrecord.resolve_left fun hopening => by simp at hopening

end LedgerFront.Cache
