import LedgerFront.Proofs.Connection.Parts
import LedgerFront.Proofs.Connection.TimeToLive

/-!
# Giving up

A call that has started a login may give up, and the login goes on without it. Nobody else notices: the
call has left the queue, the lock is with the login, and only the call itself waits for that.

* `OnlyWaits`: a call that has nothing left to do but wait for its login.
* `GaveUp`: a call that has been cancelled before it got the lock.
* `giving_up`: what becomes of either.
-/

namespace LedgerFront.Cache

open Pairs

variable {settings : ConnectionSettings} {s : Cache} {v : View} {id : CallId}

/-- The event is not about whether this call goes on or gives up. -/
def Event.spares (id : CallId) : Event → Bool
  | .resume i | .cancel i | .drop i => i ≠ id
  | _ => true

theorem Event.own_of_not_spares {e : Event} (h : e.spares id = false) :
    e = .resume id ∨ e = .cancel id ∨ e = .drop id := by
  cases e with
  | resume i | cancel i | drop i =>
    obtain rfl : i = id := by simpa [spares] using h
    simp
  | _ => simp [spares] at h

/-! ## What others do to a call -/

/-- One call by itself. -/
def lone (id : CallId) : Part where
  users _ := False
  calls i := i = id
  logins i := i = id
  number _ := 0
  own _ h := of_decide_eq_true h
  apart _ _ hi hj _ := hi.trans hj.symm

/-- Nothing happens to the call, or it gets the outcome of the login that it waits for. -/
def View.Hears (id : CallId) (v v' : View) : Prop :=
  v'.call id = v.call id ∨
    ∃ c outcome, v.call id = some c ∧ c.stage = .joined ∧
      v'.call id = some { c with stage := .answered outcome }

theorem View.Hears.deliver (i : CallId) (outcome : Outcome) (v : View) :
    v.Hears id (v.deliver i outcome) := by
  unfold Hears View.deliver
  split
  · exact .inl rfl
  rename_i c hc
  split
  · rename_i hjoined
    by_cases hi : i = id
    · subst hi
      exact .inr ⟨c, outcome, hc, hjoined, Function.update_self ..⟩
    · exact .inl (Function.update_of_ne (Ne.symm hi) _ _)
  · exact .inl rfl

theorem View.Hears.goOn (i : CallId) (t : Attempt) (p : Login.Progress) (v : View) :
    v.Hears id (v.goOn i t p) := by
  unfold View.goOn
  split
  · exact .inl rfl
  · exact .inl rfl
  · exact deliver i _ ((v.setLogin i none).unlock t.user)

/-- **What others do to a call**: nothing, but that its login tells it the outcome. -/
theorem View.hears_step {e : Event} (hnew : ∀ user, e = .call user → id ≠ v.nextCall)
    (he : e.spares id = true) : v.Hears id (v.step e).1 := by
  -- other calls change themselves only
  have hother : ∀ {p : View × Returned}, (lone id).Misses v p → v.Hears id p.1 :=
    fun h => .inl (h.unseen.call id (decide_eq_true rfl))
  have hnobody : ∀ c : Caller, ¬ (lone id).users c.user := fun _ => not_false
  cases e with
  | call user => exact .inl (Function.update_of_ne (hnew user rfl) _ _)
  | resume i =>
    have hi : i ≠ id := of_decide_eq_true he
    exact hother (.resume (decide_eq_false hi) hi fun c _ => hnobody c)
  | cancel i =>
    have hi : i ≠ id := of_decide_eq_true he
    exact hother (.silent (.cancel (decide_eq_false hi)))
  | drop i =>
    have hi : i ≠ id := of_decide_eq_true he
    exact hother (.silent (.drop (decide_eq_false hi) fun c _ => hnobody c))
  | run i =>
    simp only [View.step, View.run]
    split
    · exact .inl rfl
    rename_i t ht
    split
    · exact .goOn i t _ v
    · exact .inl rfl
    · exact .deliver i _ (((v.setEntry t.user _).setLogin i none).unlock t.user)
  | answer i a =>
    simp only [View.step, View.answer]
    split
    · exact .inl rfl
    rename_i t ht
    split
    · exact .goOn i t _ v
    · exact .inl rfl
    · exact .inl rfl
  | crash i message =>
    simp only [View.step, View.crash]
    split
    · exact .inl rfl
    · rename_i t ht
      exact .deliver i _ ((v.setLogin i none).unlock t.user)
  | invalidate user => exact .inl rfl
  | expire user =>
    simp only [View.step]
    split <;> exact .inl rfl
  | advance ms => exact .inl rfl

/-- A new call has a number of its own. -/
theorem InOrder.nextCall_step (h : InOrder settings s) (e : Event) :
    s.nextCall ≤ (s.step e).1.nextCall := by
  obtain ⟨users, log, hs⟩ := h.sound
  rw [hs.nextCall, (hs.step e).1.nextCall, List.length_append]
  exact Nat.le_add_right _ _

theorem View.call_setCall (v : View) (id : CallId) (c : Option Caller) : (v.setCall id c).call id = c :=
  Function.update_self ..

/-- If the call is still there, this is true of it. -/
def View.CallIs (P : Caller → Prop) (id : CallId) (v : View) : Prop := ∀ c, v.call id = some c → P c

namespace View.CallIs

variable {P : Caller → Prop}

theorem gone (id : CallId) (v : View) : (v.setCall id none).CallIs P id := by
  intro d hd
  simp [call_setCall] at hd

theorem put {c : Caller} (hc : P c) (v : View) : (v.setCall id (some c)).CallIs P id := by
  intro d hd
  rw [call_setCall] at hd
  exact Option.some.inj hd ▸ hc

theorem drop (id : CallId) (v : View) : (v.drop id).CallIs P id := by
  unfold View.drop
  cases hc : v.call id with
  | none =>
    intro d hd
    simp [hc] at hd
  | some c =>
    dsimp only
    cases c.stage <;> exact gone id _

/-- **What is true of a call** stays so if its login's outcome, its cancellation and its own steps keep
it. -/
theorem step (h : v.CallIs P id) (hold : id < v.nextCall)
    (hheard : ∀ c outcome, P c → c.stage = .joined → P { c with stage := .answered outcome })
    (hcancel : ∀ c, P c → P { c with cancelled := true }) (hresume : (v.resume id).1.CallIs P id)
    (e : Event) : (v.step e).1.CallIs P id := by
  cases he : e.spares id with
  | true =>
    intro d hd
    obtain hsame | ⟨c, outcome, hc, hjoined, hanswered⟩ :=
      View.hears_step (fun _ _ => Nat.ne_of_lt hold) he
    · exact h d (hsame.symm.trans hd)
    · obtain rfl := Option.some.inj (hanswered.symm.trans hd)
      exact hheard c outcome (h c hc) hjoined
  | false =>
    obtain rfl | rfl | rfl := Event.own_of_not_spares he
    · exact hresume
    · simp only [View.step, View.cancel]
      split
      · exact h
      · rename_i c hc
        exact put (hcancel c (h c hc)) v
    · exact drop id v

end View.CallIs

/-! ## After the start of the login -/

/-- The call waits for its login, or has been told the outcome. -/
def OnlyWaits (c : Caller) : Prop := c.stage = .joined ∨ ∃ outcome, c.stage = .answered outcome

namespace View.CallIs

variable {part : Part}

theorem join (id : CallId) (c : Caller) (v : View) : (v.join id c).1.CallIs OnlyWaits id := by
  unfold View.join
  split
  · exact gone id v
  · exact put (.inl rfl) v

theorem step_onlyWaits (h : v.CallIs OnlyWaits id) (hold : id < v.nextCall) (e : Event) :
    (v.step e).1.CallIs OnlyWaits id := by
  refine h.step hold (fun _ outcome _ _ => .inr ⟨outcome, rfl⟩) (fun _ hc => hc) ?_ e
  unfold View.resume
  split
  · exact h
  rename_i c hc
  obtain hj | ⟨outcome, ho⟩ := h c hc
  · rw [hj]
    exact join id c v
  · rw [ho]
    exact gone id v

/-- **A call that only waits** reaches nobody else, whether it goes on or gives up. -/
theorem misses (h : v.CallIs OnlyWaits id) (hid : part.calls id = false) {e : Event}
    (he : e.spares id = false) : part.Misses v (v.step e) := by
  obtain rfl | rfl | rfl := Event.own_of_not_spares he
  · simp only [View.step, View.resume]
    split
    · exact .silent (.refl v)
    rename_i c hc
    obtain hj | ⟨outcome, ho⟩ := h c hc
    · rw [hj]
      exact .join (.refl v) hid
    · rw [ho]
      exact .returns (.setCall (.refl v) hid none) hid _
  · exact .silent (.cancel hid)
  · simp only [View.step, View.drop]
    split
    · exact .silent (.refl v)
    rename_i c hc
    obtain hj | ⟨outcome, ho⟩ := h c hc
    · rw [hj]
      exact .silent (.setCall (.refl v) hid none)
    · rw [ho]
      exact .silent (.setCall (.refl v) hid none)

end View.CallIs

/-- A call that has started a login only waits from then on. -/
theorem onlyWaits_of_starts (h : InOrder settings s) {t : LoginTask}
    (hstart : s.Starts (.resume id) id t) : (s.step (.resume id)).1.view.CallIs OnlyWaits id := by
  obtain ⟨c, g, -, hc, hp, -, hf⟩ := starts_cases hstart
  have hfresh : s.view.fresh? c.user = none := (view_fresh? s c.user).trans hf
  rw [step_view h]
  simp only [View.step, View.resume, view_call, hc, Option.map_some, PendingCall.seen, hp,
    CallPhase.stage, View.check, hfresh]
  exact .join id _ _

/-- Everything but one call, its login included. -/
def allBut (id : CallId) : Part where
  users _ := True
  calls i := i ≠ id
  logins _ := True
  number i := i
  own _ _ := trivial
  apart _ _ _ _ h := h

/-- **A call that only waits is left out** of what anybody else notices. -/
theorem splits_allBut {es : List Event} (h : InOrder settings s) (hold : id < s.nextCall)
    (hw : s.view.CallIs OnlyWaits id) : (allBut id).Splits (Event.spares id) s.view es := by
  induction es generalizing s with
  | nil => trivial
  | cons e es ih =>
    have hw' : (s.step e).1.view.CallIs OnlyWaits id := step_view h e ▸ hw.step_onlyWaits hold e
    have hrest := ih (h.step e) (Nat.lt_of_lt_of_le hold (h.nextCall_step e)) hw'
    have hclosed : (allBut id).Closed s.view := by
      refine ⟨fun _ _ _ _ => trivial, fun _ _ _ _ => trivial, fun user _ i hi => ?_⟩
      -- a call in a queue does not wait for its login yet
      obtain ⟨c, hc, -, hqueued⟩ := h.queued hi
      refine decide_eq_true fun he => ?_
      obtain hj | ⟨outcome, ho⟩ := hw c (he ▸ hc) <;> simp_all
    refine ⟨hclosed, ?_, step_view h e ▸ hrest⟩
    cases he : e.spares id with
    | true =>
      cases e with
      | call user => exact ⟨decide_eq_true (Nat.ne_of_gt hold), rfl⟩
      | resume i | cancel i | drop i => exact he
      | _ => trivial
    | false => exact hw.misses (by simp [allBut]) he

theorem renumber_allBut (id : CallId) (e : Event) : e.renumber (allBut id).number = e := by
  cases e <;> rfl

theorem share_allBut (id : CallId) (keep : Event → Bool) (es : List Event) :
    (allBut id).share keep es = es.filter keep := by
  unfold Part.share
  rw [List.map_congr_left fun e _ => renumber_allBut id e, List.map_id']

theorem agree_allBut (id : CallId) (v : View) : Agree (allBut id) v v where
  settings := rfl
  now := rfl
  nextCall := rfl
  entry _ _ := rfl
  desk user _ := by
    show v.desk user = { v.desk user with queue := (v.desk user).queue.map fun i => i }
    rw [List.map_id']
  call _ _ := rfl
  login _ _ := rfl

/-- What the others notice of a run: what they return, how many wait, which connections are stored and
how far the logins are. -/
structure SameToOthers (id : CallId) (p q : Cache × List (CallId × Outcome)) : Prop where
  returned : q.2.filter (·.1 ≠ id) = p.2.filter (·.1 ≠ id)
  waiting : ∀ user, q.1.waiting user = p.1.waiting user
  entry : ∀ user, entry? q.1 user = entry? p.1 user
  login : ∀ i, q.1.view.login i = p.1.view.login i

/-- A run, and the same without the steps of a call that only waits. -/
theorem sameToOthers_filter (h : InOrder settings s) (hold : id < s.nextCall)
    (hw : s.view.CallIs OnlyWaits id) (es : List Event) :
    SameToOthers id (s.run es) (s.run (es.filter (Event.spares id))) := by
  have hsplits : (allBut id).Splits (Event.spares id) s.view es := splits_allBut h hold hw
  obtain ⟨hagree, hreturned⟩ := (agree_allBut id s.view).run_share h h hsplits
  rw [share_allBut] at hagree hreturned
  have hothers : (s.run (es.filter (Event.spares id))).2 = (s.run es).2.filter (·.1 ≠ id) := by
    rw [hreturned]
    exact List.map_id' _
  refine ⟨?_, fun user => hagree.waiting trivial, fun user => hagree.entry user trivial,
    fun i => hagree.login i trivial⟩
  rw [hothers, List.filter_filter]
  simp

/-- **Giving up changes nothing for others.** -/
theorem sameToOthers_of_filter_eq (h : InOrder settings s) (hold : id < s.nextCall)
    (hw : s.view.CallIs OnlyWaits id) {es es' : List Event}
    (hes : es'.filter (Event.spares id) = es.filter (Event.spares id)) :
    SameToOthers id (s.run es) (s.run es') := by
  have hp := sameToOthers_filter h hold hw es
  have hq := sameToOthers_filter h hold hw es'
  rw [hes] at hq
  exact ⟨hq.returned.symm.trans hp.returned, fun user => (hq.waiting user).symm.trans (hp.waiting user),
    fun user => (hq.entry user).symm.trans (hp.entry user), fun i => (hq.login i).symm.trans (hp.login i)⟩

/-! ## The login goes on -/

section

variable {users : List Credentials} {log : List Heard} {t : LoginTask} {x : Entry}

/-- A connection about to be stored waits for the next step of its login. -/
theorem lookup_run_of_storing {es : List Event} (hg : GatesOK s) (hs : Sound settings users log s)
    (ht : s.tasks.lookup id = some t) (hp : t.phase = .storing x) (hrun : Event.run id ∉ es)
    (hcrash : ∀ message, Event.crash id message ∉ es) : (s.run es).1.tasks.lookup id = some t := by
  induction es generalizing s users log with
  | nil => exact ht
  | cons e es ih =>
    have hne : e ≠ .run id := fun he => hrun (he ▸ List.mem_cons_self ..)
    have hne' : ∀ message, e ≠ .crash id message := fun message he =>
      hcrash message (he ▸ List.mem_cons_self ..)
    have hstep := lookup_step_of_waiting hg hs ht hp hne hne'
    exact ih (hg.step e) (hs.step e).1 hstep (fun hm => hrun (List.mem_cons_of_mem _ hm))
      fun message hm => hcrash message (List.mem_cons_of_mem _ hm)

theorem entry?_of_storing (ht : s.tasks.lookup id = some t) (hp : t.phase = .storing x) :
    entry? (s.step (.run id)).1 t.user = some x := by
  simp only [step, runTask, ht, hp, entry?]
  rw [(Aside.endTask id t (.ok x) _).entries, lookup_put, if_pos rfl]

/-- **A login that succeeds stores its connection** in its next step, whatever happens before that. -/
theorem InOrder.stored_of_succeeds (h : InOrder settings s) {user : Credentials} {e : Event}
    {rest : List Event} (hsucceeds : s.Succeeds e id user x) (hrun : Event.run id ∉ rest)
    (hcrash : ∀ message, Event.crash id message ∉ rest) :
    entry? (((s.step e).1.run rest).1.step (.run id)).1 user = some x := by
  have hstep : InOrder settings (s.step e).1 := h.step e
  obtain ⟨users, log, hs⟩ := hstep.sound
  obtain ⟨t, ht, rfl, hp⟩ := hsucceeds.storing
  have hstill := lookup_run_of_storing hstep.gates hs ht hp hrun hcrash
  exact entry?_of_storing hstill hp

end

/-! ## Before the login -/

/-- The call has been cancelled before it got the lock. -/
def GaveUp (c : Caller) : Prop := c.cancelled = true ∧ (c.stage = .arrived ∨ c.stage = .queued)

namespace View.CallIs

theorem proceed {c : Caller} (hc : c.cancelled = true) (v : View) :
    (v.proceed id c).1.CallIs GaveUp id := by
  unfold View.proceed
  rw [if_pos hc]
  exact gone id _

theorem lookUp {c : Caller} (hc : c.cancelled = true) (v : View) :
    (v.lookUp id c).1.CallIs GaveUp id := by
  unfold View.lookUp
  split
  · exact gone id v
  dsimp only
  split
  · exact gone id v
  · exact proceed hc _

theorem step_gaveUp (h : v.CallIs GaveUp id) (hold : id < v.nextCall) (e : Event) :
    (v.step e).1.CallIs GaveUp id := by
  refine h.step hold ?_ (fun _ hc => ⟨rfl, hc.2⟩) ?_ e
  · -- no login tells the call anything
    rintro c outcome ⟨-, ha | hq⟩ hjoined <;> simp_all
  unfold View.resume
  split
  · exact h
  rename_i c hc
  obtain ⟨hcancelled, ha | hq⟩ := h c hc
  · rw [ha]
    exact lookUp hcancelled v
  · rw [hq]
    exact proceed hcancelled v

end View.CallIs

theorem gaveUp_of_cancelled {c : PendingCall} (hc : s.calls.lookup id = some c)
    (hcancelled : c.cancelled = true) (hphase : c.phase = .arrived ∨ ∃ g, c.phase = .queued g) :
    s.view.CallIs GaveUp id := by
  intro d hd
  obtain rfl : c.seen = d := by simpa [view_call, hc] using hd
  refine ⟨hcancelled, ?_⟩
  rcases hphase with ha | ⟨g, hq⟩
  · exact .inl (by simp [PendingCall.seen, ha, CallPhase.stage])
  · exact .inr (by simp [PendingCall.seen, hq, CallPhase.stage])

theorem gaveUp_run {es : List Event} (h : InOrder settings s) (hold : id < s.nextCall)
    (hg : s.view.CallIs GaveUp id) : (s.run es).1.view.CallIs GaveUp id := by
  induction es generalizing s with
  | nil => exact hg
  | cons e es ih =>
    have hg' : (s.step e).1.view.CallIs GaveUp id := step_view h e ▸ hg.step_gaveUp hold e
    exact ih (h.step e) (Nat.lt_of_lt_of_le hold (h.nextCall_step e)) hg'

/-- A call that has given up does not start a login. -/
theorem not_starts_of_gaveUp (hg : s.view.CallIs GaveUp id) (e : Event) (t : LoginTask) :
    ¬ s.Starts e id t := by
  intro hstart
  obtain ⟨c, g, -, hc, hp, -, -⟩ := starts_cases hstart
  have hchecking : c.seen.stage = .checking := by
    show c.phase.stage = .checking
    rw [hp]
    rfl
  obtain ⟨-, ha | hq⟩ := hg c.seen (by rw [view_call, hc]; rfl) <;> simp_all

/-- In and out of the queue again. -/
theorem withdraw_enter {id : CallId} {g : Gate} (hid : id ∉ g.queue) :
    Gate.withdraw id (Gate.enter id g) = g := by
  have hstay : g.queue.filter (· ≠ id) = g.queue := by
    rw [List.filter_eq_self]
    intro i hi
    exact decide_eq_true fun he => hid (he ▸ hi)
  simp only [Gate.withdraw, Gate.enter, List.filter_append, hstay, Nat.add_sub_cancel]
  simp

/-- **A call that is cancelled when it starts to wait** leaves at once, and all is as if it had never
come. -/
theorem resume_of_cancelled (h : InOrder settings s) {c : PendingCall} (hc : s.calls.lookup id = some c)
    (hcancelled : c.cancelled = true) (hp : c.phase = .arrived) (hf : s.fresh? c.user = none)
    (hroom : s.waiting c.user < settings.maxWaiters) :
    seen (s.step (.resume id)) = (s.view.setCall id none, some (id, .error .cancelled)) := by
  have hid : id ∉ (s.view.desk c.user).queue := by
    intro hmem
    obtain ⟨d, hd, -, hqueued⟩ := h.queued hmem
    obtain rfl : c.seen = d := by simpa [view_call, hc] using hd
    simp [PendingCall.seen, hp, CallPhase.stage] at hqueued
  have hfresh : s.view.fresh? c.user = none := (view_fresh? s c.user).trans hf
  have hsettings : s.view.settings = settings := h.settings_eq
  have hbelow : ¬ settings.maxWaiters ≤ (s.view.desk c.user).waiting := by
    rw [← waiting_eq]
    exact Nat.not_le_of_lt hroom
  have hdesk : (s.view.setDesk c.user (Gate.enter id)).setDesk c.user (Gate.withdraw id) = s.view := by
    simp only [View.setDesk, Function.update_self, Function.update_idem, withdraw_enter hid,
      Function.update_eq_self]
  rw [view_step h]
  simp only [View.step, View.resume, view_call, hc, Option.map_some, PendingCall.seen, hp, CallPhase.stage,
    View.lookUp, hfresh, hsettings, if_neg hbelow, View.proceed, hcancelled, if_true, hdesk]

/-! ## Giving up -/

/-- **Giving up neither stops nor wastes a login**, in every reachable state. Once a call has started a
login, two runs that differ only in when it goes on, is cancelled or is dropped are the same to everybody
else, at each of their points; and when the login succeeds its connection is stored in the login's next
step, whatever has become of the call. A call that is cancelled before it has the lock never starts a
login; if it finds itself cancelled when it starts to wait, it returns at once, be the lock free or not,
and as many calls wait as before. -/
theorem giving_up (settings : ConnectionSettings) (es : List Event) :
    let s := ((empty settings).run es).1
    (∀ id t, s.Starts (.resume id) id t →
      let s' := (s.step (.resume id)).1
      (∀ more more', more'.filter (Event.spares id) = more.filter (Event.spares id) →
        SameToOthers id (s'.run more) (s'.run more')) ∧
      ∀ more e x rest, (s'.run more).1.Succeeds e id t.user x → Event.run id ∉ rest →
        (∀ message, Event.crash id message ∉ rest) →
        let u := (((s'.run more).1.step e).1.run rest).1
        entry? (u.step (.run id)).1 t.user = some x) ∧
    ∀ id c, s.calls.lookup id = some c → c.cancelled = true →
      (c.phase = .arrived ∨ ∃ g, c.phase = .queued g) →
      (∀ more e t, ¬ (s.run more).1.Starts e id t) ∧
      (c.phase = .arrived → s.fresh? c.user = none → s.waiting c.user < settings.maxWaiters →
        let r := s.step (.resume id)
        r.2 = some (id, .error .cancelled) ∧ r.1.calls.lookup id = none ∧
          ∀ user, r.1.waiting user = s.waiting user) := by
  intro s
  have h : InOrder settings s := (inOrder_empty settings).run es
  have hold : ∀ {id c}, s.calls.lookup id = some c → id < s.nextCall := fun hc =>
    h.gates.old _ (mem_keys_of_lookup hc)
  refine ⟨fun id t hstart => ?_, fun id c hc hcancelled hphase => ?_⟩
  · intro s'
    have h' : InOrder settings s' := h.step _
    have hid : id < s'.nextCall := by
      obtain ⟨c, -, -, hc, -⟩ := starts_cases hstart
      exact Nat.lt_of_lt_of_le (hold hc) (h.nextCall_step _)
    refine ⟨fun more more' => sameToOthers_of_filter_eq h' hid (onlyWaits_of_starts h hstart), ?_⟩
    intro more e x rest hsucceeds hrun hcrash u
    exact (h'.run more).stored_of_succeeds hsucceeds hrun hcrash
  · have hgave : s.view.CallIs GaveUp id := gaveUp_of_cancelled hc hcancelled hphase
    refine ⟨fun more e t => not_starts_of_gaveUp (gaveUp_run h (hold hc) hgave) e t, ?_⟩
    intro harrived hf hroom r
    have hstep : seen r = (s.view.setCall id none, some (id, .error .cancelled)) :=
      resume_of_cancelled h hc hcancelled harrived hf hroom
    have hview : r.1.view = s.view.setCall id none := congrArg Prod.fst hstep
    refine ⟨congrArg Prod.snd hstep, ?_, fun user => ?_⟩
    · have hgone : r.1.view.call id = none := by rw [hview, View.call_setCall]
      simpa [view_call] using hgone
    · rw [waiting_eq, waiting_eq, hview]
      rfl

/-- The call that logs in is cancelled, and the one that waits for it gets the connection all the same.
A call that is cancelled at once finds the lock free and leaves. -/
theorem giving_up_of_two :
    let settings : ConnectionSettings := ⟨1000, 4, 3, .zero⟩
    let alice : Credentials := ⟨"alice", "s3cret"⟩
    let entry : Entry := ⟨⟨7, [⟨1, "Demo", []⟩]⟩, 0⟩
    let s := ((empty settings).run [.call alice, .resume 0, .call alice, .resume 1]).1
    let s' := (s.step (.resume 0)).1
    let login : List Event := [.run 0, .answer 0 (.opened (.ok 7)), .answer 0 (.status (.ok .success))]
    let success : Event := .answer 0 (.companies (.ok (some entry.connected.companies)))
    let stays : List Event := login ++ [success, .run 0, .resume 0, .resume 1, .resume 1]
    let leaves : List Event := .cancel 0 :: login ++ [.resume 0, success, .run 0, .resume 1, .resume 1]
    let c := ((empty settings).run [.call alice, .cancel 0]).1
    s.Starts (.resume 0) 0 ⟨alice, 0, .spawned⟩ ∧ SameToOthers 0 (s'.run stays) (s'.run leaves) ∧
      (s'.run stays).2 = [(0, .ok entry), (1, .ok entry)] ∧
      (s'.run leaves).2.filter (·.1 ≠ 0) = [(1, .ok entry)] ∧
      entry? ((((s'.run (.cancel 0 :: login)).1.step success).1.run [.resume 0]).1.step (.run 0)).1 alice =
        some entry ∧
      (∀ more e t, ¬ (c.run more).1.Starts e 0 t) ∧
      (c.step (.resume 0)).2 = some (0, .error .cancelled) ∧ (c.step (.resume 0)).1.waiting alice = 0 := by
  intro settings alice entry s s' login success stays leaves c
  have hstart : s.Starts (.resume 0) 0 ⟨alice, 0, .spawned⟩ := by
    have hnone : s.tasks = [] := by decide +kernel
    exact ⟨by decide +kernel, .inl fun u hu => by simp [hnone] at hu⟩
  obtain ⟨hsame, hstored⟩ := (giving_up settings _).1 0 _ hstart
  have hleaves : SameToOthers 0 (s'.run stays) (s'.run leaves) := hsame stays leaves rfl
  have hstays : (s'.run stays).2 = [(0, .ok entry), (1, .ok entry)] := by decide +kernel
  have hsucceeds : (s'.run (.cancel 0 :: login)).1.Succeeds success 0 alice entry :=
    ⟨⟨alice, 0, .asking ⟨1, .listing 7⟩⟩, _, _, rfl, by decide +kernel, rfl, rfl, rfl, by decide +kernel⟩
  obtain ⟨hnever, hgone⟩ := (giving_up settings [.call alice, .cancel 0]).2 0 ⟨alice, true, .arrived⟩
    rfl rfl (.inl rfl)
  obtain ⟨hreturned, -, hwaiting⟩ := hgone rfl (by decide +kernel) (by decide +kernel)
  refine ⟨hstart, hleaves, hstays, ?_, ?_, hnever, hreturned, ?_⟩
  · exact hleaves.returned.trans (by rw [hstays]; decide +kernel)
  · exact hstored _ success entry [.resume 0] hsucceeds (by simp) (by simp)
  · exact (hwaiting alice).trans (by decide +kernel)

end LedgerFront.Cache
