import LedgerFront.Proofs.Connection.Counters
import Mathlib.Data.List.Induction

/-!
# Invalidation

An invalidation drops the connection of a user and lets the logins of the user alone. A login that is
under way goes on and stores its connection after the invalidation, and a call that arrives later is
served with it. That can only be excluded if the login comes to no connection, or to one that is too old.

* `lastStored?`, `Gets`: the login that the connection of a call comes from; `exists_gets`: there is one.
* `TaskPhase.Futile`: what has no fresh connection to come.
* `Barred.step`, `not_undoes_of_futile`: nobody gets the connection of such a login after an invalidation.
* `brings_of_not_futile`: every other login can be carried to its end.
* `undoes_iff`, `invalidation_holds_iff`: which logins undo an invalidation, and when none does.
-/

namespace LedgerFront

/-- The login that a call has a connection from: its own one if it has waited for that, otherwise the
one whose connection is in the store. -/
def PendingCall.source? (id : CallId) (c : PendingCall) (stored : Option CallId) : Option CallId :=
  match c.phase with
  | .answered _ _ => some id
  | .arrived | .queued _ | .checking _ | .joined _ => stored

theorem PendingCall.source?_of_not_answered (id : CallId) (c : PendingCall) (stored : Option CallId)
    (h : ¬ ∃ g outcome, c.phase = .answered g outcome) : c.source? id stored = stored := by
  unfold source?
  split
  · rename_i g outcome hp
    exact absurd ⟨g, outcome, hp⟩ h
  all_goals rfl

/-- A login that stands here does not come to a connection any more that is fresh when it is stored. -/
def TaskPhase.Futile (settings : ConnectionSettings) (now : Nat) : TaskPhase → Prop
  | .spawned => settings.ttl = 0 ∨ settings.loginAttempts = 0
  | .asking _ => settings.ttl = 0
  | .storing x => x.createdAt + settings.ttl ≤ now

/-- How a login stands after a step at this time, if it is still under way. -/
inductive TaskPhase.Follows (attempts now : Nat) : TaskPhase → TaskPhase → Prop
  | stayed (phase : TaskPhase) : Follows attempts now phase phase
  | began {l : Login} (h : 0 < attempts) : Follows attempts now .spawned (.asking l)
  | asked {l l' : Login} : Follows attempts now (.asking l) (.asking l')
  | came {l : Login} {c : Connected} : Follows attempts now (.asking l) (.storing ⟨c, now⟩)

/-- A login that has no fresh connection to come will have none later. -/
theorem TaskPhase.Futile.follows {settings : ConnectionSettings} {now now' : Nat} {p q : TaskPhase}
    (h : p.Futile settings now) (hpq : p.Follows settings.loginAttempts now q) (hnow : now ≤ now') :
    q.Futile settings now' := by
  cases hpq with
  | stayed =>
    cases p with
    | storing x => exact Nat.le_trans h hnow
    | _ => exact h
  | began hattempts => exact h.resolve_right (Nat.ne_of_gt hattempts)
  | asked => exact h
  | came =>
    have hzero : settings.ttl = 0 := h
    show now + settings.ttl ≤ now'
    rwa [hzero]

namespace Cache

open Pairs

variable {s : Cache} {settings : ConnectionSettings} {v : View} {user : Credentials} {id k : CallId}
  {x : Entry} {es : List Event}

/-- The login that stores a connection of the user with this event. -/
def stores? (s : Cache) (user : Credentials) : Event → Option CallId
  | .run id =>
    match s.tasks.lookup id with
    | some ⟨u, _, .storing _⟩ => if u = user then some id else none
    | _ => none
  | _ => none

/-- The login that was the last to store a connection of the user. -/
def lastStored? (user : Credentials) (s : Cache) : List Event → Option CallId
  | [] => none
  | e :: es => (lastStored? user (s.step e).1 es).or (s.stores? user e)

/-- After these events, a call of the user gets a connection of this login. -/
def Gets (settings : ConnectionSettings) (es : List Event) (user : Credentials) (id k : CallId)
    (x : Entry) : Prop :=
  let s := ((empty settings).run es).1
  (s.step (.resume id)).2 = some (id, .ok x) ∧
    ∃ c, s.calls.lookup id = some c ∧ c.user = user ∧
      c.source? id (lastStored? user (empty settings) es) = some k

/-- The login has started in one of these events. -/
def Started (settings : ConnectionSettings) (es : List Event) (k : CallId) : Prop :=
  ∃ before e after t, es = before ++ e :: after ∧ ((empty settings).run before).1.Starts e k t

/-- The login undoes an invalidation that comes after these events: a call that arrives later gets its
connection. -/
def Undoes (settings : ConnectionSettings) (before : List Event) (user : Credentials) (k : CallId) : Prop :=
  ∃ after id x, ((empty settings).run before).1.nextCall ≤ id ∧
    Gets settings (before ++ .invalidate user :: after) user id k x

theorem run_append (s : Cache) (es es' : List Event) :
    (s.run (es ++ es')).1 = ((s.run es).1.run es').1 := by
  induction es generalizing s with
  | nil => rfl
  | cons e es ih => exact ih (s.step e).1

theorem lastStored?_append (s : Cache) (es es' : List Event) :
    lastStored? user s (es ++ es') =
      (lastStored? user (s.run es).1 es').or (lastStored? user s es) := by
  induction es generalizing s with
  | nil => exact (Option.or_none ..).symm
  | cons e es ih =>
    show (lastStored? user (s.step e).1 (es ++ es')).or (s.stores? user e) = _
    rw [ih, Option.or_assoc]
    rfl

theorem stores?_eq_some {e : Event} :
    s.stores? user e = some k ↔
      e = .run k ∧ ∃ t x, s.tasks.lookup k = some t ∧ t.user = user ∧ t.phase = .storing x := by
  constructor
  · intro h
    unfold stores? at h
    split at h
    · rename_i i
      split at h
      · rename_i u g x ht
        obtain ⟨hu, hi⟩ := Option.ite_none_right_eq_some.1 h
        obtain rfl := Option.some.inj hi
        exact ⟨rfl, _, x, ht, hu, rfl⟩
      · simp at h
    · simp at h
  · rintro ⟨rfl, ⟨u, g, phase⟩, x, ht, rfl, hp⟩
    obtain rfl : phase = .storing x := hp
    simp only [stores?, ht, if_true]

/-! ## What is in the store -/

/-- **A connection in the store** was there before a step, or its login stores it in the step. -/
theorem entries_step {e : Event} (hx : (s.step e).1.entries.lookup user = some x) :
    (s.stores? user e = none ∧ s.entries.lookup user = some x) ∨
      ∃ k t, s.stores? user e = some k ∧ s.tasks.lookup k = some t ∧ t.user = user ∧
        t.phase = .storing x := by
  by_cases htouch : s.TouchesStore e
  swap
  · have hnone : s.stores? user e = none := by
      refine Option.eq_none_iff_forall_ne_some.2 fun k hk => htouch ?_
      obtain ⟨rfl, t, y, ht, -, hp⟩ := stores?_eq_some.1 hk
      exact ⟨t, y, ht, hp⟩
    rw [(step_sameStore htouch).entries] at hx
    exact .inl ⟨hnone, hx⟩
  cases e with
  | run i =>
    obtain ⟨t, y, ht, hp⟩ := htouch
    simp only [step, runTask, ht, hp] at hx
    rw [(Aside.endTask i t (.ok y) _).entries, lookup_put] at hx
    by_cases hu : user = t.user
    · rw [if_pos hu] at hx
      obtain rfl := Option.some.inj hx
      exact .inr ⟨i, t, stores?_eq_some.2 ⟨rfl, t, y, ht, hu.symm, hp⟩, ht, hu.symm, hp⟩
    · rw [if_neg hu] at hx
      have hnone : s.stores? user (.run i) = none := by
        refine Option.eq_none_iff_forall_ne_some.2 fun k hk => hu ?_
        obtain ⟨hi, u, z, hu', huser, -⟩ := stores?_eq_some.1 hk
        obtain rfl := Event.run.inj hi
        obtain rfl := Option.some.inj (ht.symm.trans hu')
        exact huser.symm
      exact .inl ⟨hnone, hx⟩
  | invalidate user' =>
    simp only [step, lookup_erase] at hx
    split at hx
    · simp at hx
    · exact .inl ⟨rfl, hx⟩
  | expire user' =>
    simp only [step, expire] at hx
    split at hx
    · exact .inl ⟨rfl, hx⟩
    · rw [lookup_erase] at hx
      split at hx
      · simp at hx
      · exact .inl ⟨rfl, hx⟩
  | advance ms => exact .inl ⟨rfl, hx⟩
  | _ => exact htouch.elim

/-! ## Logins under way have started -/

theorem Started.append (h : Started settings es k) (more : List Event) :
    Started settings (es ++ more) k := by
  obtain ⟨before, e, after, t, rfl, hstart⟩ := h
  exact ⟨before, e, after ++ more, t, by simp, hstart⟩

theorem started_of_task {t : LoginTask} (ht : ((empty settings).run es).1.tasks.lookup k = some t) :
    Started settings es k := by
  induction es using List.reverseRecOn generalizing t with
  | nil => simp [run, empty] at ht
  | append_singleton es e ih =>
    rw [run_append] at ht
    cases hbefore : ((empty settings).run es).1.tasks.lookup k with
    | some u => exact (ih hbefore).append [e]
    | none =>
      refine ⟨es, e, [], t, rfl, mem_of_lookup ht, .inl fun u hmem => ?_⟩
      simpa using List.lookup_eq_none_iff.1 hbefore (k, u) hmem

/-- The connection in the store is that of the login that was the last to store one. -/
theorem stored_by_last (hx : ((empty settings).run es).1.entries.lookup user = some x) :
    ∃ k t before after, lastStored? user (empty settings) es = some k ∧
      es = before ++ .run k :: after ∧ ((empty settings).run before).1.tasks.lookup k = some t ∧
      t.user = user ∧ t.phase = .storing x := by
  induction es using List.reverseRecOn with
  | nil => simp [run, empty] at hx
  | append_singleton es e ih =>
    rw [run_append] at hx
    rw [lastStored?_append]
    obtain ⟨hnone, hbefore⟩ | ⟨k, t, hk, ht, hu, hp⟩ := entries_step hx
    · obtain ⟨k, t, before, after, hlast, rfl, ht⟩ := ih hbefore
      refine ⟨k, t, before, after ++ [e], ?_, by simp, ht⟩
      simp only [lastStored?, Option.none_or, hnone, hlast]
    · obtain rfl := (stores?_eq_some.1 hk).1
      refine ⟨k, t, es, [], ?_, rfl, ht, hu, hp⟩
      simp only [lastStored?, Option.none_or, hk, Option.some_or]

theorem Early.not_onlyWaits {c : Caller} (h : Early c) : ¬ OnlyWaits c := by
  rintro (hjoined | ⟨outcome, hanswered⟩)
  · simp [Early, hjoined] at h
  · simp [Early, hanswered] at h

/-- A call that only waits after it has gone on has only waited before, or has started its login. -/
theorem View.onlyWaits_resume {c : Caller} (hc : (v.resume id).1.call id = some c) (hw : OnlyWaits c) :
    (∃ d, v.call id = some d ∧ OnlyWaits d) ∨ ∃ t, (v.resume id).1.login id = some t := by
  unfold View.resume at hc ⊢
  cases hd : v.call id with
  | none => simp [hd] at hc
  | some d =>
    simp only [hd] at hc ⊢
    cases hstage : d.stage with
    | arrived =>
      simp only [hstage] at hc
      cases hf : v.fresh? d.user with
      | some e =>
        rw [lookUp_of_fresh hf, call_setCall] at hc
        simp at hc
      | none => exact absurd hw ((lookUp_of_not_fresh id hf).2 c hc).not_onlyWaits
    | queued =>
      simp only [hstage] at hc
      exact absurd hw (CallIs.proceed_early d v c hc).not_onlyWaits
    | checking =>
      simp only [hstage, check] at hc ⊢
      cases hf : v.fresh? d.user with
      | some e => simp [hf, call_setCall] at hc
      | none =>
        refine .inr ⟨⟨d.user, .spawned⟩, ?_⟩
        rw [join_login]
        exact v.login_setLogin id _
    | joined => exact .inl ⟨d, rfl, .inl hstage⟩
    | answered outcome => exact .inl ⟨d, rfl, .inr ⟨outcome, hstage⟩⟩

/-- **A call comes to wait for its login** by starting it. -/
theorem View.onlyWaits_step {e : Event} {c : Caller} (hc : (v.step e).1.call id = some c)
    (hw : OnlyWaits c) :
    (∃ d, v.call id = some d ∧ OnlyWaits d) ∨ ∃ t, (v.step e).1.login id = some t := by
  by_cases hnew : ∃ user, e = .call user ∧ id = v.nextCall
  · obtain ⟨user, rfl, rfl⟩ := hnew
    obtain rfl := Option.some.inj ((v.call_setCall v.nextCall _).symm.trans hc)
    simp [OnlyWaits] at hw
  cases he : e.spares id with
  | true =>
    obtain hsame | ⟨d, outcome, hd, hjoined, -⟩ :=
      View.hears_step (fun user hu hid => hnew ⟨user, hu, hid⟩) he
    · exact .inl ⟨c, hsame ▸ hc, hw⟩
    · exact .inl ⟨d, hd, .inl hjoined⟩
  | false =>
    obtain rfl | rfl | rfl := Event.own_of_not_spares he
    · exact onlyWaits_resume hc hw
    · simp only [View.step, View.cancel] at hc
      split at hc
      · exact .inl ⟨c, hc, hw⟩
      · rename_i d hd
        rw [call_setCall] at hc
        obtain rfl := Option.some.inj hc
        exact .inl ⟨d, hd, hw⟩
    · simp only [View.step, View.drop] at hc
      split at hc
      · exact .inl ⟨c, hc, hw⟩
      · split at hc <;> simp [call_setCall] at hc

theorem started_of_onlyWaits {c : Caller} (hc : ((empty settings).run es).1.view.call id = some c)
    (hw : OnlyWaits c) : Started settings es id := by
  induction es using List.reverseRecOn generalizing c with
  | nil => simp [run, empty, view_call] at hc
  | append_singleton es e ih =>
    have ho := inOrder_run settings es
    have hview : ((empty settings).run (es ++ [e])).1.view =
        (((empty settings).run es).1.view.step e).1 := by
      rw [run_append]
      exact step_view ho e
    rw [hview] at hc
    obtain ⟨d, hd, hdw⟩ | ⟨a, ha⟩ := View.onlyWaits_step hc hw
    · exact (ih hd hdw).append [e]
    · rw [← hview] at ha
      obtain ⟨t, ht, -⟩ := Option.map_eq_some_iff.1 ha
      exact started_of_task ht

/-- **Every connection that a call gets comes from a login** that has started. -/
theorem exists_gets (settings : ConnectionSettings) (es : List Event) {id : CallId} {x : Entry}
    (hr : (((empty settings).run es).1.step (.resume id)).2 = some (id, .ok x)) :
    ∃ user k, Gets settings es user id k x ∧ Started settings es k := by
  cases hc : ((empty settings).run es).1.calls.lookup id with
  | none => simp [step, resume, hc] at hr
  | some c =>
    by_cases hanswered : ∃ g outcome, c.phase = .answered g outcome
    · obtain ⟨g, outcome, hp⟩ := hanswered
      have hcaller : ((empty settings).run es).1.view.call id = some c.seen := by rw [view_call, hc]; rfl
      have hwaits : OnlyWaits c.seen := .inr ⟨outcome, by simp [PendingCall.seen, hp, CallPhase.stage]⟩
      have hsource : c.source? id (lastStored? c.user (empty settings) es) = some id := by
        simp [PendingCall.source?, hp]
      exact ⟨c.user, id, ⟨hr, c, hc, rfl, hsource⟩, started_of_onlyWaits hcaller hwaits⟩
    · obtain ⟨-, hfresh | ⟨g, hp⟩⟩ := (resumed hc).returned id x hr
      swap
      · exact absurd ⟨g, _, hp⟩ hanswered
      have hx := (Option.filter_eq_some_iff.1 hfresh).1
      obtain ⟨k, t, before, after, hlast, rfl, ht, -⟩ := stored_by_last hx
      refine ⟨c.user, k, ⟨hr, c, hc, rfl, ?_⟩, (started_of_task ht).append _⟩
      rw [c.source?_of_not_answered id _ hanswered, hlast]

/-! ## What a step does to a login -/

theorem View.login_goOn {t t' : Attempt} {p : Login.Progress} (ht : (v.goOn k t p).login k = some t') :
    (∃ l, p = .waiting l ∧ t' = { t with phase := .asking l }) ∨
      ∃ c, p = .finished (.ok c) ∧ t' = { t with phase := .storing ⟨c, v.now⟩ } := by
  unfold View.goOn at ht
  split at ht
  · rename_i l
    rw [login_setLogin] at ht
    exact .inl ⟨l, rfl, (Option.some.inj ht).symm⟩
  · rename_i c
    rw [login_setLogin] at ht
    exact .inr ⟨c, rfl, (Option.some.inj ht).symm⟩
  · simp [login_finish] at ht

/-- A call that only waits does nothing to its login. -/
theorem View.login_resume (hw : v.CallIs OnlyWaits k) : (v.resume k).1.login = v.login := by
  unfold View.resume
  split
  · rfl
  rename_i c hc
  obtain hjoined | ⟨outcome, hanswered⟩ := hw c hc
  · rw [hjoined]
    exact join_login k c v
  · rw [hanswered]
    rfl

theorem View.login_cancel (id : CallId) (v : View) : (v.cancel id).login = v.login := by
  unfold View.cancel
  split <;> rfl

theorem View.login_drop (id : CallId) (v : View) : (v.drop id).login = v.login := by
  unfold View.drop
  split
  · rfl
  · split <;> rfl

/-- **A login whose call only waits** was under way before a step if it is after it. -/
theorem View.login_step (hw : v.CallIs OnlyWaits k) (hold : k < v.nextCall) {e : Event} {t' : Attempt}
    (ht' : (v.step e).1.login k = some t') :
    ∃ t, v.login k = some t ∧ t.user = t'.user ∧
      t.phase.Follows v.settings.loginAttempts v.now t'.phase := by
  have hsame : v.login k = some t' → ∃ t, v.login k = some t ∧ t.user = t'.user ∧
      t.phase.Follows v.settings.loginAttempts v.now t'.phase :=
    fun h => ⟨t', h, rfl, .stayed _⟩
  by_cases he : e.about? = some k
  swap
  · have hnew : ∀ user, e = .call user → k ≠ v.nextCall := fun _ _ => Nat.ne_of_lt hold
    rw [(View.step_of_other he hnew).2] at ht'
    exact hsame ht'
  cases e with
  | resume i =>
    obtain rfl : i = k := Option.some.inj he
    exact hsame (congrFun (login_resume hw) i ▸ ht')
  | cancel i => exact hsame (congrFun (login_cancel i v) k ▸ ht')
  | drop i => exact hsame (congrFun (login_drop i v) k ▸ ht')
  | run i =>
    obtain rfl : i = k := Option.some.inj he
    simp only [View.step, View.run] at ht'
    split at ht'
    · exact hsame ht'
    rename_i t ht
    split at ht'
    · rename_i hp
      obtain ⟨l, hl, rfl⟩ | ⟨c, hc, rfl⟩ := login_goOn ht'
      · refine ⟨t, ht, rfl, hp ▸ .began ?_⟩
        exact Nat.pos_of_ne_zero fun hzero => by simp [hzero, Login.start] at hl
      · exact absurd hc Login.start_ne_ok
    · exact hsame ht'
    · simp [login_finish] at ht'
  | answer i a =>
    obtain rfl : i = k := Option.some.inj he
    simp only [View.step, View.answer] at ht'
    split at ht'
    · exact hsame ht'
    rename_i t ht
    split at ht'
    · rename_i l hp
      obtain ⟨l', -, rfl⟩ | ⟨c, -, rfl⟩ := login_goOn ht'
      · exact ⟨t, ht, rfl, hp ▸ .asked⟩
      · exact ⟨t, ht, rfl, hp ▸ .came⟩
    · exact hsame ht'
    · exact hsame ht'
  | crash i message =>
    obtain rfl : i = k := Option.some.inj he
    simp only [View.step, View.crash] at ht'
    split at ht'
    · exact hsame ht'
    · simp [login_finish] at ht'
  | call user => simp [Event.about?] at he
  | invalidate user => simp [Event.about?] at he
  | expire user => simp [Event.about?] at he
  | advance ms => simp [Event.about?] at he

/-! ## Nothing to come -/

theorem InOrder.nextCall_run (h : InOrder settings s) (es : List Event) :
    s.nextCall ≤ (s.run es).1.nextCall := by
  induction es generalizing s with
  | nil => exact Nat.le_refl _
  | cons e es ih => exact Nat.le_trans (h.nextCall_step e) (ih (h.step e))

theorem View.CallIs.run_onlyWaits (hw : s.view.CallIs OnlyWaits k) (h : InOrder settings s)
    (hold : k < s.nextCall) (es : List Event) : (s.run es).1.view.CallIs OnlyWaits k := by
  induction es generalizing s with
  | nil => exact hw
  | cons e es ih =>
    have hw' : (s.step e).1.view.CallIs OnlyWaits k := step_view h e ▸ hw.step_onlyWaits hold e
    exact ih hw' (h.step e) (Nat.lt_of_lt_of_le hold (h.nextCall_step e))

/-- A call whose login has started only waits for it. -/
theorem Started.waits (h : Started settings es k) :
    k < ((empty settings).run es).1.nextCall ∧
      ((empty settings).run es).1.view.CallIs OnlyWaits k := by
  obtain ⟨before, e, after, t, rfl, hstart⟩ := h
  have ho := inOrder_run settings before
  obtain ⟨c, g, rfl, hc, -⟩ := starts_cases hstart
  have hold := Nat.lt_of_lt_of_le (ho.gates.lt_of_lookup hc) (ho.nextCall_step (.resume k))
  rw [run_append]
  exact ⟨Nat.lt_of_lt_of_le hold ((ho.step _).nextCall_run after),
    (onlyWaits_of_starts ho hstart).run_onlyWaits (ho.step _) hold after⟩

/-- **The login is out of the way** of the user since an invalidation, after which `last` was the last to
store a connection of the user. -/
structure Barred (user : Credentials) (k : CallId) (last : Option CallId) (s : Cache) : Prop where
  old : k < s.nextCall
  waits : s.view.CallIs OnlyWaits k
  futile : ∀ t, s.view.login k = some t → t.user = user → t.phase.Futile s.settings s.now
  dropped : last = none → s.entries.lookup user = none
  late : last = some k → ∀ x, s.entries.lookup user = some x → x.createdAt + s.settings.ttl ≤ s.now

namespace Barred

variable {last : Option CallId}

/-- **A step** leaves it out of the way. -/
theorem step (h : Barred user k last s) (ho : InOrder settings s) (e : Event) :
    Barred user k ((s.stores? user e).or last) (s.step e).1 := by
  obtain ⟨hset, hnow⟩ := step_now s e
  refine ⟨Nat.lt_of_lt_of_le h.old (ho.nextCall_step e), step_view ho e ▸ h.waits.step_onlyWaits h.old e,
    ?_, ?_, ?_⟩
  · intro t' ht' hu
    rw [step_view ho e] at ht'
    obtain ⟨t, ht, huser, hfollows⟩ := View.login_step h.waits h.old ht'
    rw [hset]
    exact (h.futile t ht (huser.trans hu)).follows hfollows hnow
  · intro hlast
    obtain ⟨hnone, hlast⟩ := Option.or_eq_none_iff.1 hlast
    refine Option.eq_none_iff_forall_ne_some.2 fun x hx => ?_
    obtain ⟨-, hbefore⟩ | ⟨j, t, hj, -⟩ := entries_step hx
    · simp [h.dropped hlast] at hbefore
    · simp [hnone] at hj
  · intro hlast x hx
    rw [hset]
    refine Nat.le_trans ?_ hnow
    obtain ⟨hnone, hbefore⟩ | ⟨j, t, hj, ht, hu, hp⟩ := entries_step hx
    · rw [hnone, Option.none_or] at hlast
      exact h.late hlast x hbefore
    · -- the login itself stores a connection, which is too old by now
      rw [hj, Option.some_or] at hlast
      obtain rfl := Option.some.inj hlast
      have hfutile := h.futile t.seen (by rw [view_login, ht]; rfl) hu
      rwa [show t.seen.phase = .storing x from hp] at hfutile

theorem run (h : Barred user k last s) (ho : InOrder settings s) (es : List Event) :
    Barred user k ((lastStored? user s es).or last) (s.run es).1 := by
  induction es generalizing s last with
  | nil => exact h
  | cons e es ih =>
    have hrest := ih (h.step ho e) (ho.step e)
    rwa [← Option.or_assoc] at hrest

end Barred

/-- An invalidation puts a login out of the way that has no fresh connection to come. -/
theorem barred_of_futile {before : List Event} (hstarted : Started settings before k)
    (hfutile : ∀ t, ((empty settings).run before).1.tasks.lookup k = some t → t.user = user →
      t.phase.Futile settings ((empty settings).run before).1.now) :
    Barred user k none (((empty settings).run before).1.step (.invalidate user)).1 := by
  have ho := inOrder_run settings before
  obtain ⟨hold, hw⟩ := hstarted.waits
  refine ⟨hold, fun c hc => hw c hc, ?_, fun _ => by simp [step], by simp⟩
  intro a ha hu
  obtain ⟨t, ht, rfl⟩ := Option.map_eq_some_iff.1 ha
  show t.phase.Futile ((empty settings).run before).1.settings _
  rw [ho.settings_eq]
  exact hfutile t ht hu

/-- **Nobody gets a connection of a login that is out of the way.** -/
theorem not_undoes_of_futile {before : List Event} (hstarted : Started settings before k)
    (hfutile : ∀ t, ((empty settings).run before).1.tasks.lookup k = some t → t.user = user →
      t.phase.Futile settings ((empty settings).run before).1.now) :
    ¬ Undoes settings before user k := by
  rintro ⟨after, id, x, hid, hr, c, hc, rfl, hsource⟩
  have ho := inOrder_run settings before
  have hbarred := (barred_of_futile hstarted hfutile).run (ho.step _) after
  rw [run_append] at hr hc
  rw [lastStored?_append] at hsource
  set s := ((empty settings).run before).1
  set u := ((s.step (.invalidate c.user)).1.run after).1
  have hlast : lastStored? c.user s (.invalidate c.user :: after) =
      lastStored? c.user (s.step (.invalidate c.user)).1 after := Option.or_none ..
  rw [hlast] at hsource
  rw [Option.or_none] at hbarred
  -- a call that has waited for its own login has another number
  have hnotOwn : ¬ ∃ g outcome, c.phase = .answered g outcome := by
    rintro ⟨g, outcome, hp⟩
    obtain rfl : id = k := by simpa [PendingCall.source?, hp] using hsource
    exact absurd hstarted.waits.1 (Nat.not_lt_of_le hid)
  rw [c.source?_of_not_answered id _ hnotOwn] at hsource
  obtain ⟨-, hfresh | ⟨g, hp⟩⟩ := (resumed hc).returned id x hr
  swap
  · exact hnotOwn ⟨g, _, hp⟩
  have hyoung := isFresh_of_fresh? hfresh
  have hx : u.entries.lookup c.user = some x := (Option.filter_eq_some_iff.1 hfresh).1
  cases hafter : lastStored? c.user (s.step (.invalidate c.user)).1 after with
  | none => simp [hbarred.dropped hafter] at hx
  | some j =>
    rw [hafter, Option.some_or] at hsource
    exact absurd (hbarred.late (hafter.trans hsource) x hx) (Nat.not_le_of_lt hyoung)

/-! ## A connection to come -/

/-- The login can be carried to its end, so that its connection is in the store and fresh. -/
def Brings (s : Cache) (user : Credentials) (k : CallId) : Prop :=
  ∃ es x, (s.run es).1.fresh? user = some x ∧ lastStored? user s es = some k

theorem Brings.of_step {e : Event} (h : (s.step e).1.Brings user k) : s.Brings user k := by
  obtain ⟨es, x, hfresh, hlast⟩ := h
  refine ⟨e :: es, x, hfresh, ?_⟩
  simp only [lastStored?, hlast, Option.some_or]

theorem brings_of_storing {t : LoginTask} (ht : s.tasks.lookup k = some t) (hp : t.phase = .storing x)
    (hyoung : s.now < x.createdAt + s.settings.ttl) : s.Brings t.user k := by
  have hend := Aside.endTask k t (.ok x) { s with entries := put t.user x s.entries }
  have hstep : (s.step (.run k)).1 = endTask k t (.ok x) { s with entries := put t.user x s.entries } := by
    simp only [step, runTask, ht, hp]
  refine ⟨[.run k], x, ?_, ?_⟩
  · have hfresh : (s.step (.run k)).1.isFresh x = true := by
      rw [isFresh_iff, hstep, hend.now, hend.settings]
      exact hyoung
    exact Option.filter_eq_some_iff.2 ⟨entry?_of_storing ht hp, hfresh⟩
  · simp only [lastStored?, Option.none_or]
    exact stores?_eq_some.2 ⟨rfl, t, x, ht, rfl, hp⟩

/-- A login that has logged in gets its companies, and has a connection to store. -/
theorem brings_of_listing {t : LoginTask} {l : Login} {session : Nat} (ht : s.tasks.lookup k = some t)
    (hp : t.phase = .asking l) (hl : l.phase = .listing session) (httl : 0 < s.settings.ttl) :
    s.Brings t.user k := by
  obtain ⟨company⟩ : Nonempty Company := ⟨⟨1, "Demo", []⟩⟩
  have hsucceeds : s.Succeeds (.answer k (.companies (.ok (some [company])))) k t.user
      ⟨⟨session, [company]⟩, s.now⟩ :=
    ⟨t, l, _, rfl, ht, rfl, hp, by simp [Login.receive, hl], rfl⟩
  obtain ⟨u, hu, huser, hstoring⟩ := hsucceeds.storing
  have hsame : SameStore s (s.step (.answer k (.companies (.ok (some [company]))))).1 :=
    step_sameStore not_false
  refine .of_step (huser ▸ brings_of_storing hu hstoring ?_)
  rw [hsame.settings, hsame.now]
  exact Nat.lt_add_of_pos_right httl

/-- A login that asks goes on with an answer. -/
theorem brings_of_answer {t : LoginTask} {l l' : Login} {a : Login.Answer}
    (ht : s.tasks.lookup k = some t) (hp : t.phase = .asking l)
    (hr : l.receive s.settings.loginAttempts a = .waiting l')
    (h : ∀ s' : Cache, s'.settings = s.settings →
      s'.tasks.lookup k = some { t with phase := .asking l' } → s'.Brings t.user k) :
    s.Brings t.user k := by
  refine .of_step (h (s.step (.answer k a)).1 (step_now s _).1 ?_)
  simp only [step, answerTask, ht, hp, hr, advanceTask, lookup_put, if_true]

theorem brings_of_loggingIn {t : LoginTask} {l : Login} {session : Nat} (ht : s.tasks.lookup k = some t)
    (hp : t.phase = .asking l) (hl : l.phase = .loggingIn session) (httl : 0 < s.settings.ttl) :
    s.Brings t.user k := by
  have hr : l.receive s.settings.loginAttempts (.status (.ok .success)) =
      .waiting ⟨l.attempt, .listing session⟩ := by
    simp [Login.receive, hl, Status.isSuccess]
  refine brings_of_answer ht hp hr fun s' hset ht' => ?_
  exact (brings_of_listing ht' rfl rfl (hset ▸ httl) :)

theorem brings_of_asking {t : LoginTask} {l : Login} (ht : s.tasks.lookup k = some t)
    (hp : t.phase = .asking l) (httl : 0 < s.settings.ttl) : s.Brings t.user k := by
  cases hl : l.phase with
  | opening =>
    have hr : l.receive s.settings.loginAttempts (.opened (.ok 0)) =
        .waiting ⟨l.attempt, .loggingIn 0⟩ := by
      simp [Login.receive, hl]
    refine brings_of_answer ht hp hr fun s' hset ht' => ?_
    exact (brings_of_loggingIn ht' rfl rfl (hset ▸ httl) :)
  | loggingIn session => exact brings_of_loggingIn ht hp hl httl
  | listing session => exact brings_of_listing ht hp hl httl

/-- **A login that has a fresh connection to come** can be carried to its end. -/
theorem brings_of_not_futile {t : LoginTask} (ht : s.tasks.lookup k = some t)
    (h : ¬ t.phase.Futile s.settings s.now) : s.Brings t.user k := by
  cases hp : t.phase with
  | spawned =>
    rw [hp] at h
    obtain ⟨httl, hattempts⟩ := not_or.1 h
    have hstart : Login.start s.settings.loginAttempts 0 = .waiting ⟨1, .opening⟩ :=
      if_pos (Nat.pos_of_ne_zero hattempts)
    have htask : (s.step (.run k)).1.tasks.lookup k =
        some { t with phase := .asking ⟨1, .opening⟩ } := by
      simp only [step, runTask, ht, hp, hstart, advanceTask, lookup_put, if_true]
    have hset := (step_now s (.run k)).1
    exact .of_step (brings_of_asking htask rfl (hset ▸ Nat.pos_of_ne_zero httl) :)
  | asking l =>
    rw [hp] at h
    exact brings_of_asking ht hp (Nat.pos_of_ne_zero h)
  | storing x =>
    rw [hp] at h
    exact brings_of_storing ht hp (Nat.lt_of_not_le h)

/-- A new call is found under the next number. -/
theorem lookup_newCall (hg : GatesOK s) (user : Credentials) :
    (s.step (.call user)).1.calls.lookup s.nextCall = some ⟨user, false, .arrived⟩ := by
  simp [step, List.lookup_append, hg.lookup_nextCall]

/-- **A new call gets the connection** that a login brings after an invalidation. -/
theorem undoes_of_brings {before : List Event}
    (h : (((empty settings).run before).1.step (.invalidate user)).1.Brings user k) :
    Undoes settings before user k := by
  obtain ⟨es, x, hfresh, hlast⟩ := h
  have ho := inOrder_run settings before
  set s := ((empty settings).run before).1
  set u := ((s.step (.invalidate user)).1.run es).1
  have hou : InOrder settings u := (ho.step _).run es
  have hrun : ((empty settings).run (before ++ .invalidate user :: (es ++ [.call user]))).1 =
      (u.step (.call user)).1 := by
    rw [run_append]
    exact run_append (s.step (.invalidate user)).1 es [.call user]
  have hcall := lookup_newCall hou.gates user
  have hfound : (u.step (.call user)).1.fresh? user = some x := hfresh
  refine ⟨es ++ [.call user], u.nextCall, x, ?_, ?_, ?_⟩
  · exact ho.nextCall_run (.invalidate user :: es)
  · rw [hrun]
    show (resume u.nextCall (u.step (.call user)).1).2 = _
    simp only [resume, hcall, lookUp, hfound]
  · rw [hrun, lastStored?_append]
    refine ⟨_, hcall, rfl, ?_⟩
    show (lastStored? user s (.invalidate user :: (es ++ [.call user]))).or _ = some k
    have hafter : lastStored? user s (.invalidate user :: (es ++ [.call user])) = some k := by
      simp only [lastStored?, lastStored?_append, hlast, stores?, Option.none_or, Option.or_none]
    rw [hafter, Option.some_or]

/-- **Which logins undo an invalidation**: those of the user that are under way and have a fresh connection
to come. -/
theorem undoes_iff {before : List Event} : Started settings before k ∧ Undoes settings before user k ↔
    ∃ t, ((empty settings).run before).1.tasks.lookup k = some t ∧ t.user = user ∧
      ¬ t.phase.Futile settings ((empty settings).run before).1.now := by
  have ho := inOrder_run settings before
  set s := ((empty settings).run before).1
  constructor
  · rintro ⟨hstarted, hundoes⟩
    by_contra hnone
    push Not at hnone
    exact not_undoes_of_futile hstarted hnone hundoes
  · rintro ⟨t, ht, rfl, hfutile⟩
    refine ⟨started_of_task ht, undoes_of_brings ?_⟩
    have hstill : (s.step (.invalidate t.user)).1.tasks.lookup k = some t := ht
    refine brings_of_not_futile hstill ?_
    show ¬ t.phase.Futile s.settings s.now
    rwa [ho.settings_eq]

/-- **When an invalidation is not undone.** A call that arrives after an invalidation can get the
connection of a login that had started before it exactly if that is a login of the user, under way at the
invalidation, with a fresh connection to come. So no call ever gets one exactly if no login of the user
under way has a fresh connection to come. -/
theorem invalidation_holds_iff (settings : ConnectionSettings) (before : List Event)
    (user : Credentials) :
    let s := ((empty settings).run before).1
    (∀ k, Started settings before k ∧ Undoes settings before user k ↔
      ∃ t, s.tasks.lookup k = some t ∧ t.user = user ∧ ¬ t.phase.Futile settings s.now) ∧
    ((∀ k, Started settings before k → ¬ Undoes settings before user k) ↔
      ∀ k t, s.tasks.lookup k = some t → t.user = user → t.phase.Futile settings s.now) := by
  intro s
  refine ⟨fun k => undoes_iff, ?_⟩
  constructor
  · intro h k t ht hu
    by_contra hfutile
    obtain ⟨hstarted, hundoes⟩ := undoes_iff.2 ⟨t, ht, hu, hfutile⟩
    exact h k hstarted hundoes
  · intro h k hstarted hundoes
    obtain ⟨t, ht, hu, hfutile⟩ := undoes_iff.1 ⟨hstarted, hundoes⟩
    exact hfutile (h k t ht hu)

/-- An invalidation while a login waits for the companies: the login stores its connection after it, and
the next call is served with that and does not log in. -/
theorem invalidation_undone :
    let settings : ConnectionSettings := ⟨1000, 4, 3, .zero⟩
    let alice : Credentials := ⟨"alice", "s3cret"⟩
    let entry : Entry := ⟨⟨7, [⟨1, "Demo", []⟩]⟩, 0⟩
    let before : List Event := [.call alice, .resume 0, .resume 0, .run 0, .answer 0 (.opened (.ok 7)),
      .answer 0 (.status (.ok .success))]
    let after : List Event :=
      [.answer 0 (.companies (.ok (some entry.connected.companies))), .run 0, .call alice]
    ((empty settings).run before).1.nextCall = 1 ∧ Started settings before 0 ∧
      Gets settings (before ++ .invalidate alice :: after) alice 1 0 entry := by
  intro settings alice entry before after
  have htask : ((empty settings).run before).1.tasks.lookup 0 =
      some ⟨alice, 0, .asking ⟨1, .listing 7⟩⟩ := by
    decide +kernel
  exact ⟨by decide +kernel, started_of_task htask, by decide +kernel, ⟨alice, false, .arrived⟩, rfl, rfl,
    by decide +kernel⟩

end Cache

end LedgerFront
