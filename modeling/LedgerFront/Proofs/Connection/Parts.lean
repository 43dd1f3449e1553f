import LedgerFront.Proofs.Connection.View

/-!
# Parts of what goes on

Some users, some calls and some logins are a part of what goes on if nothing else reaches into it. What
happens in the part then takes the same course when the rest is left out, with the calls of the part
numbered among themselves.

* `Part`, `Agree`: a part, and views that agree on it.
* `Agree.step`: what happens in the part keeps views in agreement.
* `Part.Misses.step`: what happens elsewhere changes nothing in the part.
* `Agree.run_share`: a run, and the same with only the events of the part.
-/

namespace LedgerFront

/-- The gate with other numbers for the calls. -/
def Gate.renumber (number : CallId → CallId) (g : Gate) : Gate := { g with queue := g.queue.map number }

namespace Cache

/-- Some users, calls and logins. The calls and logins of the part have numbers of their own where only
the part is there; a call of the part has its login in the part. -/
structure Part where
  users : Credentials → Prop
  calls : CallId → Bool
  logins : CallId → Prop
  number : CallId → CallId
  own : ∀ id, calls id = true → logins id
  apart : ∀ i j, logins i → logins j → number i = number j → i = j

/-- The event with another number for its call. -/
def Event.renumber (number : CallId → CallId) : Event → Event
  | .call user => .call user
  | .resume id => .resume (number id)
  | .cancel id => .cancel (number id)
  | .drop id => .drop (number id)
  | .run id => .run (number id)
  | .answer id a => .answer (number id) a
  | .crash id message => .crash (number id) message
  | .invalidate user => .invalidate user
  | .expire user => .expire user
  | .advance ms => .advance ms

/-- What a call returned, with another number for the call. -/
def renumbered (number : CallId → CallId) (r : CallId × Outcome) : CallId × Outcome := (number r.1, r.2)

variable {part : Part} {v v' v'' w : View}

/-- Two views agree on the part. -/
structure Agree (part : Part) (v w : View) : Prop where
  settings : w.settings = v.settings
  now : w.now = v.now
  nextCall : w.nextCall = part.number v.nextCall
  entry : ∀ user, part.users user → w.entry user = v.entry user
  desk : ∀ user, part.users user → w.desk user = (v.desk user).renumber part.number
  call : ∀ id, part.calls id = true → w.call (part.number id) = v.call id
  login : ∀ id, part.logins id → w.login (part.number id) = v.login id

/-- The calls and logins of the part are those of its users, and only its calls stand in their queues. -/
structure Part.Closed (part : Part) (v : View) : Prop where
  callUser : ∀ id c, part.calls id = true → v.call id = some c → part.users c.user
  loginUser : ∀ id t, part.logins id → v.login id = some t → part.users t.user
  queue : ∀ user, part.users user → ∀ id ∈ (v.desk user).queue, part.calls id = true

/-! ## Changes in the part -/

namespace Agree

theorem setEntry (h : Agree part v w) (user : Credentials) (e : Option Entry) :
    Agree part (v.setEntry user e) (w.setEntry user e) := by
  refine ⟨h.settings, h.now, h.nextCall, fun u hu => ?_, h.desk, h.call, h.login⟩
  simp only [View.setEntry, Function.update_apply]
  split
  · rfl
  · exact h.entry u hu

theorem setDesk (h : Agree part v w) {user : Credentials} {f f' : Gate → Gate}
    (hu : part.users user)
    (hf : f' ((v.desk user).renumber part.number) = (f (v.desk user)).renumber part.number) :
    Agree part (v.setDesk user f) (w.setDesk user f') := by
  refine ⟨h.settings, h.now, h.nextCall, h.entry, fun u hu' => ?_, h.call, h.login⟩
  simp only [View.setDesk, Function.update_apply]
  split
  · rw [h.desk user hu, hf]
  · exact h.desk u hu'

theorem setCall (h : Agree part v w) {id : CallId} (hid : part.logins id) (c : Option Caller) :
    Agree part (v.setCall id c) (w.setCall (part.number id) c) := by
  refine ⟨h.settings, h.now, h.nextCall, h.entry, h.desk, fun i hi => ?_, h.login⟩
  simp only [View.setCall, Function.update_apply]
  by_cases he : i = id
  · rw [if_pos he, if_pos (congrArg part.number he)]
  · have hne : part.number i ≠ part.number id := fun hn => he (part.apart i id (part.own i hi) hid hn)
    rw [if_neg he, if_neg hne, h.call i hi]

theorem setLogin (h : Agree part v w) {id : CallId} (hid : part.logins id) (t : Option Attempt) :
    Agree part (v.setLogin id t) (w.setLogin (part.number id) t) := by
  refine ⟨h.settings, h.now, h.nextCall, h.entry, h.desk, h.call, fun i hi => ?_⟩
  simp only [View.setLogin, Function.update_apply]
  by_cases he : i = id
  · rw [if_pos he, if_pos (congrArg part.number he)]
  · have hne : part.number i ≠ part.number id := fun hn => he (part.apart i id hi hid hn)
    rw [if_neg he, if_neg hne, h.login i hi]

theorem fresh? (h : Agree part v w) {user : Credentials} (hu : part.users user) :
    w.fresh? user = v.fresh? user := by
  unfold View.fresh? View.isFresh
  rw [h.entry user hu, h.now, h.settings]

theorem unlock (h : Agree part v w) {user : Credentials} (hu : part.users user) :
    Agree part (v.unlock user) (w.unlock user) := h.setDesk hu rfl

end Agree

/-! ## Queues -/

theorem enter_renumber (id : CallId) (number : CallId → CallId) (g : Gate) :
    Gate.enter (number id) (g.renumber number) = (Gate.enter id g).renumber number := by
  simp [Gate.enter, Gate.renumber]

theorem withdraw_renumber {id : CallId} {g : Gate} (hid : part.logins id)
    (hq : ∀ i ∈ g.queue, part.logins i) :
    Gate.withdraw (part.number id) (g.renumber part.number) =
      (Gate.withdraw id g).renumber part.number := by
  have hqueue : (g.queue.map part.number).filter (· ≠ part.number id) =
      (g.queue.filter (· ≠ id)).map part.number := by
    rw [List.filter_map]
    refine congrArg (List.map part.number) (List.filter_congr fun i hi => ?_)
    rw [Function.comp_apply, decide_eq_decide]
    exact not_congr ⟨fun hn => part.apart i id (hq i hi) hid hn, congrArg part.number⟩
  simp only [Gate.withdraw, Gate.renumber, hqueue]

theorem lock_renumber {id : CallId} {g : Gate} (hid : part.logins id) (hq : ∀ i ∈ g.queue, part.logins i) :
    Gate.lock (part.number id) (g.renumber part.number) = (Gate.lock id g).renumber part.number := by
  unfold Gate.lock
  rw [withdraw_renumber hid hq]
  rfl

theorem head_renumber {id : CallId} {g : Gate} (hid : part.logins id) (hq : ∀ i ∈ g.queue, part.logins i) :
    (g.renumber part.number).queue.head? = some (part.number id) ↔ g.queue.head? = some id := by
  unfold Gate.renumber
  rw [List.head?_map, Option.map_eq_some_iff]
  constructor
  · rintro ⟨i, hi, hn⟩
    rw [hi, part.apart i id (hq i (List.mem_of_mem_head? hi)) hid hn]
  · intro h
    exact ⟨id, h, rfl⟩

/-! ## Steps in the part -/

theorem View.setCall_self (v : View) (id : CallId) : v.setCall id (v.call id) = v := by
  unfold setCall
  rw [Function.update_eq_self]

/-- The outcome of a login changes at most the call of that number. -/
theorem View.deliver_eq (v : View) (id : CallId) (outcome : Outcome) :
    ∃ c, v.deliver id outcome = v.setCall id c := by
  unfold deliver
  split
  · exact ⟨v.call id, (v.setCall_self id).symm⟩
  split
  · exact ⟨_, rfl⟩
  · exact ⟨v.call id, (v.setCall_self id).symm⟩

namespace Agree

/-- A step in both views: they agree afterwards, and a call that returns is one of the part and
returns the same. -/
structure Alike (part : Part) (p q : View × Returned) : Prop where
  agree : Agree part p.1 q.1
  returned : q.2 = p.2.map (renumbered part.number)
  inside : ∀ r, p.2 = some r → part.calls r.1 = true

theorem silent (h : Agree part v w) : Alike part (v, none) (w, none) := ⟨h, rfl, by simp⟩

theorem returns (h : Agree part v w) {id : CallId} (hid : part.calls id = true) (outcome : Outcome) :
    Alike part (v, some (id, outcome)) (w, some (part.number id, outcome)) := by
  refine ⟨h, rfl, ?_⟩
  rintro r ⟨⟩
  exact hid

theorem proceed (h : Agree part v w) {id : CallId} {c : Caller} (hid : part.calls id = true)
    (hu : part.users c.user) (hq : ∀ i ∈ (v.desk c.user).queue, part.logins i) :
    Alike part (v.proceed id c) (w.proceed (part.number id) c) := by
  have hown := part.own id hid
  have hlocked : (w.desk c.user).locked = (v.desk c.user).locked := by rw [h.desk c.user hu]; rfl
  have hhead : (w.desk c.user).queue.head? = some (part.number id) ↔
      (v.desk c.user).queue.head? = some id := by
    rw [h.desk c.user hu]
    exact head_renumber hown hq
  unfold View.proceed
  simp only [hlocked, hhead]
  split
  · exact ((h.setDesk hu (withdraw_renumber hown hq)).setCall hown none).returns hid _
  split
  · exact ((h.setDesk hu (lock_renumber hown hq)).setCall hown _).silent
  · exact (h.setCall hown _).silent

theorem lookUp (h : Agree part v w) {id : CallId} {c : Caller} (hid : part.calls id = true)
    (hu : part.users c.user) (hq : ∀ i ∈ (v.desk c.user).queue, part.logins i) :
    Alike part (v.lookUp id c) (w.lookUp (part.number id) c) := by
  have hown := part.own id hid
  have hwaiting : (w.desk c.user).waiting = (v.desk c.user).waiting := by rw [h.desk c.user hu]; rfl
  unfold View.lookUp
  rw [h.fresh? hu, h.settings]
  dsimp only
  rw [hwaiting]
  split
  · exact (h.setCall hown none).returns hid _
  split
  · exact (h.setCall hown none).returns hid _
  · refine (h.setDesk hu (enter_renumber id part.number _)).proceed hid hu fun i hi => ?_
    simp only [View.setDesk, Function.update_self, Gate.enter, List.mem_append, List.mem_singleton] at hi
    rcases hi with hi | rfl
    · exact hq i hi
    · exact hown

theorem join (h : Agree part v w) {id : CallId} {c : Caller} (hid : part.calls id = true) :
    Alike part (v.join id c) (w.join (part.number id) c) := by
  have hown := part.own id hid
  unfold View.join
  split
  · exact (h.setCall hown none).returns hid _
  · exact (h.setCall hown _).silent

theorem check (h : Agree part v w) {id : CallId} {c : Caller} (hid : part.calls id = true)
    (hu : part.users c.user) : Alike part (v.check id c) (w.check (part.number id) c) := by
  have hown := part.own id hid
  unfold View.check
  rw [h.fresh? hu]
  split
  · exact ((h.unlock hu).setCall hown none).returns hid _
  · exact (h.setLogin hown _).join hid

theorem resume (h : Agree part v w) (hc : part.Closed v) {id : CallId} (hid : part.calls id = true) :
    Alike part (v.resume id) (w.resume (part.number id)) := by
  unfold View.resume
  rw [h.call id hid]
  cases hcall : v.call id with
  | none => exact h.silent
  | some c =>
    have hu : part.users c.user := hc.callUser id c hid hcall
    have hq : ∀ i ∈ (v.desk c.user).queue, part.logins i := fun i hi =>
      part.own i (hc.queue c.user hu i hi)
    dsimp only
    cases c.stage with
    | arrived => exact h.lookUp hid hu hq
    | queued => exact h.proceed hid hu hq
    | checking => exact h.check hid hu
    | joined => exact h.join hid
    | answered outcome => exact (h.setCall (part.own id hid) none).returns hid _

theorem cancel (h : Agree part v w) {id : CallId} (hid : part.calls id = true) :
    Agree part (v.cancel id) (w.cancel (part.number id)) := by
  unfold View.cancel
  rw [h.call id hid]
  split
  · exact h
  · exact h.setCall (part.own id hid) _

theorem drop (h : Agree part v w) (hc : part.Closed v) {id : CallId} (hid : part.calls id = true) :
    Agree part (v.drop id) (w.drop (part.number id)) := by
  have hown := part.own id hid
  unfold View.drop
  rw [h.call id hid]
  cases hcall : v.call id with
  | none => exact h
  | some c =>
    have hu : part.users c.user := hc.callUser id c hid hcall
    have hq : ∀ i ∈ (v.desk c.user).queue, part.logins i := fun i hi =>
      part.own i (hc.queue c.user hu i hi)
    dsimp only
    cases c.stage with
    | queued => exact (h.setDesk hu (withdraw_renumber hown hq)).setCall hown none
    | checking => exact (h.unlock hu).setCall hown none
    | arrived | joined | answered outcome => exact h.setCall hown none

/-- The outcome of a login reaches its own call only. -/
theorem deliver (h : Agree part v w) {id : CallId} (hid : part.logins id) (outcome : Outcome) :
    Agree part (v.deliver id outcome) (w.deliver (part.number id) outcome) := by
  obtain ⟨c, hv⟩ := v.deliver_eq id outcome
  obtain ⟨c', hw⟩ := w.deliver_eq (part.number id) outcome
  cases hcall : part.calls id with
  | true =>
    unfold View.deliver
    rw [h.call id hcall]
    cases v.call id with
    | none => exact h
    | some c =>
      dsimp only
      cases c.stage with
      | joined => exact h.setCall hid _
      | _ => exact h
  | false =>
    -- the call is not in the part, whatever number it has
    have hout : ∀ i, part.calls i = true → i ≠ id ∧ part.number i ≠ part.number id := by
      intro i hi
      have hne : i ≠ id := by
        rintro rfl
        simp [hcall] at hi
      exact ⟨hne, fun hn => hne (part.apart i id (part.own i hi) hid hn)⟩
    rw [hv, hw]
    refine ⟨h.settings, h.now, h.nextCall, h.entry, h.desk, fun i hi => ?_, h.login⟩
    simp only [View.setCall, Function.update_of_ne (hout i hi).1, Function.update_of_ne (hout i hi).2]
    exact h.call i hi

theorem finish (h : Agree part v w) {id : CallId} (hid : part.logins id) {user : Credentials}
    (hu : part.users user) (outcome : Outcome) :
    Agree part (v.finish id user outcome) (w.finish (part.number id) user outcome) :=
  ((h.setLogin hid none).unlock hu).deliver hid outcome

theorem goOn (h : Agree part v w) {id : CallId} (hid : part.logins id) {t : Attempt}
    (hu : part.users t.user) (p : Login.Progress) :
    Agree part (v.goOn id t p) (w.goOn (part.number id) t p) := by
  unfold View.goOn
  rw [h.now]
  rcases p with l | e | connected
  · exact h.setLogin hid _
  · exact h.finish hid hu _
  · exact h.setLogin hid _

theorem run (h : Agree part v w) (hc : part.Closed v) {id : CallId} (hid : part.logins id) :
    Agree part (v.run id) (w.run (part.number id)) := by
  unfold View.run
  rw [h.login id hid, h.settings]
  cases hlogin : v.login id with
  | none => exact h
  | some t =>
    have hu : part.users t.user := hc.loginUser id t hid hlogin
    dsimp only
    cases t.phase with
    | spawned => exact h.goOn hid hu _
    | asking l => exact h
    | storing e => exact (h.setEntry t.user _).finish hid hu _

theorem answer (h : Agree part v w) (hc : part.Closed v) {id : CallId} (hid : part.logins id)
    (a : Login.Answer) : Agree part (v.answer id a) (w.answer (part.number id) a) := by
  unfold View.answer
  rw [h.login id hid, h.settings]
  cases hlogin : v.login id with
  | none => exact h
  | some t =>
    have hu : part.users t.user := hc.loginUser id t hid hlogin
    dsimp only
    cases t.phase with
    | asking l => exact h.goOn hid hu _
    | spawned | storing e => exact h

theorem crash (h : Agree part v w) (hc : part.Closed v) {id : CallId} (hid : part.logins id)
    (message : String) : Agree part (v.crash id message) (w.crash (part.number id) message) := by
  unfold View.crash
  rw [h.login id hid]
  cases hlogin : v.login id with
  | none => exact h
  | some t => exact h.finish hid (hc.loginUser id t hid hlogin) _

end Agree

/-- The event happens in the part. -/
def Part.Sees (part : Part) (v : View) : Event → Prop
  | .call _ => part.calls v.nextCall = true ∧ part.number (v.nextCall + 1) = part.number v.nextCall + 1
  | .resume id | .cancel id | .drop id => part.calls id = true
  | .run id | .answer id _ | .crash id _ => part.logins id
  | .invalidate user | .expire user => part.users user
  | .advance _ => True

/-- **What happens in the part** keeps views in agreement, and calls return the same. -/
theorem Agree.step (h : Agree part v w) (hc : part.Closed v) {e : Event} (he : part.Sees v e) :
    Alike part (v.step e) (w.step (e.renumber part.number)) := by
  cases e with
  | call user =>
    obtain ⟨hnew, hnext⟩ := he
    have hset := h.setCall (part.own _ hnew) (some ⟨user, false, .arrived⟩)
    rw [← h.nextCall] at hset
    refine silent ⟨h.settings, h.now, ?_, hset.entry, hset.desk, hset.call, hset.login⟩
    show w.nextCall + 1 = part.number (v.nextCall + 1)
    rw [hnext, h.nextCall]
  | resume id => exact h.resume hc he
  | cancel id => exact (h.cancel he).silent
  | drop id => exact (h.drop hc he).silent
  | run id => exact (h.run hc he).silent
  | answer id a => exact (h.answer hc he a).silent
  | crash id message => exact (h.crash hc he message).silent
  | invalidate user => exact (h.setEntry user none).silent
  | expire user =>
    refine silent ?_
    show Agree part (if (v.fresh? user).isSome then v else v.setEntry user none)
      (if (w.fresh? user).isSome then w else w.setEntry user none)
    rw [h.fresh? he]
    split
    · exact h
    · exact h.setEntry user none
  | advance ms =>
    have hnow : w.now + ms = v.now + ms := by rw [h.now]
    exact silent ⟨h.settings, hnow, h.nextCall, h.entry, h.desk, h.call, h.login⟩

/-! ## Steps elsewhere -/

/-- Nothing has changed in the part. -/
structure Part.Unseen (part : Part) (v v' : View) : Prop where
  settings : v'.settings = v.settings
  now : v'.now = v.now
  nextCall : part.number v'.nextCall = part.number v.nextCall
  entry : ∀ user, part.users user → v'.entry user = v.entry user
  desk : ∀ user, part.users user → v'.desk user = v.desk user
  call : ∀ id, part.calls id = true → v'.call id = v.call id
  login : ∀ id, part.logins id → v'.login id = v.login id

theorem Agree.unseen (h : Agree part v w) (hv : part.Unseen v v') : Agree part v' w where
  settings := h.settings.trans hv.settings.symm
  now := h.now.trans hv.now.symm
  nextCall := h.nextCall.trans hv.nextCall.symm
  entry user hu := (h.entry user hu).trans (hv.entry user hu).symm
  desk user hu := by rw [h.desk user hu, hv.desk user hu]
  call id hid := (h.call id hid).trans (hv.call id hid).symm
  login id hid := (h.login id hid).trans (hv.login id hid).symm

namespace Part.Unseen

theorem refl (v : View) : part.Unseen v v :=
  ⟨rfl, rfl, rfl, fun _ _ => rfl, fun _ _ => rfl, fun _ _ => rfl, fun _ _ => rfl⟩

theorem trans (h : part.Unseen v v') (h' : part.Unseen v' v'') : part.Unseen v v'' where
  settings := h'.settings.trans h.settings
  now := h'.now.trans h.now
  nextCall := h'.nextCall.trans h.nextCall
  entry user hu := (h'.entry user hu).trans (h.entry user hu)
  desk user hu := (h'.desk user hu).trans (h.desk user hu)
  call id hid := (h'.call id hid).trans (h.call id hid)
  login id hid := (h'.login id hid).trans (h.login id hid)

theorem setEntry (h : part.Unseen v v') {user : Credentials} (hu : ¬ part.users user)
    (e : Option Entry) : part.Unseen v (v'.setEntry user e) := by
  refine h.trans ⟨rfl, rfl, rfl, fun u hu' => ?_, fun _ _ => rfl, fun _ _ => rfl, fun _ _ => rfl⟩
  have hne : u ≠ user := fun he => hu (he ▸ hu')
  exact Function.update_of_ne hne _ _

theorem setDesk (h : part.Unseen v v') {user : Credentials} (hu : ¬ part.users user)
    (f : Gate → Gate) : part.Unseen v (v'.setDesk user f) := by
  refine h.trans ⟨rfl, rfl, rfl, fun _ _ => rfl, fun u hu' => ?_, fun _ _ => rfl, fun _ _ => rfl⟩
  have hne : u ≠ user := fun he => hu (he ▸ hu')
  exact Function.update_of_ne hne _ _

theorem setCall (h : part.Unseen v v') {id : CallId} (hid : part.calls id = false)
    (c : Option Caller) : part.Unseen v (v'.setCall id c) := by
  refine h.trans ⟨rfl, rfl, rfl, fun _ _ => rfl, fun _ _ => rfl, fun i hi => ?_, fun _ _ => rfl⟩
  have hne : i ≠ id := by
    rintro rfl
    simp [hid] at hi
  exact Function.update_of_ne hne _ _

theorem setLogin (h : part.Unseen v v') {id : CallId} (hid : ¬ part.logins id) (t : Option Attempt) :
    part.Unseen v (v'.setLogin id t) := by
  refine h.trans ⟨rfl, rfl, rfl, fun _ _ => rfl, fun _ _ => rfl, fun _ _ => rfl, fun i hi => ?_⟩
  have hne : i ≠ id := fun he => hid (he ▸ hi)
  exact Function.update_of_ne hne _ _

theorem deliver (h : part.Unseen v v') {id : CallId} (hid : part.calls id = false)
    (outcome : Outcome) : part.Unseen v (v'.deliver id outcome) := by
  obtain ⟨c, hc⟩ := v'.deliver_eq id outcome
  rw [hc]
  exact h.setCall hid c

end Part.Unseen

/-- A step misses the part: it changes nothing there, and no call of the part returns in it. -/
structure Part.Misses (part : Part) (v : View) (p : View × Returned) : Prop where
  unseen : part.Unseen v p.1
  returned : ∀ r, p.2 = some r → part.calls r.1 = false

namespace Part.Misses

variable {id : CallId} {c : Caller}

theorem silent (h : part.Unseen v v') : part.Misses v (v', none) := ⟨h, by simp⟩

theorem returns (h : part.Unseen v v') (hid : part.calls id = false) (outcome : Outcome) :
    part.Misses v (v', some (id, outcome)) := by
  refine ⟨h, ?_⟩
  rintro r ⟨⟩
  exact hid

theorem proceed (h : part.Unseen v v') (hid : part.calls id = false) (hu : ¬ part.users c.user) :
    part.Misses v (v'.proceed id c) := by
  unfold View.proceed
  split
  · exact .returns ((h.setDesk hu _).setCall hid none) hid _
  split
  · exact .silent ((h.setDesk hu _).setCall hid _)
  · exact .silent (h.setCall hid _)

theorem lookUp (h : part.Unseen v v') (hid : part.calls id = false) (hu : ¬ part.users c.user) :
    part.Misses v (v'.lookUp id c) := by
  unfold View.lookUp
  split
  · exact .returns (h.setCall hid none) hid _
  dsimp only
  split
  · exact .returns (h.setCall hid none) hid _
  · exact .proceed (h.setDesk hu _) hid hu

theorem join (h : part.Unseen v v') (hid : part.calls id = false) : part.Misses v (v'.join id c) := by
  unfold View.join
  split
  · exact .returns (h.setCall hid none) hid _
  · exact .silent (h.setCall hid _)

theorem check (h : part.Unseen v v') (hid : part.calls id = false) (hlogin : ¬ part.logins id)
    (hu : ¬ part.users c.user) : part.Misses v (v'.check id c) := by
  unfold View.check
  split
  · exact .returns ((h.setDesk hu _).setCall hid none) hid _
  · exact .join (h.setLogin hlogin _) hid

theorem resume (hid : part.calls id = false) (hlogin : ¬ part.logins id)
    (hu : ∀ c, v.call id = some c → ¬ part.users c.user) : part.Misses v (v.resume id) := by
  unfold View.resume
  split
  · exact .silent (.refl v)
  rename_i c hc
  split
  · exact .lookUp (.refl v) hid (hu c hc)
  · exact .proceed (.refl v) hid (hu c hc)
  · exact .check (.refl v) hid hlogin (hu c hc)
  · exact .join (.refl v) hid
  · exact .returns (.setCall (.refl v) hid none) hid _

end Part.Misses

namespace Part.Unseen

variable {id : CallId} {user : Credentials}

theorem cancel (hid : part.calls id = false) : part.Unseen v (v.cancel id) := by
  unfold View.cancel
  split
  · exact refl v
  · exact (refl v).setCall hid _

theorem drop (hid : part.calls id = false) (hu : ∀ c, v.call id = some c → ¬ part.users c.user) :
    part.Unseen v (v.drop id) := by
  unfold View.drop
  split
  · exact refl v
  rename_i c hc
  split
  · exact ((refl v).setDesk (hu c hc) _).setCall hid none
  · exact ((refl v).setDesk (hu c hc) _).setCall hid none
  · exact (refl v).setCall hid none
  · exact (refl v).setCall hid none
  · exact (refl v).setCall hid none

theorem finish (h : part.Unseen v v') (hlogin : ¬ part.logins id) (hu : ¬ part.users user)
    (outcome : Outcome) : part.Unseen v (v'.finish id user outcome) := by
  have hid : part.calls id = false := by
    rw [Bool.eq_false_iff]
    exact fun hcall => hlogin (part.own id hcall)
  exact ((h.setLogin hlogin none).setDesk hu _).deliver hid outcome

theorem goOn {t : Attempt} (hlogin : ¬ part.logins id) (hu : ¬ part.users t.user) (p : Login.Progress) :
    part.Unseen v (v.goOn id t p) := by
  unfold View.goOn
  split
  · exact (refl v).setLogin hlogin _
  · exact (refl v).setLogin hlogin _
  · exact (refl v).finish hlogin hu _

theorem run (hlogin : ¬ part.logins id) (hu : ∀ t, v.login id = some t → ¬ part.users t.user) :
    part.Unseen v (v.run id) := by
  unfold View.run
  split
  · exact refl v
  rename_i t ht
  split
  · exact goOn hlogin (hu t ht) _
  · exact refl v
  · exact ((refl v).setEntry (hu t ht) _).finish hlogin (hu t ht) _

theorem answer (hlogin : ¬ part.logins id) (hu : ∀ t, v.login id = some t → ¬ part.users t.user)
    (a : Login.Answer) : part.Unseen v (v.answer id a) := by
  unfold View.answer
  split
  · exact refl v
  rename_i t ht
  split
  · exact goOn hlogin (hu t ht) _
  · exact refl v
  · exact refl v

theorem crash (hlogin : ¬ part.logins id) (hu : ∀ t, v.login id = some t → ¬ part.users t.user)
    (message : String) : part.Unseen v (v.crash id message) := by
  unfold View.crash
  split
  · exact refl v
  · rename_i t ht
    exact (refl v).finish hlogin (hu t ht) _

end Part.Unseen

/-- The event happens elsewhere: it is about calls, logins and users that are not in the part. -/
def Part.Overlooks (part : Part) (v : View) : Event → Prop
  | .call _ => part.calls v.nextCall = false ∧ part.number (v.nextCall + 1) = part.number v.nextCall
  | .resume id => part.calls id = false ∧ ¬ part.logins id ∧
      ∀ c, v.call id = some c → ¬ part.users c.user
  | .cancel id | .drop id => part.calls id = false ∧ ∀ c, v.call id = some c → ¬ part.users c.user
  | .run id | .answer id _ | .crash id _ => ¬ part.logins id ∧
      ∀ t, v.login id = some t → ¬ part.users t.user
  | .invalidate user | .expire user => ¬ part.users user
  | .advance _ => False

/-- **What happens elsewhere** changes nothing in the part. -/
theorem Part.Misses.step {e : Event} (he : part.Overlooks v e) : part.Misses v (v.step e) := by
  cases e with
  | call user =>
    have hset := Part.Unseen.setCall (.refl v) he.1 (some ⟨user, false, .arrived⟩)
    exact .silent ⟨rfl, rfl, he.2, hset.entry, hset.desk, hset.call, hset.login⟩
  | resume id => exact .resume he.1 he.2.1 he.2.2
  | cancel id => exact .silent (.cancel he.1)
  | drop id => exact .silent (.drop he.1 he.2)
  | run id => exact .silent (.run he.1 he.2)
  | answer id a => exact .silent (.answer he.1 he.2 a)
  | crash id message => exact .silent (.crash he.1 he.2 message)
  | invalidate user => exact .silent (.setEntry (.refl v) he none)
  | expire user =>
    refine .silent ?_
    show part.Unseen v (if (v.fresh? user).isSome then v else v.setEntry user none)
    split
    · exact .refl v
    · exact .setEntry (.refl v) he none
  | advance ms => exact he.elim

/-! ## Runs -/

/-- Along the events, those that are kept happen in the part, and the others miss it. -/
def Part.Splits (part : Part) (keep : Event → Bool) (v : View) : List Event → Prop
  | [] => True
  | e :: es =>
    part.Closed v ∧ (if keep e then part.Sees v e else part.Misses v (v.step e)) ∧
      part.Splits keep (v.step e).1 es

/-- The events that are kept, with the calls of the part numbered among themselves. -/
def Part.share (part : Part) (keep : Event → Bool) (es : List Event) : List Event :=
  (es.filter keep).map (Event.renumber part.number)

section

variable {keep : Event → Bool} {e : Event} {es : List Event}

theorem Part.share_cons (h : keep e = true) :
    part.share keep (e :: es) = e.renumber part.number :: part.share keep es := by
  simp [share, h]

theorem Part.share_cons_of_not (h : keep e = false) :
    part.share keep (e :: es) = part.share keep es := by
  simp [share, h]

theorem Part.share_append (es es' : List Event) :
    part.share keep (es ++ es') = part.share keep es ++ part.share keep es' := by
  simp [share]

/-- **A run and its share**: they agree on the part, and the calls of the part return the same. -/
theorem Agree.after_share (h : Agree part v w) (hes : part.Splits keep v es) :
    Agree part (v.after es).1 (w.after (part.share keep es)).1 ∧
      (w.after (part.share keep es)).2 =
        ((v.after es).2.filter fun r => part.calls r.1).map (renumbered part.number) := by
  induction es generalizing v w with
  | nil => exact ⟨h, rfl⟩
  | cons e es ih =>
    obtain ⟨hc, he, hrest⟩ := hes
    cases hkeep : keep e with
    | true =>
      rw [hkeep, if_pos rfl] at he
      have hstep := h.step hc he
      obtain ⟨hagree, hreturned⟩ := ih hstep.agree hrest
      have hfirst : (v.step e).2.toList.filter (fun r => part.calls r.1) = (v.step e).2.toList :=
        List.filter_eq_self.2 fun r hr => hstep.inside r (Option.mem_toList.1 hr)
      rw [Part.share_cons hkeep]
      refine ⟨hagree, ?_⟩
      simp only [View.after, hreturned, hstep.returned, List.filter_append, List.map_append, hfirst,
        Option.toList_map]
    | false =>
      rw [hkeep, if_neg Bool.false_ne_true] at he
      obtain ⟨hagree, hreturned⟩ := ih (h.unseen he.unseen) hrest
      have hfirst : (v.step e).2.toList.filter (fun r => part.calls r.1) = [] := by
        rw [List.filter_eq_nil_iff]
        intro r hr
        simp [he.returned r (Option.mem_toList.1 hr)]
      rw [Part.share_cons_of_not hkeep]
      refine ⟨hagree, ?_⟩
      rw [hreturned]
      simp only [View.after, List.filter_append, hfirst, List.nil_append]

end

/-- Caches without connections agree on every part. -/
theorem agree_empty (h : part.number 0 = 0) (settings : ConnectionSettings) :
    Agree part (empty settings).view (empty settings).view :=
  ⟨rfl, rfl, h.symm, fun _ _ => rfl, fun _ _ => rfl, fun _ _ => rfl, fun _ _ => rfl⟩

theorem Agree.waiting {s s' : Cache} (h : Agree part s.view s'.view) {user : Credentials}
    (hu : part.users user) : s'.waiting user = s.waiting user := by
  rw [waiting_eq, waiting_eq, h.desk user hu]
  rfl

section

variable {settings settings' : ConnectionSettings} {s s' : Cache} {e : Event}

/-- A step in the part, in both caches. -/
theorem Agree.step_both (ha : Agree part s.view s'.view) (h : InOrder settings s)
    (h' : InOrder settings' s') (hc : part.Closed s.view) (he : part.Sees s.view e) :
    Agree part (s.step e).1.view (s'.step (e.renumber part.number)).1.view := by
  rw [step_view h e, step_view h']
  exact (ha.step hc he).agree

/-- A step elsewhere, which the other cache does not make. -/
theorem Agree.step_one (ha : Agree part s.view s'.view) (h : InOrder settings s)
    (he : part.Misses s.view (s.view.step e)) : Agree part (s.step e).1.view s'.view := by
  rw [step_view h e]
  exact ha.unseen he.unseen

/-- A run of a cache and its share. -/
theorem Agree.run_share {keep : Event → Bool} {es : List Event} (ha : Agree part s.view s'.view)
    (h : InOrder settings s) (h' : InOrder settings' s') (hes : part.Splits keep s.view es) :
    Agree part (s.run es).1.view (s'.run (part.share keep es)).1.view ∧
      (s'.run (part.share keep es)).2 =
        ((s.run es).2.filter fun r => part.calls r.1).map (renumbered part.number) := by
  obtain ⟨hview, hreturned⟩ := view_run h es
  obtain ⟨hview', hreturned'⟩ := view_run h' (part.share keep es)
  rw [hview, hview', hreturned, hreturned']
  exact ha.after_share hes

end

end Cache

end LedgerFront
