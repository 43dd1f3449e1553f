import LedgerFront.Proofs.Connection.GivingUp
import LedgerFront.Proofs.Connection.Tally

/-!
# The counters

A login has the number of the call that started it, so it can be charged to the first look of that call,
which was a miss.

* `Standing`: what the state of a call and of its login says about what has been counted of them.
* `Charged.step`: no call looks twice for the first time, no login comes to two connections.
* `counters_add_up`: the counters of a run.
-/

namespace LedgerFront.Cache

open Pairs

variable {s : Cache} {settings : ConnectionSettings} {v v' : View} {id : CallId}
  {looks : List (CallId × Option Entry)} {won : List CallId}

/-! ## Logins are charged to misses -/

/-- The call has not got the lock yet, or holds it without having started a login. -/
def Early (c : Caller) : Prop := c.stage = .queued ∨ c.stage = .checking

/-- **How a number stands** to what has been counted. A call that has arrived has not looked, one that is
past its first look has missed, and a login belongs to a call that missed. -/
structure Standing (looks : List (CallId × Option Entry)) (won : List CallId) (v : View) (id : CallId) :
    Prop where
  unlooked : ∀ c, v.call id = some c → c.stage = .arrived → ∀ found, (id, found) ∉ looks
  missed : ∀ c, v.call id = some c → c.stage ≠ .arrived → (id, none) ∈ looks
  early : ∀ c, v.call id = some c → Early c → v.login id = none ∧ id ∉ won
  started : ∀ t, v.login id = some t → (id, none) ∈ looks
  running : ∀ t, v.login id = some t → (∀ e, t.phase ≠ .storing e) → id ∉ won

/-- **Each login is charged to a miss.** No call has looked twice for the first time and no login has come
to two connections; a login that has come to one is that of a call that missed. -/
structure Charged (looks : List (CallId × Option Entry)) (won : List CallId) (v : View) : Prop where
  known : ∀ p ∈ looks, p.1 < v.nextCall
  once : (looks.map (·.1)).Nodup
  wonOnce : won.Nodup
  charged : ∀ id ∈ won, (id, none) ∈ looks
  standing : ∀ id, Standing looks won v id

/-- The call or the login that an event is about. -/
def Event.about? : Event → Option CallId
  | .resume id | .cancel id | .drop id | .run id | .answer id _ | .crash id _ => some id
  | .call _ | .invalidate _ | .expire _ | .advance _ => none

theorem View.login_setLogin (v : View) (id : CallId) (t : Option Attempt) :
    (v.setLogin id t).login id = t :=
  Function.update_self ..

/-- A login that has ended is not under way. -/
theorem View.login_finish (v : View) (id : CallId) (user : Credentials) (outcome : Outcome) :
    (v.finish id user outcome).login id = none := by
  obtain ⟨c, hc⟩ := ((v.setLogin id none).unlock user).deliver_eq id outcome
  unfold View.finish
  rw [hc]
  exact v.login_setLogin id none

/-- **An event changes nothing for other numbers**, that of a new call apart. -/
theorem View.step_of_other {e : Event} {i : CallId} (he : e.about? ≠ some i)
    (hnew : ∀ user, e = .call user → i ≠ v.nextCall) :
    (v.step e).1.call i = v.call i ∧ (v.step e).1.login i = v.login i := by
  have hmisses : ∀ {f : Event}, (lone i).Overlooks v f →
      (v.step f).1.call i = v.call i ∧ (v.step f).1.login i = v.login i := by
    intro f hf
    have hunseen := (Part.Misses.step hf).unseen
    exact ⟨hunseen.call i (decide_eq_true rfl), hunseen.login i rfl⟩
  have hnobody : ∀ user : Credentials, ¬ (lone i).users user := fun _ => not_false
  have hne : ∀ id, e.about? = some id → id ≠ i := fun id hid h => he (hid.trans (congrArg some h))
  cases e with
  | call user => exact ⟨Function.update_of_ne (hnew user rfl) _ _, rfl⟩
  | advance ms => exact ⟨rfl, rfl⟩
  | invalidate user => exact hmisses (hnobody user)
  | expire user => exact hmisses (hnobody user)
  | resume id => exact hmisses ⟨decide_eq_false (hne id rfl), hne id rfl, fun c _ => hnobody c.user⟩
  | cancel id => exact hmisses ⟨decide_eq_false (hne id rfl), fun c _ => hnobody c.user⟩
  | drop id => exact hmisses ⟨decide_eq_false (hne id rfl), fun c _ => hnobody c.user⟩
  | run id => exact hmisses ⟨hne id rfl, fun t _ => hnobody t.user⟩
  | answer id a => exact hmisses ⟨hne id rfl, fun t _ => hnobody t.user⟩
  | crash id message => exact hmisses ⟨hne id rfl, fun t _ => hnobody t.user⟩

namespace Standing

/-- Nothing has changed for the number. -/
theorem elsewhere {looks' : List (CallId × Option Entry)} {won' : List CallId}
    (h : Standing looks won v id) (hcall : v'.call id = v.call id) (hlogin : v'.login id = v.login id)
    (hlooks : ∀ found, (id, found) ∈ looks' ↔ (id, found) ∈ looks) (hwon : id ∈ won' ↔ id ∈ won) :
    Standing looks' won' v' id where
  unlooked c hc hp found := by rw [hlooks]; exact h.unlooked c (hcall ▸ hc) hp found
  missed c hc hp := by rw [hlooks]; exact h.missed c (hcall ▸ hc) hp
  early c hc hp := by rw [hlogin, hwon]; exact h.early c (hcall ▸ hc) hp
  started t ht := by rw [hlooks]; exact h.started t (hlogin ▸ ht)
  running t ht hp := by rw [hwon]; exact h.running t (hlogin ▸ ht) hp

/-- The call goes on without a new first look and without coming back to the queue, or leaves; its login
goes on or ends. -/
theorem moved (h : Standing looks won v id)
    (hlogin : v'.login id = none ∨ v'.login id = v.login id)
    (hcall : ∀ c', v'.call id = some c' → ∃ c, v.call id = some c ∧
      (c'.stage = .arrived ↔ c.stage = .arrived) ∧ (Early c' → Early c)) :
    Standing looks won v' id := by
  have hsame : ∀ t, v'.login id = some t → v.login id = some t := by
    intro t ht
    rcases hlogin with hnone | hsame
    · simp [hnone] at ht
    · rw [← hsame, ht]
  refine ⟨?_, ?_, ?_, fun t ht => h.started t (hsame t ht), fun t ht => h.running t (hsame t ht)⟩
  · intro c' hc' hp
    obtain ⟨c, hc, harrived, -⟩ := hcall c' hc'
    exact h.unlooked c hc (harrived.1 hp)
  · intro c' hc' hp
    obtain ⟨c, hc, harrived, -⟩ := hcall c' hc'
    exact h.missed c hc fun hc => hp (harrived.2 hc)
  · intro c' hc' hp
    obtain ⟨c, hc, -, hearly⟩ := hcall c' hc'
    obtain ⟨hidle, hnew⟩ := h.early c hc (hearly hp)
    refine ⟨?_, hnew⟩
    rcases hlogin with hnone | hsame
    · exact hnone
    · rw [hsame, hidle]

/-- A call that has left stands for nothing any more. -/
theorem gone (h : Standing looks won v id) (hlogin : v'.login id = v.login id)
    (hcall : v'.call id = none) : Standing looks won v' id :=
  h.moved (.inr hlogin) fun c' hc' => by simp [hcall] at hc'

/-- No login under way belongs to a call that has not looked yet. -/
theorem idle (h : Standing looks won v id) {c : Caller} (hc : v.call id = some c)
    (hp : c.stage = .arrived) : v.login id = none := by
  cases ht : v.login id with
  | none => rfl
  | some t => exact absurd (h.started t ht) (h.unlooked c hc hp none)

/-- **A call looks for the first time.** If it stays, it has missed. -/
theorem looked (h : Standing looks won v id) {c : Caller} (hc : v.call id = some c)
    (hp : c.stage = .arrived) (hwon : id ∉ won) (hlogin : v'.login id = v.login id)
    (hearly : v'.CallIs Early id) {found : Option Entry} (hmiss : found = none ∨ v'.call id = none) :
    Standing (looks ++ [(id, found)]) won v' id := by
  have hidle : v'.login id = none := by rw [hlogin, h.idle hc hp]
  refine ⟨?_, ?_, ?_, ?_, ?_⟩
  · intro c' hc' harrived
    rcases hearly c' hc' with hqueued | hchecking
    · simp [hqueued] at harrived
    · simp [hchecking] at harrived
  · intro c' hc' _
    rcases hmiss with rfl | hgone
    · simp
    · simp [hgone] at hc'
  · exact fun _ _ _ => ⟨hidle, hwon⟩
  · intro t ht
    simp [hidle] at ht
  · intro t ht
    simp [hidle] at ht

/-- **A call starts its login** under the lock. -/
theorem began (h : Standing looks won v id) {c : Caller} (hc : v.call id = some c)
    (hp : c.stage = .checking) (hwaits : v'.CallIs OnlyWaits id) : Standing looks won v' id := by
  have hlate : ∀ c', v'.call id = some c' → c'.stage ≠ .arrived ∧ ¬ Early c' := by
    intro c' hc'
    rcases hwaits c' hc' with hjoined | ⟨outcome, hanswered⟩
    · simp [Early, hjoined]
    · simp [Early, hanswered]
  have hmissed := h.missed c hc (by simp [hp])
  refine ⟨fun c' hc' harrived => ?_, fun _ _ _ => hmissed, fun c' hc' hearly => ?_, fun _ _ => hmissed,
    fun _ _ _ => (h.early c hc (.inr hp)).2⟩
  · exact absurd harrived (hlate c' hc').1
  · exact absurd hearly (hlate c' hc').2

/-- **A login goes on**; if it comes to a connection, it has one to store and is counted. -/
theorem wentOn (h : Standing looks won v id) {t t' : Attempt} (ht : v.login id = some t)
    (hp : ∀ e, t.phase ≠ .storing e) (hcall : v'.call id = v.call id) (hlogin : v'.login id = some t')
    {more : List CallId} (hmore : more = [] ∨ ∃ e, t'.phase = .storing e) :
    Standing looks (won ++ more) v' id := by
  have hnotEarly : ∀ c, v.call id = some c → ¬ Early c := by
    intro c hc hearly
    simp [(h.early c hc hearly).1] at ht
  refine ⟨fun c hc => h.unlooked c (hcall ▸ hc), fun c hc => h.missed c (hcall ▸ hc), ?_, ?_, ?_⟩
  · exact fun c hc hearly => absurd hearly (hnotEarly c (hcall ▸ hc))
  · exact fun _ _ => h.started t ht
  · intro u hu hrunning
    obtain rfl : t' = u := Option.some.inj (hlogin.symm.trans hu)
    rcases hmore with rfl | ⟨e, he⟩
    · rw [List.append_nil]
      exact h.running t ht hp
    · exact absurd he (hrunning e)

/-- A login that ends tells its call. -/
theorem ended (h : Standing looks won v id) (user : Credentials) (outcome : Outcome) :
    Standing looks won (v.finish id user outcome) id := by
  refine h.moved (.inl (v.login_finish id user outcome)) fun c' hc' => ?_
  have hhears : v.Hears id (v.finish id user outcome) :=
    .deliver id outcome ((v.setLogin id none).unlock user)
  rcases hhears with hsame | ⟨c, o, hc, hjoined, hanswered⟩
  · exact ⟨c', hsame ▸ hc', Iff.rfl, fun hearly => hearly⟩
  · obtain rfl : _ = c' := Option.some.inj (hanswered.symm.trans hc')
    exact ⟨c, hc, by simp [hjoined], by simp [Early]⟩

/-- A login goes on from where its machine stands. -/
theorem goOn (h : Standing looks won v id) {t : Attempt} (ht : v.login id = some t)
    (hp : ∀ e, t.phase ≠ .storing e) {p : Login.Progress} {more : List CallId}
    (hmore : more = [] ∨ ∃ c, p = .finished (.ok c)) :
    Standing looks (won ++ more) (v.goOn id t p) id := by
  cases p with
  | waiting l =>
    have hnone : more = [] := by simpa using hmore
    have hcall : (v.setLogin id (some { t with phase := .asking l })).call id = v.call id := rfl
    exact h.wentOn ht hp hcall (v.login_setLogin id _) (.inl hnone)
  | finished r =>
    cases r with
    | ok c =>
      have hcall : (v.setLogin id (some { t with phase := .storing ⟨c, v.now⟩ })).call id = v.call id :=
        rfl
      exact h.wentOn ht hp hcall (v.login_setLogin id _) (.inr ⟨_, rfl⟩)
    | error e =>
      obtain rfl : more = [] := by simpa using hmore
      rw [List.append_nil]
      exact h.ended t.user (.error e)

end Standing

namespace View

/-! ### A call goes on -/

theorem proceed_login (id : CallId) (c : Caller) (v : View) : (v.proceed id c).1.login = v.login := by
  unfold proceed
  split
  · rfl
  · split <;> rfl

theorem join_login (id : CallId) (c : Caller) (v : View) : (v.join id c).1.login = v.login := by
  unfold join
  split <;> rfl

theorem CallIs.proceed_early (c : Caller) (v : View) : (v.proceed id c).1.CallIs Early id := by
  unfold View.proceed
  split
  · exact gone id _
  · split
    · exact put (.inr rfl) _
    · exact put (.inl rfl) _

theorem lookUp_of_fresh {c : Caller} {e : Entry} (hf : v.fresh? c.user = some e) :
    v.lookUp id c = (v.setCall id none, some (id, .ok e)) := by
  simp only [lookUp, hf]

/-- A call that finds nothing leaves at once or waits for the lock. -/
theorem lookUp_of_not_fresh (id : CallId) {c : Caller} (hf : v.fresh? c.user = none) :
    (v.lookUp id c).1.login = v.login ∧ (v.lookUp id c).1.CallIs Early id := by
  simp only [lookUp, hf]
  split
  · exact ⟨rfl, .gone id v⟩
  · exact ⟨proceed_login id c _, .proceed_early c _⟩

end View

namespace Standing

/-- A call waits for the lock. -/
theorem proceed (h : Standing looks won v id) {c : Caller} (hc : v.call id = some c)
    (hp : c.stage = .queued) : Standing looks won (v.proceed id c).1 id := by
  refine h.moved (.inr (by rw [View.proceed_login])) fun c' hc' => ?_
  have hearly : Early c' := View.CallIs.proceed_early c v c' hc'
  refine ⟨c, hc, ?_, fun _ => .inl hp⟩
  rcases hearly with hqueued | hchecking
  · simp [hqueued, hp]
  · simp [hchecking, hp]

/-- A call waits for its login. -/
theorem join (h : Standing looks won v id) {c : Caller} (hc : v.call id = some c)
    (hp : c.stage = .joined) : Standing looks won (v.join id c).1 id := by
  refine h.moved (.inr (by rw [View.join_login])) fun c' hc' => ?_
  have hwaits : OnlyWaits c' := View.CallIs.join id c v c' hc'
  refine ⟨c, hc, ?_⟩
  rcases hwaits with hjoined | ⟨outcome, hanswered⟩
  · simp [Early, hjoined, hp]
  · simp [Early, hanswered, hp]

/-- A call has the lock. -/
theorem check (h : Standing looks won v id) {c : Caller} (hc : v.call id = some c)
    (hp : c.stage = .checking) : Standing looks won (v.check id c).1 id := by
  unfold View.check
  split
  · exact h.gone rfl (View.call_setCall ..)
  · exact h.began hc hp (.join id c _)

/-- A call is cancelled. -/
theorem cancel (h : Standing looks won v id) : Standing looks won (v.cancel id) id := by
  unfold View.cancel
  split
  · exact h
  · rename_i c hc
    refine h.moved (.inr rfl) fun c' hc' => ⟨c, hc, ?_⟩
    obtain rfl := Option.some.inj ((View.call_setCall v id _).symm.trans hc')
    exact ⟨Iff.rfl, fun hearly => hearly⟩

/-- A call is dropped. -/
theorem drop (h : Standing looks won v id) : Standing looks won (v.drop id) id := by
  unfold View.drop
  split
  · exact h
  · split <;> exact h.gone rfl (View.call_setCall ..)

/-- **A call goes on**, with a first look if it has arrived. -/
theorem resume (h : Standing looks won s.view id) (hcharged : id ∈ won → (id, none) ∈ looks) :
    Standing (looks ++ s.firstLook (.resume id)) won (s.view.resume id).1 id := by
  cases hc : s.calls.lookup id with
  | none =>
    have hnobody : s.view.call id = none := by rw [view_call, hc]; rfl
    rw [firstLook_absent hc, List.append_nil]
    simp only [View.resume, hnobody]
    exact h
  | some c =>
    have hcaller : s.view.call id = some c.seen := by rw [view_call, hc]; rfl
    have hstage : c.seen.stage = c.phase.stage := rfl
    simp only [View.resume, hcaller]
    cases hp : c.phase with
    | arrived =>
      rw [hp, CallPhase.stage] at hstage
      -- a login that has come to a connection is charged to a look, and there is none yet
      have hwon : id ∉ won := fun hmem => h.unlooked _ hcaller hstage none (hcharged hmem)
      rw [firstLook_arrived hc hp, ← view_fresh?, hstage]
      dsimp only
      cases hf : s.view.fresh? c.user with
      | some e =>
        rw [View.lookUp_of_fresh hf]
        have hgone : (s.view.setCall id none).call id = none := View.call_setCall ..
        have hlogin : (s.view.setCall id none).login id = s.view.login id := rfl
        exact h.looked hcaller hstage hwon hlogin (.gone id _) (.inr hgone)
      | none =>
        obtain ⟨hlogin, hearly⟩ := View.lookUp_of_not_fresh id (c := c.seen) hf
        exact h.looked hcaller hstage hwon (congrFun hlogin id) hearly (.inl rfl)
    | queued g =>
      rw [hp, CallPhase.stage] at hstage
      rw [firstLook_later hc (by simp [hp]), List.append_nil, hstage]
      exact h.proceed hcaller hstage
    | checking g =>
      rw [hp, CallPhase.stage] at hstage
      rw [firstLook_later hc (by simp [hp]), List.append_nil, hstage]
      exact h.check hcaller hstage
    | joined g =>
      rw [hp, CallPhase.stage] at hstage
      rw [firstLook_later hc (by simp [hp]), List.append_nil, hstage]
      exact h.join hcaller hstage
    | answered g outcome =>
      rw [hp, CallPhase.stage] at hstage
      rw [firstLook_later hc (by simp [hp]), List.append_nil, hstage]
      exact h.gone rfl (View.call_setCall ..)

/-- A login goes on without an answer. -/
theorem run (h : Standing looks won v id) : Standing looks won (v.run id) id := by
  unfold View.run
  split
  · exact h
  rename_i t ht
  split
  · rename_i hspawned
    have hstart := h.goOn (p := Login.start v.settings.loginAttempts 0) ht (by simp [hspawned]) (.inl rfl)
    rwa [List.append_nil] at hstart
  · exact h
  · rename_i e hstoring
    have hstored : Standing looks won (v.setEntry t.user (some e)) id :=
      h.elsewhere rfl rfl (fun _ => Iff.rfl) Iff.rfl
    exact hstored.ended t.user (.ok e)

/-- **A login gets an answer**, and is counted if it needs no more. -/
theorem answer (h : Standing looks won s.view id) (a : Login.Answer) :
    Standing looks (won ++ s.obtains (.answer id a)) (s.view.answer id a) id := by
  cases ht : s.tasks.lookup id with
  | none =>
    have hnone : s.view.login id = none := by rw [view_login, ht]; rfl
    rw [obtains_of_not_asking fun t l ht' => by simp [ht] at ht', List.append_nil]
    simp only [View.answer, hnone]
    exact h
  | some t =>
    have hlogin : s.view.login id = some t.seen := by rw [view_login, ht]; rfl
    have hphase : t.seen.phase = t.phase := rfl
    simp only [View.answer, hlogin]
    cases hp : t.phase with
    | asking l =>
      rw [hphase, hp]
      refine h.goOn hlogin (by simp [hphase, hp]) ?_
      by_cases hr : ∃ c, l.receive s.settings.loginAttempts a = .finished (.ok c)
      · exact .inr hr
      · exact .inl (obtains_of_not_ok ht hp (not_exists.1 hr))
    | spawned | storing e =>
      have hnothing : s.obtains (.answer id a) = [] := by
        refine obtains_of_not_asking fun u l hu => ?_
        obtain rfl := Option.some.inj (ht.symm.trans hu)
        simp [hp]
      rw [hnothing, List.append_nil, hphase, hp]
      exact h

/-- A login breaks down. -/
theorem crash (h : Standing looks won v id) (message : String) :
    Standing looks won (v.crash id message) id := by
  unfold View.crash
  split
  · exact h
  · rename_i t ht
    exact h.ended t.user _

/-- **An event about the number** moves it on. -/
theorem own (h : Standing looks won s.view id) (hcharged : id ∈ won → (id, none) ∈ looks) {e : Event}
    (he : e.about? = some id) :
    Standing (looks ++ s.firstLook e) (won ++ s.obtains e) (s.view.step e).1 id := by
  have hnothing : Standing (looks ++ []) (won ++ []) s.view id := by simpa using h
  cases e with
  | resume i =>
    obtain rfl : i = id := Option.some.inj he
    have hresume := h.resume hcharged
    rwa [← List.append_nil won] at hresume
  | cancel i =>
    obtain rfl : i = id := Option.some.inj he
    exact hnothing.cancel
  | drop i =>
    obtain rfl : i = id := Option.some.inj he
    exact hnothing.drop
  | run i =>
    obtain rfl : i = id := Option.some.inj he
    exact hnothing.run
  | answer i a =>
    obtain rfl : i = id := Option.some.inj he
    have hanswer := h.answer a
    rwa [← List.append_nil looks] at hanswer
  | crash i message =>
    obtain rfl : i = id := Option.some.inj he
    exact hnothing.crash message
  | call user => simp [Event.about?] at he
  | invalidate user => simp [Event.about?] at he
  | expire user => simp [Event.about?] at he
  | advance ms => simp [Event.about?] at he

end Standing

/-! ## A step -/

theorem about_of_firstLook {e : Event} {p : CallId × Option Entry} (hp : p ∈ s.firstLook e) :
    e.about? = some p.1 := by
  rcases s.firstLook_cases e with hnone | ⟨id, c, rfl, -, -, hone⟩
  · simp [hnone] at hp
  · obtain rfl : p = (id, s.fresh? c.user) := by simpa [hone] using hp
    rfl

theorem about_of_obtains {e : Event} (hid : id ∈ s.obtains e) : e.about? = some id := by
  obtain ⟨user, x, t, l, a, rfl, -⟩ := mem_obtains.1 hid
  rfl

namespace Charged

theorem empty (settings : ConnectionSettings) : Charged [] [] (Cache.empty settings).view where
  known := by simp
  once := .nil
  wonOnce := .nil
  charged := by simp
  standing id := by
    constructor
    · simp
    · simp [view_call, Cache.empty]
    · simp [view_call, Cache.empty]
    · simp [view_login, Cache.empty]
    · simp

/-- A number that has not been given to a call has not been looked up. -/
theorem new_not_mem (h : Charged looks won v) (found : Option Entry) : (v.nextCall, found) ∉ looks :=
  fun hmem => Nat.lt_irrefl _ (h.known _ hmem)

/-- A new call stands where it has arrived. -/
theorem standing_new (h : Charged looks won v) (user : Credentials) :
    Standing looks won (v.step (.call user)).1 v.nextCall := by
  have hcall : (v.step (.call user)).1.call v.nextCall = some ⟨user, false, .arrived⟩ :=
    v.call_setCall v.nextCall _
  have hidle : ∀ t, v.login v.nextCall ≠ some t := fun t ht =>
    h.new_not_mem none ((h.standing v.nextCall).started t ht)
  refine ⟨fun _ _ _ found => h.new_not_mem found, fun c hc hp => ?_, fun c hc hearly => ?_,
    fun t ht => absurd ht (hidle t), fun t ht => absurd ht (hidle t)⟩
  · obtain rfl := Option.some.inj (hcall.symm.trans hc)
    exact absurd rfl hp
  · obtain rfl := Option.some.inj (hcall.symm.trans hc)
    simp [Early] at hearly

/-- How each number stands after an event. -/
theorem standing_step (h : Charged looks won s.view) (e : Event) (id : CallId) :
    Standing (looks ++ s.firstLook e) (won ++ s.obtains e) (s.view.step e).1 id := by
  -- the event is about this number, or gives it to a new call, or leaves it alone
  by_cases he : e.about? = some id
  · exact (h.standing id).own (h.charged id) he
  by_cases hnew : ∃ user, e = .call user ∧ id = s.view.nextCall
  · obtain ⟨user, rfl, rfl⟩ := hnew
    have hnew := h.standing_new user
    rwa [← List.append_nil looks, ← List.append_nil won] at hnew
  · have hlooks : ∀ found, (id, found) ∈ looks ++ s.firstLook e ↔ (id, found) ∈ looks := by
      intro found
      have hnot : (id, found) ∉ s.firstLook e := fun hmem => he (about_of_firstLook hmem)
      simp [hnot]
    have hwon : id ∈ won ++ s.obtains e ↔ id ∈ won := by
      have hnot : id ∉ s.obtains e := fun hmem => he (about_of_obtains hmem)
      simp [hnot]
    obtain ⟨hcall, hlogin⟩ := View.step_of_other he fun user hu hid => hnew ⟨user, hu, hid⟩
    exact (h.standing id).elsewhere hcall hlogin hlooks hwon

/-- **A step** charges a login that succeeds to the first look of its call. -/
theorem step (h : Charged looks won s.view) (ho : InOrder settings s) (e : Event) :
    Charged (looks ++ s.firstLook e) (won ++ s.obtains e) (s.step e).1.view where
  known := by
    have hle : s.nextCall ≤ (s.step e).1.nextCall := ho.nextCall_step e
    intro p hp
    rcases List.mem_append.1 hp with hold | hlook
    · exact Nat.lt_of_lt_of_le (h.known p hold) hle
    · rcases s.firstLook_cases e with hnone | ⟨id, c, -, hc, -, hone⟩
      · simp [hnone] at hlook
      · obtain rfl : p = (id, s.fresh? c.user) := by simpa [hone] using hlook
        exact Nat.lt_of_lt_of_le (ho.gates.lt_of_lookup hc) hle
  once := by
    rcases s.firstLook_cases e with hnone | ⟨id, c, -, hc, hp, hone⟩
    · rw [hnone, List.append_nil]
      exact h.once
    · have hcaller : s.view.call id = some c.seen := by rw [view_call, hc]; rfl
      have hstage : c.seen.stage = .arrived := congrArg CallPhase.stage hp
      have hnew : id ∉ looks.map (·.1) := by
        intro hid
        obtain ⟨⟨i, found⟩, hmem, rfl⟩ := List.mem_map.1 hid
        exact (h.standing i).unlooked c.seen hcaller hstage found hmem
      rw [hone, List.map_append, List.map_singleton]
      exact h.once.append (List.nodup_singleton _) (by simpa using hnew)
  wonOnce := by
    rcases s.obtains_cases e with hnone | ⟨id, a, t, l, c, -, ht, hp, -, hone⟩
    · rw [hnone, List.append_nil]
      exact h.wonOnce
    · have hlogin : s.view.login id = some t.seen := by rw [view_login, ht]; rfl
      have hphase : t.seen.phase = .asking l := hp
      have hnew : id ∉ won := (h.standing id).running t.seen hlogin (by simp [hphase])
      rw [hone]
      exact h.wonOnce.append (List.nodup_singleton _) (by simpa using hnew)
  charged := by
    intro id hid
    rcases List.mem_append.1 hid with hold | hlogin
    · exact List.mem_append_left _ (h.charged id hold)
    · obtain ⟨user, x, t, l, a, -, ht, -⟩ := mem_obtains.1 hlogin
      have hseen : s.view.login id = some t.seen := by rw [view_login, ht]; rfl
      exact List.mem_append_left _ ((h.standing id).started t.seen hseen)
  standing id := by
    rw [step_view ho e]
    exact h.standing_step e id

/-- There are no more logins that have succeeded than calls that have missed. -/
theorem length_won_le (h : Charged looks won v) : won.length ≤ looks.countP (·.2.isNone) := by
  -- no number is twice among the logins, and each is among the misses
  have hsub : won ⊆ (looks.filter (·.2.isNone)).map (·.1) := by
    intro id hid
    exact List.mem_map.2 ⟨(id, none), List.mem_filter.2 ⟨h.charged id hid, rfl⟩, rfl⟩
  have hle := (List.subperm_of_subset h.wonOnce hsub).length_le
  rwa [List.length_map, ← List.countP_eq_length_filter] at hle

end Charged

/-! ## A run -/

theorem Charged.run (h : Charged looks won s.view) (ho : InOrder settings s) (es : List Event) :
    Charged (looks ++ gather firstLook s es) (won ++ gather obtains s es) (s.run es).1.view := by
  induction es generalizing s looks won with
  | nil => simpa [gather, Cache.run] using h
  | cons e es ih =>
    have hrest := ih (h.step ho e) (ho.step e)
    rwa [List.append_assoc, List.append_assoc] at hrest

/-- **The counters add up**, in every reachable state. No call looks at the store twice for the first
time, and each first look is a hit or a miss; each login that came to a connection did so once, and the
call that started it had missed, so there are at most as many of them as misses. A hit has been returned,
and no more connections are stored than logins came to one. -/
theorem counters_add_up (settings : ConnectionSettings) (es : List Event) :
    let r := (empty settings).run es
    let looks := gather firstLook (empty settings) es
    let won := gather obtains (empty settings) es
    (looks.map (·.1)).Nodup ∧ r.1.hits + r.1.misses = looks.length ∧
      r.1.hits = looks.countP (·.2.isSome) ∧ r.1.misses = looks.countP (·.2.isNone) ∧
      won.Nodup ∧ r.1.logins = won.length ∧ (∀ id ∈ won, (id, none) ∈ looks) ∧
      r.1.logins ≤ r.1.misses ∧ (∀ id found, (id, some found) ∈ looks → (id, .ok found) ∈ r.2) ∧
      r.1.entries.length ≤ r.1.logins := by
  intro r looks won
  have ht : Tally looks won r.1 := (Tally.empty settings).run es
  have hc : Charged looks won r.1.view := (Charged.empty settings).run (inOrder_empty settings) es
  have hboth : looks.length = looks.countP (·.2.isSome) + looks.countP (·.2.isNone) := by
    have hsplit := looks.length_eq_countP_add_countP (·.2.isSome)
    simpa only [Bool.not_eq_true, Option.isSome_eq_false_iff, Bool.decide_eq_true] using hsplit
  have hlogins : r.1.logins ≤ r.1.misses := by
    rw [ht.logins, ht.misses]
    exact hc.length_won_le
  have hstored : r.1.entries.length ≤ r.1.logins := by
    have hle := ht.stored
    have heq := ht.logins
    omega
  refine ⟨hc.once, ?_, ht.hits, ht.misses, hc.wonOnce, ht.logins, hc.charged, hlogins, ?_, hstored⟩
  · rw [ht.hits, ht.misses, hboth]
  · exact fun id found hmem => returned_of_hit_run hmem

/-- A user logs in and is served from the store after that, while the login of another user fails. -/
theorem counters_add_up_of_two :
    let settings : ConnectionSettings := ⟨1000, 4, 3, .zero⟩
    let alice : Credentials := ⟨"alice", "s3cret"⟩
    let bob : Credentials := ⟨"bob", "hunter2"⟩
    let entry : Entry := ⟨⟨7, [⟨1, "Demo", []⟩]⟩, 0⟩
    let es : List Event := [.call alice, .resume 0, .resume 0, .run 0, .answer 0 (.opened (.ok 7)),
      .answer 0 (.status (.ok .success)), .answer 0 (.companies (.ok (some entry.connected.companies))),
      .run 0, .call alice, .resume 1, .call bob, .resume 2, .resume 2, .run 2,
      .answer 2 (.opened (.ok 8)), .answer 2 (.status (.ok .noLines)), .resume 2]
    let r := (empty settings).run es
    gather firstLook (empty settings) es = [(0, none), (1, some entry), (2, none)] ∧
      gather obtains (empty settings) es = [0] ∧ r.1.hits = 1 ∧ r.1.misses = 2 ∧ r.1.logins = 1 ∧
      r.1.entries.length ≤ 1 ∧ (1, .ok entry) ∈ r.2 := by
  intro settings alice bob entry es r
  have hlooks : gather firstLook (empty settings) es = [(0, none), (1, some entry), (2, none)] := by
    decide +kernel
  have hwon : gather obtains (empty settings) es = [0] := by decide +kernel
  obtain ⟨-, -, hhits, hmisses, -, hlogins, -, -, hreturned, hstored⟩ := counters_add_up settings es
  have hr : (empty settings).run es = r := rfl
  have hhit : (1, some entry) ∈ gather firstLook (empty settings) es := by simp [hlooks]
  rw [hr, hlooks] at hhits hmisses
  rw [hr, hwon] at hlogins
  rw [hr, hlogins] at hstored
  exact ⟨hlooks, hwon, hhits, hmisses, hlogins, hstored, hreturned 1 entry hhit⟩

end LedgerFront.Cache
