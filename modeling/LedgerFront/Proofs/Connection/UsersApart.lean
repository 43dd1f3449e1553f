import LedgerFront.Proofs.Connection.Parts

/-!
# Different users do not influence each other

All users share one store, one table of gates and one clock. Still nobody notices the others: leave out
everything that is about other users, and what happens to one user's calls stays the same, at the same
times. The remote side must not carry anything from one user to another either.

* `Gateway`, `Possible`: what the remote side may do, and the runs in which it does no other.
* `only`: what is left of a run when only one user is there.
* `users_apart`: a user sees the same in both.
-/

namespace LedgerFront.Cache

open Pairs

/-! ## The remote side -/

/-- What the remote side and a login do with each other. -/
inductive Notice where
  | begun
  | answered (phase : Login.Phase) (a : Login.Answer)
  | broken (message : String)

/-- A contact of the remote side with a login of a user. -/
structure Contact where
  time : Nat
  user : Credentials
  notice : Notice

/-- Which contacts can come next after those that there have been. -/
abbrev Gateway := List Contact → Contact → Prop

/-- The contact in an event. -/
def View.contact? (v : View) : Event → Option Contact
  | .run id =>
    match v.login id with
    | some ⟨user, .spawned⟩ => some ⟨v.now, user, .begun⟩
    | _ => none
  | .answer id a =>
    match v.login id with
    | some ⟨user, .asking l⟩ => some ⟨v.now, user, .answered l.phase a⟩
    | _ => none
  | .crash id message =>
    match v.login id with
    | some t => some ⟨v.now, t.user, .broken message⟩
    | none => none
  | _ => none

/-- The remote side can do what it does in these events, after the contacts in `log`. -/
def Possible (G : Gateway) (log : List Contact) (s : Cache) : List Event → Prop
  | [] => True
  | e :: es => (∀ x ∈ (s.view.contact? e).toList, G log x) ∧
    Possible G (log ++ (s.view.contact? e).toList) (s.step e).1 es

instance decidablePossible {G : Gateway} [∀ log x, Decidable (G log x)] :
    ∀ (log : List Contact) (s : Cache) (es : List Event), Decidable (Possible G log s es)
  | _, _, [] => inferInstanceAs (Decidable True)
  | log, s, e :: es =>
    have := decidablePossible (G := G) (log ++ (s.view.contact? e).toList) (s.step e).1 es
    inferInstanceAs (Decidable (_ ∧ _))

/-- What the remote side does with a user it can do as well if there have not been any others. -/
def Gateway.Indifferent (G : Gateway) (user : Credentials) : Prop :=
  ∀ log x, x.user = user → G log x → G (log.filter (·.user = user)) x

/-! ## One user -/

variable {settings : ConnectionSettings} {user : Credentials} {users seen : List Credentials}
  {log : List Heard} {s s' : Cache}

/-- The number of a call among those of the user. -/
def rank (user : Credentials) (users : List Credentials) (id : CallId) : Nat :=
  (users.take id).count user

/-- The event is about the user, or the clock. -/
def Event.isOf (user : Credentials) (users : List Credentials) : Event → Bool
  | .call u | .invalidate u | .expire u => u = user
  | .resume id | .cancel id | .drop id | .run id | .answer id _ | .crash id _ => users[id]? = some user
  | .advance _ => true

theorem rank_zero (user : Credentials) (users : List Credentials) : rank user users 0 = 0 := rfl

/-- The number grows with each call of the user. -/
theorem rank_succ {id : CallId} {u : Credentials} (h : users[id]? = some u) :
    rank user users (id + 1) = rank user users id + if u = user then 1 else 0 := by
  unfold rank
  rw [List.take_add_one, h, List.count_append]
  simp [List.count_singleton]

theorem rank_mono {i j : CallId} (h : i ≤ j) : rank user users i ≤ rank user users j :=
  (List.take_sublist_take_left h).count_le user

theorem rank_lt {i j : CallId} (hi : users[i]? = some user) (h : i < j) :
    rank user users i < rank user users j := by
  have hsucc : rank user users (i + 1) = rank user users i + 1 := by rw [rank_succ hi, if_pos rfl]
  have hle : rank user users (i + 1) ≤ rank user users j := rank_mono h
  omega

/-- The calls of the user are those with the user's name in `users`. -/
def ofUser (user : Credentials) (users : List Credentials) : Part where
  users := (· = user)
  calls id := users[id]? = some user
  logins id := users[id]? = some user
  number := rank user users
  own id h := of_decide_eq_true h
  apart i j hi hj h := by
    rcases Nat.lt_trichotomy i j with hlt | heq | hlt
    · exact absurd h (Nat.ne_of_lt (rank_lt hi hlt))
    · exact heq
    · exact absurd h (Nat.ne_of_gt (rank_lt hj hlt))

/-- The events as they are when only this user is there. -/
def only (user : Credentials) (users : List Credentials) (es : List Event) : List Event :=
  (ofUser user users).share (Event.isOf user users) es

theorem only_cons {e : Event} {es : List Event} (h : e.isOf user users = true) :
    only user users (e :: es) = e.renumber (rank user users) :: only user users es :=
  Part.share_cons h

theorem only_cons_of_not {e : Event} {es : List Event} (h : e.isOf user users = false) :
    only user users (e :: es) = only user users es :=
  Part.share_cons_of_not h

/-! ## What is whose -/

/-- The calls and logins are those of the users that `users` names at their numbers. -/
structure Named (users : List Credentials) (s : Cache) : Prop where
  call : ∀ id c, s.view.call id = some c → users[id]? = some c.user
  login : ∀ id t, s.view.login id = some t → users[id]? = some t.user

theorem Sound.named (h : Sound settings seen log s) (more : List Credentials) :
    Named (seen ++ more) s := by
  have hmore : ∀ (id : CallId) {u : Credentials}, seen[id]? = some u → (seen ++ more)[id]? = some u := by
    intro id u hu
    rw [List.getElem?_append_left (List.getElem?_eq_some_iff.1 hu).1, hu]
  refine ⟨fun id c hc => ?_, fun id t ht => ?_⟩
  · rw [view_call, Option.map_eq_some_iff] at hc
    obtain ⟨d, hd, rfl⟩ := hc
    exact hmore id (h.calls _ (mem_of_lookup hd)).user
  · rw [view_login, Option.map_eq_some_iff] at ht
    obtain ⟨u, hu, rfl⟩ := ht
    exact hmore id (h.taskUser id u hu)

theorem sees_ofUser {e : Event} (hnew : ∀ u, e = .call u → users[s.nextCall]? = some u)
    (he : e.isOf user users = true) : (ofUser user users).Sees s.view e := by
  cases e with
  | call u =>
    obtain rfl : u = user := of_decide_eq_true he
    have hu := hnew u rfl
    refine ⟨decide_eq_true hu, ?_⟩
    show rank u users (s.nextCall + 1) = rank u users s.nextCall + 1
    rw [rank_succ hu, if_pos rfl]
  | resume id | cancel id | drop id => exact he
  | run id | answer id a | crash id message =>
    have hid : users[id]? = some user := of_decide_eq_true he
    exact hid
  | invalidate u | expire u =>
    have hu : u = user := of_decide_eq_true he
    exact hu
  | advance ms => trivial

namespace Named

/-- A call or a login of the user is not anybody else's. -/
theorem eq_user {id : CallId} {u : Credentials} (hu : users[id]? = some u)
    (hid : users[id]? = some user) : u = user := Option.some.inj (hu.symm.trans hid)

theorem closed (hn : Named users s) (h : InOrder settings s) : (ofUser user users).Closed s.view where
  callUser id c hid hc := eq_user (hn.call id c hc) (of_decide_eq_true hid)
  loginUser id t hid ht := eq_user (hn.login id t ht) hid
  queue u hu id hid := by
    obtain ⟨c, hc, hcu, -⟩ := h.queued hid
    have huser : c.user = user := hcu.trans hu
    exact decide_eq_true (huser ▸ hn.call id c hc)

theorem overlooks (hn : Named users s) {e : Event}
    (hnew : ∀ u, e = .call u → users[s.nextCall]? = some u) (he : e.isOf user users = false) :
    (ofUser user users).Overlooks s.view e := by
  -- a call or a login with this number is somebody else's
  have hcall : ∀ id, users[id]? ≠ some user → ∀ c, s.view.call id = some c → c.user ≠ user :=
    fun id hid c hc hu => hid (hu ▸ hn.call id c hc)
  have hlogin : ∀ id, users[id]? ≠ some user → ∀ t, s.view.login id = some t → t.user ≠ user :=
    fun id hid t ht hu => hid (hu ▸ hn.login id t ht)
  cases e with
  | call u =>
    have hne : u ≠ user := of_decide_eq_false he
    have hu := hnew u rfl
    refine ⟨decide_eq_false fun h => hne (eq_user hu h), ?_⟩
    show rank user users (s.nextCall + 1) = rank user users s.nextCall
    rw [rank_succ hu, if_neg hne]
    rfl
  | resume id =>
    have hid : users[id]? ≠ some user := of_decide_eq_false he
    exact ⟨he, hid, hcall id hid⟩
  | cancel id | drop id =>
    have hid : users[id]? ≠ some user := of_decide_eq_false he
    exact ⟨he, hcall id hid⟩
  | run id | answer id a | crash id message =>
    have hid : users[id]? ≠ some user := of_decide_eq_false he
    exact ⟨hid, hlogin id hid⟩
  | invalidate u | expire u =>
    have hne : u ≠ user := of_decide_eq_false he
    exact hne
  | advance ms => simp [Event.isOf] at he

end Named

/-- **What a user does is a part**, with nobody else reaching into it. -/
theorem splits_ofUser {es : List Event} {later : List Credentials} (h : InOrder settings s)
    (hs : Sound settings seen log s) (hu : users = seen ++ (callers es ++ later)) :
    (ofUser user users).Splits (Event.isOf user users) s.view es := by
  induction es generalizing s seen log with
  | nil => trivial
  | cons e es ih =>
    have hn : Named users s := hu ▸ hs.named _
    have hnew : ∀ u, e = .call u → users[s.nextCall]? = some u := by
      rintro u rfl
      rw [hu, hs.nextCall, List.getElem?_append_right (Nat.le_refl _), Nat.sub_self]
      rfl
    have hrest := ih (h.step e) (hs.step e).1 (by rw [hu, callers_cons]; simp)
    refine ⟨hn.closed h, ?_, step_view h e ▸ hrest⟩
    cases he : e.isOf user users with
    | true => exact sees_ofUser hnew he
    | false => exact .step (hn.overlooks hnew he)

/-! ## What the remote side notices -/

theorem Agree.contact? {part : Part} {v w : View} (h : Agree part v w) {e : Event}
    (he : part.Sees v e) : w.contact? (e.renumber part.number) = v.contact? e := by
  cases e with
  | run id | answer id a | crash id message =>
    simp only [Event.renumber, View.contact?, h.login id he, h.now]
  | _ => rfl

/-- A contact is with the user of the login. -/
theorem Named.contact_user (hn : Named users s) {e : Event} {x : Contact}
    (hx : s.view.contact? e = some x) : e.isOf user users = decide (x.user = user) := by
  have hlogin : ∀ id t, s.view.login id = some t →
      decide (users[id]? = some user) = decide (t.user = user) := fun id t ht => by
    simp [hn.login id t ht]
  cases e with
  | run id | answer id a | crash id message =>
    simp only [View.contact?] at hx
    split at hx
    · rename_i ht
      obtain rfl := Option.some.inj hx
      exact hlogin id _ ht
    · simp at hx
  | _ => simp [View.contact?] at hx

/-- **The remote side can do the same** when only this user is there. -/
theorem Possible.only {G : Gateway} (hG : G.Indifferent user) {es : List Event}
    {contacts : List Contact} {later : List Credentials} (h : InOrder settings s)
    (h' : InOrder settings s') (hs : Sound settings seen log s)
    (hu : users = seen ++ (callers es ++ later)) (ha : Agree (ofUser user users) s.view s'.view)
    (hp : Possible G contacts s es) :
    Possible G (contacts.filter (·.user = user)) s' (only user users es) := by
  induction es generalizing s s' seen log contacts with
  | nil => trivial
  | cons e es ih =>
    obtain ⟨hx, hp⟩ := hp
    have hsplits : (ofUser user users).Splits (Event.isOf user users) s.view (e :: es) :=
      splits_ofUser h hs hu
    obtain ⟨hc, he, -⟩ := hsplits
    have hn : Named users s := hu ▸ hs.named _
    have hs' := (hs.step e).1
    have hu' : users = seen ++ e.caller?.toList ++ (callers es ++ later) := by
      rw [hu, callers_cons]
      simp
    have hcontact : ∀ x ∈ (s.view.contact? e).toList, e.isOf user users = decide (x.user = user) :=
      fun x hx => hn.contact_user (Option.mem_toList.1 hx)
    cases hkeep : e.isOf user users with
    | true =>
      rw [hkeep, if_pos rfl] at he
      have hsame : s'.view.contact? (e.renumber (rank user users)) = s.view.contact? e :=
        ha.contact? he
      have hmine : (s.view.contact? e).toList.filter (·.user = user) = (s.view.contact? e).toList :=
        List.filter_eq_self.2 fun x hx => (hcontact x hx).symm.trans hkeep
      have hrest := ih (h.step e) (h'.step _) hs' hu' (ha.step_both h h' hc he) hp
      rw [List.filter_append, hmine] at hrest
      rw [only_cons hkeep]
      refine ⟨fun x hmem => ?_, ?_⟩
      · rw [hsame] at hmem
        have huser : x.user = user := of_decide_eq_true ((hcontact x hmem).symm.trans hkeep)
        exact hG contacts x huser (hx x hmem)
      · rw [hsame]
        exact hrest
    | false =>
      rw [hkeep, if_neg Bool.false_ne_true] at he
      have hother : (s.view.contact? e).toList.filter (·.user = user) = [] := by
        rw [List.filter_eq_nil_iff]
        intro x hx
        rw [← hcontact x hx, hkeep]
        exact Bool.false_ne_true
      have hrest := ih (h.step e) h' hs' hu' (ha.step_one h he) hp
      rw [List.filter_append, hother, List.append_nil] at hrest
      rw [only_cons_of_not hkeep]
      exact hrest

/-! ## Different users -/

/-- **Different users do not influence each other.** Take any run, any user, and a remote side that
carries nothing from other users to this one. Leave out all that is about others, and number the calls of
the user among themselves: the remote side can do the same again, the clock goes on as it did, and at each
point of the run the user's calls have returned the same, as many of them wait, and the store has the same
connection of the user. -/
theorem users_apart (settings : ConnectionSettings) (es : List Event) (user : Credentials) (G : Gateway)
    (hG : G.Indifferent user) (hp : Possible G [] (empty settings) es) :
    let users := callers es
    Possible G [] (empty settings) (only user users es) ∧
    ∀ before after, es = before ++ after →
      let r := (empty settings).run before
      let r' := (empty settings).run (only user users before)
      only user users es = only user users before ++ only user users after ∧
      r'.1.now = r.1.now ∧ r'.1.waiting user = r.1.waiting user ∧ entry? r'.1 user = entry? r.1 user ∧
      r'.2 = (r.2.filter fun p => users[p.1]? = some user).map (renumbered (rank user users)) := by
  intro users
  have h := inOrder_empty settings
  have hs := sound_empty settings
  have hagree : Agree (ofUser user users) (empty settings).view (empty settings).view :=
    agree_empty (rank_zero user users) settings
  have hall : users = [] ++ (callers es ++ []) := (List.append_nil _).symm
  refine ⟨Possible.only hG h h hs hall hagree hp, ?_⟩
  rintro before after rfl r r'
  have husers : users = [] ++ (callers before ++ callers after) := List.filterMap_append
  obtain ⟨hafter, hreturned⟩ := hagree.run_share h h (splits_ofUser h hs husers)
  exact ⟨Part.share_append before after, hafter.now, hafter.waiting rfl, hafter.entry user rfl, hreturned⟩

/-- The session that is opened in a contact. -/
def Contact.opened? (x : Contact) : Option Nat :=
  match x.notice with
  | .answered _ (.opened (.ok session)) => some session
  | _ => none

/-- The sessions of a user have different numbers. -/
def newSessions : Gateway := fun log x =>
  ∀ y ∈ log, y.user = x.user → x.opened?.isSome → y.opened? ≠ x.opened?

instance decidableNewSessions (log : List Contact) (x : Contact) : Decidable (newSessions log x) :=
  inferInstanceAs (Decidable (∀ y ∈ log, _ → _ → _))

/-- Of two users who log in at the same time one is refused. The other does not notice: the first call
logs in, the second waits for it, and both get the connection. -/
theorem users_apart_of_two :
    let settings : ConnectionSettings := ⟨1000, 4, 3, .zero⟩
    let alice : Credentials := ⟨"alice", "s3cret"⟩
    let bob : Credentials := ⟨"bob", "hunter2"⟩
    let entry : Entry := ⟨⟨7, [⟨1, "Demo", []⟩]⟩, 5⟩
    let before : List Event := [.call alice, .call bob, .resume 0, .resume 1, .call alice, .resume 2]
    let after : List Event := [.resume 1, .run 1, .resume 0, .run 0, .answer 1 (.opened (.ok 7)),
      .answer 0 (.opened (.ok 7)), .answer 1 (.status (.ok .noLines)), .advance 5,
      .answer 0 (.status (.ok .success)), .answer 0 (.companies (.ok (some entry.connected.companies))),
      .resume 1, .run 0, .invalidate bob, .resume 0, .resume 2, .resume 2]
    let es := before ++ after
    let r := (empty settings).run es
    let r' := (empty settings).run (only alice (callers es) es)
    newSessions.Indifferent alice ∧ Possible newSessions [] (empty settings) es ∧
      Possible newSessions [] (empty settings) (only alice (callers es) es) ∧
      ((empty settings).run (only alice (callers es) before)).1.waiting alice = 1 ∧
      r.2 = [(1, .error (.forbidden .noLines)), (0, .ok entry), (2, .ok entry)] ∧
      r'.2 = [(0, .ok entry), (1, .ok entry)] ∧ entry? r'.1 alice = some entry := by
  intro settings alice bob entry before after es r r'
  have hG : newSessions.Indifferent alice := fun log x hx hnew y hy =>
    hnew y (List.mem_of_mem_filter hy)
  have hp : Possible newSessions [] (empty settings) es := by decide +kernel
  have hreturned : r.2 = [(1, .error (.forbidden .noLines)), (0, .ok entry), (2, .ok entry)] := by
    decide +kernel
  obtain ⟨hpossible, h⟩ := users_apart settings es alice newSessions hG hp
  obtain ⟨-, -, hwaiting, -, -⟩ := h before after rfl
  obtain ⟨-, -, -, hentry, hsame⟩ := h es [] (List.append_nil es).symm
  refine ⟨hG, hp, hpossible, ?_, hreturned, ?_, ?_⟩
  · exact hwaiting.trans (by decide +kernel)
  · exact hsame.trans (by decide +kernel)
  · exact hentry.trans (by decide +kernel)

end LedgerFront.Cache
