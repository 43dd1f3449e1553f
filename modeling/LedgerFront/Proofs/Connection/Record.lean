import LedgerFront.Connection.Connect
import LedgerFront.Proofs.Refusal

/-!
# The record of what logins ask

Everything that logins ask of their sessions is written down in the order of the
replies. A connection comes from its user when the record shows a login that logged
in to the session with the user's credentials, and next got the companies from it.

* `Login.exchange?_of_ask`: what is written down is what the remote side was asked.
* `ComesFrom`: what the record says about the origin of a connection.
* `Traced.waiting`, `Traced.finished`: what it says about a login that goes on.
-/

namespace LedgerFront

/-- A call that a login made in a session, and its reply. -/
structure Heard where
  login : CallId
  session : Nat
  exchange : Exchange

namespace Login

/-- The session and the exchange that an answer completes, if it is one that the login waits for. -/
def exchange? (key : Uuid) (user : Credentials) (l : Login) (a : Answer) : Option (Nat × Exchange) :=
  match l.phase, a with
  | .loggingIn session, .status r => some (session, ⟨.login user key, r⟩)
  | .listing session, .companies r => some (session, ⟨.companies, r⟩)
  | _, _ => none

/-- What is written down is what the remote side was asked and what it replied. -/
theorem exchange?_of_ask {σ : Type} {remote : Remote σ} {key : Uuid} {user : Credentials} {l : Login}
    {a : Answer} {r r' : σ} (h : l.ask remote key user r = .ok (a, r')) :
    (l.phase = .opening ∧ ∃ reply, remote.openSession r = (reply, r') ∧ a = .opened reply) ∨
      ∃ session x, l.exchange? key user a = some (session, x) ∧
        remote.call session x.call r = .ok (x.reply, r') := by
  unfold ask at h
  unfold exchange?
  cases hp : l.phase with
  | opening =>
    simp only [hp, Except.ok.injEq, Prod.mk.injEq] at h
    obtain ⟨rfl, rfl⟩ := h
    exact .inl ⟨rfl, _, rfl, rfl⟩
  | loggingIn session =>
    rw [hp] at h
    obtain ⟨p, hr, h⟩ := bind_eq_ok.1 h
    obtain ⟨rfl, rfl⟩ := Prod.mk.inj (Except.ok.inj h)
    exact .inr ⟨session, _, rfl, hr⟩
  | listing session =>
    rw [hp] at h
    obtain ⟨p, hr, h⟩ := bind_eq_ok.1 h
    obtain ⟨rfl, rfl⟩ := Prod.mk.inj (Except.ok.inj h)
    exact .inr ⟨session, _, rfl, hr⟩

/-- What an answer adds to the record. -/
def heard (key : Uuid) (id : CallId) (user : Credentials) (l : Login) (a : Answer) : List Heard :=
  ((l.exchange? key user a).map fun p => ⟨id, p.1, p.2⟩).toList

theorem login_of_heard {key : Uuid} {id : CallId} {user : Credentials} {l : Login} {a : Answer} :
    ∀ h ∈ l.heard key id user a, h.login = id := by
  intro h hh
  obtain ⟨p, _, rfl⟩ : ∃ p, l.exchange? key user a = some p ∧ (⟨id, p.1, p.2⟩ : Heard) = h := by
    simpa [heard] using hh
  rfl

theorem heard_status {key : Uuid} {id : CallId} {user : Credentials} {l : Login} {session : Nat}
    {r : Except RemoteError Status} (h : l.phase = .loggingIn session) :
    l.heard key id user (.status r) = [⟨id, session, ⟨.login user key, r⟩⟩] := by
  unfold heard exchange?
  rw [h]
  rfl

theorem heard_companies {key : Uuid} {id : CallId} {user : Credentials} {l : Login} {session : Nat}
    {r : Except RemoteError (Option (List Company))} (h : l.phase = .listing session) :
    l.heard key id user (.companies r) = [⟨id, session, ⟨.companies, r⟩⟩] := by
  unfold heard exchange?
  rw [h]
  rfl

theorem start_waiting {attempts done : Nat} {l : Login} (h : start attempts done = .waiting l) :
    l.phase = .opening := by
  unfold start at h
  split at h
  · exact (Progress.waiting.inj h) ▸ rfl
  · simp at h

theorem start_ne_ok {attempts done : Nat} {c : Connected} :
    start attempts done ≠ .finished (.ok c) := by
  unfold start
  split <;> simp

/-- A login that waits for companies has waited for them before, or has just logged in. -/
theorem receive_listing {attempts : Nat} {l l' : Login} {a : Answer} {session : Nat}
    (h : l.receive attempts a = .waiting l') (hl : l'.phase = .listing session) :
    (l.phase = .listing session ∧ ∀ r, a ≠ .companies r) ∨
      ∃ status, l.phase = .loggingIn session ∧ a = .status (.ok status) ∧ status.isSuccess = true := by
  unfold receive at h
  split at h
  · obtain rfl := Progress.waiting.inj h
    simp at hl
  · simp at h
  · split at h
    · rename_i status hp hs
      obtain rfl := Progress.waiting.inj h
      obtain rfl := Phase.listing.inj hl
      exact .inr ⟨status, hp, rfl, hs⟩
    · simp at h
  · simp at h
  · simp at h
  · simp [start_waiting h] at hl
  · simp at h
  · -- the answer is not one to what the login waits for
    rename_i hok herror
    obtain rfl := Progress.waiting.inj h
    refine .inl ⟨hl, ?_⟩
    rintro (e | companies) rfl
    · exact herror session e hl rfl
    · exact hok session companies hl rfl

/-- A login ends with a connection when it gets the companies of its session. -/
theorem receive_eq_ok {attempts : Nat} {l : Login} {a : Answer} {c : Connected}
    (h : l.receive attempts a = .finished (.ok c)) :
    l.phase = .listing c.session ∧ a = .companies (.ok (some c.companies)) ∧ c.companies ≠ [] := by
  unfold receive at h
  split at h
  case h_5 session company companies hp =>
    obtain rfl : ⟨session, company :: companies⟩ = c := by simpa using h
    exact ⟨hp, rfl, by simp⟩
  case h_3 => split at h <;> simp at h
  case h_6 => exact absurd h start_ne_ok
  all_goals simp at h

end Login

/-- A login has logged in to the session with these credentials, and has asked nothing since. -/
def LoggedIn (key : Uuid) (log : List Heard) (id : CallId) (user : Credentials) (session : Nat) :
    Prop :=
  ∃ before status after, log = before ++ ⟨id, session, ⟨.login user key, .ok status⟩⟩ :: after ∧
    status.isSuccess = true ∧ ∀ h ∈ after, h.login ≠ id

/-- A login has logged in to the session with these credentials, and the next that it asked were the
companies. -/
def ComesFrom (key : Uuid) (log : List Heard) (user : Credentials) (c : Connected) : Prop :=
  c.companies ≠ [] ∧ ∃ id before after,
    log = before ++ ⟨id, c.session, ⟨.companies, .ok (some c.companies)⟩⟩ :: after ∧
      LoggedIn key before id user c.session

section

variable {key : Uuid} {log more : List Heard} {id : CallId} {user : Credentials}

theorem LoggedIn.append {session : Nat} (h : LoggedIn key log id user session)
    (hmore : ∀ h ∈ more, h.login ≠ id) : LoggedIn key (log ++ more) id user session := by
  obtain ⟨before, status, after, rfl, hstatus, hafter⟩ := h
  refine ⟨before, status, after ++ more, by simp, hstatus, fun h hh => ?_⟩
  rcases List.mem_append.1 hh with hh | hh
  · exact hafter h hh
  · exact hmore h hh

theorem ComesFrom.append {c : Connected} (h : ComesFrom key log user c) :
    ComesFrom key (log ++ more) user c := by
  obtain ⟨hne, id, before, after, rfl, hlogin⟩ := h
  exact ⟨hne, id, before, after ++ more, by simp, hlogin⟩

/-- What the record says about a login in a phase. -/
def Traced (key : Uuid) (log : List Heard) (id : CallId) (user : Credentials) : TaskPhase → Prop
  | .spawned => True
  | .asking l => ∀ session, l.phase = .listing session → LoggedIn key log id user session
  | .storing e => ComesFrom key log user e.connected

/-- Other logins do not matter. -/
theorem Traced.append {phase : TaskPhase} (h : Traced key log id user phase)
    (hmore : ∀ h ∈ more, h.login ≠ id) : Traced key (log ++ more) id user phase := by
  cases phase with
  | spawned => trivial
  | asking l => exact fun session hl => (h session hl).append hmore
  | storing e => exact ComesFrom.append h

/-- A login that goes on with an answer is traced. -/
theorem Traced.waiting {l l' : Login} {attempts : Nat} {a : Login.Answer}
    (h : Traced key log id user (.asking l)) (hl : l.receive attempts a = .waiting l') :
    Traced key (log ++ l.heard key id user a) id user (.asking l') := by
  intro session hs
  obtain ⟨hp, ha⟩ | ⟨status, hp, rfl, hstatus⟩ := Login.receive_listing hl hs
  · have hnone : l.heard key id user a = [] := by
      cases a with
      | companies r => exact absurd rfl (ha r)
      | _ => simp [Login.heard, Login.exchange?, hp]
    rw [hnone, List.append_nil]
    exact h session hp
  · exact ⟨log, status, [], congrArg (log ++ ·) (Login.heard_status hp), hstatus, by simp⟩

/-- A connection that a login ends with comes from its user. -/
theorem Traced.finished {l : Login} {c : Connected} {attempts : Nat} {a : Login.Answer}
    (h : Traced key log id user (.asking l)) (hc : l.receive attempts a = .finished (.ok c)) :
    ComesFrom key (log ++ l.heard key id user a) user c := by
  obtain ⟨hp, rfl, hne⟩ := Login.receive_eq_ok hc
  exact ⟨hne, id, log, [], congrArg (log ++ ·) (Login.heard_companies hp), h c.session hp⟩

end

end LedgerFront
