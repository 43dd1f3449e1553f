import LedgerFront.Proofs.Refusal
import LedgerFront.Proofs.Remote.Life
import LedgerFront.Proofs.Server.Door

/-!
# Logins in memory

A session of the in-memory side is logged in once a login in it had an account and its password, and stays
so.

* `Memory.Admits`: such a login.
* `Memory.belongings`: what sessions hold.
* `Memory.refused_iff`: a call is refused while nothing is held.
-/

namespace LedgerFront

namespace Memory

variable {m m' : Memory} {session : Nat} {c : Call} {reply : Reply c}

/-- The call was a login with the name and the password of an account. -/
def Admits (t : Turn Memory) : Prop :=
  ∃ user key, t.call = .login user key ∧ t.before.accounts.lookup user.username = some user.password

/-- What a session holds, if it is open: that it is logged in, or nothing. -/
def held (session : Nat) (m : Memory) : Option (Option Unit) :=
  m.sessions[session]?.map fun loggedIn => if loggedIn then some () else none

theorem isAccount_iff {user : Credentials} :
    m.isAccount user = true ↔ m.accounts.lookup user.username = some user.password := by
  simp [isAccount]

/-- A login changes its own session, if the account is right. -/
theorem login_cases {user : Credentials} {key : Uuid} {reply : Reply (.login user key)}
    (h : m.answer session (.login user key) = .ok (reply, m')) :
    (m.isAccount user = true ∧ m'.sessions = m.sessions.set session true) ∨
      (m.isAccount user = false ∧ m'.sessions = m.sessions) := by
  unfold answer at h
  dsimp only at h
  split at h
  · rename_i haccount
    obtain ⟨-, rfl⟩ := Prod.mk.inj (Except.ok.inj h)
    exact .inl ⟨haccount, rfl⟩
  · rename_i haccount
    obtain ⟨-, rfl⟩ := Prod.mk.inj (Except.ok.inj h)
    exact .inr ⟨by simpa using haccount, rfl⟩

/-- A call in a session leaves the other sessions as they are. -/
theorem sessions_of_ne {other : Nat} (hne : other ≠ session) (h : m.answer other c = .ok (reply, m')) :
    m'.sessions[session]? = m.sessions[session]? := by
  cases hc : c.isLogin with
  | true =>
    obtain ⟨user, key, rfl⟩ := Call.isLogin_iff.1 hc
    rcases login_cases h with ⟨-, hset⟩ | ⟨-, hsame⟩
    · rw [hset, List.getElem?_set_ne hne]
    · rw [hsame]
  | false => rw [(answer_keepsDoor (Call.ne_login hc) h).sessions]

/-- **What sessions hold in memory**: that they are logged in, from a login that was right. -/
theorem belongings : Belongings remote held fun t (_ : Unit) => Admits t where
  opened := by
    intro session m m' h
    obtain ⟨hnumber, rfl⟩ := Prod.mk.inj h
    obtain rfl := Except.ok.inj hnumber
    simp [held, openSession]
  openOther := by
    intro session m m' r x h hx
    obtain ⟨-, rfl⟩ := Prod.mk.inj h
    obtain ⟨loggedIn, hlogged, rfl⟩ := Option.map_eq_some_iff.1 hx
    obtain ⟨hlt, -⟩ := List.getElem?_eq_some_iff.1 hlogged
    rw [held, openSession, List.getElem?_append_left hlt, hlogged]
    rfl
  callOther := by
    intro session other m m' c reply hne h
    unfold held
    rw [sessions_of_ne hne h]
  given := by
    rintro session m m' _ reply ⟨⟩ x hx h ⟨user, key, rfl, haccount⟩
    obtain ⟨loggedIn, hlogged, rfl⟩ := Option.map_eq_some_iff.1 hx
    obtain ⟨hlt, -⟩ := List.getElem?_eq_some_iff.1 hlogged
    rcases login_cases h with ⟨-, hset⟩ | ⟨hwrong, -⟩
    · rw [held, hset, List.getElem?_set_self hlt]
      rfl
    · simp [isAccount_iff.2 haccount] at hwrong
  kept := by
    intro session m m' c reply h hnot
    unfold held
    cases hc : c.isLogin with
    | true =>
      obtain ⟨user, key, rfl⟩ := Call.isLogin_iff.1 hc
      rcases login_cases h with ⟨haccount, -⟩ | ⟨-, hsame⟩
      · exact absurd ⟨user, key, rfl, isAccount_iff.1 haccount⟩ (hnot ())
      · rw [hsame]
    | false => rw [(answer_keepsDoor (Call.ne_login hc) h).sessions]

/-! ## Refusals -/

theorem test_error {p : Predicate} {e : RemoteError} (h : test p = .error e) :
    ∃ operation, e = .unsupported operation := by
  unfold test at h
  split at h
  · simp at h
  · split at h
    · simp at h
    · exact ⟨_, (Except.error.inj h).symm⟩

/-- A session that is logged in is served, whatever comes of it. -/
theorem serve_ne_notLoggedIn : m.serve c ≠ .ok (.error .notLoggedIn, m') := by
  intro h
  cases c with
  | query company entity predicates =>
    obtain ⟨reply, hquery, hpair⟩ := map_eq_ok.1 h
    obtain ⟨rfl, -⟩ := Prod.mk.inj hpair
    unfold query at hquery
    split at hquery
    · rename_i e he
      obtain ⟨_, p, _, -, -, hp⟩ := mapM_eq_error.1 he
      obtain ⟨operation, rfl⟩ := test_error hp
      have hsame := Except.error.inj (Except.ok.inj hquery)
      simp at hsame
    · obtain ⟨rows, -, hrows⟩ := map_eq_ok.1 hquery
      simp at hrows
  | _ => simp [serve] at h

/-- **A call is refused** exactly while its session holds nothing. -/
theorem refused_iff (hc : c.isLogin = false) {x : Option Unit} (hx : held session m = some x) :
    (∃ m', m.answer session c = .ok (.error .notLoggedIn, m')) ↔ x = none := by
  obtain ⟨loggedIn, hlogged, rfl⟩ := Option.map_eq_some_iff.1 hx
  have hsession : m.isLoggedIn session = loggedIn := by
    rw [isLoggedIn, hlogged]
    rfl
  have hlogin : ∀ user key, c ≠ .login user key := by
    rintro user key rfl
    simp [Call.isLogin] at hc
  rw [answer_of_ne_login session hlogin, hsession]
  cases loggedIn with
  | false => exact iff_of_true ⟨m, rfl⟩ rfl
  | true =>
    refine iff_of_false ?_ (by simp)
    rintro ⟨m', h⟩
    exact serve_ne_notLoggedIn h

end Memory

end LedgerFront
