import LedgerFront.Proofs.Server.FailedRequest
import LedgerFront.Proofs.Server.Scope

/-!
# What logins depend on

Whether a user gets a connection depends on the accounts, the companies and the sessions, never on what
the tables hold. Between logins nothing changes these three, so servers that differ only in their data
treat users alike.

* `Memory.SameDoor`: the same accounts, companies and sessions.
* `Cache.connect_sameDoor`: connecting a user comes to the same with the same of these.
* `Server.handle_alike`: servers that are alike stay alike.
-/

namespace LedgerFront

namespace Memory

variable {m m' m'' : Memory}

theorem isAccount_of_accounts (h : m'.accounts = m.accounts) (user : Credentials) :
    m'.isAccount user = m.isAccount user := by
  unfold isAccount
  rw [h]

/-- The same accounts, companies and sessions; the data may differ, and so may the count of logins. -/
structure SameDoor (m m' : Memory) : Prop where
  accounts : m'.accounts = m.accounts
  companies : m'.companies = m.companies
  sessions : m'.sessions = m.sessions

namespace SameDoor

theorem refl (m : Memory) : SameDoor m m := ⟨rfl, rfl, rfl⟩

theorem symm (h : SameDoor m m') : SameDoor m' m :=
  ⟨h.accounts.symm, h.companies.symm, h.sessions.symm⟩

theorem trans (h : SameDoor m m') (h' : SameDoor m' m'') : SameDoor m m'' :=
  ⟨h'.accounts.trans h.accounts, h'.companies.trans h.companies, h'.sessions.trans h.sessions⟩

theorem isAccount (h : SameDoor m m') (user : Credentials) : m'.isAccount user = m.isAccount user :=
  isAccount_of_accounts h.accounts user

theorem isLoggedIn (h : SameDoor m m') (session : Nat) :
    m'.isLoggedIn session = m.isLoggedIn session := by
  unfold Memory.isLoggedIn
  rw [h.sessions]

end SameDoor

/-- Nothing that is written touches them. -/
theorem write_keepsDoor (w : Write) (m : Memory) : SameDoor m (m.write w) := by
  unfold write
  cases w.table <;> exact ⟨rfl, rfl, rfl⟩

/-- **A call** other than a login leaves accounts, companies and sessions alone. -/
theorem answer_keepsDoor {session : Nat} {c : Call} {reply : Reply c}
    (hc : ∀ user key, c ≠ .login user key) (h : m.answer session c = .ok (reply, m')) :
    SameDoor m m' := by
  obtain ⟨user, key, _, rfl, -⟩ | ⟨-, rfl⟩ | ⟨-, w, _, -, rfl, -⟩ := answer_cases h
  · exact absurd rfl (hc user key)
  · exact .refl _
  · exact write_keepsDoor w m

end Memory

/-! ## Dialogues of tasks -/

open Memory

namespace Dialogue

variable {α : Type}

/-- A dialogue without logins leaves accounts, companies and sessions alone. -/
theorem run_keepsDoor {d : Dialogue α} {session : Nat} {m m' : Memory} {a : α}
    (hd : ∀ log user key, ¬ d.Asks log (.login user key))
    (h : d.run Memory.remote session m = .ok (a, m')) : SameDoor m m' := by
  induction d generalizing m with
  | done b =>
    obtain ⟨-, rfl⟩ := Prod.mk.inj (Except.ok.inj h)
    exact .refl m
  | abort why => simp [run] at h
  | ask c next ih =>
    obtain ⟨⟨reply, m₁⟩, hreply, h⟩ := bind_eq_ok.1 h
    have hc : ∀ user key, c ≠ .login user key := by
      rintro user key rfl
      exact hd [] user key (.now _ next)
    have hnext := ih reply (fun log user key hasks => hd _ user key (.later hasks)) h
    exact (answer_keepsDoor hc hreply).trans hnext

end Dialogue

namespace Service

variable {svc : Service} {companies : List Company}

/-- All calls of an action are about a company, and a login is not. -/
theorem not_asks_login {company : Int} {action : Action} {log : List Exchange} {user : Credentials}
    {key : Uuid} : ¬ (svc.act companies company action).Asks log (.login user key) :=
  fun h => Option.some_ne_none company (asksOnly_act svc companies company action log _ h).symm

/-- A task leaves accounts, companies and sessions alone. -/
theorem serve_keepsDoor {t : Task} {session : Nat} {m m' : Memory} {response : Response}
    (h : (svc.serve companies t).run Memory.remote session m = .ok (response, m')) : SameDoor m m' :=
  Dialogue.run_keepsDoor (fun _ _ _ hasks => not_asks_login (serve_asks.1 hasks)) h

end Service

/-! ## Connecting the user -/

/-- **What a login gets to hear** depends on accounts, companies and sessions only. -/
theorem Login.ask_sameDoor {m m' : Memory} (h : SameDoor m m') (key : Uuid) (user : Credentials)
    (l : Login) : ∃ a m₁ m₁', l.ask Memory.remote key user m = .ok (a, m₁) ∧
      l.ask Memory.remote key user m' = .ok (a, m₁') ∧ SameDoor m₁ m₁' := by
  unfold ask
  cases l.phase with
  | opening =>
    refine ⟨.opened (.ok m.sessions.length), m.openSession, m'.openSession, rfl, ?_,
      ⟨h.accounts, h.companies, ?_⟩⟩
    · show Except.ok (Login.Answer.opened (.ok m'.sessions.length), m'.openSession) = _
      rw [h.sessions]
    · simp [openSession, h.sessions]
  | loggingIn session =>
    have haccount := h.isAccount user
    simp only [Memory.remote, answer]
    rw [haccount]
    split
    · exact ⟨_, _, _, rfl, rfl, ⟨h.accounts, h.companies, by simp [h.sessions]⟩⟩
    · exact ⟨_, _, _, rfl, rfl, ⟨h.accounts, h.companies, h.sessions⟩⟩
  | listing session =>
    have hlogged := h.isLoggedIn session
    simp only [Memory.remote, answer]
    rw [hlogged]
    split
    · refine ⟨_, _, _, rfl, ?_, h⟩
      simp only [Memory.serve, h.companies]
      rfl
    · exact ⟨_, _, _, rfl, rfl, h⟩

namespace Cache

theorem runLogin_sameDoor {m m' : Memory} (h : SameDoor m m') (id : CallId) (n : Nat) (s : Cache) :
    ∃ s₁ m₁ m₁', runLogin Memory.remote id n s m = .ok (s₁, m₁) ∧
      runLogin Memory.remote id n s m' = .ok (s₁, m₁') ∧ SameDoor m₁ m₁' := by
  induction n generalizing s m m' with
  | zero => exact ⟨s, m, m', rfl, rfl, h⟩
  | succ n ih =>
    unfold runLogin
    split
    · exact ⟨s, m, m', rfl, rfl, h⟩
    rename_i t _
    split
    · rename_i l _
      obtain ⟨a, m₁, m₁', hask, hask', hdoor⟩ := l.ask_sameDoor h s.settings.affiliateKey t.user
      rw [hask, hask']
      exact ih hdoor (s.answerTask id a)
    all_goals exact ih h (s.runTask id)

/-- **Connecting a user** never stops the program, and comes to the same with the same accounts,
companies and sessions. -/
theorem connect_sameDoor {m m' : Memory} (h : SameDoor m m') (user : Credentials) (cancelled : Bool)
    (s : Cache) : ∃ outcome s₁ m₁ m₁',
      s.connect Memory.remote user cancelled m = .ok (outcome, s₁, m₁) ∧
      s.connect Memory.remote user cancelled m' = .ok (outcome, s₁, m₁') ∧ SameDoor m₁ m₁' := by
  unfold connect
  dsimp only
  split
  · exact ⟨_, _, m, m', rfl, rfl, h⟩
  split
  · exact ⟨_, _, m, m', rfl, rfl, h⟩
  rename_i s₂ _
  obtain ⟨s₁, m₁, m₁', hlogin, hlogin', hdoor⟩ := runLogin_sameDoor h s.nextCall s₂.loginSteps s₂
  rw [hlogin, hlogin']
  simp only [bind, Except.bind]
  split <;> exact ⟨_, _, m₁, m₁', rfl, rfl, hdoor⟩

end Cache

/-! ## Requests -/

namespace Server

variable {service : Service} {s s' t t' : Server Memory}

/-- The same connections, and the same accounts, companies and sessions; the data may differ. -/
structure Alike (s s' : Server Memory) : Prop where
  cache : s'.cache = s.cache
  stopping : s'.stopping = s.stopping
  door : SameDoor s.remote s'.remote

theorem Alike.refl (s : Server Memory) : Alike s s := ⟨rfl, rfl, .refl s.remote⟩

theorem perform_alike (h : Alike s s') {task : Task} {response response' : Response}
    (ht : perform service Memory.remote task s = .ok (response, t))
    (ht' : perform service Memory.remote task s' = .ok (response', t')) : Alike t t' := by
  obtain ⟨outcome, cache, m, m', hconnect, hconnect', hdoor⟩ :=
    Cache.connect_sameDoor h.door task.user s.stopping s.cache
  rw [← h.cache, ← h.stopping] at hconnect'
  cases outcome with
  | error e =>
    rw [perform_of_refused hconnect] at ht
    rw [perform_of_refused hconnect'] at ht'
    obtain ⟨-, rfl⟩ := Prod.mk.inj (Except.ok.inj ht)
    obtain ⟨-, rfl⟩ := Prod.mk.inj (Except.ok.inj ht')
    exact ⟨rfl, h.stopping, hdoor⟩
  | ok e =>
    rw [perform_of_connected hconnect] at ht
    rw [perform_of_connected hconnect'] at ht'
    -- what the dialogues do to the data does not matter
    obtain ⟨p, hserve, ht⟩ := map_eq_ok.1 ht
    obtain ⟨p', hserve', ht'⟩ := map_eq_ok.1 ht'
    obtain ⟨-, rfl⟩ := Prod.mk.inj ht
    obtain ⟨-, rfl⟩ := Prod.mk.inj ht'
    have hkeep := Service.serve_keepsDoor hserve
    exact ⟨rfl, h.stopping, (hkeep.symm.trans hdoor).trans (Service.serve_keepsDoor hserve')⟩

/-- **Servers that are alike stay alike** over a request, whatever they answer. -/
theorem handle_alike (h : Alike s s') {r : Request} {response response' : Response}
    (ht : handle service Memory.remote r s = .ok (response, t))
    (ht' : handle service Memory.remote r s' = .ok (response', t')) : Alike t t' := by
  cases htask : r.task? service.bodyLimit with
  | none =>
    obtain ⟨answer, hanswer, -⟩ := handle_of_noTask Memory.remote htask
    rw [hanswer] at ht ht'
    obtain ⟨-, rfl⟩ := Prod.mk.inj (Except.ok.inj ht)
    obtain ⟨-, rfl⟩ := Prod.mk.inj (Except.ok.inj ht')
    exact h
  | some task =>
    rw [handle_of_task htask] at ht ht'
    obtain ⟨p, hp, ht⟩ := map_eq_ok.1 ht
    obtain ⟨p', hp', ht'⟩ := map_eq_ok.1 ht'
    obtain ⟨-, rfl⟩ := Prod.mk.inj ht
    obtain ⟨-, rfl⟩ := Prod.mk.inj ht'
    exact perform_alike h hp hp'

end Server

end LedgerFront
