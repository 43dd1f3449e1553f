import LedgerFront.Proofs.Connection.Alone
import LedgerFront.Proofs.Server.Accounts

/-!
# Connections that keep working

A server answers one request after the other, so between requests no login is under way. The
connections that it keeps are of sessions that are logged in, and stay so. A user who got a connection
gets one again, with the same companies.

* `Memory.Onward`: accounts and companies stay, and so do sessions that are logged in.
* `Memory.Serves`: a connection that works.
* `Server.Settled`: the server between two requests.
* `Server.Settled.connect`, `Server.Settled.connect_again`: connecting a user, and once more.
* `Server.Settled.live`: the server stays settled in every history.
-/

namespace LedgerFront

namespace Memory

variable {m m' m'' : Memory}

/-- The same accounts and companies, and at least the same sessions that are logged in. -/
structure Onward (m m' : Memory) : Prop where
  accounts : m'.accounts = m.accounts
  companies : m'.companies = m.companies
  isLoggedIn : ∀ session, m.isLoggedIn session = true → m'.isLoggedIn session = true

theorem Onward.refl (m : Memory) : Onward m m := ⟨rfl, rfl, fun _ h => h⟩

theorem Onward.trans (h : Onward m m') (h' : Onward m' m'') : Onward m m'' :=
  ⟨h'.accounts.trans h.accounts, h'.companies.trans h.companies,
    fun session hm => h'.isLoggedIn session (h.isLoggedIn session hm)⟩

theorem SameDoor.onward (h : SameDoor m m') : Onward m m' :=
  ⟨h.accounts, h.companies, fun session hm => by rwa [h.isLoggedIn]⟩

theorem openSession_onward (m : Memory) : Onward m m.openSession := by
  refine ⟨rfl, rfl, fun session h => ?_⟩
  unfold isLoggedIn openSession at *
  have hlt : session < m.sessions.length := by
    by_contra hge
    simp [List.getElem?_eq_none (Nat.le_of_not_lt hge)] at h
  rw [List.getElem?_append_left hlt]
  exact h

theorem answer_onward {session : Nat} {c : Call} {reply : Reply c}
    (h : m.answer session c = .ok (reply, m')) : Onward m m' := by
  cases c with
  | login user key =>
    simp only [answer] at h
    split at h
    · obtain ⟨-, rfl⟩ := Prod.mk.inj (Except.ok.inj h)
      refine ⟨rfl, rfl, fun other hother => ?_⟩
      unfold isLoggedIn at *
      rw [List.getElem?_set]
      split
      · split
        · rfl
        · rename_i heq hge
          simp [← heq, List.getElem?_eq_none (Nat.le_of_not_lt hge)] at hother
      · exact hother
    · obtain ⟨-, rfl⟩ := Prod.mk.inj (Except.ok.inj h)
      exact ⟨rfl, rfl, fun _ h => h⟩
  | _ => exact (answer_keepsDoor (by simp) h).onward

/-- The connection of a user works: its session is logged in, and shows all companies. -/
structure Serves (m : Memory) (user : Credentials) (c : Connected) : Prop where
  isAccount : m.isAccount user = true
  isLoggedIn : m.isLoggedIn c.session = true
  companies : c.companies = m.companies

theorem Serves.onward {user : Credentials} {c : Connected} (h : Serves m user c) (ho : Onward m m') :
    Serves m' user c :=
  ⟨by rw [isAccount_of_accounts ho.accounts, h.isAccount], ho.isLoggedIn _ h.isLoggedIn,
    h.companies.trans ho.companies.symm⟩

theorem remote_answers : Memory.remote.Answers := by
  intro session m
  refine ⟨fun user key => ?_, ?_⟩
  · show ∃ p, m.answer session (.login user key) = .ok p
    unfold answer
    dsimp only
    split <;> exact ⟨_, rfl⟩
  · show ∃ p, m.answer session .companies = .ok p
    rw [answer_of_ne_login session]
    · split <;> exact ⟨_, rfl⟩
    · simp

end Memory

open Memory

namespace Login

variable {m m' : Memory} {key : Uuid} {user : Credentials} {attempts : Nat}

/-- What is known of the user of a login that has come this far. -/
def Admits (m : Memory) (user : Credentials) : Progress → Prop
  | .waiting l => ∀ session, l.phase = .listing session → m.isAccount user = true
  | .finished (.ok c) => Serves m user c ∧ m.companies ≠ []
  | .finished (.error _) => True

theorem ask_onward {l : Login} {a : Answer} (h : l.ask Memory.remote key user m = .ok (a, m')) :
    Onward m m' := by
  obtain ⟨-, _, hopen, -⟩ | ⟨_, _, -, hcall⟩ := exchange?_of_ask h
  · obtain ⟨-, rfl⟩ := Prod.mk.inj hopen
    exact openSession_onward m
  · exact answer_onward hcall

theorem ask_admits {l : Login} {a : Answer} (hl : Admits m user (.waiting l))
    (h : l.ask Memory.remote key user m = .ok (a, m')) : Admits m' user (l.receive attempts a) := by
  have honward := ask_onward h
  cases hreceive : l.receive attempts a with
  | waiting l' =>
    intro session hphase
    rw [isAccount_of_accounts honward.accounts]
    obtain ⟨hlisting, -⟩ | ⟨status, hlogin, rfl, hsuccess⟩ := receive_listing hreceive hphase
    · exact hl session hlisting
    · unfold ask at h
      rw [hlogin] at h
      obtain ⟨⟨reply, m₁⟩, hcall, h⟩ := bind_eq_ok.1 h
      obtain ⟨hreply, -⟩ := Prod.mk.inj (Except.ok.inj h)
      obtain rfl := Answer.status.inj hreply
      exact Memory.isAccount_of_login hcall hsuccess
  | finished result =>
    cases result with
    | error e => trivial
    | ok c =>
      obtain ⟨hlisting, rfl, hne⟩ := receive_eq_ok hreceive
      have haccount := hl _ hlisting
      unfold ask at h
      rw [hlisting] at h
      obtain ⟨⟨reply, m₁⟩, hcall, h⟩ := bind_eq_ok.1 h
      obtain ⟨hreply, rfl⟩ := Prod.mk.inj (Except.ok.inj h)
      obtain rfl := Answer.companies.inj hreply
      have hlist : (if m.isLoggedIn c.session then m.serve .companies else .ok (.error .notLoggedIn, m)) =
          .ok (.ok (some c.companies), m₁) := hcall
      split at hlist
      · rename_i hlogged
        obtain ⟨hcompanies, rfl⟩ := Prod.mk.inj (Except.ok.inj hlist)
        have hsame : c.companies = m.companies := (Option.some.inj (Except.ok.inj hcompanies)).symm
        exact ⟨⟨haccount, hlogged, hsame⟩, hsame ▸ hne⟩
      · simp at hlist

theorem carry_admits {n : Nat} {p p' : Progress} (hp : Admits m user p)
    (h : carry Memory.remote key user attempts n p m = .ok (p', m')) :
    Onward m m' ∧ Admits m' user p' := by
  induction n generalizing p m with
  | zero =>
    obtain ⟨rfl, rfl⟩ := Prod.mk.inj (Except.ok.inj h)
    exact ⟨.refl m, hp⟩
  | succ n ih =>
    cases p with
    | finished result =>
      obtain ⟨rfl, rfl⟩ := Prod.mk.inj (Except.ok.inj h)
      exact ⟨.refl m, hp⟩
    | waiting l =>
      obtain ⟨⟨a, m₁⟩, hask, h⟩ := bind_eq_ok.1 h
      obtain ⟨honward, hend⟩ := ih (ask_admits hp hask) h
      exact ⟨(ask_onward hask).trans honward, hend⟩

/-- A login with an account succeeds at the first attempt if there are companies. -/
theorem exists_carry_ok (key : Uuid) (haccount : m.isAccount user = true) (hcompanies : m.companies ≠ [])
    (hattempts : 0 < attempts) :
    ∃ c m', carry Memory.remote key user attempts (3 * attempts) (start attempts 0) m =
      .ok (.finished (.ok c), m') := by
  obtain ⟨company, companies, hlist⟩ := List.exists_cons_of_ne_nil hcompanies
  let session := m.sessions.length
  let opened : Memory := { m.openSession with
    logins := m.logins + 1, sessions := m.openSession.sessions.set session true }
  have hlogin : Memory.remote.call session (.login user key) m.openSession = .ok (.ok .success, opened) := by
    have haccount' : m.openSession.isAccount user = true := haccount
    exact if_pos haccount'
  have hlogged : opened.isLoggedIn session = true := by
    simp [opened, session, Memory.isLoggedIn, openSession]
  have hlisting : Memory.remote.call session .companies opened = .ok (.ok (some m.companies), opened) := by
    exact if_pos hlogged
  have hreplies : Memory.remote.Replies
      (([] ++ [Round.listed session (some m.companies)]).flatMap (Round.asked key user)) m opened :=
    ⟨rfl, opened, hlogin, opened, hlisting, rfl⟩
  have hresult : (Round.listed session (some m.companies)).result? = some (.ok ⟨session, m.companies⟩) := by
    rw [hlist]
    rfl
  exact ⟨_, opened, carry_of_recording (carry_rounds (by simp) hresult hattempts hreplies)⟩

end Login

namespace Server

variable {service : Service} {settings : ConnectionSettings} {s t : Server Memory} {user : Credentials}

/-- The server between two requests: no login is under way, and the connections work. -/
structure Settled (s : Server Memory) : Prop where
  quiet : s.cache.Quiet
  serves : ∀ user e, (user, e) ∈ s.cache.entries → Serves s.remote user e.connected

/-- The user gets a connection, and sees the company. -/
def LetsIn (s : Server Memory) (user : Credentials) (company : Int) : Prop :=
  ∃ e cache m, s.cache.connect Memory.remote user s.stopping s.remote = .ok (.ok e, cache, m) ∧
    (Company.find? e.connected.companies company).isSome

theorem letsIn_iff {company : Int} : LetsIn s user company ↔
    (match s.cache.connect Memory.remote user s.stopping s.remote with
      | .ok (.ok e, _, _) => (Company.find? e.connected.companies company).isSome
      | _ => false) = true := by
  unfold LetsIn
  rcases s.cache.connect Memory.remote user s.stopping s.remote with why | ⟨_ | e, cache, m⟩ <;> simp

instance (s : Server Memory) (user : Credentials) (company : Int) : Decidable (LetsIn s user company) :=
  decidable_of_iff' _ letsIn_iff

namespace Settled

theorem empty (settings : ConnectionSettings) (m : Memory) (stopping : Bool) :
    Settled ⟨.empty settings, m, stopping⟩ :=
  ⟨Cache.quiet_empty settings, fun _ _ h => absurd h List.not_mem_nil⟩

theorem of_fresh (h : Settled s) {e : Entry} (he : s.cache.fresh? user = some e) :
    Serves s.remote user e.connected :=
  h.serves user e (Pairs.mem_of_lookup (Option.filter_eq_some_iff.1 he).1)

/-- The memory goes on. -/
theorem onward (h : Settled s) {m : Memory} (ho : Onward s.remote m) :
    Settled ⟨s.cache, m, s.stopping⟩ :=
  ⟨h.quiet, fun user e he => (h.serves user e he).onward ho⟩

/-- **Connecting a user.** A connection that the user gets works. -/
theorem connect (h : Settled s) (user : Credentials) : ∃ outcome cache m,
    s.cache.connect Memory.remote user s.stopping s.remote = .ok (outcome, cache, m) ∧
      Onward s.remote m ∧ Settled ⟨cache, m, s.stopping⟩ ∧
      ∀ e, outcome = .ok e → Serves m user e.connected := by
  obtain ⟨e, he, hconnect⟩ | ⟨e, hconnect⟩ | ⟨-, -, result, m, hcarry, hconnect⟩ :=
    h.quiet.connect_cases remote_answers user s.stopping s.remote
  · refine ⟨_, _, _, hconnect, .refl _, ⟨h.quiet.hit, h.serves⟩, fun e' he' => ?_⟩
    obtain rfl := Except.ok.inj he'
    exact h.of_fresh he
  · exact ⟨_, _, _, hconnect, .refl _, ⟨h.quiet.miss, h.serves⟩, by simp⟩
  · have hstart : Login.Admits s.remote user (Login.start s.cache.settings.loginAttempts 0) := by
      unfold Login.start
      split
      · simp [Login.Admits]
      · trivial
    obtain ⟨honward, hadmits⟩ := Login.carry_admits hstart hcarry
    refine ⟨_, _, _, hconnect, honward, ⟨h.quiet.afterLogin user result, ?_⟩, ?_⟩
    · intro user' e he
      cases result with
      | error _ => exact (h.serves user' e he).onward honward
      | ok c =>
        rcases Pairs.mem_put he with hput | he
        · obtain ⟨rfl, rfl⟩ := Prod.mk.inj hput
          exact hadmits.1
        · exact (h.serves user' e he).onward honward
    · intro e he
      cases result with
      | error _ => simp [Except.map] at he
      | ok c =>
        obtain rfl := Except.ok.inj he
        exact hadmits.1

/-- The session of a user who gets in. -/
theorem connected {company : Int} (h : Settled s) (hin : LetsIn s user company) : ∃ e cache m,
    s.cache.connect Memory.remote user s.stopping s.remote = .ok (.ok e, cache, m) ∧
      (Company.find? e.connected.companies company).isSome ∧ SameData s.remote m ∧
      m.isLoggedIn e.connected.session = true := by
  obtain ⟨e, cache, m, hconnect, hcompany⟩ := hin
  obtain ⟨_, _, _, hconnect', -, -, hserves⟩ := h.connect user
  obtain ⟨rfl, hrest⟩ := Prod.mk.inj (Except.ok.inj (hconnect.symm.trans hconnect'))
  obtain ⟨-, rfl⟩ := Prod.mk.inj hrest
  exact ⟨e, cache, m, hconnect, hcompany, Cache.connect_sameData hconnect, (hserves e rfl).isLoggedIn⟩

/-- **Connecting the user again**, without delay: who got a connection gets one once more. -/
theorem connect_again (h : Settled s) {e : Entry} {cache : Cache} {m m' : Memory}
    (hc : s.cache.connect Memory.remote user s.stopping s.remote = .ok (.ok e, cache, m))
    (ho : Onward m m') : ∃ e' cache' m'',
      cache.connect Memory.remote user s.stopping m' = .ok (.ok e', cache', m'') := by
  obtain ⟨e', he', hconnect⟩ | ⟨_, hconnect⟩ | ⟨hroom, hgoes, result, m₁, hcarry, hconnect⟩ :=
    h.quiet.connect_cases remote_answers user s.stopping s.remote
  · obtain ⟨-, hrest⟩ := Prod.mk.inj (Except.ok.inj (hc.symm.trans hconnect))
    obtain ⟨rfl, -⟩ := Prod.mk.inj hrest
    exact ⟨e', _, m', Cache.connect_fresh h.quiet.hit he' s.stopping⟩
  · obtain ⟨hresult, -⟩ := Prod.mk.inj (Except.ok.inj (hc.symm.trans hconnect))
    simp at hresult
  · obtain ⟨hresult, hrest⟩ := Prod.mk.inj (Except.ok.inj (hc.symm.trans hconnect))
    obtain ⟨rfl, rfl⟩ := Prod.mk.inj hrest
    cases result with
    | error _ => simp [Except.map] at hresult
    | ok c =>
      have hattempts : 0 < s.cache.settings.loginAttempts := by
        refine Nat.pos_of_ne_zero fun hzero => ?_
        rw [hzero] at hcarry
        obtain ⟨hfinished, -⟩ := Prod.mk.inj (Except.ok.inj hcarry)
        simp [Login.start] at hfinished
      have hquiet := h.quiet.afterLogin user (.ok c)
      have hfresh := Cache.fresh?_afterLogin user c s.cache
      split at hfresh
      · exact ⟨_, _, m', Cache.connect_fresh hquiet hfresh s.stopping⟩
      · -- no connection is ever fresh, so there is one more login
        have hadmits := (Login.carry_admits (p := Login.start s.cache.settings.loginAttempts 0)
          (by simp [Login.start, hattempts, Login.Admits]) hcarry).2
        have haccount := (hadmits.1.onward ho).isAccount
        have hcompanies : m'.companies ≠ [] := ho.companies ▸ hadmits.2
        obtain ⟨c', m'', hcarry'⟩ :=
          Login.exists_carry_ok s.cache.settings.affiliateKey haccount hcompanies hattempts
        rw [hgoes]
        exact ⟨_, _, m'', Cache.connect_login hquiet hfresh hroom hcarry'⟩

theorem perform {task : Task} {response : Response} (h : Settled s)
    (hp : perform service Memory.remote task s = .ok (response, t)) : Settled t := by
  obtain ⟨outcome, cache, m, hconnect, -, hsettled, -⟩ := h.connect task.user
  cases outcome with
  | error e =>
    rw [perform_of_refused hconnect] at hp
    obtain ⟨-, rfl⟩ := Prod.mk.inj (Except.ok.inj hp)
    exact hsettled
  | ok e =>
    rw [perform_of_connected hconnect] at hp
    obtain ⟨p, hserve, hp⟩ := map_eq_ok.1 hp
    obtain ⟨-, rfl⟩ := Prod.mk.inj hp
    exact hsettled.onward (Service.serve_keepsDoor hserve).onward

theorem handle {r : Request} {response : Response} (h : Settled s)
    (hr : handle service Memory.remote r s = .ok (response, t)) : Settled t := by
  cases htask : r.task? service.bodyLimit with
  | none =>
    obtain ⟨answer, hanswer, -⟩ := handle_of_noTask Memory.remote htask
    rw [hanswer] at hr
    obtain ⟨-, rfl⟩ := Prod.mk.inj (Except.ok.inj hr)
    exact h
  | some task =>
    rw [handle_of_task htask] at hr
    obtain ⟨p, hp, hr⟩ := map_eq_ok.1 hr
    obtain ⟨-, rfl⟩ := Prod.mk.inj hr
    exact h.perform hp

/-- **One happening**: an old connection may go, and all others stay as they are. -/
theorem happen {x : Happening} (h : Settled s) (hx : happen service Memory.remote s x = .ok t) :
    Settled t := by
  cases x with
  | request now r =>
    obtain ⟨p, hp, rfl⟩ := map_eq_ok.1 hx
    exact h.handle hp
  | pass ms =>
    obtain rfl := Except.ok.inj hx
    exact ⟨⟨h.quiet.gateOf, h.quiet.calls, h.quiet.tasks⟩, h.serves⟩
  | expire user =>
    obtain rfl := Except.ok.inj hx
    simp only [Cache.step, Cache.expire]
    split
    · exact h
    · exact ⟨⟨h.quiet.gateOf, h.quiet.calls, h.quiet.tasks⟩,
        fun user' e he => h.serves user' e (List.mem_filter.1 he).1⟩
  | stop =>
    obtain rfl := Except.ok.inj hx
    exact ⟨h.quiet, h.serves⟩

/-- After a request, its user gets in as before. -/
theorem letsIn_again (service : Service) {r : Request} {task : Task} {company : Int}
    {response : Response} (h : Settled s)
    (ht : r.task? service.bodyLimit = some task) (hin : LetsIn s task.user company)
    (hr : Server.handle service Memory.remote r s = .ok (response, t)) : LetsIn t task.user company := by
  obtain ⟨e, cache, m, hconnect, hcompany⟩ := hin
  have hsettled := h.handle hr
  rw [handle_of_task ht, perform_of_connected hconnect] at hr
  obtain ⟨_, hserved, hr⟩ := map_eq_ok.1 hr
  obtain ⟨⟨answer, m'⟩, hserve, rfl⟩ := map_eq_ok.1 hserved
  obtain ⟨-, rfl⟩ := Prod.mk.inj hr
  have hdoor := Service.serve_keepsDoor hserve
  obtain ⟨e', cache', m'', hagain⟩ := h.connect_again hconnect hdoor.onward
  -- both connections show all companies of the memory
  have hshown : e.connected.companies = m.companies := by
    obtain ⟨_, _, _, hconnect', -, -, hserves⟩ := h.connect task.user
    obtain ⟨rfl, hrest⟩ := Prod.mk.inj (Except.ok.inj (hconnect.symm.trans hconnect'))
    obtain ⟨-, rfl⟩ := Prod.mk.inj hrest
    exact (hserves e rfl).companies
  have hshown' : e'.connected.companies = m.companies := by
    obtain ⟨_, _, _, hagain', honward, -, hserves⟩ := hsettled.connect task.user
    obtain ⟨rfl, hrest⟩ := Prod.mk.inj (Except.ok.inj (hagain.symm.trans hagain'))
    obtain ⟨-, rfl⟩ := Prod.mk.inj hrest
    exact (hserves e' rfl).companies.trans (honward.companies.trans hdoor.companies)
  exact ⟨e', cache', m'', hagain, by rwa [hshown', ← hshown]⟩

/-- **Every history** of a settled server. -/
theorem live {history : List Happening} (h : Settled s)
    (hl : live service Memory.remote history s = .ok t) : Settled t := by
  induction history generalizing s with
  | nil =>
    obtain rfl := Except.ok.inj hl
    exact h
  | cons x xs ih =>
    obtain ⟨s₁, hx, hl⟩ := bind_eq_ok.1 hl
    exact ih (h.happen hx) hl

end Settled

end Server

end LedgerFront
