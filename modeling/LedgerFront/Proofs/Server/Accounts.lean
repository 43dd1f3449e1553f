import LedgerFront.Proofs.Connection.Sound
import LedgerFront.Proofs.Server.Demo
import LedgerFront.Proofs.Server.Door

/-!
# Only accounts get in

Credentials are checked once, by the remote side at login; from then on they are the key of a
connection that requests share. So that nobody else ever gets in is a matter of the whole history of
a server: every connection comes from a login with the credentials that it is kept for, and a login
succeeds only with those of an account.

* `Truthful`: a record in which only accounts have logged in.
* `Cache.Accounted.connect`: a user who gets a connection has an account.
* `Server.live`: the histories of a server.
* `Server.only_accounts`: who has no account changes nothing, and learns nothing.
-/

namespace LedgerFront

open Memory

variable {m mem mem' : Memory}

/-- Everybody who has logged in has an account. -/
def Truthful (m : Memory) (log : List Heard) : Prop :=
  ∀ id session user key status, (⟨id, session, ⟨.login user key, .ok status⟩⟩ : Heard) ∈ log →
    status.isSuccess = true → m.isAccount user = true

section

variable {log more : List Heard} {key : Uuid} {user : Credentials}

theorem truthful_nil (m : Memory) : Truthful m [] := fun _ _ _ _ _ h => absurd h List.not_mem_nil

theorem Truthful.append (h : Truthful m log) (hmore : Truthful m more) : Truthful m (log ++ more) := by
  intro id session user key status hmem hstatus
  rcases List.mem_append.1 hmem with hmem | hmem
  · exact h id session user key status hmem hstatus
  · exact hmore id session user key status hmem hstatus

/-- A connection comes from a user who has an account. -/
theorem Truthful.isAccount {c : Connected} (h : Truthful m log) (hc : ComesFrom key log user c) :
    m.isAccount user = true := by
  obtain ⟨-, id, listed, _, rfl, before, status, after, rfl, hstatus, -⟩ := hc
  exact h id c.session user key status (by simp) hstatus

/-! ## Logins -/

/-- A call changes no accounts. -/
theorem Memory.answer_accounts {session : Nat} {c : Call} {reply : Reply c}
    (h : mem.answer session c = .ok (reply, mem')) : mem'.accounts = mem.accounts := by
  cases c with
  | login user key =>
    simp only [answer] at h
    split at h
    all_goals
      obtain ⟨-, rfl⟩ := Prod.mk.inj (Except.ok.inj h)
      rfl
  | _ => exact (answer_keepsDoor (by simp) h).accounts

/-- A login succeeds only with an account. -/
theorem Memory.isAccount_of_login {session : Nat} {status : Status}
    (h : mem.answer session (.login user key) = .ok (.ok status, mem'))
    (hstatus : status.isSuccess = true) : mem.isAccount user = true := by
  simp only [answer] at h
  split at h
  · assumption
  · obtain ⟨hreply, -⟩ := Prod.mk.inj (Except.ok.inj h)
    obtain rfl := Except.ok.inj hreply
    simp [Status.isSuccess] at hstatus

theorem Login.ask_accounts {l : Login} {a : Login.Answer}
    (h : l.ask Memory.remote key user mem = .ok (a, mem')) : mem'.accounts = mem.accounts := by
  obtain ⟨-, reply, hopen, -⟩ | ⟨session, x, -, hcall⟩ := Login.exchange?_of_ask h
  · obtain ⟨-, rfl⟩ := Prod.mk.inj hopen
    rfl
  · exact answer_accounts hcall

/-- **What logins get to hear** is truthful. -/
theorem truthful_heard {l : Login} {a : Login.Answer} (id : CallId) (hm : mem.accounts = m.accounts)
    (h : l.ask Memory.remote key user mem = .ok (a, mem')) : Truthful m (l.heard key id user a) := by
  intro id' session' user' key' status hmem hstatus
  have hx : l.exchange? key user a = some (session', ⟨.login user' key', .ok status⟩) := by
    obtain ⟨p, hp, hheard⟩ : ∃ p, l.exchange? key user a = some p ∧
        (⟨id, p.1, p.2⟩ : Heard) = ⟨id', session', ⟨.login user' key', .ok status⟩⟩ := by
      simpa [Login.heard] using hmem
    obtain ⟨-, rfl, hexchange⟩ := Heard.mk.inj hheard
    rw [hp, ← hexchange]
  obtain ⟨hopening, -⟩ | ⟨session, x, hx', hcall⟩ := Login.exchange?_of_ask h
  · -- opening a session is not written down
    simp [Login.exchange?, hopening] at hx
  · obtain ⟨rfl, rfl⟩ := Prod.mk.inj (Option.some.inj (hx.symm.trans hx'))
    rw [← isAccount_of_accounts hm]
    exact isAccount_of_login hcall hstatus

end

/-! ## Connections -/

namespace Cache

variable {settings : ConnectionSettings} {users : List Credentials} {s s' : Cache}

/-- The connections come from their users, and only accounts have logged in. -/
def Accounted (m : Memory) (settings : ConnectionSettings) (users : List Credentials) (s : Cache) : Prop :=
  ∃ log, Sound settings users log s ∧ Truthful m log

namespace Accounted

theorem step (h : Accounted m settings users s) (e : Event) (he : Truthful m (s.heard e)) :
    Accounted m settings (users ++ e.caller?.toList) (s.step e).1 := by
  obtain ⟨log, hs, hlog⟩ := h
  exact ⟨log ++ s.heard e, (hs.step e).1, hlog.append he⟩

/-- **A call goes on**; with a connection it returns only to an account. -/
theorem resume {id : CallId} {returned : Returned} (h : Accounted m settings users s)
    (hr : Cache.resume id s = (s', returned)) :
    Accounted m settings users s' ∧ ∀ i e, returned = some (i, .ok e) →
      ∃ user, users[id]? = some user ∧ m.isAccount user = true := by
  obtain ⟨log, hs, hlog⟩ := h
  obtain ⟨hresume, hdue⟩ := hs.resume id
  rw [hr] at hresume hdue
  refine ⟨⟨log, hresume, hlog⟩, fun i e hret => ?_⟩
  have hi : i = id := by
    cases hc : s.calls.lookup id with
    | none =>
      obtain ⟨-, rfl⟩ : s = s' ∧ none = returned := by simpa [Cache.resume, hc] using hr
      simp at hret
    | some c => exact ((resumed hc).returned i e (by rw [hr]; exact hret)).1
  obtain ⟨user, huser, hcomes⟩ := hdue i e hret
  exact ⟨user, hi ▸ huser, hlog.isAccount hcomes⟩

/-- What a call of this user returns. -/
theorem returned {user : Credentials} {id i : CallId} {outcome : Outcome}
    (h : Accounted m settings users s) (huser : users[id]? = some user)
    (hr : Cache.resume id s = (s', some (i, outcome))) :
    Accounted m settings users s' ∧ ∀ e, outcome = .ok e → m.isAccount user = true := by
  obtain ⟨hacc, haccount⟩ := h.resume hr
  refine ⟨hacc, fun e he => ?_⟩
  obtain ⟨user', huser', hm⟩ := haccount i e (by rw [he])
  obtain rfl : user = user' := Option.some.inj (huser.symm.trans huser')
  exact hm

theorem runLogin {id : CallId} {n : Nat} (h : Accounted m settings users s)
    (hm : mem.accounts = m.accounts)
    (hr : Cache.runLogin Memory.remote id n s mem = .ok (s', mem')) :
    Accounted m settings users s' ∧ mem'.accounts = m.accounts := by
  induction n generalizing s mem with
  | zero =>
    obtain ⟨rfl, rfl⟩ := Prod.mk.inj (Except.ok.inj hr)
    exact ⟨h, hm⟩
  | succ n ih =>
    have hrun : Accounted m settings users (s.runTask id) := by
      simpa [Event.caller?, Cache.step] using h.step (.run id) (truthful_nil m)
    unfold Cache.runLogin at hr
    split at hr
    · obtain ⟨rfl, rfl⟩ := Prod.mk.inj (Except.ok.inj hr)
      exact ⟨h, hm⟩
    rename_i t ht
    split at hr
    · -- what the login gets to hear goes into the record
      rename_i l hl
      obtain ⟨⟨a, mem₁⟩, hask, hr⟩ := bind_eq_ok.1 hr
      have hheard : s.heard (.answer id a) = l.heard s.settings.affiliateKey id t.user a := by
        obtain ⟨user, g, phase⟩ := t
        obtain rfl : phase = .asking l := hl
        simp only [heard, ht]
      have hanswer := h.step (.answer id a) (hheard ▸ truthful_heard id hm hask)
      exact ih (by simpa [Event.caller?, Cache.step] using hanswer) ((Login.ask_accounts hask).trans hm) hr
    all_goals exact ih hrun hm hr

/-- **Connecting a user.** Only who has an account gets a connection, from whatever connections there
are. -/
theorem connect {user : Credentials} {cancelled : Bool} {outcome : Outcome}
    (h : Accounted m settings users s) (hm : mem.accounts = m.accounts)
    (hc : s.connect Memory.remote user cancelled mem = .ok (outcome, s', mem')) :
    Accounted m settings (users ++ [user]) s' ∧ mem'.accounts = m.accounts ∧
      ∀ e, outcome = .ok e → m.isAccount user = true := by
  have huser : (users ++ [user])[s.nextCall]? = some user := by
    obtain ⟨log, hs, -⟩ := h
    simp [hs.nextCall]
  have hcall := h.step (.call user) (truthful_nil m)
  have hcancel := hcall.step (.cancel s.nextCall) (truthful_nil m)
  -- wherever the call returns, it returns from a step of its own
  have hreturn : ∀ {c c' : Cache} {i : CallId} {o : Outcome} {mem₁ : Memory},
      Accounted m settings (users ++ [user]) c → c.resume s.nextCall = (c', some (i, o)) →
      mem₁.accounts = m.accounts →
      (.ok (o, c', mem₁) : Run (Outcome × Cache × Memory)) = .ok (outcome, s', mem') →
      Accounted m settings (users ++ [user]) s' ∧ mem'.accounts = m.accounts ∧
        ∀ e, outcome = .ok e → m.isAccount user = true := by
    intro c c' i o mem₁ hacc hres hmem heq
    obtain ⟨rfl, hrest⟩ := Prod.mk.inj (Except.ok.inj heq)
    obtain ⟨rfl, rfl⟩ := Prod.mk.inj hrest
    obtain ⟨hacc', haccount⟩ := hacc.returned huser hres
    exact ⟨hacc', hmem, haccount⟩
  unfold Cache.connect at hc
  dsimp only at hc
  generalize hs₁ : (if cancelled = true then _ else _ : Cache) = s₁ at hc
  have h₁ : Accounted m settings (users ++ [user]) s₁ := by
    rw [← hs₁]
    split
    · simpa [Event.caller?, Cache.step] using hcancel
    · simpa [Event.caller?] using hcall
  split at hc
  · exact hreturn h₁ ‹_› hm hc
  rename_i s₂ hres₁
  have h₂ := (h₁.resume hres₁).1
  split at hc
  · exact hreturn h₂ ‹_› hm hc
  rename_i s₃ hres₂
  have h₃ := (h₂.resume hres₂).1
  obtain ⟨⟨s₄, mem₁⟩, hlogin, hend⟩ := bind_eq_ok.1 hc
  obtain ⟨h₄, hm₁⟩ := h₃.runLogin hm hlogin
  split at hend
  · exact hreturn h₄ ‹_› hm₁ hend
  · rename_i s₅ hres₄
    obtain ⟨rfl, hrest⟩ := Prod.mk.inj (Except.ok.inj hend)
    obtain ⟨rfl, rfl⟩ := Prod.mk.inj hrest
    exact ⟨(h₄.resume hres₄).1, hm₁, by simp⟩

end Accounted

end Cache

/-! ## Requests -/

namespace Server

variable {service : Service} {settings : ConnectionSettings} {s s' t t' : Server Memory}
  {response : Response}

/-- The connections are those of accounts, and the accounts are still the same. -/
structure Guarded (m : Memory) (settings : ConnectionSettings) (s : Server Memory) : Prop where
  cache : ∃ users, Cache.Accounted m settings users s.cache
  accounts : s.remote.accounts = m.accounts

theorem guarded_empty (m : Memory) (settings : ConnectionSettings) (stopping : Bool) :
    Guarded m settings ⟨.empty settings, m, stopping⟩ where
  cache := ⟨[], [], Cache.sound_empty settings, truthful_nil m⟩
  accounts := rfl

/-- What connecting the user of a task comes to. -/
theorem Guarded.connect (h : Guarded m settings s) (task : Task) :
    ∃ outcome cache mem,
      s.cache.connect Memory.remote task.user s.stopping s.remote = .ok (outcome, cache, mem) ∧
      Guarded m settings ⟨cache, mem, s.stopping⟩ ∧
      ∀ e, outcome = .ok e → m.isAccount task.user = true := by
  obtain ⟨outcome, cache, mem, _, hconnect, -, -⟩ :=
    Cache.connect_sameDoor (.refl s.remote) task.user s.stopping s.cache
  obtain ⟨users, haccounted⟩ := h.cache
  obtain ⟨hcache, haccounts, haccount⟩ := haccounted.connect h.accounts hconnect
  exact ⟨outcome, cache, mem, hconnect, ⟨⟨_, hcache⟩, haccounts⟩, haccount⟩

theorem Guarded.perform {task : Task} (h : Guarded m settings s)
    (hp : perform service Memory.remote task s = .ok (response, s')) :
    Guarded m settings s' ∧ (response.isSuccess = true → m.isAccount task.user = true) := by
  obtain ⟨outcome, cache, mem, hconnect, hguarded, haccount⟩ := h.connect task
  cases outcome with
  | error e =>
    rw [perform_of_refused hconnect] at hp
    obtain ⟨rfl, rfl⟩ := Prod.mk.inj (Except.ok.inj hp)
    refine ⟨hguarded, fun hsuccess => ?_⟩
    rw [Response.ofError_isSuccess] at hsuccess
    contradiction
  | ok e =>
    rw [perform_of_connected hconnect] at hp
    obtain ⟨p, hserve, hp⟩ := map_eq_ok.1 hp
    obtain ⟨rfl, rfl⟩ := Prod.mk.inj hp
    have hkeep := Service.serve_keepsDoor hserve
    exact ⟨⟨hguarded.cache, hkeep.accounts.trans hguarded.accounts⟩, fun _ => haccount e rfl⟩

/-- **A request** to a resource of a company succeeds only with the credentials of an account. -/
theorem Guarded.handle {r : Request} (h : Guarded m settings s)
    (hr : handle service Memory.remote r s = .ok (response, s')) :
    Guarded m settings s' ∧ (r.isScoped = true → response.isSuccess = true →
      ∃ user, Authorization.credentials r = .ok user ∧ m.isAccount user = true) := by
  cases htask : r.task? service.bodyLimit with
  | none =>
    obtain ⟨answer, hanswer, hfail⟩ := handle_of_noTask Memory.remote htask
    rw [hanswer] at hr
    obtain ⟨rfl, rfl⟩ := Prod.mk.inj (Except.ok.inj hr)
    refine ⟨h, fun hscoped hsuccess => ?_⟩
    rw [hfail hscoped] at hsuccess
    contradiction
  | some task =>
    rw [handle_of_task htask] at hr
    obtain ⟨p, hp, hr⟩ := map_eq_ok.1 hr
    obtain ⟨rfl, rfl⟩ := Prod.mk.inj hr
    obtain ⟨hguarded, haccount⟩ := h.perform hp
    refine ⟨hguarded, fun _ hsuccess => ⟨task.user, credentials_of_task htask, haccount ?_⟩⟩
    rwa [sent_isSuccess] at hsuccess

/-- **A stranger** gets an answer that does not depend on the data, and changes none of it. -/
theorem handle_of_stranger (service : Service) {r : Request} (h : Guarded m settings s) (halike : Alike s s')
    (hno : ∀ user, Authorization.credentials r = .ok user → m.isAccount user = false) :
    ∃ response t t', handle service Memory.remote r s = .ok (response, t) ∧
      handle service Memory.remote r s' = .ok (response, t') ∧ SameData s.remote t.remote := by
  cases htask : r.task? service.bodyLimit with
  | none =>
    obtain ⟨answer, hanswer, -⟩ := handle_of_noTask Memory.remote htask
    refine ⟨answer s.cache, s, s', hanswer s, ?_, .refl s.remote⟩
    rw [hanswer, halike.cache]
  | some task =>
    have huser : m.isAccount task.user = false := hno _ (credentials_of_task htask)
    obtain ⟨outcome, cache, mem, mem', hconnect, hconnect', -⟩ :=
      Cache.connect_sameDoor halike.door task.user s.stopping s.cache
    obtain ⟨users, haccounted⟩ := h.cache
    have haccount := (haccounted.connect h.accounts hconnect).2.2
    cases outcome with
    | ok e => simp [haccount e rfl] at huser
    | error e =>
      rw [← halike.cache, ← halike.stopping] at hconnect'
      refine ⟨sent r (.ofError (.ofConnection e)), ⟨cache, mem, s.stopping⟩,
        ⟨cache, mem', s'.stopping⟩, ?_, ?_, Cache.connect_sameData hconnect⟩
      · rw [handle_of_task htask, perform_of_refused hconnect]
        rfl
      · rw [handle_of_task htask, perform_of_refused hconnect']
        rfl

/-- **Nobody logs in** for a request without credentials. -/
theorem handle_of_noCredentials {r : Request} {problem : Authorization.Problem}
    (h : Authorization.credentials r = .error problem) :
    ∃ response, handle service Memory.remote r s = .ok (response, s) := by
  cases htask : r.task? service.bodyLimit with
  | none =>
    obtain ⟨answer, hanswer, -⟩ := handle_of_noTask Memory.remote htask
    exact ⟨answer s.cache, hanswer s⟩
  | some task =>
    rw [credentials_of_task htask] at h
    simp at h

/-! ## Histories -/

/-- What can happen to a server: a request at some time of day, time that passes, an old connection that
the store forgets, and the order to stop. -/
inductive Happening where
  | request (now : OffsetDateTime) (r : Request)
  | pass (milliseconds : Nat)
  | expire (user : Credentials)
  | stop

section

variable {σ : Type}

/-- The server after something happened. -/
def happen (service : Service) (remote : Remote σ) (s : Server σ) : Happening → Run (Server σ)
  | .request now r => (Server.handle { service with now } remote r s).map (·.2)
  | .pass ms => .ok { s with cache := (s.cache.step (.advance ms)).1 }
  | .expire user => .ok { s with cache := (s.cache.step (.expire user)).1 }
  | .stop => .ok { s with stopping := true }

/-- The server after everything that happened, unless the program has stopped. -/
def live (service : Service) (remote : Remote σ) : List Happening → Server σ → Run (Server σ)
  | [], s => .ok s
  | x :: xs, s => happen service remote s x >>= live service remote xs

end

theorem Guarded.happen {x : Happening} (h : Guarded m settings s)
    (hx : happen service Memory.remote s x = .ok s') : Guarded m settings s' := by
  obtain ⟨users, haccounted⟩ := h.cache
  cases x with
  | request now r =>
    obtain ⟨p, hp, rfl⟩ := map_eq_ok.1 hx
    exact (h.handle hp).1
  | pass ms =>
    obtain rfl := Except.ok.inj hx
    exact ⟨⟨_, haccounted.step (.advance ms) (truthful_nil m)⟩, h.accounts⟩
  | expire user =>
    obtain rfl := Except.ok.inj hx
    exact ⟨⟨_, haccounted.step (.expire user) (truthful_nil m)⟩, h.accounts⟩
  | stop =>
    obtain rfl := Except.ok.inj hx
    exact ⟨h.cache, h.accounts⟩

theorem Guarded.live {history : List Happening} (h : Guarded m settings s)
    (hl : live service Memory.remote history s = .ok s') : Guarded m settings s' := by
  induction history generalizing s with
  | nil =>
    obtain rfl := Except.ok.inj hl
    exact h
  | cons x xs ih =>
    obtain ⟨s₁, hx, hl⟩ := bind_eq_ok.1 hl
    exact ih (h.happen hx) hl

theorem happen_alike {x : Happening} (h : Alike s s')
    (hx : happen service Memory.remote s x = .ok t) (hx' : happen service Memory.remote s' x = .ok t') :
    Alike t t' := by
  cases x with
  | request now r =>
    obtain ⟨p, hp, rfl⟩ := map_eq_ok.1 hx
    obtain ⟨p', hp', rfl⟩ := map_eq_ok.1 hx'
    exact handle_alike h hp hp'
  | pass | expire =>
    obtain rfl := Except.ok.inj hx
    obtain rfl := Except.ok.inj hx'
    exact ⟨by simp only [h.cache], h.stopping, h.door⟩
  | stop =>
    obtain rfl := Except.ok.inj hx
    obtain rfl := Except.ok.inj hx'
    exact ⟨h.cache, rfl, h.door⟩

/-- Servers that are alike stay alike when the same happens to them. -/
theorem live_alike {history : List Happening} (h : Alike s s')
    (hl : live service Memory.remote history s = .ok t)
    (hl' : live service Memory.remote history s' = .ok t') : Alike t t' := by
  induction history generalizing s s' with
  | nil =>
    obtain rfl := Except.ok.inj hl
    obtain rfl := Except.ok.inj hl'
    exact h
  | cons x xs ih =>
    obtain ⟨s₁, hx, hl⟩ := bind_eq_ok.1 hl
    obtain ⟨s₁', hx', hl'⟩ := bind_eq_ok.1 hl'
    exact ih (happen_alike h hx hx') hl hl'

/-- **Only accounts see or change data.** Whatever has happened to a server that began without
connections: a request to a resource of a company is answered with success only if its credentials are
those of an account. A request with other credentials, or none, is answered, changes no table and neither
of the counters of rows and documents, and gets the same answer whatever else the tables hold, at that
moment or from the beginning on. A request without credentials leaves the whole server as it is, so
no login is tried for it. -/
theorem only_accounts {history : List Happening}
    (hlive : live service Memory.remote history ⟨.empty settings, m, false⟩ = .ok s)
    (now : OffsetDateTime) (r : Request) :
    let answer := handle { service with now } Memory.remote r
    (∀ response s', answer s = .ok (response, s') → r.isScoped = true → response.isSuccess = true →
      ∃ user, Authorization.credentials r = .ok user ∧ m.isAccount user = true) ∧
    ((∀ user, Authorization.credentials r = .ok user → m.isAccount user = false) →
      ∃ response s', answer s = .ok (response, s') ∧ s'.remote.tables = s.remote.tables ∧
        s'.remote.lastRowId = s.remote.lastRowId ∧ s'.remote.lastDocument = s.remote.lastDocument ∧
        (∀ mem, SameDoor s.remote mem →
          ∃ t', answer { s with remote := mem } = .ok (response, t')) ∧
        ∀ m' t, SameDoor m m' →
          live service Memory.remote history ⟨.empty settings, m', false⟩ = .ok t →
          ∃ t', answer t = .ok (response, t')) ∧
    ∀ problem, Authorization.credentials r = .error problem →
      ∃ response, answer s = .ok (response, s) := by
  intro answer
  have hguarded := (guarded_empty m settings false).live hlive
  refine ⟨fun response s' hanswer => (hguarded.handle hanswer).2, fun hno => ?_,
    fun problem => handle_of_noCredentials⟩
  obtain ⟨response, s', -, hanswer, -, hdata⟩ := handle_of_stranger _ hguarded (.refl s) hno
  -- a server that is alike answers in the same way
  have hsame : ∀ t, Alike s t → ∃ t', answer t = .ok (response, t') := by
    intro t halike
    obtain ⟨response', s'', t', hanswer', ht, -⟩ :=
      handle_of_stranger { service with now } hguarded halike hno
    obtain ⟨rfl, -⟩ := Prod.mk.inj (Except.ok.inj (hanswer.symm.trans hanswer'))
    exact ⟨t', ht⟩
  refine ⟨response, s', hanswer, hdata.tables, hdata.lastRowId, hdata.lastDocument, ?_, ?_⟩
  · exact fun mem hdoor => hsame _ ⟨rfl, rfl, hdoor⟩
  · intro m' t hdoor ht
    have hbegin : Alike ⟨.empty settings, m, false⟩ ⟨.empty settings, m', false⟩ := ⟨rfl, rfl, hdoor⟩
    exact hsame t (live_alike hbegin hlive ht)

/-- A user has a connection; somebody else tries a DELETE with that name and another password. -/
theorem only_accounts_wrong_password :
    let service := Demo.service Demo.debtors .default
    let m := Demo.memory [((1, "debtor"), [Demo.debtor 1 "Oslo", Demo.debtor 2 "Oslo"])] 2
    let delete : Request := ⟨"DELETE", "/Companies/1/Crud/Debtor", some "City=Oslo&limit=2", [], []⟩
    let seen : Request := ⟨"GET", "/Companies/1/Query/Debtor", some "City=Oslo", Demo.header, []⟩
    let wrong := [("authorization", Text.Utf8.ofString "Basic YWxpY2U6d3Jvbmc=")]
    let guess : Request := { delete with headers := wrong }
    let now := service.now
    let history : List Happening := [.request now seen, .pass 500]
    ∃ s, live service Memory.remote history (Demo.server m) = .ok s ∧
      (∃ response s', handle service Memory.remote seen s = .ok (response, s') ∧
        response.isSuccess = true ∧
        ∃ user, Authorization.credentials seen = .ok user ∧ m.isAccount user = true) ∧
      (∃ response s', handle service Memory.remote guess s = .ok (response, s') ∧
        response.status = 403 ∧ s'.remote.tables = m.tables ∧
        ∃ t', handle service Memory.remote guess { s with remote := { s.remote with tables := [] } } =
          .ok (response, t')) ∧
      ∃ response, handle service Memory.remote delete s = .ok (response, s) ∧ response.status = 401 := by
  intro service m delete seen wrong guess now history
  have hstatus : (live service Memory.remote history (Demo.server m)).toOption.map (fun s =>
      (s.remote.tables, [seen, guess, delete].map fun r =>
        (handle service Memory.remote r s).toOption.map (·.1.status))) =
      some (m.tables, [some 200, some 403, some 401]) := by
    decide +kernel
  obtain ⟨s, hlive, hanswers⟩ := toOption_map_eq_some.1 hstatus
  simp only [Prod.mk.injEq, List.map_cons, List.map_nil, List.cons.injEq, and_true] at hanswers
  obtain ⟨htables, hseen, hguess, hdelete⟩ := hanswers
  have hno : ∀ user, Authorization.credentials guess = .ok user → m.isAccount user = false := by
    have hcredentials : Authorization.credentials guess = .ok ⟨"alice", "wrong"⟩ := by decide +kernel
    intro user huser
    obtain rfl := Except.ok.inj (hcredentials.symm.trans huser)
    decide +kernel
  have hmissing : Authorization.credentials delete = .error .missing := by decide +kernel
  refine ⟨s, hlive, ?_, ?_, ?_⟩
  · obtain ⟨⟨response, s'⟩, hs, (h200 : response.status = 200)⟩ := toOption_map_eq_some.1 hseen
    have hsuccess : response.isSuccess = true := by simp [Response.isSuccess, h200]
    exact ⟨response, s', hs, hsuccess,
      (only_accounts hlive now seen).1 response s' hs (by decide +kernel) hsuccess⟩
  · obtain ⟨response, s', hs, hkeep, -, -, hblind, -⟩ := (only_accounts hlive now guess).2.1 hno
    obtain ⟨p, hp, h403⟩ := toOption_map_eq_some.1 hguess
    obtain rfl := Except.ok.inj (hp.symm.trans hs)
    exact ⟨response, s', hs, h403, hkeep.trans htables, hblind _ ⟨rfl, rfl, rfl⟩⟩
  · obtain ⟨response, hs⟩ := (only_accounts hlive now delete).2.2 _ hmissing
    obtain ⟨p, hp, h401⟩ := toOption_map_eq_some.1 hdelete
    obtain rfl := Except.ok.inj (hp.symm.trans hs)
    exact ⟨response, hs, h401⟩

end Server

end LedgerFront
