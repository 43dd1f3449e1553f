import LedgerFront.Connection.Connect
import LedgerFront.Proofs.Connection.Frame
import LedgerFront.Proofs.Refusal

/-!
# The rounds of a login

A login makes its attempts one after the other. In each of them it opens a session, logs in there and
asks for the companies, as far as it comes. An attempt that comes to no result, since there are no
companies for the moment, is followed by the next one, unless it was the last that is allowed.

* `Login.Round`: what is asked in one attempt, with the replies.
* `Login.carry`: a login that goes on with what the remote side answers.
* `Login.carry_rounds`: after attempts without a result, the first result is that of the login.
* `Cache.runLogin_of_carry`: this is how logins run for the cache.
* `Cache.login_rounds`: what a login asks and what it comes to, whatever the remote side replies.
-/

namespace LedgerFront

namespace Login

/-- What a login asks of the remote side, with the reply. -/
inductive Asked where
  | opening (reply : Except RemoteError Nat)
  | call (session : Nat) (x : Exchange)

/-- One attempt of a login, by where it ends. -/
inductive Round where
  | notOpened (e : RemoteError)
  | notLoggedIn (session : Nat) (e : RemoteError)
  | rejected (session : Nat) (status : Status) (h : status.isSuccess = false)
  | notListed (session : Nat) (e : RemoteError)
  | listed (session : Nat) (companies : Option (List Company))

namespace Round

/-- What the login comes to in this attempt; nothing when there are no companies. -/
def result? : Round → Option (Except ConnectionError Connected)
  | notOpened e | notLoggedIn _ e | notListed _ e => some (.error (.remote e))
  | rejected _ status _ => some (.error (.forbidden status))
  | listed session (some (c :: cs)) => some (.ok ⟨session, c :: cs⟩)
  | listed _ _ => none

/-- What is asked in this attempt. -/
def asked (key : Uuid) (user : Credentials) : Round → List Asked
  | notOpened e => [.opening (.error e)]
  | notLoggedIn session e => [.opening (.ok session), .call session ⟨.login user key, .error e⟩]
  | rejected session status _ =>
    [.opening (.ok session), .call session ⟨.login user key, .ok status⟩]
  | notListed session e =>
    [.opening (.ok session), .call session ⟨.login user key, .ok Status.success⟩,
      .call session ⟨.companies, .error e⟩]
  | listed session companies =>
    [.opening (.ok session), .call session ⟨.login user key, .ok Status.success⟩,
      .call session ⟨.companies, .ok companies⟩]

end Round

end Login

open Login

variable {σ : Type}

/-- The remote side, which also writes down what it is asked. -/
def Remote.recording (remote : Remote σ) : Remote (σ × List Asked) where
  openSession p :=
    let (reply, r) := remote.openSession p.1
    (reply, r, p.2 ++ [.opening reply])
  call session c p :=
    (remote.call session c p.1).map fun q => (q.1, q.2, p.2 ++ [.call session ⟨c, q.1⟩])

/-- The remote side has an answer, or a failure in its place, to what logins ask. -/
def Remote.Answers (remote : Remote σ) : Prop :=
  ∀ session r, (∀ user key, ∃ p, remote.call session (.login user key) r = .ok p) ∧
    ∃ p, remote.call session .companies r = .ok p

/-- Asked these things one after the other, the remote side gives these replies. -/
def Remote.Replies (remote : Remote σ) : List Asked → σ → σ → Prop
  | [], r, r' => r' = r
  | .opening reply :: rest, r, r' =>
    (remote.openSession r).1 = reply ∧ remote.Replies rest (remote.openSession r).2 r'
  | .call session x :: rest, r, r' =>
    ∃ r₁, remote.call session x.call r = .ok (x.reply, r₁) ∧ remote.Replies rest r₁ r'

theorem Remote.replies_append {remote : Remote σ} {first second : List Asked} {r r' : σ} :
    remote.Replies (first ++ second) r r' ↔
      ∃ r₁, remote.Replies first r r₁ ∧ remote.Replies second r₁ r' := by
  induction first generalizing r with
  | nil => simp [Replies]
  | cons x first ih =>
    cases x with
    | opening reply => simp [Replies, ih, and_assoc]
    | call session x =>
      simp only [List.cons_append, Replies, ih]
      constructor
      · rintro ⟨r₁, hcall, r₂, hfirst, hsecond⟩
        exact ⟨r₂, ⟨r₁, hcall, hfirst⟩, hsecond⟩
      · rintro ⟨r₂, ⟨r₁, hcall, hfirst⟩, hsecond⟩
        exact ⟨r₁, hcall, r₂, hfirst, hsecond⟩

namespace Login

/-- A login goes on with what the remote side answers, for a number of steps or to its end. -/
def carry (remote : Remote σ) (key : Uuid) (user : Credentials) (attempts : Nat) :
    Nat → Progress → σ → Run (Progress × σ)
  | 0, p, r => .ok (p, r)
  | _ + 1, .finished result, r => .ok (.finished result, r)
  | n + 1, .waiting l, r => do
    let (a, r) ← l.ask remote key user r
    carry remote key user attempts n (l.receive attempts a) r

variable {remote : Remote σ} {key : Uuid} {user : Credentials} {attempts : Nat}

theorem carry_finished (n : Nat) (result : Except ConnectionError Connected) (r : σ) :
    carry remote key user attempts n (.finished result) r = .ok (.finished result, r) := by
  cases n <;> rfl

theorem carry_opening (n done : Nat) (r : σ) (log : List Asked) :
    carry remote.recording key user attempts (n + 1) (.waiting ⟨done, .opening⟩) (r, log) =
      carry remote.recording key user attempts n
        (receive attempts ⟨done, .opening⟩ (.opened (remote.openSession r).1))
        ((remote.openSession r).2, log ++ [.opening (remote.openSession r).1]) := rfl

theorem carry_login {session : Nat} {reply : Except RemoteError Status} {r r₁ : σ}
    (h : remote.call session (.login user key) r = .ok (reply, r₁)) (n done : Nat) (log : List Asked) :
    carry remote.recording key user attempts (n + 1) (.waiting ⟨done, .loggingIn session⟩) (r, log) =
      carry remote.recording key user attempts n
        (receive attempts ⟨done, .loggingIn session⟩ (.status reply))
        (r₁, log ++ [.call session ⟨.login user key, reply⟩]) := by
  simp only [carry, ask, Remote.recording, h, Except.map]
  rfl

theorem carry_listing {session : Nat} {reply : Except RemoteError (Option (List Company))} {r r₁ : σ}
    (h : remote.call session .companies r = .ok (reply, r₁)) (n done : Nat) (log : List Asked) :
    carry remote.recording key user attempts (n + 1) (.waiting ⟨done, .listing session⟩) (r, log) =
      carry remote.recording key user attempts n
        (receive attempts ⟨done, .listing session⟩ (.companies reply))
        (r₁, log ++ [.call session ⟨.companies, reply⟩]) := by
  simp only [carry, ask, Remote.recording, h, Except.map]
  rfl

/-- **One attempt**, when the remote side replies like this. -/
theorem carry_round {round : Round} {r r' : σ} (h : remote.Replies (round.asked key user) r r')
    (done n : Nat) (log : List Asked) :
    carry remote.recording key user attempts (n + 3) (.waiting ⟨done, .opening⟩) (r, log) =
      carry remote.recording key user attempts n
        (match round.result? with
          | some result => .finished result
          | none => start attempts done)
        (r', log ++ round.asked key user) := by
  rw [carry_opening]
  cases round with
  | notOpened e =>
    obtain ⟨hopen, rfl⟩ := h
    rw [hopen]
    simp only [receive, Round.result?, carry_finished, Round.asked]
  | notLoggedIn session e =>
    obtain ⟨hopen, r₁, hlogin, rfl⟩ := h
    rw [hopen]
    simp only [receive]
    rw [carry_login hlogin]
    simp only [receive, Round.result?, carry_finished, Round.asked, List.append_assoc, List.cons_append,
      List.nil_append]
  | rejected session status hstatus =>
    obtain ⟨hopen, r₁, hlogin, rfl⟩ := h
    rw [hopen]
    simp only [receive]
    rw [carry_login hlogin]
    simp only [receive, hstatus, Round.result?, carry_finished, Round.asked, List.append_assoc,
      List.cons_append, List.nil_append]
    rfl
  | notListed session e =>
    obtain ⟨hopen, r₁, hlogin, r₂, hlist, rfl⟩ := h
    rw [hopen]
    simp only [receive]
    rw [carry_login hlogin]
    simp only [receive, Status.isSuccess, if_true]
    rw [carry_listing hlist]
    simp only [receive, Round.result?, carry_finished, Round.asked, List.append_assoc, List.cons_append,
      List.nil_append]
  | listed session companies =>
    obtain ⟨hopen, r₁, hlogin, r₂, hlist, rfl⟩ := h
    rw [hopen]
    simp only [receive]
    rw [carry_login hlogin]
    simp only [receive, Status.isSuccess, if_true]
    rw [carry_listing hlist]
    rcases companies with _ | _ | ⟨c, cs⟩ <;>
      simp only [receive, Round.result?, carry_finished, Round.asked, List.append_assoc, List.cons_append,
        List.nil_append]

/-- Attempts without a result, one after the other. -/
theorem carry_empty {rounds : List Round} (hempty : ∀ round ∈ rounds, round.result? = none) {done n : Nat}
    (hdone : done + rounds.length ≤ attempts) {r r' : σ} {log : List Asked}
    (h : remote.Replies (rounds.flatMap (Round.asked key user)) r r') :
    carry remote.recording key user attempts (n + 3 * rounds.length) (start attempts done) (r, log) =
      carry remote.recording key user attempts n (start attempts (done + rounds.length))
        (r', log ++ rounds.flatMap (Round.asked key user)) := by
  induction rounds generalizing done r log with
  | nil =>
    obtain rfl : r' = r := h
    simp
  | cons round rounds ih =>
    rw [List.flatMap_cons, Remote.replies_append] at h
    obtain ⟨r₁, hround, hrest⟩ := h
    rw [List.length_cons] at hdone ⊢
    have hstart : start attempts done = .waiting ⟨done + 1, .opening⟩ := if_pos (by omega)
    have hsteps : n + 3 * (rounds.length + 1) = n + 3 * rounds.length + 3 := by omega
    rw [hstart, hsteps, carry_round hround, hempty round (by simp)]
    simp only
    rw [ih (fun round hr => hempty round (by simp [hr])) (by omega) hrest, List.flatMap_cons,
      List.append_assoc, Nat.add_right_comm done 1, Nat.add_assoc done]

/-- **The first result** is that of the login. -/
theorem carry_rounds {before : List Round} {last : Round} {result : Except ConnectionError Connected}
    (hempty : ∀ round ∈ before, round.result? = none) (hlast : last.result? = some result)
    (hwithin : before.length < attempts) {r r' : σ}
    (h : remote.Replies ((before ++ [last]).flatMap (Round.asked key user)) r r') :
    carry remote.recording key user attempts (3 * attempts) (start attempts 0) (r, []) =
      .ok (.finished result, r', (before ++ [last]).flatMap (Round.asked key user)) := by
  rw [List.flatMap_append, Remote.replies_append] at h
  obtain ⟨r₁, hbefore, hround⟩ := h
  rw [List.flatMap_singleton] at hround
  have hsteps : 3 * attempts = 3 * (attempts - before.length - 1) + 3 + 3 * before.length := by omega
  have hstart : start attempts (0 + before.length) = .waiting ⟨before.length + 1, .opening⟩ := by
    rw [Nat.zero_add]
    exact if_pos hwithin
  rw [hsteps, carry_empty hempty (by omega) hbefore, hstart, carry_round hround, hlast]
  simp only
  rw [carry_finished, List.flatMap_append, List.flatMap_singleton, List.nil_append]

/-- Without any result, the login gives up after the last attempt. -/
theorem carry_noCompanies {rounds : List Round} (hempty : ∀ round ∈ rounds, round.result? = none)
    (hall : rounds.length = attempts) {r r' : σ}
    (h : remote.Replies (rounds.flatMap (Round.asked key user)) r r') :
    carry remote.recording key user attempts (3 * attempts) (start attempts 0) (r, []) =
      .ok (.finished (.error (.noCompanies attempts)), r',
        rounds.flatMap (Round.asked key user)) := by
  have hsteps : 3 * attempts = 0 + 3 * rounds.length := by omega
  have hstart : start attempts (0 + rounds.length) = .finished (.error (.noCompanies attempts)) :=
    if_neg (by omega)
  rw [hsteps, carry_empty hempty (by omega) h, hstart, carry_finished, List.nil_append]

/-! ## Every login is made of rounds -/

/-- A remote side that answers makes some round of every attempt. -/
theorem exists_round (hremote : remote.Answers) (key : Uuid) (user : Credentials) (r : σ) :
    ∃ (round : Round) (r' : σ), remote.Replies (round.asked key user) r r' := by
  cases hopen : (remote.openSession r).1 with
  | error e => exact ⟨.notOpened e, _, hopen, rfl⟩
  | ok session =>
    obtain ⟨⟨reply, r₁⟩, hlogin⟩ := (hremote session (remote.openSession r).2).1 user key
    cases reply with
    | error e => exact ⟨.notLoggedIn session e, r₁, hopen, r₁, hlogin, rfl⟩
    | ok status =>
      cases status with
      | success =>
        obtain ⟨⟨reply, r₂⟩, hlist⟩ := (hremote session r₁).2
        cases reply with
        | error e => exact ⟨.notListed session e, r₂, hopen, r₁, hlogin, r₂, hlist, rfl⟩
        | ok companies => exact ⟨.listed session companies, r₂, hopen, r₁, hlogin, r₂, hlist, rfl⟩
      | noLines => exact ⟨.rejected session .noLines rfl, r₁, hopen, r₁, hlogin, rfl⟩
      | other code => exact ⟨.rejected session (.other code) rfl, r₁, hopen, r₁, hlogin, rfl⟩

/-- The rounds of a login end with the first one that has a result, or with the last one allowed. -/
theorem exists_rounds (hremote : remote.Answers) (key : Uuid) (user : Credentials) (attempts : Nat) (r : σ) :
    ∃ (rounds : List Round) (r' : σ), remote.Replies (rounds.flatMap (Round.asked key user)) r r' ∧
      ((∃ before last, rounds = before ++ [last] ∧ (∀ round ∈ before, round.result? = none) ∧
        last.result? ≠ none ∧ before.length < attempts) ∨
      (∀ round ∈ rounds, round.result? = none) ∧ rounds.length = attempts) := by
  induction attempts generalizing r with
  | zero => exact ⟨[], r, rfl, .inr ⟨by simp, rfl⟩⟩
  | succ n ih =>
    obtain ⟨round, r₁, hround⟩ := exists_round hremote key user r
    by_cases hresult : round.result? = none
    · obtain ⟨rounds, r', hrest, hrounds⟩ := ih r₁
      refine ⟨round :: rounds, r', ?_, ?_⟩
      · rw [List.flatMap_cons]
        exact Remote.replies_append.2 ⟨r₁, hround, hrest⟩
      · obtain ⟨before, last, rfl, hempty, hlast, hwithin⟩ | ⟨hempty, hall⟩ := hrounds
        · exact .inl ⟨round :: before, last, rfl, by simpa [hresult] using hempty, hlast,
            Nat.succ_lt_succ hwithin⟩
        · exact .inr ⟨by simpa [hresult] using hempty, congrArg Nat.succ hall⟩
    · exact ⟨[round], r₁, by simpa using hround, .inl ⟨[], round, rfl, by simp, hresult, Nat.succ_pos n⟩⟩

/-- Writing down what is asked changes nothing else. -/
theorem carry_of_recording {n : Nat} {p p' : Progress} {r r' : σ} {log log' : List Asked}
    (h : carry remote.recording key user attempts n p (r, log) = .ok (p', r', log')) :
    carry remote key user attempts n p r = .ok (p', r') := by
  induction n generalizing p r log with
  | zero =>
    obtain ⟨rfl, hr⟩ := Prod.mk.inj (Except.ok.inj h)
    obtain ⟨rfl, -⟩ := Prod.mk.inj hr
    rfl
  | succ n ih =>
    cases p with
    | finished result =>
      obtain ⟨rfl, hr⟩ := Prod.mk.inj (Except.ok.inj h)
      obtain ⟨rfl, -⟩ := Prod.mk.inj hr
      rfl
    | waiting l =>
      obtain ⟨⟨a, r₁, log₁⟩, hask, h⟩ := bind_eq_ok.1 h
      refine bind_eq_ok.2 ⟨(a, r₁), ?_, ih h⟩
      unfold ask at hask ⊢
      cases hphase : l.phase with
      | opening =>
        rw [hphase] at hask
        obtain ⟨rfl, hr⟩ := Prod.mk.inj (Except.ok.inj hask)
        obtain ⟨rfl, -⟩ := Prod.mk.inj hr
        rfl
      | loggingIn session | listing session =>
        rw [hphase] at hask
        obtain ⟨⟨reply, r₂, log₂⟩, hrecorded, hask⟩ := bind_eq_ok.1 hask
        obtain ⟨q, hcall, hq⟩ := map_eq_ok.1 hrecorded
        obtain ⟨rfl, hr⟩ := Prod.mk.inj hq
        obtain ⟨rfl, -⟩ := Prod.mk.inj hr
        obtain ⟨rfl, hr⟩ := Prod.mk.inj (Except.ok.inj hask)
        obtain ⟨rfl, -⟩ := Prod.mk.inj hr
        exact bind_eq_ok.2 ⟨q, hcall, rfl⟩

/-- **A login ends** when the remote side answers. -/
theorem carry_ends (hremote : remote.Answers) (key : Uuid) (user : Credentials) (attempts : Nat) (r : σ) :
    ∃ result r', carry remote key user attempts (3 * attempts) (start attempts 0) r =
      .ok (.finished result, r') := by
  obtain ⟨rounds, r', hreplies, ⟨before, last, rfl, hempty, hlast, hwithin⟩ | ⟨hempty, hall⟩⟩ :=
    exists_rounds hremote key user attempts r
  · obtain ⟨result, hresult⟩ := Option.ne_none_iff_exists'.1 hlast
    exact ⟨result, r', carry_of_recording (carry_rounds hempty hresult hwithin hreplies)⟩
  · exact ⟨_, r', carry_of_recording (carry_noCompanies hempty hall hreplies)⟩

/-! ## What is asked -/

namespace Asked

/-- A session is asked for. -/
def isOpening : Asked → Bool
  | opening _ => true
  | call .. => false

/-- A session is opened under this number. -/
def opens (session : Nat) : Asked → Bool
  | opening (.ok s) => s == session
  | _ => false

/-- It is logged in to the session with this number. -/
def logsIn (session : Nat) : Asked → Bool
  | call s ⟨.login .., _⟩ => s == session
  | _ => false

end Asked

/-- Each attempt asks for one session. -/
theorem countP_isOpening (rounds : List Round) :
    (rounds.flatMap (Round.asked key user)).countP Asked.isOpening = rounds.length := by
  induction rounds with
  | nil => rfl
  | cons round rounds ih =>
    rw [List.flatMap_cons, List.countP_append, ih, List.length_cons, Nat.add_comm]
    cases round <;> rfl

/-- No session is logged in to more often than it was opened. -/
theorem countP_logsIn_le (session : Nat) (rounds : List Round) :
    (rounds.flatMap (Round.asked key user)).countP (Asked.logsIn session) ≤
      (rounds.flatMap (Round.asked key user)).countP (Asked.opens session) := by
  induction rounds with
  | nil => exact Nat.le_refl 0
  | cons round rounds ih =>
    simp only [List.flatMap_cons, List.countP_append]
    have hround : (round.asked key user).countP (Asked.logsIn session) ≤
        (round.asked key user).countP (Asked.opens session) := by
      cases round <;> simp [Round.asked, List.countP_cons, Asked.logsIn, Asked.opens]
    omega

/-- All logins are with the given credentials and key. -/
theorem eq_of_login_mem {rounds : List Round} {session : Nat} {user' : Credentials} {key' : Uuid}
    {reply : Reply (.login user' key')}
    (h : .call session ⟨.login user' key', reply⟩ ∈ rounds.flatMap (Round.asked key user)) :
    user' = user ∧ key' = key := by
  obtain ⟨round, -, h⟩ := List.mem_flatMap.1 h
  cases round with
  | notOpened e => simp [Round.asked] at h
  | notLoggedIn | rejected | notListed | listed =>
    simp only [Round.asked, List.mem_cons, reduceCtorEq, Asked.call.injEq, Exchange.mk.injEq,
      Call.login.injEq, false_and, and_false, List.not_mem_nil, or_false, false_or] at h
    exact h.2.1

end Login

namespace Cache

open Pairs

variable {remote : Remote σ}

/-- The cache when a login ends with a result: a connection is counted and stored, the lock of the gate
is given back, and the call that waits for the login has its outcome. -/
def endLogin (id : CallId) (t : LoginTask) (result : Except ConnectionError Connected) (s : Cache) : Cache :=
  match result with
  | .ok connected =>
    endTask id t (.ok ⟨connected, s.now⟩)
      { s with logins := s.logins + 1, entries := put t.user ⟨connected, s.now⟩ s.entries }
  | .error e => endTask id t (.error e) s

theorem endTask_put (id : CallId) (t u : LoginTask) (phase : TaskPhase) (outcome : Outcome) (s : Cache) :
    endTask id { t with phase } outcome { s with tasks := put id u s.tasks } = endTask id t outcome s := by
  unfold endTask
  simp only [erase_put]

/-- What a login has come to before does not matter. -/
theorem advanceTask_put (id : CallId) (t u : LoginTask) (phase : TaskPhase) (p : Login.Progress)
    (s : Cache) : advanceTask id { t with phase } p { s with tasks := put id u s.tasks } =
      advanceTask id t p s := by
  unfold advanceTask
  split
  · simp only [put_put]
  · simp only [put_put]
  · exact endTask_put id t u phase _ s

theorem runLogin_of_none {id : CallId} {s : Cache} (h : s.tasks.lookup id = none) (n : Nat) (r : σ) :
    runLogin remote id n s r = .ok (s, r) := by
  cases n with
  | zero => rfl
  | succ n =>
    unfold runLogin
    rw [h]

theorem runLogin_finished (id : CallId) (t : LoginTask) (result : Except ConnectionError Connected)
    (s : Cache) (n : Nat) (r : σ) :
    runLogin remote id (n + 1) (advanceTask id t (.finished result) s) r = .ok (endLogin id t result s, r) := by
  have hgone : ∀ (outcome : Outcome) (s : Cache), (endTask id t outcome s).tasks.lookup id = none := by
    intro outcome s
    rw [(Aside.endTask id t outcome s).tasks, lookup_erase, if_pos rfl]
  cases result with
  | error e => exact runLogin_of_none (hgone (.error e) s) _ r
  | ok connected =>
    -- the connection is stored in a step of its own
    have hstore : runTask id (advanceTask id t (.finished (.ok connected)) s) =
        endLogin id t (.ok connected) s := by
      unfold runTask advanceTask
      simp only [lookup_put, if_true]
      exact endTask_put id t _ _ _
        { s with logins := s.logins + 1, entries := put t.user ⟨connected, s.now⟩ s.entries }
    unfold runLogin
    simp only [advanceTask, lookup_put, if_true] at hstore ⊢
    rw [hstore]
    exact runLogin_of_none (hgone _ _) n r

/-- **How a login runs**: it goes on with what the remote side answers until it has a result. -/
theorem runLogin_of_carry {id : CallId} {t : LoginTask} {s : Cache} {n : Nat} {p : Login.Progress}
    {result : Except ConnectionError Connected} {r r' : σ}
    (h : carry remote s.settings.affiliateKey t.user s.settings.loginAttempts n p r =
      .ok (.finished result, r')) :
    runLogin remote id (n + 1) (advanceTask id t p s) r = .ok (endLogin id t result s, r') := by
  induction n generalizing p r with
  | zero =>
    obtain ⟨rfl, rfl⟩ := Prod.mk.inj (Except.ok.inj h)
    exact runLogin_finished id t result s 0 r
  | succ n ih =>
    cases p with
    | finished result' =>
      obtain ⟨hresult, rfl⟩ := Prod.mk.inj (Except.ok.inj h)
      obtain rfl := Progress.finished.inj hresult
      exact runLogin_finished id t _ s (n + 1) r
    | waiting l =>
      obtain ⟨⟨a, r₁⟩, hask, h⟩ := bind_eq_ok.1 h
      have hanswer : answerTask id a (advanceTask id t (.waiting l) s) =
          advanceTask id t (l.receive s.settings.loginAttempts a) s := by
        unfold answerTask
        simp only [advanceTask, lookup_put, if_true]
        exact advanceTask_put id t _ _ _ s
      unfold runLogin
      simp only [advanceTask, lookup_put, if_true] at hanswer ⊢
      rw [hask]
      simp only [bind, Except.bind]
      rw [hanswer]
      exact ih h

/-- A login that is about to begin. -/
theorem runLogin_of_spawned {id : CallId} {t : LoginTask} {s : Cache} (ht : s.tasks.lookup id = some t)
    (hspawned : t.phase = .spawned) {result : Except ConnectionError Connected} {r r' : σ}
    (h : carry remote s.settings.affiliateKey t.user s.settings.loginAttempts (3 * s.settings.loginAttempts)
      (start s.settings.loginAttempts 0) r = .ok (.finished result, r')) :
    runLogin remote id s.loginSteps s r = .ok (endLogin id t result s, r') := by
  have hbegin : runTask id s = advanceTask id t (start s.settings.loginAttempts 0) s := by
    unfold runTask
    rw [ht]
    simp only [hspawned]
  have hfirst : runLogin remote id s.loginSteps s r =
      runLogin remote id (3 * s.settings.loginAttempts + 1) (runTask id s) r := by
    show runLogin remote id (3 * s.settings.loginAttempts + 1 + 1) s r = _
    rw [runLogin, ht]
    simp only [hspawned]
  rw [hfirst, hbegin]
  exact runLogin_of_carry h

/-- **What a login asks, and what it comes to.** Whenever a login is about to begin, with at most `n`
attempts: if the remote side replies in such a way that the first attempts have no result and the next
one, which is still allowed, has one, then just these attempts are made, and the login ends with that
result. If it replies so that none of `n` attempts has a result, then these are made, and the login ends
with that. A remote side that answers does one or the other. Each attempt asks for one session, no session
is logged in to more often than it was opened, and only as the user of the login. -/
theorem login_rounds (remote : Remote σ) (s : Cache) (id : CallId) (t : LoginTask)
    (ht : s.tasks.lookup id = some t) (hspawned : t.phase = .spawned) (r : σ) :
    let n := s.settings.loginAttempts
    let run := runLogin remote.recording id s.loginSteps s (r, [])
    let asked (rounds : List Round) := rounds.flatMap (Round.asked s.settings.affiliateKey t.user)
    (∀ before last result r', (∀ round ∈ before, round.result? = none) → last.result? = some result →
      before.length + 1 ≤ n → remote.Replies (asked (before ++ [last])) r r' →
      run = .ok (endLogin id t result s, r', asked (before ++ [last]))) ∧
    (∀ rounds r', (∀ round ∈ rounds, round.result? = none) → rounds.length = n →
      remote.Replies (asked rounds) r r' →
      run = .ok (endLogin id t (.error (.noCompanies n)) s, r', asked rounds)) ∧
    (remote.Answers → ∃ rounds r', remote.Replies (asked rounds) r r' ∧
      ((∃ before last, rounds = before ++ [last] ∧ (∀ round ∈ before, round.result? = none) ∧
        last.result? ≠ none ∧ before.length + 1 ≤ n) ∨
      (∀ round ∈ rounds, round.result? = none) ∧ rounds.length = n)) ∧
    ∀ rounds, (asked rounds).countP Asked.isOpening = rounds.length ∧
      (∀ session, (asked rounds).countP (Asked.logsIn session) ≤
        (asked rounds).countP (Asked.opens session)) ∧
      ∀ session user key reply, .call session ⟨.login user key, reply⟩ ∈ asked rounds →
        user = t.user ∧ key = s.settings.affiliateKey := by
  intro n run asked
  refine ⟨fun before last result r' hempty hlast hwithin hreplies => ?_,
    fun rounds r' hempty hall hreplies => ?_, fun hremote => ?_, fun rounds => ?_⟩
  · exact runLogin_of_spawned ht hspawned (carry_rounds hempty hlast hwithin hreplies)
  · exact runLogin_of_spawned ht hspawned (carry_noCompanies hempty hall hreplies)
  · exact exists_rounds hremote _ _ n r
  · exact ⟨countP_isOpening rounds, fun session => countP_logsIn_le session rounds,
      fun _ _ _ _ h => eq_of_login_mem h⟩

/-- The second session has the companies that the first one lacks. -/
theorem login_rounds_second :
    let remote : Remote Nat :=
      { openSession := fun opened => (.ok opened, opened + 1)
        call := fun session c opened =>
          match c with
          | .login _ _ => .ok (.ok Status.success, opened)
          | .companies => .ok (.ok (if session = 0 then some [] else some [⟨1, "Demo", []⟩]), opened)
          | _ => .ok (.error .notLoggedIn, opened) }
    let settings : ConnectionSettings := ⟨1000, 4, 3, .zero⟩
    let alice : Credentials := ⟨"alice", "s3cret"⟩
    let t : LoginTask := ⟨alice, 0, .spawned⟩
    let s : Cache := { empty settings with tasks := [(0, t)] }
    runLogin remote.recording 0 s.loginSteps s (0, []) =
      .ok (endLogin 0 t (.ok ⟨1, [⟨1, "Demo", []⟩]⟩) s, 2,
        [.opening (.ok 0), .call 0 ⟨.login alice .zero, .ok Status.success⟩, .call 0 ⟨.companies, .ok (some [])⟩,
          .opening (.ok 1), .call 1 ⟨.login alice .zero, .ok Status.success⟩,
          .call 1 ⟨.companies, .ok (some [⟨1, "Demo", []⟩])⟩]) := by
  intro remote settings alice t s
  exact (login_rounds remote s 0 t rfl rfl 0).1 [.listed 0 (some [])] (.listed 1 (some [⟨1, "Demo", []⟩])) _ 2
    (by simp [Round.result?]) rfl (by decide)
    ⟨rfl, 1, rfl, 1, rfl, rfl, 2, rfl, 2, rfl, rfl⟩

end Cache

end LedgerFront
