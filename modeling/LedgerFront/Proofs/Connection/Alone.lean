import LedgerFront.Proofs.Connection.Rounds

/-!
# One caller at a time

When nothing is under way, a caller gets the fresh connection of its user, or is the first at a new gate
and starts a login of its own, whose result it gets. Afterwards nothing is under way again.

* `Cache.Quiet`: nothing is under way.
* `Cache.connect_fresh`, `Cache.connect_refused`, `Cache.connect_login`: what becomes of the caller.
* `Cache.Quiet.connect_cases`: there is nothing else.
-/

namespace LedgerFront.Cache

open Pairs

variable {σ : Type} {remote : Remote σ} {s : Cache} {user : Credentials} {r r' : σ}

/-- Nothing is under way. -/
structure Quiet (s : Cache) : Prop where
  gateOf : s.gateOf = []
  calls : s.calls = []
  tasks : s.tasks = []

theorem quiet_empty (settings : ConnectionSettings) : Quiet (empty settings) := ⟨rfl, rfl, rfl⟩

/-- The cache after a hit. -/
def hit (s : Cache) : Cache := { s with hits := s.hits + 1, nextCall := s.nextCall + 1 }

/-- The cache when the login of the only caller is about to begin. -/
def loggingIn (user : Credentials) (s : Cache) : Cache :=
  { s with
    nextCall := s.nextCall + 1
    misses := s.misses + 1
    gateOf := [(user, s.gates.length)]
    gates := s.gates ++ [⟨0, [], true⟩]
    calls := [(s.nextCall, ⟨user, false, .joined s.gates.length⟩)]
    tasks := [(s.nextCall, ⟨user, s.gates.length, .spawned⟩)] }

/-- The cache after a miss, when nothing comes of it. -/
def miss (s : Cache) : Cache :=
  { s with
    nextCall := s.nextCall + 1
    misses := s.misses + 1
    gates := s.gates ++ [⟨0, [], false⟩] }

/-- The only call, which has just arrived. -/
def arrive (user : Credentials) (cancelled : Bool) (s : Cache) : Cache :=
  { s with calls := [(s.nextCall, ⟨user, cancelled, .arrived⟩)], nextCall := s.nextCall + 1 }

theorem Quiet.arrive (hs : s.Quiet) (user : Credentials) (cancelled : Bool) :
    (if cancelled then cancelCall s.nextCall (s.step (.call user)).1 else (s.step (.call user)).1) =
      s.arrive user cancelled := by
  obtain ⟨settings, now, entries, _, gates, nextCall, _, _, hits, misses, logins⟩ := s
  obtain ⟨rfl, rfl, rfl⟩ := hs
  cases cancelled <;> simp [step, cancelCall, Cache.arrive, put]

theorem resume_arrived (user : Credentials) (cancelled : Bool) (s : Cache) :
    (s.arrive user cancelled).resume s.nextCall =
      lookUp s.nextCall ⟨user, cancelled, .arrived⟩ (s.arrive user cancelled) := by
  unfold resume
  simp [Cache.arrive]

theorem Quiet.resume_fresh (hs : s.Quiet) {e : Entry} (he : s.fresh? user = some e) (cancelled : Bool) :
    (s.arrive user cancelled).resume s.nextCall = (s.hit, some (s.nextCall, .ok e)) := by
  have hfresh : (s.arrive user cancelled).fresh? user = some e := he
  rw [resume_arrived]
  unfold lookUp
  rw [hfresh]
  simp [Cache.arrive, hit, erase, hs.calls]

/-- **A fresh connection** is handed out at once. -/
theorem connect_fresh (hs : s.Quiet) {e : Entry} (he : s.fresh? user = some e) (cancelled : Bool) :
    s.connect remote user cancelled r = .ok (.ok e, s.hit, r) := by
  unfold connect
  simp only [hs.arrive, hs.resume_fresh he]
  rfl

/-- The only call, which has the lock of a new gate. -/
def checking (user : Credentials) (s : Cache) : Cache :=
  { s with
    nextCall := s.nextCall + 1
    misses := s.misses + 1
    gateOf := [(user, s.gates.length)]
    gates := s.gates ++ [⟨0, [], true⟩]
    calls := [(s.nextCall, ⟨user, false, .checking s.gates.length⟩)] }

theorem modify_concat {α : Type} (l : List α) (a : α) (f : α → α) :
    (l ++ [a]).modify l.length f = l ++ [f a] := by
  simp [List.modify_eq_take_drop]

theorem Quiet.resume_miss (hs : s.Quiet) (hmiss : s.fresh? user = none) (hroom : 0 < s.settings.maxWaiters) :
    (s.arrive user false).resume s.nextCall = (s.checking user, none) := by
  have hfresh : (s.arrive user false).fresh? user = none := hmiss
  rw [resume_arrived]
  unfold lookUp
  rw [hfresh]
  simp [Cache.arrive, enqueue, gateFor, hs.gateOf, put, gate, setGate, proceed, Gate.withdraw, setPhase,
    checking]
  rw [if_neg (Nat.ne_of_gt hroom)]
  simp [modify_concat]

/-- A caller that has no fresh connection and cannot wait either. -/
theorem Quiet.resume_refused (hs : s.Quiet) (hmiss : s.fresh? user = none) {cancelled : Bool}
    (h : s.settings.maxWaiters = 0 ∨ cancelled = true) :
    ∃ e, (s.arrive user cancelled).resume s.nextCall = (s.miss, some (s.nextCall, .error e)) := by
  have hfresh : (s.arrive user cancelled).fresh? user = none := hmiss
  rw [resume_arrived]
  unfold lookUp
  rw [hfresh]
  by_cases hroom : s.settings.maxWaiters = 0
  · refine ⟨.tooManyWaiters 0, ?_⟩
    simp [Cache.arrive, enqueue, gateFor, hs.gateOf, hs.calls, hs.tasks, put, gate, hroom, leave, erase,
      releaseGate, isUsed, miss]
  · obtain rfl : cancelled = true := h.resolve_left hroom
    refine ⟨.cancelled, ?_⟩
    simp [Cache.arrive, enqueue, gateFor, hs.gateOf, hs.calls, hs.tasks, put, gate, hroom, leave, erase,
      releaseGate, isUsed, miss, setGate, proceed, modify_concat, Gate.withdraw]

theorem Quiet.resume_checking (hs : s.Quiet) (hmiss : s.fresh? user = none) :
    (s.checking user).resume s.nextCall = (s.loggingIn user, none) := by
  have hfresh : (s.checking user).fresh? user = none := hmiss
  have hresume : (s.checking user).resume s.nextCall =
      check s.nextCall ⟨user, false, .checking s.gates.length⟩ s.gates.length (s.checking user) := by
    unfold resume
    simp [checking]
  rw [hresume]
  unfold check
  rw [hfresh]
  simp [checking, join, setPhase, loggingIn, put, hs.tasks]

/-- The only call, whose login has come to an outcome. -/
def answering (user : Credentials) (outcome : Outcome) (s : Cache) : Cache :=
  { s with
    nextCall := s.nextCall + 1
    misses := s.misses + 1
    gateOf := [(user, s.gates.length)]
    gates := s.gates ++ [⟨0, [], false⟩]
    calls := [(s.nextCall, ⟨user, false, .answered s.gates.length outcome⟩)]
    tasks := [] }

/-- The login of the only caller ends. Its gate is kept for the caller. -/
theorem endTask_loggingIn (outcome : Outcome) (s : Cache) :
    endTask s.nextCall ⟨user, s.gates.length, .spawned⟩ outcome (s.loggingIn user) =
      s.answering user outcome := by
  have hunlock : unlock s.gates.length { s.loggingIn user with
      tasks := erase s.nextCall (s.loggingIn user).tasks } =
      { s.answering user outcome with
        calls := [(s.nextCall, ⟨user, false, .joined s.gates.length⟩)] } := by
    simp [unlock, setGate, loggingIn, answering, modify_concat, erase]
  have hdeliver : deliver s.nextCall outcome { s.answering user outcome with
      calls := [(s.nextCall, ⟨user, false, .joined s.gates.length⟩)] } = s.answering user outcome := by
    simp [deliver, setPhase, put, answering]
  have hused : (s.answering user outcome).isUsed s.gates.length = true := by
    simp [isUsed, answering, CallPhase.gate?]
  unfold endTask
  simp only
  rw [hunlock, hdeliver]
  exact if_neg (by simp [hused])

theorem Quiet.resume_answered (hs : s.Quiet) (outcome : Outcome) :
    (s.answering user outcome).resume s.nextCall = (s.miss, some (s.nextCall, outcome)) := by
  have hresume : (s.answering user outcome).resume s.nextCall =
      (leave s.nextCall user s.gates.length (s.answering user outcome), some (s.nextCall, outcome)) := by
    unfold resume
    simp [answering]
  rw [hresume]
  simp [leave, erase, answering, releaseGate, isUsed, gate, miss, hs.calls, hs.tasks, hs.gateOf]

/-- The cache after the login of the only caller. -/
def afterLogin (user : Credentials) (result : Except ConnectionError Connected) (s : Cache) : Cache :=
  match result with
  | .ok connected =>
    { s.miss with logins := s.logins + 1, entries := put user ⟨connected, s.now⟩ s.entries }
  | .error _ => s.miss

theorem Quiet.resume_endLogin (hs : s.Quiet) (result : Except ConnectionError Connected) :
    (endLogin s.nextCall ⟨user, s.gates.length, .spawned⟩ result (s.loggingIn user)).resume s.nextCall =
      (s.afterLogin user result, some (s.nextCall, result.map fun c => ⟨c, s.now⟩)) := by
  cases result with
  | error e =>
    show (endTask s.nextCall ⟨user, s.gates.length, .spawned⟩ (.error e) (s.loggingIn user)).resume _ = _
    rw [endTask_loggingIn, hs.resume_answered]
    rfl
  | ok c =>
    -- the connection is stored before the login ends
    let stored : Cache := { s with logins := s.logins + 1, entries := put user ⟨c, s.now⟩ s.entries }
    have hquiet : stored.Quiet := ⟨hs.gateOf, hs.calls, hs.tasks⟩
    show (endTask stored.nextCall ⟨user, stored.gates.length, .spawned⟩ (.ok ⟨c, s.now⟩)
      (stored.loggingIn user)).resume stored.nextCall = _
    rw [endTask_loggingIn, hquiet.resume_answered]
    rfl

/-- **A login** by a caller who finds no fresh connection; what it comes to is the caller's outcome. -/
theorem connect_login (hs : s.Quiet) (hmiss : s.fresh? user = none) (hroom : 0 < s.settings.maxWaiters)
    {result : Except ConnectionError Connected}
    (h : Login.carry remote s.settings.affiliateKey user s.settings.loginAttempts
      (3 * s.settings.loginAttempts) (Login.start s.settings.loginAttempts 0) r =
        .ok (.finished result, r')) :
    s.connect remote user false r =
      .ok (result.map fun c => ⟨c, s.now⟩, s.afterLogin user result, r') := by
  have hlogin : runLogin remote s.nextCall (s.loggingIn user).loginSteps (s.loggingIn user) r =
      .ok (endLogin s.nextCall ⟨user, s.gates.length, .spawned⟩ result (s.loggingIn user), r') :=
    runLogin_of_spawned (by simp [loggingIn]) rfl h
  have harrive := hs.arrive user false
  unfold connect
  simp only [Bool.false_eq_true, if_false] at harrive ⊢
  simp only [harrive, hs.resume_miss hmiss hroom, hs.resume_checking hmiss]
  rw [hlogin]
  simp only [bind, Except.bind, hs.resume_endLogin]
  rfl

/-- A caller who has no fresh connection and cannot wait is turned away. -/
theorem connect_refused (hs : s.Quiet) (hmiss : s.fresh? user = none) {cancelled : Bool}
    (h : s.settings.maxWaiters = 0 ∨ cancelled = true) :
    ∃ e, s.connect remote user cancelled r = .ok (.error e, s.miss, r) := by
  obtain ⟨e, hresume⟩ := hs.resume_refused hmiss h
  refine ⟨e, ?_⟩
  unfold connect
  simp only [hs.arrive, hresume]
  rfl

/-- **A caller alone**: its user has a fresh connection, or it is turned away, or it logs in. -/
theorem Quiet.connect_cases (hs : s.Quiet) (hremote : remote.Answers) (user : Credentials) (cancelled : Bool)
    (r : σ) :
    (∃ e, s.fresh? user = some e ∧ s.connect remote user cancelled r = .ok (.ok e, s.hit, r)) ∨
    (∃ e, s.connect remote user cancelled r = .ok (.error e, s.miss, r)) ∨
    (0 < s.settings.maxWaiters ∧ cancelled = false ∧ ∃ result r',
      Login.carry remote s.settings.affiliateKey user s.settings.loginAttempts (3 * s.settings.loginAttempts)
        (Login.start s.settings.loginAttempts 0) r = .ok (.finished result, r') ∧
      s.connect remote user cancelled r =
        .ok (result.map fun c => ⟨c, s.now⟩, s.afterLogin user result, r')) := by
  cases hfresh : s.fresh? user with
  | some e => exact .inl ⟨e, rfl, connect_fresh hs hfresh cancelled⟩
  | none =>
    refine .inr ?_
    by_cases hrefused : s.settings.maxWaiters = 0 ∨ cancelled = true
    · exact .inl (connect_refused hs hfresh hrefused)
    · obtain ⟨hroom, hgoes⟩ := not_or.1 hrefused
      obtain rfl : cancelled = false := Bool.eq_false_iff.2 hgoes
      obtain ⟨result, r', hcarry⟩ := Login.carry_ends hremote s.settings.affiliateKey user
        s.settings.loginAttempts r
      exact .inr ⟨Nat.pos_of_ne_zero hroom, rfl, result, r', hcarry,
        connect_login hs hfresh (Nat.pos_of_ne_zero hroom) hcarry⟩

theorem Quiet.hit (hs : s.Quiet) : s.hit.Quiet := ⟨hs.gateOf, hs.calls, hs.tasks⟩

theorem Quiet.miss (hs : s.Quiet) : s.miss.Quiet := ⟨hs.gateOf, hs.calls, hs.tasks⟩

theorem Quiet.afterLogin (hs : s.Quiet) (user : Credentials) (result : Except ConnectionError Connected) :
    (s.afterLogin user result).Quiet := by
  cases result <;> exact ⟨hs.gateOf, hs.calls, hs.tasks⟩

/-- A new connection is fresh at once, unless no connection ever is. -/
theorem fresh?_afterLogin (user : Credentials) (c : Connected) (s : Cache) :
    (s.afterLogin user (.ok c)).fresh? user = if 0 < s.settings.ttl then some ⟨c, s.now⟩ else none := by
  have hentry : entry? (s.afterLogin user (.ok c)) user = some ⟨c, s.now⟩ := by
    simp [Cache.afterLogin, entry?]
  have hfresh : (s.afterLogin user (.ok c)).isFresh ⟨c, s.now⟩ = decide (0 < s.settings.ttl) := by
    simp [Cache.afterLogin, isFresh, Cache.miss]
  unfold fresh?
  rw [hentry]
  simp [Option.filter, hfresh]

end LedgerFront.Cache
