import LedgerFront.Proofs.Remote.HttpLogin
import LedgerFront.Proofs.Remote.MemoryLogin

/-!
# Whether a session is logged in

Both remote sides follow one rule: a call is refused until a login in its session has succeeded. Over HTTP
a refused call sends nothing, and every other request but a login shows the identifier that was issued
last.

* `login_state`: the rule, over the whole life of a session.
-/

namespace LedgerFront

/-- **Whether a session is logged in.** A call other than a login is refused exactly when no earlier login
of its session succeeded: in memory one with an account and its password, over HTTP one whose response
issued an identifier. Over HTTP nothing is sent for a refused call, a request that is sent shows the
identifier that was issued last, or none if it is a login, and only a response that issues an identifier
changes that of the session. -/
theorem login_state :
    (∀ session turns m c, Life Memory.remote session turns m → c.isLogin = false →
      ((∃ m', Memory.remote.call session c m = .ok (.error .notLoggedIn, m')) ↔
        ∀ t ∈ turns, ¬ Memory.Admits t)) ∧
    ∀ (τ : Type) (base : Url) (exchange : Http.Exchange τ),
      (∀ r w e, (exchange r w).1 = .error e → Http.IsTransport e) →
      ∀ session turns s c reply s', Life (Http.remote base (Http.record exchange)) session turns s →
        (Http.remote base (Http.record exchange)).call session c s = .ok (reply, s') →
        let t : Turn (Http.Sessions (Http.Wire τ)) := ⟨s, c, reply, s'⟩
        (c.isLogin = false →
          (reply = .error .notLoggedIn ↔ ∀ u ∈ turns, ∀ id, ¬ Http.Issues u id)) ∧
        (reply = .error .notLoggedIn → Http.sentIn t = []) ∧
        (∀ p ∈ Http.sentIn t, if c.isLogin then p.1.headers.lookup "X-Session-Id" = none
          else ∃ id, p.1.headers.lookup "X-Session-Id" = some id ∧ Latest Http.Issues turns id) ∧
        (∀ id, Http.Issues t id → s'.id? session = some id) ∧
        ((∀ id, ¬ Http.Issues t id) → s'.id? session = s.id? session) := by
  constructor
  · -- in memory the session holds that it is logged in
    intro session turns m c hlife hc
    obtain ⟨x, hx, -⟩ := Memory.belongings.holds hlife
    have hnothing := Memory.belongings.holds_nothing_iff hlife
    have hrefused : (∃ m', Memory.remote.call session c m = .ok (.error .notLoggedIn, m')) ↔ x = none :=
      Memory.refused_iff hc hx
    rw [hrefused]
    rw [hx, Option.some_inj] at hnothing
    rw [hnothing]
    exact ⟨fun h t ht => h t ht (), fun h t ht _ => h t ht⟩
  · -- over HTTP it holds the identifier that was issued last
    intro τ base exchange htransport session turns s c reply s' hlife hcall t
    have hk := Http.belongings base exchange
    have hcall' : Http.call base (Http.record exchange) session c s = (reply, s') := Except.ok.inj hcall
    obtain ⟨x, hx, hlatest⟩ := hk.holds hlife
    have hid : s.id? session = x := by rw [Http.Sessions.id?, hx]; rfl
    refine ⟨fun hc => ?_, fun hreply => ?_, fun p hp => ?_, fun id hi => ?_, fun hi => ?_⟩
    · have hnothing := hk.holds_nothing_iff hlife
      rw [hx, Option.some_inj] at hnothing
      rw [Http.refused_iff htransport hc hx hcall', hnothing]
    · subst hreply
      obtain ⟨-, rfl⟩ := Http.eq_of_refused htransport hcall'
      exact Http.sentIn_self
    · have hrequest := Http.request_of_sent hcall' hp
      rw [Http.lookup_sessionHeader]
      cases hc : c.isLogin with
      | true =>
        obtain ⟨user, key, rfl⟩ := Call.isLogin_iff.1 hc
        exact Http.request_login hrequest
      | false =>
        obtain ⟨hsession, hsome⟩ := Http.session_of_request hc hrequest
        obtain ⟨id, hsome⟩ := Option.isSome_iff_exists.1 hsome
        refine ⟨id, hsession.trans hsome, (hlatest id).1 ?_⟩
        rw [← hid, hsome]
    · have hgiven := hk.given hx hcall hi
      rw [Http.Sessions.id?, hgiven]
      rfl
    · have hkept := hk.kept hcall hi
      rw [Http.Sessions.id?, Http.Sessions.id?, hkept]

/-- In memory a wrong password does not help and the right one does. Over HTTP the first call is refused, a
rejected login issues nothing, and after a login that issued an identifier the next call shows one. -/
theorem login_state_of_alice :
    let login (password : String) : Call := .login ⟨"alice", password⟩ .zero
    let m : Memory := (Memory.empty.addAccount "alice" "s3cret").openSession
    let m' : Memory := { m with logins := 1 }
    let m'' : Memory := { m with logins := 2, sessions := [true] }
    let base : Url := ⟨"http", some "gateway", .segments [""], none, none⟩
    let exchange : Http.Exchange (List Http.Response) := fun _ w =>
      (match w.head? with
        | some response => .ok response
        | none => .error (.connection "closed"), w.tail)
    let body (members : Members) : Http.Response := ⟨200, Text.Utf8.ofString (Json.obj members).text⟩
    let s : Http.Sessions (Http.Wire (List Http.Response)) := ⟨[none], ⟨[], [
      body [("status", .str "UserOrPasswordIncorrect")],
      body [("sessionId", .str "s-1"), ("status", .str "Succes")]]⟩⟩
    let step (c : Call) (s : Http.Sessions (Http.Wire (List Http.Response))) :=
      Http.call base (Http.record exchange) 0 c s
    let turn (c : Call) (s : Http.Sessions (Http.Wire (List Http.Response))) :
        Turn (Http.Sessions (Http.Wire (List Http.Response))) := ⟨s, c, (step c s).1, (step c s).2⟩
    let wrong := (step (login "guess") s).2
    let right := (step (login "s3cret") wrong).2
    (∃ u, Memory.remote.call 0 .companies m' = .ok (.error .notLoggedIn, u)) ∧
      (¬ ∃ u, Memory.remote.call 0 .companies m'' = .ok (.error .notLoggedIn, u)) ∧
      (step .companies s).1 = .error .notLoggedIn ∧ Http.sentIn (turn .companies s) = [] ∧
      Http.Issues (turn (login "s3cret") wrong) "s-1" ∧ right.id? 0 = some "s-1" ∧
      (step .companies right).1 ≠ .error .notLoggedIn ∧
      (Http.sentIn (turn .companies right)).length = 1 ∧
      ∀ p ∈ Http.sentIn (turn .companies right), ∃ id, p.1.headers.lookup "X-Session-Id" = some id ∧
        Latest Http.Issues [turn (login "guess") s, turn (login "s3cret") wrong] id := by
  intro login m m' m'' base exchange body s step turn wrong right
  obtain ⟨hmemory, hhttp⟩ := login_state
  have hopened : Life Memory.remote 0 [] m := .opened (s := Memory.empty.addAccount "alice" "s3cret") rfl
  have hwrong : Memory.remote.call 0 (login "guess") m =
      .ok (.ok (Status.other "UserOrPasswordIncorrect"), m') := rfl
  have hright : Memory.remote.call 0 (login "s3cret") m' = .ok (.ok Status.success, m'') := rfl
  have hguess : Life Memory.remote 0 _ m' := .turn hopened hwrong
  have hadmitted : Life Memory.remote 0 _ m'' := .turn hguess hright
  have hadmits : Memory.Admits ⟨m', login "s3cret", .ok .success, m''⟩ :=
    ⟨⟨"alice", "s3cret"⟩, .zero, rfl, by decide⟩
  have hguessed : ∀ t ∈ [(⟨m, login "guess", .ok (.other "UserOrPasswordIncorrect"), m'⟩ : Turn Memory)],
      ¬ Memory.Admits t := by
    rintro t ht ⟨user, key, huser, haccount⟩
    obtain rfl := List.mem_singleton.1 ht
    obtain ⟨rfl, -⟩ := Call.login.inj huser
    revert haccount
    decide
  have htransport : ∀ r w e, (exchange r w).1 = .error e → Http.IsTransport e := by
    intro r w e he
    cases w with
    | nil =>
      obtain rfl := Except.error.inj he
      exact trivial
    | cons response w => simp [exchange] at he
  have hs : Life (Http.remote base (Http.record exchange)) 0 [] s := .opened (s := ⟨[], s.network⟩) rfl
  have hrejected : Life (Http.remote base (Http.record exchange)) 0 [turn (login "guess") s] wrong :=
    .turn hs rfl
  have hissued : Life (Http.remote base (Http.record exchange)) 0
      [turn (login "guess") s, turn (login "s3cret") wrong] right := .turn hrejected rfl
  have hissues : Http.Issues (turn (login "s3cret") wrong) "s-1" :=
    ⟨⟨.post, base.addSegments (Http.path (login "s3cret")), none, Http.body (login "s3cret")⟩,
      body [("sessionId", .str "s-1"), ("status", .str "Succes")], by rfl, rfl, by decide, by decide,
      [("sessionId", .str "s-1"), ("status", .str "Succes")], "Succes", by decide +kernel, rfl, .inl rfl, rfl⟩
  obtain ⟨hrefused, hunsent, -⟩ := hhttp _ base exchange htransport 0 _ _ .companies _ _ hs rfl
  obtain ⟨-, -, -, hgiven, -⟩ := hhttp _ base exchange htransport 0 _ _ (login "s3cret") _ _ hrejected rfl
  obtain ⟨hserved, -, hshown, -⟩ := hhttp _ base exchange htransport 0 _ _ .companies _ _ hissued rfl
  have hfirst : (step .companies s).1 = .error .notLoggedIn := (hrefused rfl).2 (by simp)
  refine ⟨(hmemory 0 _ m' .companies hguess rfl).2 hguessed,
    fun h => (hmemory 0 _ m'' .companies hadmitted rfl).1 h _ (by simp) hadmits,
    hfirst, hunsent hfirst, hissues, hgiven "s-1" hissues,
    fun h => (hserved rfl).1 h _ (by simp) "s-1" hissues, by decide +kernel, hshown⟩

end LedgerFront
