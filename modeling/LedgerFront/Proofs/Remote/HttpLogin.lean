import LedgerFront.Proofs.Refusal
import LedgerFront.Proofs.Remote.Life
import LedgerFront.Remote.HttpSession

/-!
# Logins over HTTP

A session over HTTP has the identifier that was issued to it last, and shows it with every request but a
login. What goes over the wire is written down beside the network (`record`), which changes nothing
(`call_record`).

* `Http.Issued`, `Http.Issues`: a response to a login that issues an identifier.
* `Http.call_cases`: what a call does.
* `Http.belongings`: what sessions hold.
* `Http.refused_iff`: a call is refused while nothing is held.
-/

namespace LedgerFront.Http

variable {τ : Type}

/-! ## What is issued -/

section

variable {α : Type} {bytes : List UInt8} {session : Option String} {r : Response} {c : Call} {id : String}

/-- **The response issues the identifier**: it carries out a login, and its body is an object with the
status of a success and the identifier as a text. -/
def Issued (c : Call) (r : Response) (id : String) : Prop :=
  c.isLogin = true ∧ 200 ≤ r.status ∧ r.status < 300 ∧
    ∃ members status, (Text.Utf8.toString? r.body).bind Json.parse? = some (.obj members) ∧
      Members.find? "status" members = some (.str status) ∧ (status = "Succes" ∨ status = "Success") ∧
      Members.find? "sessionId" members = some (.str id)

theorem decodeBody_eq_ok {decode : Json → Option α} {a : α} : decodeBody bytes decode = .ok a ↔
    ∃ j, (Text.Utf8.toString? bytes).bind Json.parse? = some j ∧ decode j = some a := by
  unfold decodeBody
  cases h : (Text.Utf8.toString? bytes).bind Json.parse? with
  | none => simp
  | some j => cases hj : decode j <;> simp [hj]

theorem decodeBody_error {decode : Json → Option α} {e : RemoteError}
    (h : decodeBody bytes decode = .error e) : ∃ m, e = .protocol m := by
  unfold decodeBody at h
  split at h
  · simp at h
  · exact ⟨_, (Except.error.inj h).symm⟩

theorem ofText_eq_success {s : String} : Status.ofText s = .success ↔ s = "Succes" ∨ s = "Success" := by
  unfold Status.ofText
  split <;> simp_all

theorem members?_eq_some {j : Json} {m : Members} : j.members? = some m ↔ j = .obj m := by
  cases j <;> simp [Json.members?]

/-- The status of a response is a success. -/
theorem status_eq_success : status bytes = .ok .success ↔
    ∃ members s, (Text.Utf8.toString? bytes).bind Json.parse? = some (.obj members) ∧
      Members.find? "status" members = some (.str s) ∧ (s = "Succes" ∨ s = "Success") := by
  unfold status
  rw [bind_eq_ok]
  simp only [decodeBody_eq_ok, members?_eq_some, map_eq_ok]
  constructor
  · rintro ⟨members, ⟨_, hbody, rfl⟩, ⟨s, rest⟩, htake, rfl⟩
    unfold takeStatus at htake
    split at htake
    · simp at htake
    · rename_i text hfind
      obtain ⟨htext, -⟩ := Prod.mk.inj (Except.ok.inj htake)
      exact ⟨members, text, hbody, hfind, ofText_eq_success.1 htext⟩
    · simp at htake
  · rintro ⟨members, s, hbody, hfind, hs⟩
    refine ⟨members, ⟨_, hbody, rfl⟩, (.success, Members.erase "status" members), ?_, rfl⟩
    unfold takeStatus
    rw [hfind]
    simp only [ofText_eq_success.2 hs]

/-- The response holds an identifier. -/
theorem issued_eq_ok : issued bytes = .ok id ↔
    ∃ members, (Text.Utf8.toString? bytes).bind Json.parse? = some (.obj members) ∧
      Members.find? "sessionId" members = some (.str id) := by
  unfold issued
  rw [bind_eq_ok]
  simp only [decodeBody_eq_ok, members?_eq_some]
  constructor
  · rintro ⟨members, ⟨_, hbody, rfl⟩, h⟩
    split at h
    · rename_i text htext
      obtain ⟨j, hfind, hj⟩ := Option.bind_eq_some_iff.1 htext
      obtain rfl : text = id := Except.ok.inj h
      cases j with
      | str s =>
        obtain rfl : s = text := Option.some.inj hj
        exact ⟨members, hbody, hfind⟩
      | _ => simp [Json.str?] at hj
    · simp [throw, throwThe, MonadExceptOf.throw] at h
  · rintro ⟨members, hbody, hfind⟩
    refine ⟨members, ⟨_, hbody, rfl⟩, ?_⟩
    rw [hfind]
    rfl

/-- A response to a login issues what its body says. -/
theorem issued_iff (hc : c.isLogin = true) (hr : r.isSuccess = true) :
    Issued c r id ↔ status r.body = .ok .success ∧ issued r.body = .ok id := by
  obtain ⟨hlow, hhigh⟩ : 200 ≤ r.status ∧ r.status < 300 := by simpa [Response.isSuccess] using hr
  rw [status_eq_success, issued_eq_ok]
  constructor
  · rintro ⟨-, -, -, members, s, hbody, hstatus, hs, hid⟩
    exact ⟨⟨members, s, hbody, hstatus, hs⟩, members, hbody, hid⟩
  · rintro ⟨⟨members, s, hbody, hstatus, hs⟩, members', hbody', hid⟩
    obtain rfl : members = members' := Json.obj.inj (Option.some.inj (hbody.symm.trans hbody'))
    exact ⟨hc, hlow, hhigh, members, s, hbody, hstatus, hs, hid⟩

theorem loginReply_of_issued (hstatus : status bytes = .ok .success) (hid : issued bytes = .ok id) :
    (loginReply session bytes).2 = some id := by
  simp only [loginReply, hstatus, hid]

theorem loginReply_of_not_issued (h : ∀ id, ¬ (status bytes = .ok .success ∧ issued bytes = .ok id)) :
    (loginReply session bytes).2 = session := by
  unfold loginReply
  split
  · rename_i hstatus
    split
    · rename_i id hid
      exact absurd ⟨hstatus, hid⟩ (h id)
    · rfl
  · rfl

theorem reply_of_login {user : Credentials} {key : Uuid} (hr : r.isSuccess = true) :
    reply session r (.login user key) = loginReply session r.body := by
  unfold reply
  rw [if_pos hr]

theorem reply_of_failure (hr : ¬ r.isSuccess = true) :
    reply session r c = (.error (.remote r.status (Text.Utf8.toStringLossy r.body)), session) := by
  unfold reply
  rw [if_neg hr]

/-- A successful response to any call but a login holds its answer. -/
theorem reply_of_call (hc : c.isLogin = false) (hr : r.isSuccess = true) :
    reply session r c = (answer r.body c, session) := by
  unfold reply
  rw [if_pos hr]
  cases c with
  | login user key => simp [Call.isLogin] at hc
  | _ => rfl

/-- **An identifier that is issued** is the session's from then on. -/
theorem reply_snd_of_issued (h : Issued c r id) : (reply session r c).2 = some id := by
  have hc : c.isLogin = true := h.1
  have hr : r.isSuccess = true := by simp [Response.isSuccess, h.2.1, h.2.2.1]
  obtain ⟨hstatus, hid⟩ := (issued_iff hc hr).1 h
  obtain ⟨user, key, rfl⟩ := Call.isLogin_iff.1 hc
  rw [reply_of_login hr]
  exact loginReply_of_issued hstatus hid

/-- **No other response** changes the identifier. -/
theorem reply_snd_of_not_issued (h : ∀ id, ¬ Issued c r id) : (reply session r c).2 = session := by
  by_cases hr : r.isSuccess = true
  · cases hc : c.isLogin with
    | true =>
      obtain ⟨user, key, rfl⟩ := Call.isLogin_iff.1 hc
      rw [reply_of_login hr]
      exact loginReply_of_not_issued fun id hid => h id ((issued_iff hc hr).2 hid)
    | false => rw [reply_of_call hc hr]
  · rw [reply_of_failure hr]

end

/-! ## Failures -/

section

variable {bytes : List UInt8} {session : Option String} {r : Response} {c : Call} {e : RemoteError}

theorem takeStatus_error {m : Members} (h : takeStatus m = .error e) : ∃ text, e = .protocol text := by
  unfold takeStatus at h
  split at h
  · exact ⟨_, (Except.error.inj h).symm⟩
  · simp at h
  · exact ⟨_, (Except.error.inj h).symm⟩

theorem takePdf_error {m : Members} (h : takePdf m = .error e) : ∃ text, e = .protocol text := by
  unfold takePdf at h
  dsimp only at h
  split at h
  · split at h
    · simp at h
    · exact ⟨_, (Except.error.inj h).symm⟩
  · simp at h

theorem status_error (h : status bytes = .error e) : ∃ text, e = .protocol text := by
  rcases bind_eq_error.1 h with hbody | ⟨m, -, htake⟩
  · exact decodeBody_error hbody
  · cases htaken : takeStatus m with
    | error e' =>
      obtain rfl : e' = e := by simpa [htaken, Except.map] using htake
      exact takeStatus_error htaken
    | ok p => simp [htaken, Except.map] at htake

theorem issued_error (h : issued bytes = .error e) : ∃ text, e = .protocol text := by
  rcases bind_eq_error.1 h with hbody | ⟨m, -, hid⟩
  · exact decodeBody_error hbody
  · split at hid
    · simp [pure, Except.pure] at hid
    · exact ⟨_, (Except.error.inj hid).symm⟩

/-- An answer that cannot be read is a fault of the protocol. -/
theorem answer_error (h : answer bytes c = .error e) : ∃ text, e = .protocol text := by
  cases c with
  | login user key => exact status_error h
  | delete company entity rows => exact status_error h
  | invoice company request =>
    rcases bind_eq_error.1 h with hbody | ⟨m, -, h⟩
    · exact decodeBody_error hbody
    rcases bind_eq_error.1 h with hstatus | ⟨p, -, h⟩
    · exact takeStatus_error hstatus
    rcases bind_eq_error.1 h with hpdf | ⟨q, -, h⟩
    · exact takePdf_error hpdf
    · simp [pure, Except.pure] at h
  | _ => exact decodeBody_error h

theorem loginReply_error (h : (loginReply session bytes).1 = .error e) : ∃ text, e = .protocol text := by
  unfold loginReply at h
  split at h
  · split at h
    · simp at h
    · rename_i e' he
      obtain rfl : e' = e := Except.error.inj h
      exact issued_error he
  · exact status_error h

/-- **A response never says that the session is not logged in.** -/
theorem reply_ne_notLoggedIn : (reply session r c).1 ≠ .error .notLoggedIn := by
  intro h
  by_cases hr : r.isSuccess = true
  · have hprotocol : ∃ text, RemoteError.notLoggedIn = .protocol text := by
      cases hc : c.isLogin with
      | true =>
        obtain ⟨user, key, rfl⟩ := Call.isLogin_iff.1 hc
        rw [reply_of_login hr] at h
        exact loginReply_error h
      | false =>
        rw [reply_of_call hc hr] at h
        exact answer_error h
    simp at hprotocol
  · rw [reply_of_failure hr] at h
    have herror := Except.error.inj h
    simp at herror

end

/-! ## Requests -/

section

variable {base : Url} {session : Option String} {c : Call} {r : Request} {e : RemoteError}

theorem lookup_sessionHeader (r : Request) : r.headers.lookup "X-Session-Id" = r.session := by
  unfold Request.headers sessionHeader
  cases r.session <;> cases r.body <;> rfl

theorem request_login {user : Credentials} {key : Uuid} (h : request base session (.login user key) = .ok r) :
    r.session = none := by
  obtain rfl := Except.ok.inj h
  rfl

/-- A request shows the identifier, unless it is a login. -/
theorem session_of_request (hc : c.isLogin = false) (h : request base session c = .ok r) :
    r.session = session ∧ session.isSome = true := by
  unfold request at h
  split at h
  · simp [Call.isLogin] at hc
  · simp at h
  · split at h
    · obtain rfl := Except.ok.inj h
      exact ⟨rfl, rfl⟩
    · simp at h

theorem request_of_none (hc : c.isLogin = false) : request base none c = .error .notLoggedIn := by
  cases c with
  | login user key => simp [Call.isLogin] at hc
  | _ => rfl

/-- With an identifier no request is refused. -/
theorem request_ne_notLoggedIn (id : String) : request base (some id) c ≠ .error .notLoggedIn := by
  intro h
  unfold request at h
  split at h
  · simp at h
  · rename_i hsession
    simp at hsession
  · split at h
    · simp at h
    · simp at h

end

/-! ## Calls -/

/-- What went over the wire, beside the network. -/
structure Wire (τ : Type) where
  sent : List (Request × Except RemoteError Response)
  network : τ

/-- An exchange that is written down. -/
def record (exchange : Exchange τ) : Exchange (Wire τ) := fun r w =>
  let (result, network) := exchange r w.network
  (result, ⟨w.sent ++ [(r, result)], network⟩)

/-- The remote side without what was written down. -/
def Sessions.unrecorded (s : Sessions (Wire τ)) : Sessions τ := ⟨s.ids, s.network.network⟩

/-- **Writing down changes nothing**: a call has the same reply and does the same. -/
theorem call_record (base : Url) (exchange : Exchange τ) (session : Nat) (c : Call) (s : Sessions (Wire τ)) :
    (call base (record exchange) session c s).1 = (call base exchange session c s.unrecorded).1 ∧
      (call base (record exchange) session c s).2.unrecorded =
        (call base exchange session c s.unrecorded).2 := by
  have hid : s.unrecorded.id? session = s.id? session := rfl
  unfold call
  rw [hid]
  cases request base (s.id? session) c with
  | error e => exact ⟨rfl, rfl⟩
  | ok r =>
    have hnetwork : s.unrecorded.network = s.network.network := rfl
    dsimp only [record]
    rw [hnetwork]
    rcases exchange r s.network.network with ⟨e | response, network⟩
    · exact ⟨rfl, rfl⟩
    · exact ⟨rfl, rfl⟩

/-- What was sent in a turn, with what came back. -/
def sentIn (t : Turn (Sessions (Wire τ))) : List (Request × Except RemoteError Response) :=
  t.after.network.sent.drop t.before.network.sent.length

/-- **The turn issues the identifier.** -/
def Issues (t : Turn (Sessions (Wire τ))) (id : String) : Prop :=
  ∃ r response, sentIn t = [(r, .ok response)] ∧ Issued t.call response id

/-- What a failed exchange says: anything but that the session is not logged in or that something is not
supported. -/
def IsTransport : RemoteError → Prop
  | .connection _ | .timeout _ | .remote .. | .protocol _ => True
  | .notLoggedIn | .unsupported _ => False

section

variable {base : Url} {exchange : Exchange τ} {session : Nat} {c : Call} {reply : Reply c}
  {s s' : Sessions (Wire τ)}

/-- **What a call does**: nothing if there is no request, and otherwise it sends one and either fails or
replies with what comes back. -/
theorem call_cases (h : call base (record exchange) session c s = (reply, s')) :
    (∃ e, request base (s.id? session) c = .error e ∧ reply = .error e ∧ s' = s) ∨
      ∃ r, request base (s.id? session) c = .ok r ∧
        ((∃ e, (exchange r s.network.network).1 = .error e ∧ reply = .error e ∧ s'.ids = s.ids ∧
            s'.network.sent = s.network.sent ++ [(r, .error e)]) ∨
          ∃ response, reply = (Http.reply (s.id? session) response c).1 ∧
            s'.ids = s.ids.set session (Http.reply (s.id? session) response c).2 ∧
            s'.network.sent = s.network.sent ++ [(r, .ok response)]) := by
  unfold call at h
  split at h
  · rename_i e he
    obtain ⟨rfl, rfl⟩ := Prod.mk.inj h
    exact .inl ⟨e, he, rfl, rfl⟩
  · rename_i r hr
    refine .inr ⟨r, hr, ?_⟩
    unfold record at h
    dsimp only at h
    cases hresult : (exchange r s.network.network).1 with
    | error e =>
      rw [hresult] at h
      obtain ⟨rfl, rfl⟩ := Prod.mk.inj h
      exact .inl ⟨e, rfl, rfl, rfl, rfl⟩
    | ok response =>
      rw [hresult] at h
      obtain ⟨rfl, rfl⟩ := Prod.mk.inj h
      exact .inr ⟨response, rfl, rfl, rfl⟩

theorem sentIn_of_append {more : List (Request × Except RemoteError Response)}
    (h : s'.network.sent = s.network.sent ++ more) : sentIn ⟨s, c, reply, s'⟩ = more := by
  simp only [sentIn, h, List.drop_left]

theorem sentIn_self : sentIn ⟨s, c, reply, s⟩ = [] := by
  simp [sentIn]

/-- What a turn that issues an identifier leaves in its session. -/
theorem ids_of_issues {id : String} (h : call base (record exchange) session c s = (reply, s'))
    (hi : Issues ⟨s, c, reply, s'⟩ id) : s'.ids = s.ids.set session (some id) := by
  obtain ⟨r, response, hsent, hissued⟩ := hi
  rcases call_cases h with ⟨e, -, -, rfl⟩ | ⟨q, -, ⟨e, -, -, -, hfailed⟩ | ⟨response', -, hids, hreplied⟩⟩
  · simp [sentIn_self] at hsent
  · simp [sentIn_of_append hfailed] at hsent
  · -- the one response of the turn is the one that issued the identifier
    obtain ⟨-, rfl⟩ : q = r ∧ response' = response := by simpa [sentIn_of_append hreplied] using hsent
    rw [hids, reply_snd_of_issued hissued]

/-- What any other turn leaves there. -/
theorem ids_of_not_issues (h : call base (record exchange) session c s = (reply, s'))
    (hi : ∀ id, ¬ Issues ⟨s, c, reply, s'⟩ id) :
    s'.ids = s.ids ∨ s'.ids = s.ids.set session (s.id? session) := by
  rcases call_cases h with ⟨e, -, -, rfl⟩ | ⟨q, -, ⟨e, -, -, hids, -⟩ | ⟨response, -, hids, hreplied⟩⟩
  · exact .inl rfl
  · exact .inl hids
  · have hnot : ∀ id, ¬ Issued c response id := fun id hid =>
      hi id ⟨q, response, sentIn_of_append hreplied, hid⟩
    rw [reply_snd_of_not_issued hnot] at hids
    exact .inr hids

theorem set_id? (s : Sessions (Wire τ)) (session : Nat) : s.ids.set session (s.id? session) = s.ids := by
  unfold Sessions.id?
  cases hx : s.ids[session]? with
  | none => exact List.set_eq_of_length_le (List.getElem?_eq_none_iff.1 hx)
  | some x =>
    obtain ⟨hlt, rfl⟩ := List.getElem?_eq_some_iff.1 hx
    exact List.set_getElem_self hlt

/-- **What sessions hold over HTTP**: the identifier that was issued to them. -/
theorem belongings (base : Url) (exchange : Exchange τ) :
    Belongings (remote base (record exchange)) (fun session s => s.ids[session]?) Issues where
  opened := by
    intro session s s' h
    obtain ⟨hnumber, rfl⟩ := Prod.mk.inj h
    obtain rfl := Except.ok.inj hnumber
    simp
  openOther := by
    intro session s s' r x h hx
    obtain ⟨-, rfl⟩ := Prod.mk.inj h
    obtain ⟨hlt, -⟩ := List.getElem?_eq_some_iff.1 hx
    exact (List.getElem?_append_left hlt).trans hx
  callOther := by
    intro session other s s' c reply hne h
    have hcall : call base (record exchange) other c s = (reply, s') := Except.ok.inj h
    rcases call_cases hcall with ⟨e, -, -, rfl⟩ | ⟨q, -, ⟨e, -, -, hids, -⟩ | ⟨response, -, hids, -⟩⟩
    · rfl
    · rw [hids]
    · rw [hids, List.getElem?_set_ne hne]
  given := by
    intro session s s' c reply i x hx h hi
    obtain ⟨hlt, -⟩ := List.getElem?_eq_some_iff.1 hx
    rw [ids_of_issues (Except.ok.inj h) hi, List.getElem?_set_self hlt]
  kept := by
    intro session s s' c reply h hi
    rcases ids_of_not_issues (Except.ok.inj h) hi with hids | hids
    · rw [hids]
    · rw [hids, set_id?]

/-! ## Refusals -/

variable {x : Option String}

/-- A call whose exchange says no such thing is refused only without a request. -/
theorem eq_of_refused (htransport : ∀ r t e, (exchange r t).1 = .error e → IsTransport e)
    (h : call base (record exchange) session c s = (.error .notLoggedIn, s')) :
    request base (s.id? session) c = .error .notLoggedIn ∧ s' = s := by
  rcases call_cases h with ⟨e, he, hreply, rfl⟩ | ⟨q, -, ⟨e, he, hreply, -, -⟩ | ⟨response, hreply, -, -⟩⟩
  · obtain rfl := Except.error.inj hreply
    exact ⟨he, rfl⟩
  · obtain rfl := Except.error.inj hreply
    exact absurd (htransport _ _ _ he) id
  · exact absurd hreply.symm reply_ne_notLoggedIn

/-- **A call is refused** exactly while its session holds nothing. -/
theorem refused_iff (htransport : ∀ r t e, (exchange r t).1 = .error e → IsTransport e)
    (hc : c.isLogin = false) (hx : s.ids[session]? = some x)
    (h : call base (record exchange) session c s = (reply, s')) :
    reply = .error .notLoggedIn ↔ x = none := by
  have hid : s.id? session = x := by rw [Sessions.id?, hx]; rfl
  constructor
  · rintro rfl
    obtain ⟨hrequest, -⟩ := eq_of_refused htransport h
    cases x with
    | none => rfl
    | some id =>
      -- an identifier that fits no header fails as well, but not in this way
      rw [hid] at hrequest
      exact absurd hrequest (request_ne_notLoggedIn id)
  · rintro rfl
    unfold call at h
    rw [hid, request_of_none hc] at h
    exact (Prod.mk.inj h).1.symm

/-- What is sent in a turn is the request of the call. -/
theorem request_of_sent (h : call base (record exchange) session c s = (reply, s'))
    {p : Request × Except RemoteError Response} (hp : p ∈ sentIn ⟨s, c, reply, s'⟩) :
    request base (s.id? session) c = .ok p.1 := by
  rcases call_cases h with ⟨e, -, -, rfl⟩ | ⟨q, hq, ⟨e, -, -, -, hfailed⟩ | ⟨response, -, -, hreplied⟩⟩
  · simp [sentIn_self] at hp
  · obtain rfl : p = (q, .error e) := by simpa [sentIn_of_append hfailed] using hp
    exact hq
  · obtain rfl : p = (q, .ok response) := by simpa [sentIn_of_append hreplied] using hp
    exact hq

end

end LedgerFront.Http
