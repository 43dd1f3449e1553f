import LedgerFront.Proofs.Refusal
import LedgerFront.Server.Basic

/-!
# Requests and their tasks

A request that has a task is answered with what the task comes to. Every other request is answered
at once, and leaves the server as it is.

* `Request.task?`: the task of a request, for the user whose credentials it has.
* `Server.handle_of_task`, `Server.handle_of_noTask`: what a request comes to.
-/

namespace LedgerFront

/-- The resource is one of a company. -/
def Route.isScoped : Route → Bool
  | .index | .health | .stats => false
  | .query .. | .rows .. | .invoice .. | .journal .. => true

namespace Request

/-- The request is to a resource of a company, and asks for more than its options. -/
def isScoped (r : Request) : Bool := r.method != "OPTIONS" && (Route.ofPath? r.path).any Route.isScoped

/-- The task of a request, unless it is answered without one. -/
def task? (limit : Nat) (r : Request) : Option Task :=
  if r.method = "OPTIONS" then none
  else
    (Route.ofPath? r.path).bind fun route =>
      if route.methods.contains r.method then
        match Task.ofRequest limit r route with
        | some (.ok t) => some t
        | _ => none
      else none

end Request

theorem Response.ofError_status (e : RequestError) : (ofError e).status = e.httpStatus := by
  cases e <;> rfl

theorem Response.ofError_isSuccess (e : RequestError) : (Response.ofError e).isSuccess = false := by
  cases e <;> rfl

namespace Task

variable {limit : Nat} {r : Request} {route : Route} {t : Task} {response : Response}

theorem of_rowsTask {user : Credentials} {company : Int} {type : String}
    (h : rowsTask limit r user company type = .ok t) : t.user = user ∧ t.company = company := by
  unfold rowsTask bodyWithin at h
  split at h
  · split at h
    · simp [Except.map] at h
    · exact (Except.ok.inj h) ▸ ⟨rfl, rfl⟩
  · split at h
    · simp [Except.map] at h
    · exact (Except.ok.inj h) ▸ ⟨rfl, rfl⟩
  · exact (Except.ok.inj h) ▸ ⟨rfl, rfl⟩

/-- **A task is for the user** whose credentials the request has. -/
theorem credentials_of_ofRequest (h : ofRequest limit r route = some (.ok t)) :
    Authorization.credentials r = .ok t.user := by
  cases route with
  | index | health | stats => simp [ofRequest] at h
  | query company type =>
    obtain ⟨user, huser, h⟩ := bind_eq_ok.1 (Option.some.inj h)
    obtain ⟨_, _, h⟩ := bind_eq_ok.1 h
    exact (Except.ok.inj h) ▸ mapError_eq_ok.1 huser
  | rows company type =>
    obtain ⟨user, huser, h⟩ := bind_eq_ok.1 (Option.some.inj h)
    obtain ⟨_, _, h⟩ := bind_eq_ok.1 h
    exact (of_rowsTask h).1 ▸ mapError_eq_ok.1 huser
  | invoice kind company order =>
    obtain ⟨user, huser, h⟩ := bind_eq_ok.1 (Option.some.inj h)
    obtain ⟨_, _, h⟩ := bind_eq_ok.1 h
    obtain ⟨_, _, h⟩ := bind_eq_ok.1 h
    exact (Except.ok.inj h) ▸ mapError_eq_ok.1 huser
  | journal company journal =>
    obtain ⟨user, huser, h⟩ := bind_eq_ok.1 (Option.some.inj h)
    obtain ⟨_, _, h⟩ := bind_eq_ok.1 h
    obtain ⟨_, _, h⟩ := bind_eq_ok.1 h
    exact (Except.ok.inj h) ▸ mapError_eq_ok.1 huser

theorem fails_of_rowsTask {user : Credentials} {company : Int} {type : String}
    (h : rowsTask limit r user company type = .error response) : response.isSuccess = false := by
  unfold rowsTask bodyWithin at h
  split at h
  · split at h
    · exact (Except.error.inj h) ▸ rfl
    · simp [Except.map] at h
  · split at h
    · exact (Except.error.inj h) ▸ rfl
    · simp [Except.map] at h
  · simp at h

/-- Credentials and path are looked at in the same way for all tasks. -/
theorem fails_or_rest {α : Type} {path : Except PathProblem α}
    {rest : Credentials → α → Except Response Task}
    (h : (do
      let user ← (Authorization.credentials r).mapError unauthorized
      let a ← path.mapError badPath
      rest user a) = .error response) :
    response.isSuccess = false ∨ ∃ user a, rest user a = .error response := by
  obtain h | ⟨user, _, h⟩ := bind_eq_error.1 h
  · obtain ⟨p, _, rfl⟩ := mapError_eq_error.1 h
    exact .inl (Response.ofError_isSuccess _)
  obtain h | ⟨a, _, h⟩ := bind_eq_error.1 h
  · obtain ⟨p, _, rfl⟩ := mapError_eq_error.1 h
    exact .inl rfl
  · exact .inr ⟨user, a, h⟩

theorem fails_of_options {α : Type} {options : Except RequestError α} {rest : α → Task}
    (h : (do
      let o ← options.mapError Response.ofError
      pure (rest o)) = .error response) : response.isSuccess = false := by
  obtain h | ⟨_, _, h⟩ := bind_eq_error.1 h
  · obtain ⟨e, _, rfl⟩ := mapError_eq_error.1 h
    exact Response.ofError_isSuccess e
  · simp [pure, Except.pure] at h

/-- Whatever refuses a request, it is not answered with success. -/
theorem fails_of_ofRequest (h : ofRequest limit r route = some (.error response)) :
    response.isSuccess = false := by
  cases route with
  | index | health | stats => simp [ofRequest] at h
  | query company type =>
    obtain h | ⟨_, _, h⟩ := fails_or_rest (Option.some.inj h)
    · exact h
    · simp [pure, Except.pure] at h
  | rows company type =>
    obtain h | ⟨_, _, h⟩ := fails_or_rest (Option.some.inj h)
    · exact h
    · exact fails_of_rowsTask h
  | invoice kind company order =>
    obtain h | ⟨_, _, h⟩ := fails_or_rest (Option.some.inj h)
    · exact h
    · exact fails_of_options h
  | journal company journal =>
    obtain h | ⟨_, _, h⟩ := fails_or_rest (Option.some.inj h)
    · exact h
    · exact fails_of_options h

theorem ofRequest_of_scoped (h : route.isScoped = true) : ofRequest limit r route ≠ none := by
  cases route with
  | index | health | stats => simp [Route.isScoped] at h
  | query | rows | invoice | journal => simp [ofRequest]

end Task

namespace Server

variable {σ : Type} {service : Service} {remote : Remote σ} {r : Request} {s : Server σ} {t : Task}

/-- The response to a request as it is sent. -/
def sent (r : Request) (response : Response) : Response :=
  { (if r.method = "HEAD" then response.withoutContent else response) with
    requestId := some (requestId r) }

theorem sent_status (r : Request) (response : Response) : (sent r response).status = response.status := by
  unfold sent
  split <;> rfl

theorem sent_content (h : r.method ≠ "HEAD") (response : Response) :
    (sent r response).content = response.content := by
  unfold sent
  rw [if_neg h]

/-- A response without its content has the same status. -/
@[simp] theorem sent_isSuccess (r : Request) (response : Response) :
    (sent r response).isSuccess = response.isSuccess := by
  unfold sent
  split <;> rfl

/-- A task is one of a resource that takes the method. -/
theorem route_of_task {limit : Nat} (h : r.task? limit = some t) :
    r.method ≠ "OPTIONS" ∧ ∃ route, Route.ofPath? r.path = some route ∧
      route.methods.contains r.method = true ∧ Task.ofRequest limit r route = some (.ok t) := by
  unfold Request.task? at h
  split at h
  · simp at h
  rename_i hoptions
  obtain ⟨route, hroute, h⟩ := Option.bind_eq_some_iff.1 h
  split at h
  · rename_i hmethod
    split at h
    · rename_i t' ht
      exact ⟨hoptions, route, hroute, hmethod, (Option.some.inj h) ▸ ht⟩
    · simp at h
  · simp at h

theorem credentials_of_task {limit : Nat} (h : r.task? limit = some t) :
    Authorization.credentials r = .ok t.user := by
  obtain ⟨-, _, -, -, ht⟩ := route_of_task h
  exact Task.credentials_of_ofRequest ht

/-- A task of a user who gets no connection. -/
theorem perform_of_refused {e : ConnectionError} {cache : Cache} {rest : σ}
    (h : s.cache.connect remote t.user s.stopping s.remote = .ok (.error e, cache, rest)) :
    perform service remote t s = .ok (.ofError (.ofConnection e), ⟨cache, rest, s.stopping⟩) := by
  unfold perform
  rw [h]
  rfl

/-- A task of a user who gets a connection: its dialogue is held there. -/
theorem perform_of_connected {e : Entry} {cache : Cache} {rest : σ}
    (h : s.cache.connect remote t.user s.stopping s.remote = .ok (.ok e, cache, rest)) :
    perform service remote t s =
      ((service.serve e.connected.companies t).run remote e.connected.session rest).map
        fun p => (p.1, ⟨cache, p.2, s.stopping⟩) := by
  unfold perform
  rw [h]
  cases hserve : (service.serve e.connected.companies t).run remote e.connected.session rest with
  | error why => simp only [bind, Except.bind, Except.map, hserve]
  | ok p => simp only [bind, Except.bind, Except.map, hserve, pure, Except.pure]

/-- The response of a resource to a method that it takes, as it is sent. -/
theorem handle_of_route {route : Route} (hoptions : r.method ≠ "OPTIONS")
    (hroute : Route.ofPath? r.path = some route) (hmethod : route.methods.contains r.method = true) :
    handle service remote r s = (respond service remote r route s).map fun p => (sent r p.1, p.2) := by
  unfold handle dispatch
  rw [if_neg hoptions, hroute]
  simp only [hmethod, if_true]
  cases respond service remote r route s <;> rfl

/-- **A request with a task** is answered with what the task comes to. -/
theorem handle_of_task (h : r.task? service.bodyLimit = some t) :
    handle service remote r s =
      (perform service remote t s).map fun p => (sent r p.1, p.2) := by
  obtain ⟨hoptions, route, hroute, hmethod, ht⟩ := route_of_task h
  rw [handle_of_route hoptions hroute hmethod]
  unfold respond
  rw [ht]

/-- The response of a resource that is open to everybody. -/
theorem respond_of_open (remote : Remote σ) {route : Route}
    (h : Task.ofRequest service.bodyLimit r route = none) :
    ∃ answer : Cache → Response, ∀ s : Server σ,
      respond service remote r route s = .ok (answer s.cache, s) := by
  unfold respond
  rw [h]
  cases route with
  | stats => exact ⟨fun c => .ok (stats c), fun s => rfl⟩
  | health => exact ⟨fun _ => .ok (.ofPairs [("status", .str "ok")]), fun s => rfl⟩
  | index | query | rows | invoice | journal => exact ⟨fun _ => .ok (index service.schemas), fun s => rfl⟩

theorem handle_of_respond {route : Route} {response : Response} (hoptions : r.method ≠ "OPTIONS")
    (hroute : Route.ofPath? r.path = some route) (hmethod : route.methods.contains r.method = true)
    (h : respond service remote r route s = .ok (response, s)) :
    handle service remote r s = .ok (sent r response, s) := by
  rw [handle_of_route hoptions hroute hmethod, h]
  rfl

/-- **A request without a task** is answered at once by what the connections are, and leaves the server
as it is. To a resource of a company it fails. -/
theorem handle_of_noTask (remote : Remote σ) (h : r.task? service.bodyLimit = none) :
    ∃ answer : Cache → Response,
      (∀ s, handle service remote r s = .ok (answer s.cache, s)) ∧
      (r.isScoped = true → ∀ c, (answer c).isSuccess = false) := by
  by_cases hoptions : r.method = "OPTIONS"
  · refine ⟨fun _ => { Response.empty 200 with allow := (Route.ofPath? r.path).map Route.allow },
      fun s => if_pos hoptions, fun hr => ?_⟩
    simp [Request.isScoped, hoptions] at hr
  cases hroute : Route.ofPath? r.path with
  | none =>
    refine ⟨fun _ => { Response.empty 404 with requestId := some (requestId r) }, fun s => ?_,
      fun _ _ => rfl⟩
    unfold handle dispatch
    rw [if_neg hoptions, hroute]
    rfl
  | some route =>
    by_cases hmethod : route.methods.contains r.method = true
    · cases hof : Task.ofRequest service.bodyLimit r route with
      | none =>
        obtain ⟨answer, hanswer⟩ := respond_of_open remote hof
        refine ⟨fun c => sent r (answer c),
          fun s => handle_of_respond hoptions hroute hmethod (hanswer s), fun hr => ?_⟩
        have hscoped : route.isScoped = true := by
          simpa [Request.isScoped, hroute] using (Bool.and_eq_true_iff.1 hr).2
        exact absurd hof (Task.ofRequest_of_scoped hscoped)
      | some outcome =>
        cases outcome with
        | ok t => simp [Request.task?, hoptions, hroute, hof, List.contains_iff_mem.1 hmethod] at h
        | error response =>
          refine ⟨fun _ => sent r response,
            fun s => handle_of_respond hoptions hroute hmethod (by unfold respond; rw [hof]), fun _ _ => ?_⟩
          rw [sent_isSuccess]
          exact Task.fails_of_ofRequest hof
    · refine ⟨fun _ => { Response.empty 405 with
        allow := some route.allow, requestId := some (requestId r) }, fun s => ?_, fun _ _ => rfl⟩
      unfold handle dispatch
      rw [if_neg hoptions, hroute]
      simp only [hmethod]
      rfl

end Server

end LedgerFront
