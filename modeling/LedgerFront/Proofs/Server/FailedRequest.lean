import LedgerFront.Proofs.Connection.Record
import LedgerFront.Proofs.Server.Demo
import LedgerFront.Proofs.Server.Effects
import LedgerFront.Server.Basic

/-!
# Requests that fail

A request makes at most one write, as the last of its calls, and is answered with
success when the write is. So a request that is answered in another way has not
changed any data, and neither has one that only asks.

* `Service.changes_act`: the dialogues of the actions.
* `Cache.connect_sameData`: connecting the user changes no data.
* `Server.handle_sameData`: a request, by its response and its method.
-/

namespace LedgerFront

open Memory

namespace Service

variable {svc : Service} {companies : List Company} {company : Int} {e : Entity}

/-! ## The dialogues of the actions -/

theorem reads_fetch (svc : Service) (company : Int) (e : Entity) (p : Params) :
    (svc.fetch company e p).Reads :=
  (Talk.reads_ofRun _).bind fun _ => (Talk.reads_ofExcept _).bind fun _ =>
    Talk.Reads.bind (Talk.changes_ask _) fun _ => Talk.reads_ofRun _

theorem reads_query (svc : Service) (company : Int) (e : Entity) (filter : String) :
    (svc.query company e filter).Reads :=
  (reads_fetch svc company e _).bind fun _ => Talk.reads_pure _

theorem reads_readRow (company : Int) (entity : String) (key : Json) :
    (readRow company entity key).Reads := by
  refine Talk.Reads.bind (Talk.changes_ask _) fun outcome =>
    (Talk.reads_expectSuccess _).bind fun _ => ?_
  cases outcome.row with
  | none => exact Talk.reads_throw _
  | some row => exact Talk.reads_pure row

/-- The response is a success. -/
abbrev Succeeded (r : Response) : Prop := r.isSuccess = true

theorem expectSuccess_bind {α : Type} {s : Status} (h : s = .success) (t : Talk α) :
    (Talk.expectSuccess s >>= fun _ => t) = t := by
  subst h
  rfl

theorem reads_answer (s : Status) (response : Response) :
    (Talk.expectSuccess s >>= fun _ => pure response : Talk Response).Reads :=
  (Talk.reads_expectSuccess s).bind fun _ => Talk.reads_pure response

theorem changes_create (company : Int) (e : Entity) (body : List UInt8) :
    (create company e body).Changes Succeeded := by
  refine (Talk.reads_ofExcept _).bind fun rows => (Talk.changes_ask _).andThen ?_ ?_
  · exact fun outcome => (reads_answer _ _).changes _
  · exact fun outcome h => ⟨_, expectSuccess_bind h _, rfl⟩

theorem changes_patch (svc : Service) (company : Int) (e : Entity) (filter : String)
    (body : List UInt8) : (svc.patch company e filter body).Changes Succeeded := by
  refine (Talk.reads_ofExcept _).bind fun limit => (Talk.reads_ofExcept _).bind fun ops =>
    (reads_fetch svc company e _).bind fun rows => (Talk.reads_ofExcept _).bind fun _ =>
    (Talk.reads_ofExcept _).bind fun rows' => (Talk.changes_ask _).andThen ?_ ?_
  · exact fun outcome => (reads_answer _ _).changes _
  · exact fun outcome h => ⟨_, expectSuccess_bind h _, rfl⟩

theorem changes_delete (svc : Service) (company : Int) (e : Entity) (filter : String) :
    (svc.delete company e filter).Changes Succeeded := by
  refine (Talk.reads_ofExcept _).bind fun limit => (reads_fetch svc company e _).bind fun rows =>
    (Talk.reads_ofExcept _).bind fun _ => (Talk.changes_ask _).andThen ?_ ?_
  · exact fun status => (reads_answer _ _).changes _
  · exact fun status h => ⟨_, expectSuccess_bind h _, rfl⟩

theorem changes_invoice (svc : Service) (company : Int) (kind : OrderKind) (number : Int)
    (o : InvoiceOptions) (returnPdf : Bool) :
    (svc.invoice company kind number o returnPdf).Changes Succeeded := by
  refine (reads_readRow company _ _).bind fun order =>
    Talk.Reads.bind (Talk.changes_ask _) fun lines => (Talk.changes_ask _).andThen ?_ ?_
  · rintro ⟨status, _ | bytes, details⟩
    · exact (reads_answer _ _).changes _
    · exact (reads_answer _ _).changes _
  · rintro ⟨status, _ | bytes, details⟩ h
    · exact ⟨_, expectSuccess_bind h _, rfl⟩
    · exact ⟨_, expectSuccess_bind h _, rfl⟩

theorem changes_journal (svc : Service) (company id : Int) (simulate : Bool) :
    (svc.journal company id simulate).Changes Succeeded := by
  refine (reads_readRow company _ _).bind fun journal => (Talk.changes_ask _).andThen ?_ ?_
  · rintro ⟨status, details⟩
    cases status with
    | noLines => exact (Talk.reads_pure _).changes _
    | success | other => exact (reads_answer _ _).changes _
  · rintro ⟨status, details⟩ h
    obtain rfl : status = .success := h
    exact ⟨_, expectSuccess_bind rfl _, rfl⟩

theorem Changes.onEntity {type : String} {act : Entity → Talk Response} {done : Response → Prop}
    (h : ∀ e, (act e).Changes done) : (svc.onEntity companies company type act).Changes done :=
  (Talk.reads_ofExcept _).bind fun e => (Talk.reads_ofExcept _).bind fun _ => h e

/-- **An action** changes data only if it is answered with success. -/
theorem changes_act (svc : Service) (companies : List Company) (company : Int) (action : Action) :
    (svc.act companies company action).Changes Succeeded := by
  cases action with
  | query type filter =>
    exact Changes.onEntity fun e => (reads_query svc company e filter).changes _
  | create type body => exact Changes.onEntity fun e => changes_create company e body
  | patch type filter body => exact Changes.onEntity fun e => changes_patch svc company e filter body
  | delete type filter => exact Changes.onEntity fun e => changes_delete svc company e filter
  | invoice kind order options returnPdf =>
    exact (Talk.reads_ofExcept _).bind fun _ => changes_invoice svc company kind order options returnPdf
  | journal id simulate => exact (Talk.reads_ofExcept _).bind fun _ => changes_journal svc company id simulate

theorem run_serve {t : Task} {session : Nat} {m : Memory} :
    (svc.serve companies t).run Memory.remote session m =
      ((svc.act companies t.company t.action).run.run Memory.remote session m).map fun p =>
        (match p.1 with | .ok response => response | .error e => .ofError e, p.2) := by
  unfold serve
  rw [Dialogue.run_bind]
  rcases (svc.act companies t.company t.action).run.run Memory.remote session m with why | ⟨e | r, m'⟩
  · rfl
  · rfl
  · rfl

/-- **A task** that is not answered with success, or that only asks, changes no data. -/
theorem serve_sameData {t : Task} {session : Nat} {m m' : Memory} {response : Response}
    (h : (svc.serve companies t).run Memory.remote session m = .ok (response, m'))
    (hkeep : response.isSuccess = false ∨ ∃ type filter, t.action = .query type filter) :
    SameData m m' := by
  rw [run_serve] at h
  cases hact : (svc.act companies t.company t.action).run.run Memory.remote session m with
  | error why => simp [hact, Except.map] at h
  | ok p =>
    obtain ⟨x, m₁⟩ := p
    rw [hact] at h
    obtain ⟨rfl, rfl⟩ := Prod.mk.inj (Except.ok.inj h)
    obtain hfail | ⟨type, filter, hquery⟩ := hkeep
    · obtain hs | ⟨r, rfl, hr⟩ := changes_act svc companies t.company t.action session m x m₁ hact
      · exact hs
      · exact absurd (hfail.symm.trans hr) (by simp)
    · have hreads : (svc.act companies t.company t.action).Reads := by
        rw [hquery]
        exact Changes.onEntity fun e => reads_query svc t.company e filter
      exact hreads.sameData hact

end Service

/-! ## Connecting the user -/

/-- A login makes no writes. -/
theorem Login.not_wrote {key : Uuid} {user : Credentials} {l : Login} {a : Login.Answer}
    {session : Nat} {x : Exchange} (h : l.exchange? key user a = some (session, x))
    (answer : x.call.Answer) : ¬ x.call.Wrote answer := by
  unfold Login.exchange? at h
  split at h
  · obtain ⟨_, rfl⟩ := Prod.mk.inj (Option.some.inj h)
    exact id
  · obtain ⟨_, rfl⟩ := Prod.mk.inj (Option.some.inj h)
    exact id
  · simp at h

theorem Login.ask_sameData {key : Uuid} {user : Credentials} {l : Login} {a : Login.Answer}
    {m m' : Memory} (h : l.ask Memory.remote key user m = .ok (a, m')) : SameData m m' := by
  obtain ⟨_, reply, hopen, _⟩ | ⟨session, x, hx, hcall⟩ := Login.exchange?_of_ask h
  · obtain ⟨_, rfl⟩ := Prod.mk.inj hopen
    exact ⟨rfl, rfl, rfl, rfl, rfl⟩
  · obtain hs | ⟨reply, _, hwrote⟩ := answer_sameData hcall
    · exact hs
    · exact absurd hwrote (Login.not_wrote hx reply)

namespace Cache

variable {m m' : Memory}

theorem runLogin_sameData {id : CallId} {n : Nat} {s s' : Cache}
    (h : runLogin Memory.remote id n s m = .ok (s', m')) : SameData m m' := by
  induction n generalizing s m with
  | zero =>
    obtain ⟨_, rfl⟩ := Prod.mk.inj (Except.ok.inj h)
    exact .refl m
  | succ n ih =>
    unfold runLogin at h
    split at h
    · obtain ⟨_, rfl⟩ := Prod.mk.inj (Except.ok.inj h)
      exact .refl m
    rename_i t _
    split at h
    · rename_i l _
      obtain ⟨⟨a, m₁⟩, hask, h⟩ := bind_eq_ok.1 h
      exact (Login.ask_sameData hask).trans (ih h)
    all_goals exact ih h

/-- **Connecting the user** changes no data. -/
theorem connect_sameData {user : Credentials} {cancelled : Bool} {s s' : Cache} {outcome : Outcome}
    (h : s.connect Memory.remote user cancelled m = .ok (outcome, s', m')) : SameData m m' := by
  have hdone : ∀ {o : Outcome} {c : Cache} {m₁ : Memory}, SameData m m₁ →
      (.ok (o, c, m₁) : Run (Outcome × Cache × Memory)) = .ok (outcome, s', m') → SameData m m' := by
    intro o c m₁ hs h
    obtain ⟨_, h⟩ := Prod.mk.inj (Except.ok.inj h)
    obtain ⟨_, rfl⟩ := Prod.mk.inj h
    exact hs
  unfold connect at h
  dsimp only at h
  -- the call returns at once, or under the lock of its gate, or after the login
  split at h
  · exact hdone (.refl m) h
  split at h
  · exact hdone (.refl m) h
  obtain ⟨⟨s₁, m₁⟩, hlogin, h⟩ := bind_eq_ok.1 h
  split at h
  all_goals exact hdone (runLogin_sameData hlogin) h

end Cache

namespace Server

variable {service : Service} {r : Request} {s s' : Server Memory} {response : Response}

theorem perform_sameData {t : Task} (h : perform service Memory.remote t s = .ok (response, s'))
    (hkeep : response.isSuccess = false ∨ ∃ type filter, t.action = .query type filter) :
    SameData s.remote s'.remote := by
  unfold perform at h
  obtain ⟨⟨outcome, cache, m⟩, hconnect, h⟩ := bind_eq_ok.1 h
  have hs := Cache.connect_sameData hconnect
  cases outcome with
  | error e =>
    obtain ⟨_, rfl⟩ := Prod.mk.inj (Except.ok.inj h)
    exact hs
  | ok e =>
    obtain ⟨⟨response', m'⟩, hserve, h⟩ := bind_eq_ok.1 h
    obtain ⟨rfl, rfl⟩ := Prod.mk.inj (Except.ok.inj h)
    exact hs.trans (Service.serve_sameData hserve hkeep)

/-- A resource that can be asked for with GET or HEAD has no task, or one that only asks. -/
theorem query_of_method {limit : Nat} {route : Route} {t : Task}
    (hmethod : route.methods.contains r.method = true) (hsafe : r.method = "GET" ∨ r.method = "HEAD")
    (ht : Task.ofRequest limit r route = some (.ok t)) :
    ∃ type filter, t.action = .query type filter := by
  cases route with
  | query company type =>
    obtain ⟨user, _, h⟩ := bind_eq_ok.1 (Option.some.inj ht)
    obtain ⟨⟨company', type'⟩, _, h⟩ := bind_eq_ok.1 h
    exact ⟨type', r.queryText, (Except.ok.inj h) ▸ rfl⟩
  | index | health | stats => simp [Task.ofRequest] at ht
  | rows | invoice | journal =>
    rcases hsafe with hsafe | hsafe <;> simp [Route.methods, hsafe] at hmethod

theorem respond_sameData {route : Route} (h : respond service Memory.remote r route s = .ok (response, s'))
    (hmethod : route.methods.contains r.method = true)
    (hkeep : response.isSuccess = false ∨ r.method = "GET" ∨ r.method = "HEAD") :
    SameData s.remote s'.remote := by
  unfold respond at h
  split at h
  · rename_i t ht
    exact perform_sameData h (hkeep.imp_right fun hsafe => query_of_method hmethod hsafe ht)
  · obtain ⟨_, rfl⟩ := Prod.mk.inj (Except.ok.inj h)
    exact .refl _
  · split at h
    all_goals
      obtain ⟨_, rfl⟩ := Prod.mk.inj (Except.ok.inj h)
      exact .refl _

theorem dispatch_sameData (h : dispatch service Memory.remote r s = .ok (response, s'))
    (hkeep : response.isSuccess = false ∨ r.method = "GET" ∨ r.method = "HEAD") :
    SameData s.remote s'.remote := by
  unfold dispatch at h
  split at h
  · obtain ⟨_, rfl⟩ := Prod.mk.inj (Except.ok.inj h)
    exact .refl _
  rename_i route _
  split at h
  · rename_i hmethod
    obtain ⟨⟨response', s₁⟩, hrespond, h⟩ := bind_eq_ok.1 h
    obtain ⟨rfl, rfl⟩ := Prod.mk.inj (Except.ok.inj h)
    -- a response without its content has the same status
    have hstatus : (if r.method = "HEAD" then response'.withoutContent else response').isSuccess =
        response'.isSuccess := by
      split <;> rfl
    rw [hstatus] at hkeep
    exact respond_sameData hrespond hmethod hkeep
  · obtain ⟨_, rfl⟩ := Prod.mk.inj (Except.ok.inj h)
    exact .refl _

/-- **A failed request changes nothing.** If a request is answered with anything but success, or if it
is one that asks, then afterwards all tables, the last row number and the last document number are as
they were. -/
theorem handle_sameData (h : handle service Memory.remote r s = .ok (response, s'))
    (hkeep : response.isSuccess = false ∨ r.method ∈ ["GET", "HEAD", "OPTIONS"]) :
    s'.remote.tables = s.remote.tables ∧ s'.remote.lastRowId = s.remote.lastRowId ∧
      s'.remote.lastDocument = s.remote.lastDocument := by
  have hsame : SameData s.remote s'.remote := by
    unfold handle at h
    split at h
    · obtain ⟨_, rfl⟩ := Prod.mk.inj (Except.ok.inj h)
      exact .refl _
    rename_i hoptions
    obtain ⟨⟨response', s₁⟩, hdispatch, h⟩ := bind_eq_ok.1 h
    obtain ⟨rfl, rfl⟩ := Prod.mk.inj (Except.ok.inj h)
    refine dispatch_sameData hdispatch (hkeep.imp_right fun hsafe => ?_)
    simpa [hoptions] using hsafe
  exact ⟨hsame.tables, hsame.lastRowId, hsame.lastDocument⟩

/-- Two rows match where one may be deleted. -/
theorem handle_sameData_delete :
    let service := Demo.service Demo.debtors .default
    let table := [Demo.debtor 1 "Oslo", Demo.debtor 2 "Oslo"]
    let s := Demo.server (Demo.memory [((1, "debtor"), table)] 2)
    let r : Request :=
      ⟨"DELETE", "/Companies/1/Crud/Debtor", some "city=Oslo&limit=1", Demo.header, []⟩
    ∃ response s', handle service Memory.remote r s = .ok (response, s') ∧ response.status = 409 ∧
      s'.remote.tables = [((1, "debtor"), table)] ∧ s'.remote.lastRowId = 2 ∧
      s'.remote.lastDocument = 0 := by
  intro service table s r
  have hstatus : (handle service Memory.remote r s).toOption.map (·.1.status) = some 409 := by
    decide +kernel
  obtain ⟨⟨response, s'⟩, h, (h409 : response.status = 409)⟩ := toOption_map_eq_some.1 hstatus
  have hfail : response.isSuccess = false := by simp [Response.isSuccess, h409]
  obtain ⟨htables, hrow, hdocument⟩ := handle_sameData h (.inl hfail)
  exact ⟨response, s', h, h409, htables, hrow, hdocument⟩

end Server

end LedgerFront
