import LedgerFront.Proofs.Filter.Params
import LedgerFront.Proofs.Memory.ByNumber
import LedgerFront.Proofs.Memory.Tables
import LedgerFront.Proofs.Server.BulkWrites
import LedgerFront.Proofs.Server.Demo
import LedgerFront.Proofs.Server.FailedRequest
import LedgerFront.Proofs.Server.Scope

/-!
# The rows that match

A patch and a deletion work on the rows that a query with the same filter is answered with. When they
succeed, exactly these rows are changed in their places, or gone, and everything else is as the query
leaves it.

* `Talk.Reaches`: the value that a dialogue comes to, with `bind` and `ask`.
* `Request.AsksFor`: a query for the rows that another request is about.
* `Server.matching`: both requests see the same table.
* `Server.handle_patch`, `Server.handle_delete`: the table afterwards.
-/

namespace LedgerFront

open Memory

/-! ## Dialogues that go through -/

namespace Talk

variable {α β σ : Type} {remote : Remote σ} {session : Nat} {s s' : σ} {a b : α}

/-- The dialogue comes to this value, with the remote side in this state. -/
def Reaches (remote : Remote σ) (session : Nat) (t : Talk α) (s : σ) (a : α) (s' : σ) : Prop :=
  t.run.run remote session s = .ok (.ok a, s')

theorem reaches_bind {t : Talk α} {f : α → Talk β} {b : β} :
    Reaches remote session (t >>= f) s b s' ↔
      ∃ a s₁, Reaches remote session t s a s₁ ∧ Reaches remote session (f a) s₁ b s' := by
  unfold Reaches
  rw [run_bind]
  constructor
  · intro h
    obtain ⟨⟨_ | a, s₁⟩, ht, h⟩ := bind_eq_ok.1 h
    · simp at h
    · exact ⟨a, s₁, ht, h⟩
  · rintro ⟨a, s₁, ht, hf⟩
    exact bind_eq_ok.2 ⟨(.ok a, s₁), ht, hf⟩

theorem reaches_pure : Reaches remote session (pure a) s b s' ↔ b = a ∧ s' = s := by
  change (.ok (.ok a, s) : Run (Except RequestError α × σ)) = .ok (.ok b, s') ↔ _
  simp [eq_comm]

theorem reaches_ofExcept {e : Except RequestError α} :
    Reaches remote session (ofExcept e) s a s' ↔ e = .ok a ∧ s' = s := by
  unfold Reaches
  rw [run_ofExcept]
  simp [eq_comm]

theorem reaches_ofRun {r : Run α} : Reaches remote session (ofRun r) s a s' ↔ r = .ok a ∧ s' = s := by
  unfold Reaches
  rw [run_ofRun]
  cases r <;> simp [Except.map, eq_comm]

theorem reaches_ask {c : Call} {a : c.Answer} :
    Reaches remote session (ask c) s a s' ↔ remote.call session c s = .ok (.ok a, s') := by
  unfold Reaches
  rw [run_ask]
  constructor
  · intro h
    obtain ⟨⟨reply, s₁⟩, hcall, h⟩ := map_eq_ok.1 h
    obtain ⟨hreply, rfl⟩ := Prod.mk.inj h
    obtain rfl := mapError_eq_ok.1 hreply
    exact hcall
  · intro h
    rw [h]
    rfl

theorem reaches_expectSuccess {status : Status} {u : Unit} :
    Reaches remote session (expectSuccess status) s u s' ↔ status = .success ∧ s' = s := by
  unfold expectSuccess
  cases status with
  | success => simpa [Status.isSuccess] using reaches_pure (a := ()) (b := u)
  | noLines | other =>
    simp [Status.isSuccess, Reaches, throw, throwThe, MonadExceptOf.throw, ExceptT.run, ExceptT.mk,
      Dialogue.run, pure]

end Talk

/-! ## The rows of a table -/

/-- The rows that pass a test that stops on none of them. -/
theorem Run.filter_eq_ok_iff {α : Type} {test : α → Run Bool} {l kept : List α}
    (h : Run.filter test l = .ok kept) : kept = l.filter fun a => decide (test a = .ok true) := by
  have hpass : ∀ a ∈ l, test a = .ok (decide (test a = .ok true)) := by
    intro a ha
    obtain hstop | ⟨b, hb⟩ := Run.stops_or_ok (test a)
    · have hstops : (Run.filter test l).Stops := Run.filter_stops.2 ⟨a, ha, hstop⟩
      rw [h] at hstops
      exact absurd hstops Run.not_stops_ok
    · cases b <;> simp [hb]
  exact Except.ok.inj (h.symm.trans (Run.filter_eq_ok hpass))

namespace Memory

variable {m m' : Memory} {session : Nat} {company : Int} {entity : String} {rows rows' : List Json}

theorem query_eq_ok {key : TableKey} {predicates : List Predicate}
    (h : m.query key predicates = .ok (.ok rows)) : ∃ test, rows = (m.rows key).filter test := by
  unfold query at h
  split at h
  · simp at h
  · obtain ⟨kept, hkept, h⟩ := map_eq_ok.1 h
    obtain rfl := Except.ok.inj h
    exact ⟨_, Run.filter_eq_ok_iff hkept⟩

/-- A call about a company, by whether its session is logged in. -/
theorem call_eq {c : Call} (hc : c.company?.isSome) (m : Memory) : Memory.remote.call session c m =
    if m.isLoggedIn session then m.serve c else .ok (.error .notLoggedIn, m) := by
  refine answer_of_ne_login session ?_
  rintro user key rfl
  simp [Call.company?] at hc

/-- A call that is answered is made in a session that is logged in. -/
theorem serve_of_call {c : Call} {a : c.Answer} (hc : c.company?.isSome)
    (h : Memory.remote.call session c m = .ok (.ok a, m')) :
    m.isLoggedIn session = true ∧ m.serve c = .ok (.ok a, m') := by
  rw [call_eq hc] at h
  split at h
  · rename_i hlogged
    exact ⟨hlogged, h⟩
  · simp at h

/-- An update that succeeds finds all the numbers in the table. -/
theorem update_success {key : TableKey} {outcome : WriteOutcome} (h : m.update key rows = (outcome, m'))
    (hs : outcome.status = .success) : covers (m.rows key) rows = true ∧ outcome.rows = rows ∧
      m' = m.putTable key (rows.foldl (fun t row => replaceFirst row t) (m.rows key)) := by
  unfold update at h
  split at h
  · obtain ⟨rfl, -⟩ := Prod.mk.inj h
    simp [recordNotFound] at hs
  rename_i old htable
  rw [rows_of_table? htable]
  split at h
  · obtain ⟨rfl, rfl⟩ := Prod.mk.inj h
    exact ⟨‹_›, rfl, rfl⟩
  · obtain ⟨rfl, -⟩ := Prod.mk.inj h
    simp [recordNotFound] at hs

/-- A deletion that succeeds finds all the numbers in the table. -/
theorem delete_success {key : TableKey} (h : m.delete key rows = (.success, m')) :
    covers (m.rows key) rows = true ∧
      m' = m.putTable key ((m.rows key).filter fun old => !rows.any (sameRow old)) := by
  unfold delete at h
  split at h
  · simp [recordNotFound] at h
  rename_i old htable
  rw [rows_of_table? htable]
  split at h
  · obtain ⟨-, rfl⟩ := Prod.mk.inj h
    exact ⟨‹_›, rfl⟩
  · simp [recordNotFound] at h

/-- Nothing but the rows of one table differs; there may be other sessions and logins. -/
structure OnlyTable (key : TableKey) (m m' : Memory) : Prop where
  accounts : m'.accounts = m.accounts
  companies : m'.companies = m.companies
  tables : ∀ key', key' ≠ key → m'.table? key' = m.table? key'
  lastRowId : m'.lastRowId = m.lastRowId
  lastDocument : m'.lastDocument = m.lastDocument

theorem SameData.rows_eq {n : Memory} (h : SameData m n) (key : TableKey) : n.rows key = m.rows key := by
  unfold Memory.rows table?
  rw [h.tables]

theorem SameData.onlyTable {n : Memory} (h : SameData m n) (key : TableKey) (rows : List Json) :
    OnlyTable key m (n.putTable key rows) where
  accounts := h.accounts
  companies := h.companies
  tables key' hne := by
    rw [table?_putTable, if_neg hne]
    unfold table?
    rw [h.tables]
  lastRowId := h.lastRowId
  lastDocument := h.lastDocument

/-- Selected rows are those of the table that are among them. -/
theorem eq_filter_mem {table : List Json} {test : Json → Bool} (h : rows = table.filter test) :
    rows = table.filter fun row => decide (row ∈ rows) := by
  subst h
  refine List.filter_congr fun row hrow => ?_
  simp [List.mem_filter, hrow]

end Memory

namespace Service

variable {svc : Service} {companies : List Company} {company : Int} {e : Entity} {filter : String}
  {body : List UInt8} {session : Nat} {m m' : Memory} {response : Response} {rows : List Json}

/-- **What a fetch gives**: rows of the table, in their order. It changes nothing. -/
theorem rows_of_fetch {p : Params}
    (h : Talk.Reaches Memory.remote session (svc.fetch company e p) m rows m') :
    m' = m ∧ ∃ test, rows = (m.rows (.of company e.name)).filter test := by
  unfold fetch at h
  simp only [Talk.reaches_bind, Talk.reaches_ofRun, Talk.reaches_ofExcept, Talk.reaches_ask] at h
  obtain ⟨_, _, ⟨-, rfl⟩, q, _, ⟨-, rfl⟩, all, m₁, hcall, happly, rfl⟩ := h
  obtain ⟨-, hserve⟩ := serve_of_call (c := .query company e.name q.server) rfl hcall
  obtain ⟨reply, hquery, h⟩ := map_eq_ok.1 hserve
  obtain ⟨rfl, rfl⟩ := Prod.mk.inj h
  obtain ⟨test, rfl⟩ := query_eq_ok hquery
  rw [(CompiledQuery.apply_eq_ok.1 happly).selected, List.filter_filter]
  exact ⟨rfl, _, rfl⟩

theorem reaches_onEntity {type : String} {act : Entity → Talk Response} {σ : Type} {remote : Remote σ}
    {s s' : σ} : Talk.Reaches remote session (svc.onEntity companies company type act) s response s' ↔
      ∃ e, svc.schemas.get? type = some e ∧ (Company.find? companies company).isSome ∧
        Talk.Reaches remote session (act e) s response s' := by
  unfold onEntity
  simp only [Talk.reaches_bind, Talk.reaches_ofExcept, entity_eq_ok, ensureCompany_eq_ok]
  constructor
  · rintro ⟨e, _, ⟨he, rfl⟩, _, _, ⟨hcompany, rfl⟩, h⟩
    exact ⟨e, he, hcompany, h⟩
  · rintro ⟨e, he, hcompany, h⟩
    exact ⟨e, s, ⟨he, rfl⟩, (), s, ⟨hcompany, rfl⟩, h⟩

/-- **A query** that goes through is answered with the rows. -/
theorem reaches_query (h : Talk.Reaches Memory.remote session
    (svc.fetch company e (Params.parseQuery filter [])) m rows m') :
    Talk.Reaches Memory.remote session (svc.query company e filter) m (.ok (.arr rows)) m' :=
  Talk.reaches_bind.2 ⟨rows, m', h, Talk.reaches_pure.2 ⟨rfl, rfl⟩⟩

/-- **A patch** that goes through: the rows are fetched, patched, and stored by number. -/
theorem reaches_patch
    (h : Talk.Reaches Memory.remote session (svc.patch company e filter body) m response m') :
    ∃ limit ops rows rows', LimitOf filter limit ∧ bodyPatch body = .ok ops ∧
      Talk.Reaches Memory.remote session
        (svc.fetch company e (Params.parseQuery filter [limitKey])) m rows m ∧
      rows.length ≤ limit ∧ List.Forall₂ (fun row row' => ops.apply row = .ok row') rows rows' ∧
      response = .ok (.arr rows') ∧ covers (m.rows (.of company e.name)) rows' = true ∧
      m' = m.putTable (.of company e.name)
        (rows'.foldl (fun t row => replaceFirst row t) (m.rows (.of company e.name))) := by
  unfold patch at h
  simp only [Talk.reaches_bind, Talk.reaches_ofExcept, Talk.reaches_ask, Talk.reaches_expectSuccess,
    Talk.reaches_pure, limitOfQuery_eq_ok, ensureWithin_eq_ok, patchRows_eq_ok] at h
  obtain ⟨limit, _, ⟨hlimit, rfl⟩, ops, m₁, ⟨hops, rfl⟩, rows, _, hfetch, _, _, ⟨hle, rfl⟩, rows', m₂,
    ⟨hrows, rfl⟩, outcome, _, hcall, _, _, ⟨hstatus, rfl⟩, rfl, rfl⟩ := h
  obtain ⟨rfl, -⟩ := rows_of_fetch hfetch
  obtain ⟨-, hserve⟩ := serve_of_call (c := .update company e.name rows') rfl hcall
  have hupdate : m₂.update (.of company e.name) rows' = (outcome, m') := by
    obtain ⟨houtcome, hm⟩ := Prod.mk.inj (Except.ok.inj hserve)
    exact Prod.ext (Except.ok.inj houtcome) hm
  obtain ⟨hcovers, hout, rfl⟩ := update_success hupdate hstatus
  exact ⟨limit, ops, rows, rows', hlimit, hops, hfetch, hle, hrows, by rw [hout], hcovers, rfl⟩

/-- **A deletion** that goes through: the rows are fetched, and removed by number. -/
theorem reaches_delete
    (h : Talk.Reaches Memory.remote session (svc.delete company e filter) m response m') :
    ∃ limit rows, LimitOf filter limit ∧
      Talk.Reaches Memory.remote session
        (svc.fetch company e (Params.parseQuery filter [limitKey])) m rows m ∧
      rows.length ≤ limit ∧ covers (m.rows (.of company e.name)) rows = true ∧
      m' = m.putTable (.of company e.name)
        ((m.rows (.of company e.name)).filter fun old => !rows.any (sameRow old)) := by
  unfold delete at h
  simp only [Talk.reaches_bind, Talk.reaches_ofExcept, Talk.reaches_ask, Talk.reaches_pure,
    limitOfQuery_eq_ok, ensureWithin_eq_ok] at h
  obtain ⟨limit, m₁, ⟨hlimit, rfl⟩, rows, _, hfetch, _, m₂, ⟨hle, rfl⟩, status, m₃, hcall, _, _, hstatus, -,
    rfl⟩ := h
  obtain ⟨rfl, rfl⟩ := Talk.reaches_expectSuccess.1 hstatus
  obtain ⟨rfl, -⟩ := rows_of_fetch hfetch
  obtain ⟨-, hserve⟩ := serve_of_call (c := .delete company e.name rows) rfl hcall
  have hdelete : m₂.delete (.of company e.name) rows = (.success, m') := by
    obtain ⟨hstatus, hm⟩ := Prod.mk.inj (Except.ok.inj hserve)
    exact Prod.ext (Except.ok.inj hstatus) hm
  obtain ⟨hcovers, rfl⟩ := delete_success hdelete
  exact ⟨limit, rows, hlimit, hfetch, hle, hcovers, rfl⟩

/-- A task that is answered with success is one whose action goes through. -/
theorem serve_success {t : Task} (hok : response.isSuccess = true) :
    (svc.serve companies t).run Memory.remote session m = .ok (response, m') ↔
      Talk.Reaches Memory.remote session (svc.act companies t.company t.action) m response m' := by
  unfold Talk.Reaches
  rw [run_serve]
  rcases (svc.act companies t.company t.action).run.run Memory.remote session m with why | ⟨e | answer, m₁⟩
  · simp [Except.map]
  · have hne : ∀ m₂, (Response.ofError e, m₁) ≠ (response, m₂) := by
      rintro _ ⟨⟩
      simp [Response.ofError_isSuccess] at hok
    simp [Except.map, hne]
  · simp [Except.map]

end Service

/-! ## A query for the rows that are written -/

/-- The entity type whose rows an action is about. -/
def Action.type? : Action → Option String
  | .query type _ | .create type _ | .patch type _ _ | .delete type _ => some type
  | .invoice .. | .journal .. => none

namespace Request

/-- The table that a request addresses. -/
def table? (svc : Service) (r : Request) : Option TableKey := do
  let t ← r.task? svc.bodyLimit
  let type ← t.action.type?
  let e ← svc.schemas.get? type
  pure (.of t.company e.name)

/-- A query by the same user, for the rows of the same table, with the same filter, less its `limit`. -/
structure AsksFor (q r : Request) : Prop where
  method : q.method = "GET"
  path : ∃ company type, Route.ofPath? r.path = some (.rows company type) ∧
    Route.ofPath? q.path = some (.query company type)
  user : Authorization.credentials q = Authorization.credentials r
  filter : Text.Form.decode q.queryText =
    (Text.Form.decode r.queryText).filter fun p => !Text.sameName p.1 "limit"

variable {q r : Request}

theorem AsksFor.params (h : q.AsksFor r) :
    Params.parseQuery q.queryText [] = Params.parseQuery r.queryText [limitKey] := by
  unfold Params.parseQuery
  rw [h.filter]
  simp [limitKey]

/-- The tasks of both requests. -/
theorem AsksFor.task {limit : Nat} {t : Task} (h : q.AsksFor r) (ht : r.task? limit = some t) :
    ∃ type, (r.method = "PATCH" → t.action = .patch type r.queryText r.body) ∧
      (r.method = "DELETE" → t.action = .delete type r.queryText) ∧
      q.task? limit = some ⟨t.user, t.company, .query type q.queryText⟩ := by
  obtain ⟨companyText, typeText, hr, hqpath⟩ := h.path
  obtain ⟨-, route, hroute, -, hof⟩ := Server.route_of_task ht
  obtain rfl := Option.some.inj (hr.symm.trans hroute)
  obtain ⟨type, hpath, hpatch, hdelete⟩ := ofRequest_rows hof
  have huser : Authorization.credentials q = .ok t.user := h.user.trans (Server.credentials_of_task ht)
  refine ⟨type, hpatch, hdelete, ?_⟩
  simp [task?, h.method, hqpath, Route.methods, Task.ofRequest, huser, hpath, Except.mapError, bind,
    Except.bind, pure, Except.pure]

end Request

namespace Server

variable {service : Service} {q r : Request} {s s' : Server Memory} {response : Response}

/-- A request with a task is answered with success when its user gets a connection and the action goes
through there. -/
theorem handle_success {t : Task} (ht : r.task? service.bodyLimit = some t)
    (hok : response.isSuccess = true) : handle service Memory.remote r s = .ok (response, s') ↔
      ∃ entry cache m answer m', response = sent r answer ∧ s' = ⟨cache, m', s.stopping⟩ ∧
        s.cache.connect Memory.remote t.user s.stopping s.remote = .ok (.ok entry, cache, m) ∧
        Talk.Reaches Memory.remote entry.connected.session
          (service.act entry.connected.companies t.company t.action) m answer m' := by
  rw [handle_of_task ht]
  constructor
  · intro h
    obtain ⟨⟨answer, s₁⟩, hperform, h⟩ := map_eq_ok.1 h
    obtain ⟨rfl, rfl⟩ := Prod.mk.inj h
    rw [sent_isSuccess] at hok
    obtain ⟨⟨outcome, cache, m⟩, hconnect, -⟩ := bind_eq_ok.1 (show _ >>= _ = _ from hperform)
    cases outcome with
    | error e =>
      rw [perform_of_refused hconnect] at hperform
      obtain ⟨rfl, -⟩ := Prod.mk.inj (Except.ok.inj hperform)
      simp [Response.ofError_isSuccess] at hok
    | ok entry =>
      rw [perform_of_connected hconnect] at hperform
      obtain ⟨⟨answer', m'⟩, hserve, hp⟩ := map_eq_ok.1 hperform
      obtain ⟨rfl, rfl⟩ := Prod.mk.inj hp
      exact ⟨entry, cache, m, answer', m', rfl, rfl, hconnect, (Service.serve_success hok).1 hserve⟩
  · rintro ⟨entry, cache, m, answer, m', rfl, rfl, hconnect, hact⟩
    rw [sent_isSuccess] at hok
    rw [perform_of_connected hconnect, (Service.serve_success hok).2 hact]
    rfl

/-- A request to a resource of a company that is answered with success has a task. -/
theorem task_of_success (h : handle service Memory.remote r s = .ok (response, s'))
    (hok : response.isSuccess = true) (hr : r.isScoped = true) :
    ∃ t, r.task? service.bodyLimit = some t := by
  cases ht : r.task? service.bodyLimit with
  | some t => exact ⟨t, rfl⟩
  | none =>
    obtain ⟨answer, hanswer, hfails⟩ := handle_of_noTask Memory.remote ht
    obtain ⟨rfl, -⟩ := Prod.mk.inj (Except.ok.inj ((hanswer s).symm.trans h))
    simp [hfails hr] at hok

/-- **The same rows.** A patch or a deletion that succeeds fetches its rows from a table in which
nothing has changed, and a query for these rows is answered with what is fetched. -/
theorem matching (h : handle service Memory.remote r s = .ok (response, s'))
    (hm : r.method = "PATCH" ∨ r.method = "DELETE") (hok : response.isSuccess = true)
    (hq : q.AsksFor r) : ∃ company e session cache m m' answer,
      r.table? service = some (.of company e.name) ∧ SameData s.remote m ∧
      response = sent r answer ∧ s' = ⟨cache, m', s.stopping⟩ ∧
      (r.method = "PATCH" → Talk.Reaches Memory.remote session
        (service.patch company e r.queryText r.body) m answer m') ∧
      (r.method = "DELETE" → Talk.Reaches Memory.remote session
        (service.delete company e r.queryText) m answer m') ∧
      ∀ rows, Talk.Reaches Memory.remote session
          (service.fetch company e (Params.parseQuery r.queryText [limitKey])) m rows m →
        handle service Memory.remote q s = .ok (sent q (.ok (.arr rows)), ⟨cache, m, s.stopping⟩) := by
  obtain ⟨companyText, typeText, hpath, -⟩ := hq.path
  have hscoped : r.isScoped = true := by
    obtain hm | hm := hm <;> simp [Request.isScoped, hm, hpath, Route.isScoped]
  obtain ⟨t, ht⟩ := task_of_success h hok hscoped
  obtain ⟨type, hpatch, hdelete, hqtask⟩ := hq.task ht
  obtain ⟨entry, cache, m, answer, m', hresponse, hs, hconnect, hact⟩ := (handle_success ht hok).1 h
  -- both actions look the entity and the company up
  obtain ⟨e, he, hcompany, htype, hwrite⟩ : ∃ e, service.schemas.get? type = some e ∧
      (Company.find? entry.connected.companies t.company).isSome ∧ t.action.type? = some type ∧
      (r.method = "PATCH" → Talk.Reaches Memory.remote entry.connected.session
        (service.patch t.company e r.queryText r.body) m answer m') ∧
      (r.method = "DELETE" → Talk.Reaches Memory.remote entry.connected.session
        (service.delete t.company e r.queryText) m answer m') := by
    obtain hm | hm := hm
    · rw [hpatch hm] at hact ⊢
      obtain ⟨e, he, hcompany, hact⟩ := Service.reaches_onEntity.1 hact
      exact ⟨e, he, hcompany, rfl, fun _ => hact, by simp [hm]⟩
    · rw [hdelete hm] at hact ⊢
      obtain ⟨e, he, hcompany, hact⟩ := Service.reaches_onEntity.1 hact
      exact ⟨e, he, hcompany, rfl, by simp [hm], fun _ => hact⟩
  refine ⟨t.company, e, entry.connected.session, cache, m, m', answer, ?_,
    Cache.connect_sameData hconnect, hresponse, hs, hwrite.1, hwrite.2, fun rows hfetch => ?_⟩
  · simp [Request.table?, ht, htype, he]
  · rw [← hq.params] at hfetch
    refine (handle_success hqtask (by rw [sent_isSuccess]; rfl)).2
      ⟨entry, cache, m, _, m, rfl, rfl, hconnect, ?_⟩
    exact Service.reaches_onEntity.2 ⟨e, he, hcompany, Service.reaches_query hfetch⟩

/-- **A patch changes exactly the rows that match.** When a patch is answered with 200, a query with the
same filter is answered with rows of the table, in their order and no more than the limit. The response
holds these rows, each of them patched. If the numbers in the table are distinct and the patch leaves
those of the rows as they are, then each of the rows is replaced in its place by what it is patched to
and every other row of the table stays. Nothing else changes: apart from the table the server is as the
query leaves it. -/
theorem handle_patch {key : TableKey} (h : handle service Memory.remote r s = .ok (response, s'))
    (hm : r.method = "PATCH") (hok : response.status = 200) (hq : q.AsksFor r)
    (hkey : r.table? service = some key) (hd : Distinct (s.remote.rows key)) :
    ∃ answer t rows limit ops rows', handle service Memory.remote q s = .ok (answer, t) ∧
      answer.status = 200 ∧ answer.content = .json (.arr rows) ∧
      rows = ((s.remote.rows key).filter fun row => decide (row ∈ rows)) ∧
      LimitOf r.queryText limit ∧ rows.length ≤ limit ∧ bodyPatch r.body = .ok ops ∧
      List.Forall₂ (fun row row' => ops.apply row = .ok row') rows rows' ∧
      response.content = .json (.arr rows') ∧
      ((∀ row ∈ rows, ∀ row', ops.apply row = .ok row' → rowId? row' = rowId? row) →
        Replaced (fun row row' => ops.apply row = .ok row') rows (s.remote.rows key)
          (s'.remote.rows key)) ∧
      OnlyTable key s.remote s'.remote ∧
      s' = { t with remote := t.remote.putTable key (s'.remote.rows key) } := by
  have hsuccess : response.isSuccess = true := by simp [Response.isSuccess, hok]
  obtain ⟨company, e, session, cache, m, m', answer, htable, hsame, rfl, rfl, hpatch, -, hquery⟩ :=
    matching h (.inl hm) hsuccess hq
  obtain rfl := Option.some.inj (htable.symm.trans hkey)
  obtain ⟨limit, ops, rows, rows', hlimit, hops, hfetch, hle, hrows, rfl, hcovers, rfl⟩ :=
    Service.reaches_patch (hpatch hm)
  obtain ⟨-, test, hselected⟩ := Service.rows_of_fetch hfetch
  rw [← hsame.rows_eq] at hd ⊢
  refine ⟨_, _, rows, limit, ops, rows', hquery rows hfetch, ?_, ?_, eq_filter_mem hselected, hlimit, hle,
    hops, hrows, ?_, fun hkeep => ?_, hsame.onlyTable _ _, ?_⟩
  · rw [sent_status]
    rfl
  · rw [sent_content (by simp [hq.method])]
    rfl
  · rw [sent_content (by simp [hm])]
    rfl
  · -- the patched rows are found under the numbers of the rows that they come from
    have hrenewed := renewed_of_covers hrows hkeep hcovers
    subst hselected
    simpa using replaced_update hd hrenewed
  · simp

/-- Two of three debtors are patched, and a query shows which ones. -/
theorem handle_patch_debtors :
    let service := Demo.service Demo.debtors .default
    let table := [Demo.debtor 1 "Oslo", Demo.debtor 2 "Paris", Demo.debtor 3 "Rome"]
    let s := Demo.server (Demo.memory [((1, "debtor"), table)] 3)
    let ops : Patch := [.add ["Seen"] (.bool true)]
    let r : Request := ⟨"PATCH", "/Companies/1/Crud/Debtor", some "limit=2&city=Oslo+OR+Rome", Demo.header,
      Text.Utf8.ofString "[\x7b\"op\":\"add\",\"path\":\"/Seen\",\"value\":true\x7d]"⟩
    let q : Request := ⟨"GET", "/Companies/1/Query/Debtor", some "city=Oslo+OR+Rome", Demo.header, []⟩
    ∃ response s' answer t rows, handle service Memory.remote r s = .ok (response, s') ∧
      response.status = 200 ∧ handle service Memory.remote q s = .ok (answer, t) ∧
      answer.content = .json (.arr rows) ∧ rows.length ≤ 2 ∧
      Replaced (fun row row' => ops.apply row = .ok row') rows table (s'.remote.rows (1, "debtor")) := by
  intro service table s ops r q
  have hstatus : (handle service Memory.remote r s).toOption.map (·.1.status) = some 200 := by
    decide +kernel
  obtain ⟨⟨response, s'⟩, h, (hok : response.status = 200)⟩ := toOption_map_eq_some.1 hstatus
  have hq : q.AsksFor r := ⟨rfl, ⟨"1", "Debtor", by decide +kernel⟩, rfl, by decide +kernel⟩
  have hkey : r.table? service = some (1, "debtor") := by decide +kernel
  have hd : Distinct (s.remote.rows (1, "debtor")) := by
    unfold Distinct
    decide +kernel
  obtain ⟨answer, t, rows, limit, ops', rows', hquery, -, hcontent, -, hlimit, hle, hops, -, -, hreplaced,
    -⟩ := handle_patch h rfl hok hq hkey hd
  have htwo : limitOfQuery r.queryText = .ok 2 := by decide +kernel
  have hbody : bodyPatch r.body = .ok ops := by decide +kernel
  obtain rfl := Except.ok.inj (htwo.symm.trans (limitOfQuery_eq_ok.2 hlimit))
  obtain rfl := Except.ok.inj (hbody.symm.trans hops)
  refine ⟨response, s', answer, t, rows, h, hok, hquery, hcontent, hle, hreplaced ?_⟩
  intro row _ row' hrow
  rw [rowId?_eq_under, rowId?_eq_under, Patch.apply_under (by decide) hrow]

/-- **A deletion removes exactly the rows that match.** When a deletion is answered with 204, a query with
the same filter is answered with rows of the table, no more than the limit. If the numbers in the table
are distinct, then the table holds all its other rows afterwards, in their order. Nothing else changes:
apart from the table the server is as the query leaves it. -/
theorem handle_delete {key : TableKey} (h : handle service Memory.remote r s = .ok (response, s'))
    (hm : r.method = "DELETE") (hok : response.status = 204) (hq : q.AsksFor r)
    (hkey : r.table? service = some key) (hd : Distinct (s.remote.rows key)) :
    ∃ answer t rows limit, handle service Memory.remote q s = .ok (answer, t) ∧
      answer.status = 200 ∧ answer.content = .json (.arr rows) ∧
      rows = ((s.remote.rows key).filter fun row => decide (row ∈ rows)) ∧
      LimitOf r.queryText limit ∧ rows.length ≤ limit ∧
      s'.remote.rows key = ((s.remote.rows key).filter fun row => decide (row ∉ rows)) ∧
      (s.remote.rows key).length ≤ (s'.remote.rows key).length + limit ∧
      OnlyTable key s.remote s'.remote ∧
      s' = { t with remote := t.remote.putTable key (s'.remote.rows key) } := by
  have hsuccess : response.isSuccess = true := by simp [Response.isSuccess, hok]
  obtain ⟨company, e, session, cache, m, m', answer, htable, hsame, rfl, rfl, -, hdelete, hquery⟩ :=
    matching h (.inr hm) hsuccess hq
  obtain rfl := Option.some.inj (htable.symm.trans hkey)
  obtain ⟨limit, rows, hlimit, hfetch, hle, hcovers, rfl⟩ := Service.reaches_delete (hdelete hm)
  obtain ⟨-, test, hselected⟩ := Service.rows_of_fetch hfetch
  rw [← hsame.rows_eq] at hd ⊢
  have hmem := eq_filter_mem hselected
  have hsubset : rows ⊆ m.rows (.of company e.name) := hselected ▸ List.filter_sublist.subset
  have hrest := filter_not_sameRow hd hsubset hcovers
  refine ⟨_, _, rows, limit, hquery rows hfetch, ?_, ?_, hmem, hlimit, hle, ?_, ?_, hsame.onlyTable _ _, ?_⟩
  · rw [sent_status]
    rfl
  · rw [sent_content (by simp [hq.method])]
    rfl
  · simpa using hrest
  · have hsplit := List.length_eq_length_filter_add (l := m.rows (.of company e.name))
      fun row => decide (row ∈ rows)
    have hgone := congrArg List.length hmem
    have hleft : ((m.rows (.of company e.name)).filter fun old => !rows.any (sameRow old)).length =
        ((m.rows (.of company e.name)).filter fun row => !decide (row ∈ rows)).length := by
      rw [hrest]
      simp only [decide_not]
    rw [rows_putTable, if_pos rfl]
    omega
  · simp

/-- A debtor is deleted, and a query shows which one. -/
theorem handle_delete_debtor :
    let service := Demo.service Demo.debtors .default
    let table := [Demo.debtor 1 "Oslo", Demo.debtor 2 "Paris", Demo.debtor 3 "Rome"]
    let s := Demo.server (Demo.memory [((1, "debtor"), table)] 3)
    let r : Request := ⟨"DELETE", "/Companies/1/Crud/Debtor", some "City=Paris&limit=1", Demo.header, []⟩
    let q : Request := ⟨"GET", "/Companies/1/Query/Debtor", some "City=Paris", Demo.header, []⟩
    ∃ response s' answer t rows, handle service Memory.remote r s = .ok (response, s') ∧
      response.status = 204 ∧ handle service Memory.remote q s = .ok (answer, t) ∧
      answer.content = .json (.arr rows) ∧
      s'.remote.rows (1, "debtor") = table.filter fun row => decide (row ∉ rows) := by
  intro service table s r q
  have hstatus : (handle service Memory.remote r s).toOption.map (·.1.status) = some 204 := by
    decide +kernel
  obtain ⟨⟨response, s'⟩, h, (hok : response.status = 204)⟩ := toOption_map_eq_some.1 hstatus
  have hq : q.AsksFor r := ⟨rfl, ⟨"1", "Debtor", by decide +kernel⟩, rfl, by decide +kernel⟩
  have hkey : r.table? service = some (1, "debtor") := by decide +kernel
  have hd : Distinct (s.remote.rows (1, "debtor")) := by
    unfold Distinct
    decide +kernel
  obtain ⟨answer, t, rows, limit, hquery, -, hcontent, -, -, -, hrest, -⟩ :=
    handle_delete h rfl hok hq hkey hd
  exact ⟨response, s', answer, t, rows, h, hok, hquery, hcontent, hrest⟩

end Server

end LedgerFront
