import LedgerFront.Proofs.Memory.Written
import LedgerFront.Proofs.Server.Demo
import LedgerFront.Proofs.Server.MatchingRows

/-!
# Bulk writes without matching rows

When no row matches the filter, a patch and a deletion have nothing to write. They change nothing, but
they do ask the memory to write no rows, and the memory looks for the table first. So whether they
succeed depends on whether the table was ever written, although a query makes no difference between a
table that was never written and one without rows.

* `Memory.update_nil`, `Memory.delete_nil`: writing no rows.
* `Service.patch_nil`, `Service.delete_nil`: the dialogues.
* `Server.handle_noMatch`: what the requests are answered with.
-/

namespace LedgerFront

open Memory

namespace Memory

variable {m : Memory} {key : TableKey}

/-- The status of a write of no rows. -/
def idleStatus (m : Memory) (key : TableKey) : Status :=
  if (m.table? key).isSome then .success else recordNotFound

theorem update_nil (key : TableKey) (m : Memory) : m.update key [] = (⟨m.idleStatus key, []⟩, m) := by
  unfold update idleStatus
  split
  · rename_i hnone
    simp [hnone]
  · rename_i old hsome
    simp [hsome, covers, putTable_of_table? hsome]

theorem delete_nil (key : TableKey) (m : Memory) : m.delete key [] = (m.idleStatus key, m) := by
  unfold delete idleStatus
  split
  · rename_i hnone
    simp [hnone]
  · rename_i old hsome
    simp [hsome, covers, putTable_of_table? hsome]

theorem serve_update_nil (company : Int) (entity : String) (m : Memory) :
    m.serve (.update company entity []) =
      .ok (.ok (⟨m.idleStatus (.of company entity), []⟩ : WriteOutcome), m) := by
  have hserve : m.serve (.update company entity []) =
      .ok (.ok (m.update (.of company entity) []).1, (m.update (.of company entity) []).2) := rfl
  rw [hserve, update_nil]

theorem serve_delete_nil (company : Int) (entity : String) (m : Memory) :
    m.serve (.delete company entity []) = .ok (.ok (m.idleStatus (.of company entity)), m) := by
  have hserve : m.serve (.delete company entity []) =
      .ok (.ok (m.delete (.of company entity) []).1, (m.delete (.of company entity) []).2) := rfl
  rw [hserve, delete_nil]

end Memory

namespace Talk

variable {α β σ : Type} {remote : Remote σ} {session : Nat} {s s' : σ}

/-- What is done after a dialogue that comes to a value. -/
theorem run_bind_of_reaches {t : Talk α} {f : α → Talk β} {a : α} (h : Reaches remote session t s a s') :
    (t >>= f).run.run remote session s = (f a).run.run remote session s' := by
  rw [run_bind, h]
  rfl

/-- A call about a company goes through as the memory serves it. -/
theorem reaches_of_serve {c : Call} {a : c.Answer} {m m' : Memory} (hc : c.company?.isSome)
    (hlogged : m.isLoggedIn session = true) (h : m.serve c = .ok (.ok a, m')) :
    Reaches Memory.remote session (ask c) m a m' := by
  rw [reaches_ask, call_eq hc, if_pos hlogged, h]

theorem run_expectSuccess_bind (status : Status) (a : α) :
    (expectSuccess status >>= fun _ => pure a : Talk α).run.run remote session s =
      .ok (if status = .success then .ok a else .error (.remote status), s) := by
  cases status <;> rfl

end Talk

namespace Service

variable {svc : Service} {company : Int} {e : Entity} {filter : String} {body : List UInt8} {limit : Nat}
  {session : Nat} {m : Memory}

/-- The answer to a bulk write that has nothing to write. -/
def idleAnswer (m : Memory) (key : TableKey) (answer : Response) : Except RequestError Response :=
  if m.idleStatus key = .success then .ok answer else .error (.remote (m.idleStatus key))

theorem loggedIn_of_fetch {p : Params} {rows : List Json} {m' : Memory}
    (h : Talk.Reaches Memory.remote session (svc.fetch company e p) m rows m') :
    m.isLoggedIn session = true := by
  unfold fetch at h
  simp only [Talk.reaches_bind, Talk.reaches_ofRun, Talk.reaches_ofExcept, Talk.reaches_ask] at h
  obtain ⟨_, _, ⟨-, rfl⟩, q, _, ⟨-, rfl⟩, all, m, hcall, -⟩ := h
  exact (serve_of_call (c := .query company e.name q.server) rfl hcall).1

/-- **A deletion of no rows.** -/
theorem delete_nil (hlimit : LimitOf filter limit)
    (h : Talk.Reaches Memory.remote session
      (svc.fetch company e (Params.parseQuery filter [limitKey])) m [] m) :
    (svc.delete company e filter).run.run Memory.remote session m =
      .ok (idleAnswer m (.of company e.name) (.empty 204), m) := by
  have hlogged := loggedIn_of_fetch h
  have hwithin : Talk.Reaches Memory.remote session
      (Talk.ofExcept (ensureWithin limit ([] : List Json).length)) m () m :=
    Talk.reaches_ofExcept.2 ⟨ensureWithin_eq_ok.2 (Nat.zero_le limit), rfl⟩
  have hcall : Talk.Reaches Memory.remote session (Talk.ask (.delete company e.name [])) m
      (m.idleStatus (.of company e.name)) m :=
    Talk.reaches_of_serve rfl hlogged (serve_delete_nil company e.name m)
  unfold delete
  rw [Talk.run_bind_of_reaches (Talk.reaches_ofExcept.2 ⟨limitOfQuery_eq_ok.2 hlimit, rfl⟩),
    Talk.run_bind_of_reaches h,
    Talk.run_bind_of_reaches hwithin,
    Talk.run_bind_of_reaches hcall, Talk.run_expectSuccess_bind]
  rfl

/-- **A patch of no rows.** -/
theorem patch_nil {ops : Patch} (hlimit : LimitOf filter limit) (hops : bodyPatch body = .ok ops)
    (h : Talk.Reaches Memory.remote session
      (svc.fetch company e (Params.parseQuery filter [limitKey])) m [] m) :
    (svc.patch company e filter body).run.run Memory.remote session m =
      .ok (idleAnswer m (.of company e.name) (.ok (.arr [])), m) := by
  have hlogged := loggedIn_of_fetch h
  have hwithin : Talk.Reaches Memory.remote session
      (Talk.ofExcept (ensureWithin limit ([] : List Json).length)) m () m :=
    Talk.reaches_ofExcept.2 ⟨ensureWithin_eq_ok.2 (Nat.zero_le limit), rfl⟩
  have hcall : Talk.Reaches Memory.remote session (Talk.ask (.update company e.name [])) m
      ⟨m.idleStatus (.of company e.name), []⟩ m :=
    Talk.reaches_of_serve rfl hlogged (serve_update_nil company e.name m)
  unfold patch
  rw [Talk.run_bind_of_reaches (Talk.reaches_ofExcept.2 ⟨limitOfQuery_eq_ok.2 hlimit, rfl⟩),
    Talk.run_bind_of_reaches (Talk.reaches_ofExcept.2 ⟨hops, rfl⟩),
    Talk.run_bind_of_reaches h,
    Talk.run_bind_of_reaches hwithin,
    Talk.run_bind_of_reaches (Talk.reaches_ofExcept.2 ⟨patchRows_eq_ok.2 .nil, rfl⟩),
    Talk.run_bind_of_reaches hcall, Talk.run_expectSuccess_bind]
  rfl

theorem run_onEntity {companies : List Company} {type : String} (he : svc.schemas.get? type = some e)
    (hcompany : (Company.find? companies company).isSome) (act : Entity → Talk Response) :
    (svc.onEntity companies company type act).run.run Memory.remote session m =
      (act e).run.run Memory.remote session m := by
  unfold onEntity
  rw [Talk.run_bind_of_reaches (Talk.reaches_ofExcept.2 ⟨entity_eq_ok.2 he, rfl⟩),
    Talk.run_bind_of_reaches (a := ()) (Talk.reaches_ofExcept.2 ⟨ensureCompany_eq_ok.2 hcompany, rfl⟩)]

end Service

/-- A request for the rows of the query has a task when the query has one. -/
theorem Request.AsksFor.task_of_query {q r : Request} {limit : Nat} {t : Task} (hq : q.AsksFor r)
    (ht : q.task? limit = some t) : ∃ type, t.action = .query type q.queryText ∧
      (r.method = "DELETE" → r.task? limit = some ⟨t.user, t.company, .delete type r.queryText⟩) ∧
      (r.method = "PATCH" → r.body.length ≤ limit →
        r.task? limit = some ⟨t.user, t.company, .patch type r.queryText r.body⟩) := by
  obtain ⟨companyText, typeText, hr, hqpath⟩ := hq.path
  obtain ⟨-, route, hroute, -, hof⟩ := Server.route_of_task ht
  obtain rfl := Option.some.inj (hqpath.symm.trans hroute)
  simp only [Task.ofRequest, Option.some.injEq, bind_eq_ok, mapError_eq_ok] at hof
  obtain ⟨user, huser, ⟨company, type⟩, hpath, htask⟩ := hof
  obtain rfl := Except.ok.inj htask
  have hruser : Authorization.credentials r = .ok user := hq.user.symm.trans huser
  refine ⟨type, rfl, fun hm => ?_, fun hm hbody => ?_⟩
  · simp [task?, hm, hr, Route.methods, Task.ofRequest, hruser, hpath, Except.mapError, bind,
      Except.bind, Task.rowsTask]
  · simp [task?, hm, hr, Route.methods, Task.ofRequest, hruser, hpath, Except.mapError, bind,
      Except.bind, Task.rowsTask, Task.bodyWithin, Nat.not_lt.2 hbody, Except.map]

namespace Server

variable {service : Service} {q r : Request} {s t : Server Memory} {answer : Response}

/-- What a bulk write must be to be carried out, apart from its filter: a limit that can be read, and
in a patch a body that is not too long and holds a patch that is accepted. -/
structure IsBulkWrite (service : Service) (r : Request) : Prop where
  limit : ∃ limit, LimitOf r.queryText limit
  kind : r.method = "DELETE" ∨
    r.method = "PATCH" ∧ r.body.length ≤ service.bodyLimit ∧ ∃ ops, bodyPatch r.body = .ok ops

/-- The response to a bulk write that has nothing to write. -/
def idleResponse (r : Request) : Response :=
  if r.method = "DELETE" then .empty 204 else .ok (.arr [])

/-- **A bulk write that matches nothing.** When a query is answered with no rows, then a patch or a
deletion of these rows leaves the server as the query does: nothing is changed in the tables and
counters. It succeeds, with 204 for a deletion and an empty array for a patch, exactly when rows, if only
none at all, were put into the table some time before. Otherwise it is refused, since the memory finds no
table to write to. -/
theorem handle_noMatch {es : List MemoryEvent} (hes : Memory.empty.after es = .ok s.remote)
    (hq : q.AsksFor r) (hquery : handle service Memory.remote q s = .ok (answer, t))
    (hok : answer.status = 200) (hnone : answer.content = .json (.arr []))
    (hr : IsBulkWrite service r) : ∃ key response, r.table? service = some key ∧
      handle service Memory.remote r s = .ok (response, t) ∧ SameData s.remote t.remote ∧
      (Written key es → response = sent r (idleResponse r)) ∧
      (¬ Written key es → response = sent r (.ofError (.remote recordNotFound))) := by
  have hscoped : q.isScoped = true := by
    obtain ⟨companyText, typeText, -, hpath⟩ := hq.path
    simp [Request.isScoped, hq.method, hpath, Route.isScoped]
  have hsuccess : answer.isSuccess = true := by simp [Response.isSuccess, hok]
  obtain ⟨task, htask⟩ := task_of_success hquery hsuccess hscoped
  obtain ⟨type, haction, hdelete, hpatch⟩ := hq.task_of_query htask
  obtain ⟨entry, cache, m, _, m', rfl, rfl, hconnect, hact⟩ := (handle_success htask hsuccess).1 hquery
  have hsame := Cache.connect_sameData hconnect
  -- the query has fetched no rows
  rw [haction] at hact
  obtain ⟨e, he, hcompany, hact⟩ := Service.reaches_onEntity.1 hact
  obtain ⟨rows, _, hfetch, hanswer⟩ := Talk.reaches_bind.1 hact
  obtain ⟨rfl, rfl⟩ := Talk.reaches_pure.1 hanswer
  obtain rfl := (Service.rows_of_fetch hfetch).1.symm
  obtain rfl : rows = [] := by
    rw [sent_content (by simp [hq.method])] at hnone
    simpa [Response.ok, Response.of] using hnone
  rw [hq.params] at hfetch
  -- so the other request writes none
  obtain ⟨limit, hlimit⟩ := hr.limit
  obtain ⟨action, hrtask, htype, hrun⟩ : ∃ action,
      r.task? service.bodyLimit = some ⟨task.user, task.company, action⟩ ∧ action.type? = some type ∧
      (service.act entry.connected.companies task.company action).run.run Memory.remote
        entry.connected.session m =
          .ok (Service.idleAnswer m (.of task.company e.name) (idleResponse r), m) := by
    obtain hm | ⟨hm, hbody, ops, hops⟩ := hr.kind
    · refine ⟨_, hdelete hm, rfl, ?_⟩
      rw [Service.act, Service.run_onEntity he hcompany, Service.delete_nil hlimit hfetch,
        idleResponse, if_pos hm]
    · refine ⟨_, hpatch hm hbody, rfl, ?_⟩
      rw [Service.act, Service.run_onEntity he hcompany, Service.patch_nil hlimit hops hfetch,
        idleResponse, if_neg (by simp [hm])]
  have hwritten : m.idleStatus (.of task.company e.name) =
      if (s.remote.table? (.of task.company e.name)).isSome then .success else recordNotFound := by
    unfold idleStatus table?
    rw [hsame.tables]
  have hhandle : handle service Memory.remote r s = .ok (sent r
      (if (s.remote.table? (.of task.company e.name)).isSome then idleResponse r
        else .ofError (.remote recordNotFound)), ⟨cache, m, s.stopping⟩) := by
    rw [handle_of_task hrtask, perform_of_connected (t := ⟨task.user, task.company, action⟩) hconnect,
      Service.run_serve, hrun, Service.idleAnswer, hwritten]
    cases (s.remote.table? (.of task.company e.name)).isSome <;> rfl
  refine ⟨.of task.company e.name, _, ?_, hhandle, hsame, fun hw => ?_, fun hw => ?_⟩
  · simp [Request.table?, hrtask, htype, he]
  · rw [if_pos ((table?_isSome_iff hes).2 hw)]
  · rw [if_neg (mt (table?_isSome_iff hes).1 hw)]

/-- The only debtor is not in Paris, and is left alone. -/
theorem handle_noMatch_paris :
    let service := Demo.service Demo.debtors .default
    let es := [.account "alice" "s3cret", .company ⟨1, "Demo", []⟩,
      .seed 1 "Debtor" [.obj [("City", .str "Oslo")]]]
    let table := [Demo.debtor 1 "Oslo"]
    let r : Request := ⟨"DELETE", "/Companies/1/Crud/Debtor", some "City=Paris&limit=1", Demo.header, []⟩
    ∃ m response t, Memory.empty.after es = .ok m ∧
      handle service Memory.remote r (Demo.server m) = .ok (response, t) ∧
      response.status = 204 ∧ t.remote.tables = [((1, "debtor"), table)] := by
  intro service es table r
  let q : Request := ⟨"GET", "/Companies/1/Query/Debtor", some "City=Paris", Demo.header, []⟩
  let m := Demo.memory [((1, "debtor"), table)] 1
  let s := Demo.server m
  have hm : Memory.empty.after es = .ok m := by decide +kernel
  have hanswer : (handle service Memory.remote q s).toOption.map (fun p => (p.1.status, p.1.content)) =
      some (200, .json (.arr [])) := by
    decide +kernel
  obtain ⟨⟨answer, t⟩, hquery, hshown⟩ := toOption_map_eq_some.1 hanswer
  obtain ⟨hok, hnone⟩ : answer.status = 200 ∧ answer.content = .json (.arr []) := Prod.mk.inj hshown
  have hq : q.AsksFor r := ⟨rfl, ⟨"1", "Debtor", by decide +kernel⟩, rfl, by decide +kernel⟩
  have hr : IsBulkWrite service r := ⟨⟨1, limitOfQuery_eq_ok.1 (by decide +kernel)⟩, .inl rfl⟩
  obtain ⟨key, response, hkey, hhandle, hsame, hwritten, -⟩ :=
    handle_noMatch (s := s) hm hq hquery hok hnone hr
  have htable : r.table? service = some (1, "debtor") := by decide +kernel
  obtain rfl := Option.some.inj (htable.symm.trans hkey)
  obtain rfl := hwritten ⟨[_, _], .seed 1 "Debtor" _, [], _, _, rfl, rfl, rfl⟩
  exact ⟨m, _, t, hm, hhandle, by rw [sent_status]; rfl, hsame.tables⟩

/-- A table that was never written is queried as one without rows, but a deletion of no rows from it is
refused, and so is a patch. -/
theorem handle_noMatch_unwritten :
    let service := Demo.service Demo.debtors .default
    let q : Request := ⟨"GET", "/Companies/1/Query/Debtor", none, Demo.header, []⟩
    let delete : Request := ⟨"DELETE", "/Companies/1/Crud/Debtor", some "limit=1", Demo.header, []⟩
    let patch : Request := ⟨"PATCH", "/Companies/1/Crud/Debtor", some "limit=1", Demo.header,
      Text.Utf8.ofString "[\x7b\"op\":\"add\",\"path\":\"/Name\",\"value\":\"x\"\x7d]"⟩
    ∃ m, Memory.empty.after [.account "alice" "s3cret", .company ⟨1, "Demo", []⟩] = .ok m ∧
      let answerTo (r : Request) : Option (Nat × Content) :=
        (handle service Memory.remote r (Demo.server m)).toOption.map
          fun p => (p.1.status, p.1.content)
      let refusal : Json := .ofPairs [("error", .str "remote_failure"), ("message", .str "RecordNotFound")]
      q.AsksFor delete ∧ q.AsksFor patch ∧ IsBulkWrite service delete ∧ IsBulkWrite service patch ∧
        answerTo q = some (200, .json (.arr [])) ∧ answerTo delete = some (500, .json refusal) ∧
        answerTo patch = some (500, .json refusal) := by
  intro service q delete patch
  have hpath : Route.ofPath? "/Companies/1/Crud/Debtor" = some (.rows "1" "Debtor") ∧
      Route.ofPath? "/Companies/1/Query/Debtor" = some (.query "1" "Debtor") := by
    decide +kernel
  have hlimit : LimitOf "limit=1" 1 := limitOfQuery_eq_ok.1 (by decide +kernel)
  have hops : bodyPatch patch.body = .ok [.add ["Name"] (.str "x")] := by decide +kernel
  refine ⟨_, rfl, ⟨rfl, ⟨_, _, hpath⟩, rfl, by decide +kernel⟩, ⟨rfl, ⟨_, _, hpath⟩, rfl, by decide +kernel⟩,
    ⟨⟨1, hlimit⟩, .inl rfl⟩, ⟨⟨1, hlimit⟩, .inr ⟨rfl, by decide +kernel, _, hops⟩⟩, ?_, ?_, ?_⟩
  all_goals decide +kernel

end Server

end LedgerFront
