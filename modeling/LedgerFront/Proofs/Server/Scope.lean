import LedgerFront.Proofs.Server.Tasks
import LedgerFront.Proofs.Server.Transcript

/-!
# What a task is about

A task is about the company that the path of its request names, and so are all calls of its dialogue,
whatever the remote side replies.

* `Request.company?_of_task`: the company of a task.
* `Talk.AsksOnly`: what all calls of a dialogue have in common, with `bind` and `ask`.
* `Service.asksOnly_act`: the calls of an action.
-/

namespace LedgerFront

/-! ## The company in a path -/

/-- The company in a segment of a path. -/
def PathParam.company (segment : String) : Except PathProblem Int :=
  (text "company_id" segment).bind (int32 0)

/-- The segment that stands for the company. -/
def Route.company? : Route → Option String
  | .index | .health | .stats => none
  | .query company _ | .rows company _ | .invoice _ company _ | .journal company _ => some company

/-- The company that a path names, whether or not there is a resource at the path. -/
def Request.company? (r : Request) : Option Int :=
  match Text.pieces "/" r.path with
  | "" :: "Companies" :: company :: _ => (PathParam.company company).toOption
  | _ => none

theorem Route.segments_of_company {segments : List String} {route : Route} {segment : String}
    (h : ofSegments? segments = some route) (hs : route.company? = some segment) :
    ∃ rest, segments = "" :: "Companies" :: segment :: rest := by
  unfold ofSegments? at h
  split at h
  · exact absurd hs (by simp [← Option.some.inj h, company?])
  · exact absurd hs (by simp [← Option.some.inj h, company?])
  · exact absurd hs (by simp [← Option.some.inj h, company?])
  · obtain ⟨-, rfl⟩ : _ ∧ query .. = route := by simpa using h
    exact ⟨_, by rw [← Option.some.inj hs]⟩
  · obtain ⟨-, rfl⟩ : _ ∧ rows .. = route := by simpa using h
    exact ⟨_, by rw [← Option.some.inj hs]⟩
  · obtain ⟨-, _, -, rfl⟩ : _ ∧ ∃ _, _ ∧ invoice .. = route := by simpa using h
    exact ⟨_, by rw [← Option.some.inj hs]⟩
  · obtain ⟨-, rfl⟩ : _ ∧ journal .. = route := by simpa using h
    exact ⟨_, by rw [← Option.some.inj hs]⟩
  · simp at h

namespace Task

variable {limit : Nat} {r : Request} {route : Route} {t : Task}

/-- The company is read in the same way from all paths, after what else is in them is decoded. -/
theorem company_of_path {α β : Type} {segment : String} {other : Except PathProblem α}
    {rest : α → Int → Except PathProblem β} {b : β}
    (h : (do
      let company ← PathParam.text "company_id" segment
      let a ← other
      let company ← PathParam.int32 0 company
      rest a company) = .ok b) :
    ∃ company a, PathParam.company segment = .ok company ∧ rest a company = .ok b := by
  obtain ⟨text, htext, h⟩ := bind_eq_ok.1 h
  obtain ⟨a, -, h⟩ := bind_eq_ok.1 h
  obtain ⟨company, hcompany, h⟩ := bind_eq_ok.1 h
  exact ⟨company, a, bind_eq_ok.2 ⟨text, htext, hcompany⟩, h⟩

/-- A task is about the company in the path of its resource. -/
theorem company_of_ofRequest (h : ofRequest limit r route = some (.ok t)) :
    ∃ segment, route.company? = some segment ∧ PathParam.company segment = .ok t.company := by
  cases route with
  | index | health | stats => simp [ofRequest] at h
  | query company type =>
    obtain ⟨_, -, h⟩ := bind_eq_ok.1 (Option.some.inj h)
    obtain ⟨p, hp, h⟩ := bind_eq_ok.1 h
    obtain ⟨n, _, hn, hp⟩ := company_of_path (mapError_eq_ok.1 hp)
    obtain rfl := Except.ok.inj hp
    obtain rfl := Except.ok.inj h
    exact ⟨company, rfl, hn⟩
  | rows company type =>
    obtain ⟨_, -, h⟩ := bind_eq_ok.1 (Option.some.inj h)
    obtain ⟨p, hp, h⟩ := bind_eq_ok.1 h
    obtain ⟨n, _, hn, hp⟩ := company_of_path (mapError_eq_ok.1 hp)
    obtain rfl := Except.ok.inj hp
    exact ⟨company, rfl, (of_rowsTask h).2 ▸ hn⟩
  | invoice kind company order =>
    obtain ⟨_, -, h⟩ := bind_eq_ok.1 (Option.some.inj h)
    obtain ⟨p, hp, h⟩ := bind_eq_ok.1 h
    obtain ⟨n, _, hn, hp⟩ := company_of_path (mapError_eq_ok.1 hp)
    obtain ⟨_, -, hp⟩ := bind_eq_ok.1 hp
    obtain rfl := Except.ok.inj hp
    obtain ⟨_, -, h⟩ := bind_eq_ok.1 h
    obtain rfl := Except.ok.inj h
    exact ⟨company, rfl, hn⟩
  | journal company journal =>
    obtain ⟨_, -, h⟩ := bind_eq_ok.1 (Option.some.inj h)
    obtain ⟨p, hp, h⟩ := bind_eq_ok.1 h
    obtain ⟨n, _, hn, hp⟩ := company_of_path (mapError_eq_ok.1 hp)
    obtain ⟨_, -, hp⟩ := bind_eq_ok.1 hp
    obtain rfl := Except.ok.inj hp
    obtain ⟨_, -, h⟩ := bind_eq_ok.1 h
    obtain rfl := Except.ok.inj h
    exact ⟨company, rfl, hn⟩

end Task

/-- **The company of a task** is the one that the path names. -/
theorem Request.company?_of_task {limit : Nat} {r : Request} {t : Task} (h : r.task? limit = some t) :
    r.company? = some t.company := by
  obtain ⟨-, route, hroute, -, ht⟩ := Server.route_of_task h
  obtain ⟨segment, hsegment, hcompany⟩ := Task.company_of_ofRequest ht
  obtain ⟨rest, hpath⟩ := Route.segments_of_company hroute hsegment
  simp only [company?, hpath, hcompany]
  rfl

/-! ## The calls of a task -/

/-- The company that a call is about. -/
def Call.company? : Call → Option Int
  | .login .. | .companies => none
  | .query company .. | .read company .. | .lines company .. | .insert company ..
  | .update company .. | .delete company .. | .invoice company .. | .journal company .. => some company

namespace Talk

variable {α β : Type} {p : Call → Prop}

/-- The dialogue makes only such calls, whatever the replies are. -/
def AsksOnly (t : Talk α) (p : Call → Prop) : Prop := ∀ log c, t.Asks log c → p c

theorem asksOnly_ofExcept (e : Except RequestError α) : (Talk.ofExcept e).AsksOnly p :=
  fun _ _ h => absurd h Talk.not_asks_ofExcept

theorem asksOnly_ofRun (r : Run α) : (Talk.ofRun r).AsksOnly p :=
  fun _ _ h => absurd h Talk.not_asks_ofRun

theorem asksOnly_pure (a : α) : (pure a : Talk α).AsksOnly p := fun _ _ h => absurd h Talk.not_asks_pure

theorem asksOnly_throw (e : RequestError) : (throw e : Talk α).AsksOnly p := asksOnly_ofExcept (.error e)

theorem asksOnly_expectSuccess (s : Status) : (Talk.expectSuccess s).AsksOnly p :=
  fun _ _ h => absurd h Talk.not_asks_expectSuccess

theorem asksOnly_ask {c : Call} (h : p c) : (Talk.ask c).AsksOnly p :=
  fun _ _ hc => (Talk.asks_ask.1 hc).2 ▸ h

theorem AsksOnly.bind {t : Talk α} {f : α → Talk β} (ht : t.AsksOnly p) (hf : ∀ a, (f a).AsksOnly p) :
    (t >>= f).AsksOnly p := by
  intro log c h
  obtain h | ⟨_, rest, a, -, -, h⟩ := Talk.asks_bind.1 h
  · exact ht log c h
  · exact hf a rest c h

end Talk

namespace Service

open Talk

variable {svc : Service} {companies : List Company} {company : Int} {e : Entity} {p : Call → Prop}

theorem asksOnly_answer (s : Status) (response : Response) :
    (Talk.expectSuccess s >>= fun _ => pure response : Talk Response).AsksOnly p :=
  (asksOnly_expectSuccess s).bind fun _ => asksOnly_pure response

theorem asksOnly_fetch (svc : Service) (company : Int) (e : Entity) (params : Params) :
    (svc.fetch company e params).AsksOnly (·.company? = some company) :=
  (asksOnly_ofRun _).bind fun _ => (asksOnly_ofExcept _).bind fun _ =>
    AsksOnly.bind (asksOnly_ask rfl) fun _ => asksOnly_ofRun _

theorem asksOnly_readRow (company : Int) (entity : String) (key : Json) :
    (readRow company entity key).AsksOnly (·.company? = some company) := by
  refine AsksOnly.bind (asksOnly_ask rfl) fun outcome => (asksOnly_expectSuccess _).bind fun _ => ?_
  cases outcome.row with
  | none => exact asksOnly_throw _
  | some row => exact asksOnly_pure row

theorem asksOnly_onEntity {type : String} {act : Entity → Talk Response} (h : ∀ e, (act e).AsksOnly p) :
    (svc.onEntity companies company type act).AsksOnly p :=
  (asksOnly_ofExcept _).bind fun e => (asksOnly_ofExcept _).bind fun _ => h e

theorem asksOnly_create (company : Int) (e : Entity) (body : List UInt8) :
    (create company e body).AsksOnly (·.company? = some company) :=
  (asksOnly_ofExcept _).bind fun _ => AsksOnly.bind (asksOnly_ask rfl) fun _ => asksOnly_answer _ _

theorem asksOnly_patch (svc : Service) (company : Int) (e : Entity) (filter : String)
    (body : List UInt8) : (svc.patch company e filter body).AsksOnly (·.company? = some company) :=
  (asksOnly_ofExcept _).bind fun _ => (asksOnly_ofExcept _).bind fun _ =>
    (asksOnly_fetch svc company e _).bind fun _ => (asksOnly_ofExcept _).bind fun _ =>
    (asksOnly_ofExcept _).bind fun _ => AsksOnly.bind (asksOnly_ask rfl) fun _ => asksOnly_answer _ _

theorem asksOnly_delete (svc : Service) (company : Int) (e : Entity) (filter : String) :
    (svc.delete company e filter).AsksOnly (·.company? = some company) :=
  (asksOnly_ofExcept _).bind fun _ => (asksOnly_fetch svc company e _).bind fun _ =>
    (asksOnly_ofExcept _).bind fun _ => AsksOnly.bind (asksOnly_ask rfl) fun _ => asksOnly_answer _ _

theorem asksOnly_invoice (svc : Service) (company : Int) (kind : OrderKind) (number : Int)
    (o : InvoiceOptions) (returnPdf : Bool) :
    (svc.invoice company kind number o returnPdf).AsksOnly (·.company? = some company) := by
  refine (asksOnly_readRow company _ _).bind fun order => AsksOnly.bind (asksOnly_ask rfl) fun lines =>
    AsksOnly.bind (asksOnly_ask rfl) ?_
  rintro ⟨status, _ | bytes, details⟩ <;> exact asksOnly_answer _ _

theorem asksOnly_journal (svc : Service) (company id : Int) (simulate : Bool) :
    (svc.journal company id simulate).AsksOnly (·.company? = some company) := by
  refine (asksOnly_readRow company _ _).bind fun journal => AsksOnly.bind (asksOnly_ask rfl) ?_
  rintro ⟨status, details⟩
  cases status with
  | noLines => exact asksOnly_pure _
  | success | other => exact asksOnly_answer _ _

/-- **All calls of an action are about its company.** -/
theorem asksOnly_act (svc : Service) (companies : List Company) (company : Int) (action : Action) :
    (svc.act companies company action).AsksOnly (·.company? = some company) := by
  cases action with
  | query type filter =>
    exact asksOnly_onEntity fun e => (asksOnly_fetch svc company e _).bind fun _ => asksOnly_pure _
  | create type body => exact asksOnly_onEntity fun e => asksOnly_create company e body
  | patch type filter body => exact asksOnly_onEntity fun e => asksOnly_patch svc company e filter body
  | delete type filter => exact asksOnly_onEntity fun e => asksOnly_delete svc company e filter
  | invoice kind order options returnPdf =>
    exact (asksOnly_ofExcept _).bind fun _ => asksOnly_invoice svc company kind order options returnPdf
  | journal id simulate =>
    exact (asksOnly_ofExcept _).bind fun _ => asksOnly_journal svc company id simulate

end Service

end LedgerFront
