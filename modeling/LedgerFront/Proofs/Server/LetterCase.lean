import LedgerFront.Proofs.Filter.Compile
import LedgerFront.Proofs.Filter.Params
import LedgerFront.Proofs.Schema.Columns
import LedgerFront.Proofs.Server.Companies
import LedgerFront.Proofs.Server.Demo

/-!
# Names in another letter case

The type and the keys of a query are names, and their letter case does not matter: two queries that differ
in nothing else make the same calls, and are answered alike. Only the text of a refusal, which tells the
name as it was sent, may differ.

* `Compiling.Alike`: filters that compile to the same, or are both refused.
* `Talk.Alike`: dialogues that come to related values, or are refused with the same status, whatever the
  remote side answers.
* `Server.handle_recased`: two queries with names in different letter case.
-/

namespace LedgerFront

/-- Values that are related, or refusals that are. -/
inductive Agree {α β ε : Type} (values : α → β → Prop) (refusals : ε → ε → Prop) :
    Except ε α → Except ε β → Prop where
  | value {a : α} {b : β} (h : values a b) : Agree values refusals (.ok a) (.ok b)
  | refusal {e e' : ε} (h : refusals e e') : Agree values refusals (.error e) (.error e')

theorem Agree.refl {α ε : Type} {values : α → α → Prop} {refusals : ε → ε → Prop}
    (hv : ∀ a, values a a) (hr : ∀ e, refusals e e) (x : Except ε α) : Agree values refusals x x := by
  cases x with
  | error e => exact .refusal (hr e)
  | ok a => exact .value (hv a)

/-! ## Filters -/

/-- The same values under the same keys up to letter case, in the same order. -/
def SameUpToCase (given given' : List (String × String)) : Prop :=
  List.Forall₂ (fun p p' => Text.lower p'.1 = Text.lower p.1 ∧ p'.2 = p.2) given given'

namespace Compiling

variable {α β γ : Type}

/-- Both compile to the same, or both are refused, or both stop the program. -/
def Alike (x x' : Compiling α) : Prop := Run.Both (Agree Eq fun _ _ => True) x.run x'.run

theorem Alike.refl (x : Compiling α) : Alike x x :=
  Run.Both.refl (Agree.refl (fun _ => rfl) fun _ => trivial) x.run

theorem alike_throw (f f' : FilterError) : Alike (throw f : Compiling α) (throw f') :=
  .values (.refusal trivial)

theorem Alike.bind {x x' : Compiling α} {f f' : α → Compiling β} (h : Alike x x')
    (hf : ∀ a, Alike (f a) (f' a)) : Alike (x >>= f) (x' >>= f') := by
  unfold Alike
  rw [run_bind, run_bind]
  refine Run.Both.bind h ?_
  rintro _ _ (⟨rfl⟩ | _)
  · exact hf _
  · exact .values (.refusal trivial)

/-- Compiling lists whose items compile alike. -/
theorem Alike.mapM {related : α → γ → Prop} {f : α → Compiling β} {f' : γ → Compiling β}
    {l : List α} {l' : List γ} (h : List.Forall₂ related l l')
    (hf : ∀ a c, related a c → Alike (f a) (f' c)) : Alike (l.mapM f) (l'.mapM f') := by
  induction h with
  | nil => exact .refl _
  | cons hac _ ih =>
    rw [List.mapM_cons, List.mapM_cons]
    exact (hf _ _ hac).bind fun _ => ih.bind fun _ => .refl _

end Compiling

open Compiling

variable {settings : CompilerSettings} {e : Entity}

/-- **A parameter** compiles to the same under a key in another letter case. -/
theorem parameterCondition_alike {key key' : String} (h : Text.lower key' = Text.lower key)
    (value : String) :
    Alike (parameterCondition settings e key value) (parameterCondition settings e key' value) := by
  unfold parameterCondition
  rw [e.resolve?_congr h]
  cases e.resolve? key with
  | none => exact alike_throw _ _
  | some c => exact .refl _

namespace Params

variable {p p' : Params}

theorem keys_ne_of_sameUpToCase {given given' : List (String × String)} {name : String}
    (h : SameUpToCase given given') (hne : ∀ q ∈ given, Text.lower q.1 ≠ Text.lower name) :
    ∀ q ∈ given', Text.lower q.1 ≠ Text.lower name := by
  induction h with
  | nil => simp
  | cons hq _ ih =>
    rw [List.forall_mem_cons] at hne ⊢
    exact ⟨hq.1 ▸ hne.1, ih hne.2⟩

/-- Without a raw expression all parameters are compiled one by one. -/
theorem compile_of_noRaw (h : ∀ q ∈ p.pairs, Text.lower q.1 ≠ Text.lower settings.rawKey) :
    p.compile settings e = (p.pairs.mapM fun pair => parameterCondition settings e pair.1 pair.2) >>=
      fun conditions =>
        pure ⟨conditions.filterMap Condition.server?, conditions.filterMap Condition.row?⟩ := by
  have hkeys : ∀ q ∈ p.pairs, q.1 ≠ settings.rawKey := fun q hq heq => h q hq (heq ▸ rfl)
  -- the raw key is compared as it is written, so keys that differ in letter case only are others too
  have hplain : p.pairs.filter (·.1 != settings.rawKey) = p.pairs :=
    List.filter_eq_self.2 fun q hq => by simpa using hkeys q hq
  have hraw : p.rawPredicates settings = [] := by
    have hnone : p.get? settings.rawKey = none := by
      rw [get?, List.lookup_eq_none_iff]
      exact fun q hq => by simpa using (hkeys q hq).symm
    rw [rawPredicates, hnone]
  unfold compile
  rw [hplain, hraw]
  rfl

/-- **A filter** without a raw expression compiles to the same under keys in another letter case. -/
theorem compile_alike (h : SameUpToCase p.pairs p'.pairs)
    (hraw : ∀ q ∈ p.pairs, Text.lower q.1 ≠ Text.lower settings.rawKey) :
    Alike (p.compile settings e) (p'.compile settings e) := by
  rw [compile_of_noRaw hraw, compile_of_noRaw (keys_ne_of_sameUpToCase h hraw)]
  refine (Alike.mapM h ?_).bind fun _ => .refl _
  rintro ⟨key, value⟩ ⟨key', _⟩ ⟨hkey, rfl⟩
  exact parameterCondition_alike hkey _

end Params

/-! ## Dialogues -/

/-- Refusals that are answered with the same status. -/
def SameStatus (e e' : RequestError) : Prop := e'.httpStatus = e.httpStatus

theorem SameStatus.refl (e : RequestError) : SameStatus e e := Eq.refl e.httpStatus

theorem sameStatus_ofFilter (f f' : FilterError) :
    SameStatus (.ofFilter f) (.ofFilter f') := Eq.refl 400

namespace Talk

variable {α β : Type} {values : α → β → Prop}

/-- With every remote side, both come to related values, or are refused with the same status, or stop the
program; and they leave the remote side in the same state. -/
def Alike (values : α → β → Prop) (t : Talk α) (t' : Talk β) : Prop :=
  ∀ (σ : Type) (remote : Remote σ) (session : Nat) (s : σ),
    Run.Both (fun p p' => Agree values SameStatus p.1 p'.1 ∧ p'.2 = p.2)
      (t.run.run remote session s) (t'.run.run remote session s)

theorem Alike.refl (t : Talk α) : Alike Eq t t := by
  intro σ remote session s
  refine Run.Both.refl (fun p => ⟨.refl (fun _ => rfl) SameStatus.refl p.1, rfl⟩) _

theorem alike_ofExcept {x : Except RequestError α} {x' : Except RequestError β}
    (h : Agree values SameStatus x x') :
    Alike values (ofExcept x) (ofExcept x') := fun _ _ _ _ => .values ⟨h, rfl⟩

theorem alike_pure {a : α} {b : β} (h : values a b) : Alike values (pure a : Talk α) (pure b) :=
  alike_ofExcept (.value h)

theorem Alike.bind {γ δ : Type} {values' : γ → δ → Prop} {t : Talk α} {t' : Talk β} {f : α → Talk γ}
    {f' : β → Talk δ} (h : Alike values t t') (hf : ∀ a b, values a b → Alike values' (f a) (f' b)) :
    Alike values' (t >>= f) (t' >>= f') := by
  intro σ remote session s
  rw [run_bind, run_bind]
  refine Run.Both.bind (h σ remote session s) ?_
  rintro ⟨_, _⟩ ⟨_, _⟩ ⟨hvalue | hrefusal, rfl⟩
  · exact hf _ _ hvalue σ remote session _
  · exact .values ⟨.refusal hrefusal, rfl⟩

theorem alike_ofRun {x : Run α} {x' : Run β} (h : Run.Both values x x') :
    Alike values (ofRun x) (ofRun x') := by
  intro σ remote session s
  rw [run_ofRun, run_ofRun]
  exact h.map fun _ _ hvalue => ⟨.value hvalue, rfl⟩

end Talk

open Talk

namespace Service

variable {svc : Service} {companies : List Company} {company : Int} {type type' filter filter' : String}

/-- Filters that compile alike fetch the same rows. A refused one is answered as a bad request. -/
theorem fetch_alike {p p' : Params}
    (h : Compiling.Alike (p.compile svc.compiler e) (p'.compile svc.compiler e)) :
    Talk.Alike Eq (svc.fetch company e p) (svc.fetch company e p') := by
  unfold fetch
  refine (alike_ofRun h).bind ?_
  intro compiled compiled' hcompiled
  -- the errors of two refused filters may tell different keys
  have hq : Talk.Alike Eq (Talk.ofExcept (compiled.mapError RequestError.ofFilter))
      (Talk.ofExcept (compiled'.mapError RequestError.ofFilter)) := by
    refine alike_ofExcept ?_
    cases hcompiled with
    | value h => exact .value h
    | refusal => exact .refusal (sameStatus_ofFilter _ _)
  refine hq.bind ?_
  rintro q _ rfl
  exact .refl _

/-- Answers with the same rows. -/
def SameRows (response response' : Response) : Prop :=
  ∃ rows, response = .ok (.arr rows) ∧ response' = .ok (.arr rows)

/-- Filters that are the same up to letter case, and have no raw expression. -/
structure SameFilter (settings : CompilerSettings) (filter filter' : String) : Prop where
  same : SameUpToCase (Text.Form.decode filter) (Text.Form.decode filter')
  distinct : ((Text.Form.decode filter).map (·.1)).Nodup
  distinct' : ((Text.Form.decode filter').map (·.1)).Nodup
  noRaw : ∀ p ∈ Text.Form.decode filter, Text.lower p.1 ≠ Text.lower settings.rawKey

theorem query_alike (h : SameFilter svc.compiler filter filter') :
    Talk.Alike SameRows (svc.query company e filter) (svc.query company e filter') := by
  have hpairs := Params.pairs_parseQuery_of_nodup h.distinct
  have hpairs' := Params.pairs_parseQuery_of_nodup h.distinct'
  have hcompile : Compiling.Alike ((Params.parseQuery filter []).compile svc.compiler e)
      ((Params.parseQuery filter' []).compile svc.compiler e) := by
    refine Params.compile_alike ?_ ?_
    · rw [hpairs, hpairs']
      exact h.same
    · rw [hpairs]
      exact h.noRaw
  refine (fetch_alike hcompile).bind ?_
  rintro rows _ rfl
  exact alike_pure ⟨rows, rfl, rfl⟩

/-- **A query** in other letter case. -/
theorem act_query_alike (htype : Text.lower type' = Text.lower type)
    (h : SameFilter svc.compiler filter filter') :
    Talk.Alike SameRows (svc.act companies company (.query type filter))
      (svc.act companies company (.query type' filter')) := by
  have hget : svc.schemas.get? type' = svc.schemas.get? type := by
    unfold Registry.get? Index.get?
    rw [htype]
  have hentity : Agree Eq SameStatus (svc.entity type) (svc.entity type') := by
    unfold entity
    rw [hget]
    cases svc.schemas.get? type with
    | none => exact .refusal rfl
    | some e => exact .value rfl
  refine (alike_ofExcept hentity).bind ?_
  rintro e _ rfl
  refine (Talk.Alike.refl (Talk.ofExcept (ensureCompany companies company))).bind fun _ _ _ => ?_
  exact query_alike h

end Service

/-! ## Requests -/

/-- The same rows, or refusals with the same status. -/
inductive SameAnswer : Response → Response → Prop where
  | rows (rows : List Json) : SameAnswer (.ok (.arr rows)) (.ok (.arr rows))
  | refusals {response response' : Response} (hfails : response.isSuccess = false)
    (hstatus : response'.status = response.status) : SameAnswer response response'

/-- What two dialogues or servers come to: answers that are the same, and the same state. -/
abbrev SameOutcome {σ : Type} (p p' : Response × σ) : Prop := SameAnswer p.1 p'.1 ∧ p'.2 = p.2

section

variable {σ : Type} {remote : Remote σ} {service : Service} {company : Int}
  {type type' filter filter' : String}

theorem Service.serve_query_alike {companies : List Company} (user : Credentials)
    (htype : Text.lower type' = Text.lower type) (h : SameFilter service.compiler filter filter')
    (session : Nat) (s : σ) : Run.Both SameOutcome
      ((service.serve companies ⟨user, company, .query type filter⟩).run remote session s)
      ((service.serve companies ⟨user, company, .query type' filter'⟩).run remote session s) := by
  unfold serve
  rw [Dialogue.run_bind, Dialogue.run_bind]
  refine Run.Both.bind (act_query_alike htype h σ remote session s) ?_
  rintro ⟨_, _⟩ ⟨_, _⟩ ⟨hrows | hrefusal, rfl⟩
  · obtain ⟨rows, rfl, rfl⟩ := hrows
    exact .values ⟨.rows rows, rfl⟩
  · refine .values ⟨.refusals (Response.ofError_isSuccess _) ?_, rfl⟩
    rw [Response.ofError_status, Response.ofError_status]
    exact hrefusal

namespace Server

variable {s : Server σ}

/-- The connection of the user comes first, and is the same for both. -/
theorem perform_query_alike (user : Credentials) (htype : Text.lower type' = Text.lower type)
    (h : Service.SameFilter service.compiler filter filter') : Run.Both SameOutcome
      (perform service remote ⟨user, company, .query type filter⟩ s)
      (perform service remote ⟨user, company, .query type' filter'⟩ s) := by
  cases hconnect : s.cache.connect remote user s.stopping s.remote with
  | error why =>
    unfold perform
    rw [hconnect]
    exact .stops why
  | ok p =>
    obtain ⟨outcome | e, cache, rest⟩ := p
    · rw [perform_of_refused hconnect, perform_of_refused hconnect]
      exact .values ⟨.refusals (Response.ofError_isSuccess _) rfl, rfl⟩
    · rw [perform_of_connected hconnect, perform_of_connected hconnect]
      refine (Service.serve_query_alike user htype h e.connected.session rest).map fun p p' hp => ?_
      exact ⟨hp.1, by rw [hp.2]⟩

end Server

end

/-- The user and the company of a request, before its type is looked at. -/
def Task.asker (r : Request) (company : String) : Except Response (Credentials × Int) := do
  let user ← (Authorization.credentials r).mapError unauthorized
  let company ← (PathParam.text "company_id" company >>= PathParam.int32 0).mapError badPath
  pure (user, company)

/-- The task of a query with a type that can be read. -/
theorem Task.ofRequest_query (limit : Nat) (r : Request) (company : String) {type name : String}
    (hname : PathParam.text "type_name" type = .ok name) : ofRequest limit r (.query company type) =
      some ((asker r company).map fun p => ⟨p.1, p.2, .query name r.queryText⟩) := by
  unfold ofRequest companyAndType asker
  dsimp only
  rw [hname]
  cases Authorization.credentials r with
  | error problem => rfl
  | ok user =>
    cases PathParam.text "company_id" company with
    | error problem => rfl
    | ok text =>
      simp only [bind, Except.bind, Except.mapError]
      cases PathParam.int32 0 text <;> rfl

/-- Two queries by the same user for the same company, whose types and filter keys differ in letter case
only. -/
structure Request.Recased (settings : CompilerSettings) (r r' : Request) : Prop where
  method : r.method = "GET"
  method' : r'.method = "GET"
  user : Authorization.credentials r' = Authorization.credentials r
  path : ∃ company type type' name name', Route.ofPath? r.path = some (.query company type) ∧
    Route.ofPath? r'.path = some (.query company type') ∧
    PathParam.text "type_name" type = .ok name ∧ PathParam.text "type_name" type' = .ok name' ∧
    Text.lower name' = Text.lower name
  filter : Service.SameFilter settings r.queryText r'.queryText

namespace Server

variable {σ : Type} {service : Service} {r r' : Request}

theorem respond_query_alike (remote : Remote σ) (s : Server σ) (company : String)
    {type type' name name' : String}
    (huser : Authorization.credentials r' = Authorization.credentials r)
    (hname : PathParam.text "type_name" type = .ok name)
    (hname' : PathParam.text "type_name" type' = .ok name') (hcase : Text.lower name' = Text.lower name)
    (h : Service.SameFilter service.compiler r.queryText r'.queryText) : Run.Both SameOutcome
      (respond service remote r (.query company type) s)
      (respond service remote r' (.query company type') s) := by
  have hasker : Task.asker r' company = Task.asker r company := by
    unfold Task.asker
    rw [huser]
  have htask := Task.ofRequest_query service.bodyLimit r company hname
  have htask' := Task.ofRequest_query service.bodyLimit r' company hname'
  rw [hasker] at htask'
  unfold respond
  cases hasks : Task.asker r company with
  | error response =>
    rw [hasks] at htask htask'
    rw [htask, htask']
    exact .values ⟨.refusals (Task.fails_of_ofRequest htask) rfl, rfl⟩
  | ok p =>
    rw [hasks] at htask htask'
    rw [htask, htask']
    exact perform_query_alike p.1 hcase h

/-- **The letter case of names does not matter** in a query, whatever the state of the server and of the
remote side, and whatever becomes of more alternatives than the remote side takes. When only the type and
the keys of the filter are written in another letter case, with different keys before and after and no raw
expression among them, then the program stops for both queries, or both are answered with the same status,
with the same rows in the same order if they are answered with rows, and they leave the same server. -/
theorem handle_recased (service : Service) (remote : Remote σ) (s : Server σ)
    (h : r.Recased service.compiler r') :
    (∃ why, handle service remote r s = .error why ∧ handle service remote r' s = .error why) ∨
    ∃ response response' t, handle service remote r s = .ok (response, t) ∧
      handle service remote r' s = .ok (response', t) ∧ response'.status = response.status ∧
      (response.status = 200 → ∃ rows, response.content = .json (.arr rows) ∧
        response'.content = .json (.arr rows)) := by
  obtain ⟨company, type, type', name, name', hpath, hpath', hname, hname', hcase⟩ := h.path
  have hrespond := respond_query_alike remote s company h.user hname hname' hcase h.filter
  have hget : ∀ {q : Request}, q.method = "GET" → q.method ≠ "OPTIONS" ∧ q.method ≠ "HEAD" ∧
      ∀ t, (Route.query company t).methods.contains q.method = true := by
    intro q hq
    simp [hq, Route.methods]
  obtain ⟨hoptions, hhead, hmethod⟩ := hget h.method
  obtain ⟨hoptions', hhead', hmethod'⟩ := hget h.method'
  rw [handle_of_route hoptions hpath (hmethod type), handle_of_route hoptions' hpath' (hmethod' type')]
  obtain ⟨why, hstop, hstop'⟩ | ⟨⟨response, t⟩, ⟨response', t'⟩, hr, hr', hsame, rfl⟩ :=
    hrespond.stop_or_values
  · rw [hstop, hstop']
    exact .inl ⟨why, rfl, rfl⟩
  · rw [hr, hr']
    -- the requests may have different identifiers, which do not touch status and content
    refine .inr ⟨sent r response, sent r' response', t', rfl, rfl, ?_, ?_⟩
    · rw [sent_status, sent_status]
      cases hsame with
      | rows => rfl
      | refusals _ hstatus => exact hstatus
    · rw [sent_status, sent_content hhead, sent_content hhead']
      cases hsame with
      | rows rows => exact fun _ => ⟨rows, rfl, rfl⟩
      | refusals hfails =>
        intro hok
        simp [Response.isSuccess, hok] at hfails

/-- One column under two keys, sent percent-encoded the second time; its alternatives are checked on the
rows. -/
theorem handle_recased_debtors :
    let service := Demo.service Demo.debtors ⟨1, .clientFilter, "query"⟩
    let table := [Demo.debtor 1 "Oslo", Demo.debtor 2 "Paris", Demo.debtor 3 "Rome"]
    let s := Demo.server (Demo.memory [((1, "debtor"), table)] 3)
    let r : Request :=
      ⟨"GET", "/Companies/1/Query/Debtor", some "city=Oslo+OR+Rome&CITY=Rome", Demo.header, []⟩
    let r' : Request :=
      ⟨"GET", "/Companies/1/Query/DEB%54or", some "C%49TY=Oslo+OR+Rome&cITy=Rome", Demo.header, []⟩
    r.Recased service.compiler r' ∧ ∃ response response' t,
      handle service Memory.remote r s = .ok (response, t) ∧
      handle service Memory.remote r' s = .ok (response', t) ∧
      response'.status = 200 ∧ response'.content = .json (.arr [Demo.debtor 3 "Rome"]) := by
  intro service table s r r'
  have hrows : (handle service Memory.remote r s).toOption.map (fun p => (p.1.status, p.1.content)) =
      some (200, .json (.arr [Demo.debtor 3 "Rome"])) := by
    decide +kernel
  have hr : r.Recased service.compiler r' :=
    { method := rfl
      method' := rfl
      user := rfl
      path := ⟨"1", "Debtor", "DEB%54or", "Debtor", "DEBTor", by decide +kernel⟩
      filter := ⟨by unfold SameUpToCase; decide +kernel, by decide +kernel, by decide +kernel,
        by decide +kernel⟩ }
  refine ⟨hr, ?_⟩
  obtain ⟨why, hstop, -⟩ | ⟨response, response', t, ht, ht', hstatus, hsame⟩ :=
    handle_recased service Memory.remote s hr
  · rw [hstop] at hrows
    exact absurd hrows nofun
  · rw [ht] at hrows
    obtain ⟨hok, hcontent⟩ := Prod.mk.inj (Option.some.inj hrows)
    obtain ⟨rows, hrows, hrows'⟩ := hsame hok
    exact ⟨response, response', t, ht, ht', hstatus.trans hok, hrows'.trans (hrows.symm.trans hcontent)⟩

end Server

end LedgerFront
