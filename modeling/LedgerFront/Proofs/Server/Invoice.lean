import LedgerFront.Proofs.Filter.Decide
import LedgerFront.Proofs.Filter.Faithful
import LedgerFront.Proofs.Server.Demo
import LedgerFront.Proofs.Server.Journal
import LedgerFront.Schema.Catalogue

/-!
# The lines of an invoice

An invoice is posted with the lines of its order. The memory looks for them by the member `OrderNumber`,
spelled exactly so, and by equal values, although it finds the order itself, and the rows of a query, by
the column of that name in any letter case, and a query compares the normal forms of values. So the lines
that are billed are those that a query shows where both ways of looking come to the same.

* `Service.ListsLines`: a type name whose rows can be queried by the number of an order.
* `Service.reaches_fetch_lines`: the lines that a query shows.
* `Service.calls_invoice`: the calls that post an invoice.
* `Server.handle_invoice_lines`: the lines that are billed, next to those that are shown.
-/

namespace LedgerFront

open Memory

/-! ## Lines of an order -/

namespace Memory

variable {order line : Json} {n : Int}

/-- A line has the value of the order under `OrderNumber`, spelled like that in both. -/
def bills (order line : Json) : Bool :=
  (order.get? Row.orderKey).any fun number => memberIs Row.orderKey number line

theorem lines_eq (key : TableKey) (order : Json) (m : Memory) :
    m.lines key order = (m.rows key).filter (bills order) := by
  unfold lines bills
  cases order.get? Row.orderKey with
  | none => simp
  | some number => rfl

/-- The column `OrderNumber` of a row, in any letter case, denotes the number. -/
def isNumbered (n : Int) (row : Members) : Bool :=
  (Row.column? Row.orderKey row).any fun v =>
    decide (ValueType.integer.normalizeJson v = .ok (some (Text.intText n)))

/-- A query for the number shows the row. -/
def shows (n : Int) : Json → Bool := Json.isObjectWith (isNumbered n)

/-- The number of an order, if there is any, stands under `OrderNumber`, spelled like that, and is a
64-bit integer. -/
def PlainNumber (row : Json) : Prop := ∀ members, row = .obj members →
  Row.column? Row.orderKey members = Members.find? Row.orderKey members ∧
    ∀ v, Members.find? Row.orderKey members = some v → ∃ i : Int, v = .ofInt i ∧ -2 ^ 63 ≤ i ∧ i < 2 ^ 63

theorem sameValue_ofInt {v : Json} : v.sameValue (.ofInt n) = true ↔ v = .ofInt n := by
  cases v with
  | num x => cases x <;> simp [Json.sameValue, Json.ofInt, JsonNumber.sameValue]
  | null | bool | str | arr | obj => simp [Json.sameValue, Json.ofInt]

/-- An order is found by its column `OrderNumber`, in any letter case. -/
theorem column?_of_read {key : TableKey} {m : Memory}
    (h : m.read key (.ofPairs [(Row.orderKey, .ofInt n)]) = ⟨.success, some order⟩) :
    ∃ members, order = .obj members ∧ Row.column? Row.orderKey members = some (.ofInt n) := by
  have hkey : Json.ofPairs [(Row.orderKey, .ofInt n)] = .obj [(Row.orderKey, .ofInt n)] := rfl
  rw [hkey] at h
  cases hfind : (m.rows key).find? (hasKey [(Row.orderKey, .ofInt n)]) with
  | none => simp [read, hfind] at h
  | some row =>
    have hrow := List.find?_some hfind
    obtain rfl : row = order := by simpa [read, hfind] using h
    cases row with
    | obj members =>
      simp only [hasKey, List.all_cons, List.all_nil, Bool.and_true, Option.any_eq_true] at hrow
      obtain ⟨v, hv, hsame⟩ := hrow
      exact ⟨members, rfl, hv.trans (congrArg some (sameValue_ofInt.1 hsame))⟩
    | null | bool | num | str | arr => simp [hasKey] at hrow

/-- **Plain numbers.** Then both ways of looking for a line come to the same. -/
theorem bills_eq_shows {members : Members} (hcolumn : Row.column? Row.orderKey members = some (.ofInt n))
    (horder : PlainNumber (.obj members)) (hline : PlainNumber line) :
    bills (.obj members) line = shows n line := by
  have hnumber : Members.find? Row.orderKey members = some (.ofInt n) :=
    (horder members rfl).1.symm.trans hcolumn
  have hbills : bills (.obj members) line = memberIs Row.orderKey (.ofInt n) line := by
    simp [bills, Json.get?, Json.members?, hnumber]
  rw [hbills]
  cases line with
  | obj l =>
    obtain ⟨hplain, hint⟩ := hline l rfl
    simp only [memberIs, shows, Json.isObjectWith, isNumbered, hplain, Json.get?, Json.members?,
      Option.bind_some]
    cases hv : Members.find? Row.orderKey l with
    | none => rfl
    | some v =>
      obtain ⟨i, rfl, hi⟩ := hint v hv
      have hform : ValueType.integer.normalizeJson (.ofInt i) = .ok (some (Text.intText i)) :=
        ValueType.normalizeJson_int hi
      rw [Option.any_some, Option.any_some, Bool.eq_iff_iff, sameValue_ofInt, hform, decide_eq_true_iff]
      constructor
      · intro h
        rw [JsonNumber.int.inj (Json.num.inj h)]
      · intro h
        rw [Text.intText_injective (Option.some.inj (Except.ok.inj h))]
  | null | bool | num | str | arr => rfl

end Memory

/-! ## A query for the number of an order -/

namespace Text

theorem pieces_intText (i : Int) : pieces " OR " (intText i) = [intText i] := by
  have hno : ¬ Occurs (· == ·) " OR ".toList (intChars i) := by
    rintro ⟨m, hm, hin⟩
    -- the separator starts with a blank, which is in no number
    obtain ⟨c, _, hc, -, rfl⟩ := List.forall₂_cons_left_iff.1 hm
    have hblank : c = ' ' := (beq_iff_eq.1 hc).symm
    have hnot := ((isNumber_intChars i).numerals c (hin.subset (by simp))).not_blank
    simp [hblank, isBlank] at hnot
  have hchars : (intText i).toList = intChars i := String.toList_ofList
  unfold pieces
  rw [hchars, cutAt_of_not_occurs (by simp) hno]
  rfl

theorem literals_intText (i : Int) : literals (intText i) = [intText i] := by
  have hne : (intText i).isEmpty = false := by
    rw [Bool.eq_false_iff, Ne, String.isEmpty_iff]
    intro h
    have := int?_intChars i
    have hnil : intChars i = [] := by simpa [intText] using congrArg String.toList h
    rw [hnil] at this
    simp [int?, nat?] at this
  simp [literals, pieces_intText, hne]

end Text

namespace Service

variable {svc : Service} {kind : OrderKind} {type filter : String} {company n : Int} {session : Nat}
  {m : Memory}

/-- The rows of this type are the lines of orders of this kind, and can be queried by the number of
their order. -/
structure ListsLines (svc : Service) (kind : OrderKind) (type : String) (e : Entity) : Prop where
  entity : svc.schemas.get? type = some e
  table : Text.lower e.name = Text.lower kind.lineEntity
  column : ∃ c, e.resolve? Row.orderKey = some c ∧ c.name = Row.orderKey ∧ c.valueType = .integer
  rawKey : svc.compiler.rawKey ≠ Row.orderKey

/-- The built-in entities are like that. -/
theorem listsLines_builtin (hschemas : svc.schemas = .builtin) (hraw : svc.compiler.rawKey ≠ Row.orderKey)
    (kind : OrderKind) (htype : Text.lower type = Text.lower kind.lineEntity) :
    svc.ListsLines kind type (Catalogue.entity kind.lineEntity Catalogue.orderLine) where
  entity := by
    have hget : svc.schemas.get? type = Registry.builtin.get? kind.lineEntity := by
      rw [hschemas]
      unfold Registry.get? Index.get?
      rw [htype]
    rw [hget]
    cases kind <;> rfl
  table := rfl
  column := ⟨⟨Row.orderKey, .property, .integer⟩, by cases kind <;> rfl, rfl, rfl⟩
  rawKey := hraw

/-- The condition that a column has the number. -/
def byNumber (c : Column) (n : Int) : Condition :=
  .server (.oneOf ⟨c.name, c.kind, .integer, [Text.intText n]⟩)

theorem compile_byNumber {s : CompilerSettings} {e : Entity} {c : Column}
    (hc : e.resolve? Row.orderKey = some c) (htype : c.valueType = .integer) (hraw : s.rawKey ≠ Row.orderKey)
    (hn : -2 ^ 63 ≤ n ∧ n < 2 ^ 63) :
    Compiling.Gives (Params.compile s e ⟨[(Row.orderKey, Text.intText n)]⟩)
      (.ofConditions [byNumber c n]) := by
  have hplain : Params.plain ⟨[(Row.orderKey, Text.intText n)]⟩ s = [(Row.orderKey, Text.intText n)] := by
    simp [Params.plain, Ne.symm hraw]
  have hnoRaw : Params.rawPredicates ⟨[(Row.orderKey, Text.intText n)]⟩ s = [] := by
    simp [Params.rawPredicates, Params.get?, List.lookup_cons, beq_eq_false_iff_ne.2 hraw]
  have hnormal : ValueType.integer.normalize (Text.intText n) = .ok (some (Text.intText n)) :=
    ValueType.normalize_of_isNormal ⟨n, hn, rfl⟩
  have hvalues : Compiling.Gives (alternatives c (Text.intText n)) [Text.intText n] := by
    refine alternatives_gives.2 ⟨?_, by simp⟩
    rw [Text.literals_intText, htype]
    exact .cons hnormal .nil
  have hlimit : [Text.intText n].length ≤ s.limit := Nat.le_max_left 1 _
  have hcondition : c.condition s [Text.intText n] = .ok (byNumber c n) := by
    unfold Column.condition
    rw [if_pos hlimit, htype]
    rfl
  refine Params.compile_gives.2 ⟨[byNumber c n], ?_, ?_⟩
  · rw [hplain]
    exact .cons (parameterCondition_gives.2 ⟨c, _, hc, hvalues, hcondition⟩) .nil
  · rw [hnoRaw]
    rfl

/-- Whether a row has the number is always decided. -/
theorem decides_isNumbered {c : Column} (hname : c.name = Row.orderKey) (rows : List Json) :
    (byNumber c n).Decides rows (isNumbered n) := by
  refine ⟨_, rfl, fun row _ => ?_⟩
  show Row.isOneOf .integer [Text.intText n] (Row.column? c.name row) = _
  rw [hname]
  unfold isNumbered
  cases Row.column? Row.orderKey row with
  | none => rfl
  | some v =>
    have hanswer : ∃ form, ValueType.integer.normalizeJson v = .ok form := by
      cases v <;> exact ⟨_, rfl⟩
    obtain ⟨_ | text, hform⟩ := hanswer
    · simp [Row.isOneOf, hform, bind, Except.bind, pure, Except.pure]
    · simp [Row.isOneOf, hform, bind, Except.bind, pure, Except.pure]

/-- **The lines that a query shows.** -/
theorem reaches_fetch_lines (company : Int) {e : Entity} (hl : svc.ListsLines kind type e)
    (hn : -2 ^ 63 ≤ n ∧ n < 2 ^ 63) (hlogged : m.isLoggedIn session = true)
    (hfilter : Text.Form.decode filter = [(Row.orderKey, Text.intText n)]) :
    Talk.Reaches Memory.remote session (svc.fetch company e (Params.parseQuery filter [])) m
      ((m.rows (.of company kind.lineEntity)).filter (shows n)) m := by
  obtain ⟨c, hc, hname, htype⟩ := hl.column
  have hparams : Params.parseQuery filter [] = ⟨[(Row.orderKey, Text.intText n)]⟩ := by
    simp [Params.parseQuery, hfilter, Params.isExcluded, Params.ofPairs, Pairs.put]
  have hkey : TableKey.of company e.name = .of company kind.lineEntity :=
    congrArg (company, ·) hl.table
  have hshows : (Json.isObjectWith fun row => [isNumbered n].all (· row)) = shows n := by
    simp [shows]
  have hselect : m.select svc.compiler e ⟨[(Row.orderKey, Text.intText n)]⟩
      (.of company kind.lineEntity) =
        .ok (.ok ((m.rows (.of company kind.lineEntity)).filter (shows n))) := by
    rw [select_of_decides (compile_byNumber hc htype hl.rawKey hn)
      (.cons (decides_isNumbered hname _) .nil), hshows]
  unfold Talk.Reaches
  rw [fetch_run svc hlogged, hparams, hkey, hselect]
  rfl

end Service

/-! ## The calls of an invoice -/

namespace Talk

variable {α β σ : Type} {remote : Remote σ} {session : Nat} {s s' : σ}

theorem calls_bind_of_reaches {t : Talk α} {f : α → Talk β} {a : α} (h : Reaches remote session t s a s') :
    (t >>= f).run.calls remote session s =
      t.run.calls remote session s ++ (f a).run.calls remote session s' :=
  Dialogue.calls_bind remote session (f := ExceptT.bindCont f) h

theorem calls_ask (c : Call) : (ask c).run.calls remote session s = [c] := by
  simp only [ask, ExceptT.run, ExceptT.mk, Dialogue.calls]
  split <;> rfl

/-- What is done after a call may refuse the request, and ask for nothing more. -/
theorem calls_ask_bind {c : Call} {f : c.Answer → Talk β}
    (hf : ∀ a s, (f a).run.calls remote session s = []) :
    (ask c >>= f).run.calls remote session s = [c] := by
  have hrest : ∀ (x : Except RequestError c.Answer) s,
      (ExceptT.bindCont f x).calls remote session s = [] := by
    intro x s
    cases x with
    | error e => rfl
    | ok a => exact hf a s
  exact (Dialogue.calls_bind_of_silent remote session hrest s).trans (calls_ask c)

theorem calls_expectSuccess_bind {f : Unit → Talk β} (hf : ∀ s, (f ()).run.calls remote session s = [])
    (status : Status) : (expectSuccess status >>= f).run.calls remote session s = [] := by
  cases status with
  | success => exact hf s
  | noLines | other => rfl

end Talk

namespace Service

variable {svc : Service} {kind : OrderKind} {company n : Int} {session : Nat} {m : Memory} {order : Json}
  {σ : Type} {remote : Remote σ} {s : σ}

theorem calls_readRow (company : Int) (entity : String) (key : Json) :
    (readRow company entity key).run.calls remote session s = [.read company entity key] := by
  refine Talk.calls_ask_bind fun outcome s => Talk.calls_expectSuccess_bind (fun s => ?_) outcome.status
  cases outcome.row <;> rfl

theorem calls_serve (companies : List Company) (t : Task) :
    (svc.serve companies t).calls remote session s =
      (svc.act companies t.company t.action).run.calls remote session s := by
  refine Dialogue.calls_bind_of_silent remote session (fun x s => ?_) s
  cases x <;> rfl

/-- The key of the order with a number. -/
def numberKey (n : Int) : Json := .ofPairs [(Row.orderKey, .ofInt n)]

/-- The invoice that is to be posted for an order and its lines. -/
def invoiceRequest (svc : Service) (kind : OrderKind) (order : Json) (lines : List Json)
    (o : InvoiceOptions) (returnPdf : Bool) : InvoiceRequest :=
  let emails := ";".intercalate o.emails
  { kind, order, lines
    date := svc.now
    simulate := o.simulate
    sendEmail := !emails.isEmpty
    showInvoice := kind == .creditor
    documentType := o.documentType
    emails, returnPdf }

/-- **The calls that post an invoice** of an order that is found. -/
theorem calls_invoice (hlogged : m.isLoggedIn session = true)
    (hread : m.read (.of company kind.orderEntity) (numberKey n) = ⟨.success, some order⟩)
    (o : InvoiceOptions) (returnPdf : Bool) :
    (svc.invoice company kind n o returnPdf).run.calls Memory.remote session m =
      [.read company kind.orderEntity (numberKey n), .lines company kind.lineEntity order,
        .invoice company (svc.invoiceRequest kind order (m.lines (.of company kind.lineEntity) order) o
          returnPdf)] := by
  have hlines : Talk.Reaches Memory.remote session (Talk.ask (.lines company kind.lineEntity order)) m
      (m.lines (.of company kind.lineEntity) order) m := Talk.reaches_of_serve rfl hlogged rfl
  refine (Talk.calls_bind_of_reaches (reaches_readRow hlogged hread)).trans ?_
  rw [calls_readRow]
  refine congrArg (_ :: ·) ((Talk.calls_bind_of_reaches hlines).trans ?_)
  rw [Talk.calls_ask]
  refine congrArg (_ :: ·) (Talk.calls_ask_bind fun outcome s => ?_)
  refine Talk.calls_expectSuccess_bind (fun s => ?_) outcome.status
  cases outcome.pdf <;> rfl

end Service

namespace Server

variable {service : Service} {settings : ConnectionSettings} {s : Server Memory} {user : Credentials}
  {company n : Int} {kind : OrderKind} {type : String} {e : Entity} {order : Json}

/-- The calls that a request makes in the session of its user. -/
def calls {σ : Type} (service : Service) (remote : Remote σ) (r : Request) (s : Server σ) : List Call :=
  match r.task? service.bodyLimit with
  | none => []
  | some t =>
    match s.cache.connect remote t.user s.stopping s.remote with
    | .ok (.ok e, _, rest) =>
      (service.serve e.connected.companies t).calls remote e.connected.session rest
    | _ => []

theorem number_of_invoice {limit : Nat} {r : Request} {o : InvoiceOptions} {pdf : Bool}
    (h : r.task? limit = some ⟨user, company, .invoice kind n o pdf⟩) : -2 ^ 31 ≤ n ∧ n < 2 ^ 31 := by
  obtain ⟨-, route, -, -, htask⟩ := route_of_task h
  cases route with
  | invoice kind' companyText orderText =>
    simp only [Task.ofRequest, Option.some.injEq, bind_eq_ok, mapError_eq_ok, Task.companyAndOrder] at htask
    obtain ⟨_, -, _, ⟨_, -, order, -, _, -, number, hnumber, hpair⟩, _, -, htask⟩ := htask
    obtain rfl := Except.ok.inj hpair
    obtain ⟨-, -, haction⟩ := Task.mk.inj (Except.ok.inj htask)
    obtain rfl := (Action.invoice.inj haction).2.1
    unfold PathParam.int32 at hnumber
    split at hnumber
    · rename_i hint
      obtain rfl := Except.ok.inj hnumber
      exact Text.intWithin?_bounds hint
    · simp at hnumber
  | index | health | stats => simp [Task.ofRequest] at htask
  | query companyText typeText =>
    obtain ⟨_, -, htask⟩ := bind_eq_ok.1 (Option.some.inj htask)
    obtain ⟨_, -, htask⟩ := bind_eq_ok.1 htask
    simp [pure, Except.pure] at htask
  | rows companyText typeText =>
    obtain ⟨_, -, htask⟩ := bind_eq_ok.1 (Option.some.inj htask)
    obtain ⟨_, -, htask⟩ := bind_eq_ok.1 htask
    unfold Task.rowsTask Task.bodyWithin at htask
    repeat' split at htask
    all_goals simp [Except.map] at htask
  | journal companyText journalText =>
    obtain ⟨_, -, htask⟩ := bind_eq_ok.1 (Option.some.inj htask)
    obtain ⟨_, -, htask⟩ := bind_eq_ok.1 htask
    obtain ⟨_, -, htask⟩ := bind_eq_ok.1 htask
    simp [pure, Except.pure] at htask

/-- **A query for the number**, by a user who gets in. -/
theorem handle_query_lines (hs : Settled s) {get : Request}
    (hget : get.task? service.bodyLimit = some ⟨user, company, .query type get.queryText⟩)
    (hmethod : get.method = "GET")
    (hfilter : Text.Form.decode get.queryText = [(Row.orderKey, Text.intText n)])
    (hn : -2 ^ 63 ≤ n ∧ n < 2 ^ 63) (htype : service.ListsLines kind type e) (hin : LetsIn s user company) :
    ∃ answer t, handle service Memory.remote get s = .ok (answer, t) ∧ answer.status = 200 ∧
      answer.content = .json (.arr ((s.remote.rows (.of company kind.lineEntity)).filter (shows n))) := by
  obtain ⟨entry, cache, m, hconnect, hcompany, hsame, hlogged⟩ := hs.connected hin
  have hfetch := Service.reaches_fetch_lines company htype hn hlogged hfilter
  rw [hsame.rows_eq] at hfetch
  have hact : Talk.Reaches Memory.remote entry.connected.session
      (service.act entry.connected.companies company (.query type get.queryText)) m
      (.ok (.arr ((s.remote.rows (.of company kind.lineEntity)).filter (shows n)))) m :=
    Service.reaches_onEntity.2 ⟨e, htype.entity, hcompany, Service.reaches_query hfetch⟩
  have hok : ∀ rows, (sent get (.ok (.arr rows))).isSuccess = true := by
    intro rows
    rw [sent_isSuccess]
    rfl
  refine ⟨_, _, (handle_success hget (hok _)).2 ⟨entry, cache, m, _, m, rfl, rfl, hconnect, hact⟩, ?_, ?_⟩
  · rw [sent_status]
    rfl
  · rw [sent_content (by simp [hmethod])]
    rfl

/-- **An invoice** of an order that is found, by a user who gets in. -/
theorem calls_of_invoice (hs : Settled s) {post : Request} {o : InvoiceOptions} {returnPdf : Bool}
    (hpost : post.task? service.bodyLimit = some ⟨user, company, .invoice kind n o returnPdf⟩)
    (hin : LetsIn s user company)
    (hread : s.remote.read (.of company kind.orderEntity) (Service.numberKey n) = ⟨.success, some order⟩) :
    calls service Memory.remote post s = [.read company kind.orderEntity (Service.numberKey n),
      .lines company kind.lineEntity order,
      .invoice company (service.invoiceRequest kind order
        ((s.remote.rows (.of company kind.lineEntity)).filter (bills order)) o returnPdf)] := by
  obtain ⟨entry, cache, m, hconnect, hcompany, hsame, hlogged⟩ := hs.connected hin
  have hensured : Talk.Reaches Memory.remote entry.connected.session
      (Talk.ofExcept (Service.ensureCompany entry.connected.companies company)) m () m :=
    Talk.reaches_ofExcept.2 ⟨Service.ensureCompany_eq_ok.2 hcompany, rfl⟩
  have hlines : m.lines (.of company kind.lineEntity) order =
      (s.remote.rows (.of company kind.lineEntity)).filter (bills order) := by
    rw [lines_eq, hsame.rows_eq]
  unfold calls
  rw [hpost]
  simp only [hconnect]
  rw [Service.calls_serve, ← hlines]
  exact (Talk.calls_bind_of_reaches hensured).trans
    (Service.calls_invoice hlogged (by rw [hsame.read_eq, hread]) o returnPdf)

/-- **The lines of an invoice.** Whatever has happened to a server that began without connections: let a
user get in who sees the company, and let the order with the number be found. A query for that number is
answered with the lines whose column `OrderNumber` denotes it, and an invoice is posted with the lines
whose member `OrderNumber` equals that of the order, both in the order of the table. So the invoice bills
what the query shows exactly when these two conditions come to the same for every line, and certainly
when the numbers of the order and of all lines are plain. -/
theorem handle_invoice_lines {m : Memory} {history : List Happening}
    (hlive : live service Memory.remote history ⟨.empty settings, m, false⟩ = .ok s)
    {post get : Request} {o : InvoiceOptions} {returnPdf : Bool}
    (hpost : post.task? service.bodyLimit = some ⟨user, company, .invoice kind n o returnPdf⟩)
    (hget : get.task? service.bodyLimit = some ⟨user, company, .query type get.queryText⟩)
    (hmethod : get.method = "GET")
    (hfilter : Text.Form.decode get.queryText = [(Row.orderKey, Text.intText n)])
    (htype : service.ListsLines kind type e) (hin : LetsIn s user company)
    (hread : s.remote.read (.of company kind.orderEntity) (Service.numberKey n) = ⟨.success, some order⟩) :
    let lines := s.remote.rows (.of company kind.lineEntity)
    let shown := lines.filter (shows n)
    ∃ answer t request, handle service Memory.remote get s = .ok (answer, t) ∧
      answer.status = 200 ∧ answer.content = .json (.arr shown) ∧
      calls service Memory.remote post s = [.read company kind.orderEntity (Service.numberKey n),
        .lines company kind.lineEntity order, .invoice company request] ∧
      request.order = order ∧ request.lines = lines.filter (bills order) ∧
      (request.lines = shown ↔ ∀ line ∈ lines, bills order line = shows n line) ∧
      (PlainNumber order → (∀ line ∈ lines, PlainNumber line) → request.lines = shown) := by
  intro lines shown
  have hs := (Settled.empty settings m false).live hlive
  have hn := number_of_invoice hpost
  obtain ⟨answer, t, hquery, hstatus, hcontent⟩ :=
    handle_query_lines hs hget hmethod hfilter (by omega) htype hin
  have hagree : lines.filter (bills order) = shown ↔ ∀ line ∈ lines, bills order line = shows n line := by
    constructor
    · intro h line hline
      have hmem : line ∈ lines.filter (bills order) ↔ line ∈ shown := by rw [h]
      rw [Bool.eq_iff_iff]
      simpa [shown, hline] using hmem
    · exact List.filter_congr
  refine ⟨answer, t, _, hquery, hstatus, hcontent, calls_of_invoice hs hpost hin hread, rfl, rfl, hagree,
    fun horder hplain => ?_⟩
  obtain ⟨members, rfl, hcolumn⟩ := column?_of_read hread
  exact hagree.2 fun line hline => bills_eq_shows hcolumn horder (hplain line hline)

/-- Two of three lines are of the order, and are billed. -/
theorem handle_invoice_lines_two :
    let service := Demo.service .builtin .default
    let row (number id : Nat) : Json := .obj [("OrderNumber", .ofNat number), ("RowId", .ofNat id)]
    let s := Demo.server (Demo.memory [((1, "creditororder"), [row 7 1]),
      ((1, "creditororderline"), [row 7 2, row 8 3, row 7 4])] 4)
    let post : Request := ⟨"POST", "/Companies/1/Invoice/CreditorOrders/7", none, Demo.header, []⟩
    let get : Request :=
      ⟨"GET", "/Companies/1/Query/creditorOrderLine", some "OrderNumber=7", Demo.header, []⟩
    ∃ answer t request, handle service Memory.remote get s = .ok (answer, t) ∧
      answer.content = .json (.arr [row 7 2, row 7 4]) ∧
      .invoice 1 request ∈ calls service Memory.remote post s ∧ request.lines = [row 7 2, row 7 4] := by
  intro service row s post get
  have hpost : post.task? 1024 = some ⟨Demo.alice, 1, .invoice .creditor 7 .default false⟩ := by decide +kernel
  have hget : get.task? 1024 = some ⟨Demo.alice, 1, .query "creditorOrderLine" "OrderNumber=7"⟩ := by
    decide +kernel
  have htype : service.ListsLines .creditor "creditorOrderLine" _ :=
    Service.listsLines_builtin rfl (by decide) .creditor (by decide)
  have hlive : live service Memory.remote [] s = .ok s := rfl
  have hread : s.remote.read (.of 1 OrderKind.creditor.orderEntity) (Service.numberKey 7) =
      ⟨.success, some (row 7 1)⟩ := by decide +kernel
  obtain ⟨answer, t, request, hget, -, hcontent, hcalls, -, hlines, -⟩ :=
    handle_invoice_lines hlive hpost hget rfl (by decide +kernel) htype (by decide +kernel) hread
  refine ⟨answer, t, request, hget, hcontent.trans (by decide +kernel), ?_, hlines.trans (by decide +kernel)⟩
  rw [hcalls]
  simp

/-- A line whose member is spelled `orderNumber` is shown, but not billed. -/
theorem handle_invoice_lines_spelled :
    let service := Demo.service .builtin .default
    let order : Json := .obj [("OrderNumber", .ofNat 7), ("RowId", .ofNat 1)]
    let first : Json := .obj [("Item", .str "A"), ("OrderNumber", .ofNat 7), ("RowId", .ofNat 2)]
    let second : Json := .obj [("Item", .str "B"), ("RowId", .ofNat 3), ("orderNumber", .ofNat 7)]
    let es := [.account "alice" "s3cret", .company ⟨1, "Demo", []⟩,
      .seed 1 "DebtorOrder" [.obj [("OrderNumber", .ofNat 7)]],
      .seed 1 "DebtorOrderLine" [.obj [("Item", .str "A"), ("OrderNumber", .ofNat 7)],
        .obj [("Item", .str "B"), ("orderNumber", .ofNat 7)]]]
    let post : Request := ⟨"POST", "/Companies/1/Invoice/DebtorOrders/7", none, Demo.header, []⟩
    let get : Request :=
      ⟨"GET", "/Companies/1/Query/DebtorOrderLine", some "OrderNumber=7", Demo.header, []⟩
    ∃ m, Memory.empty.after es = .ok m ∧
      let s := Demo.server m
      m.read (.of 1 "DebtorOrder") (Service.numberKey 7) = ⟨.success, some order⟩ ∧
      (handle service Memory.remote get s).toOption.map (fun p => (p.1.status, p.1.content)) =
        some (200, .json (.arr [first, second])) ∧
      calls service Memory.remote post s = [.read 1 "DebtorOrder" (Service.numberKey 7),
        .lines 1 "DebtorOrderLine" order,
        .invoice 1 (service.invoiceRequest .debtor order [first] .default false)] := by
  intro service order first second es post get
  refine ⟨_, rfl, ?_, ?_, ?_⟩
  all_goals decide +kernel

end Server

end LedgerFront
