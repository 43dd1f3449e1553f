import LedgerFront.Json.Parser
import LedgerFront.Json.Patch
import LedgerFront.Remote.Dialogue
import LedgerFront.Server.Task

/-!
# Serving tasks

Each action as a dialogue with the session of the user, who sees the given
companies. Bulk writes are bounded: they change nothing when more rows match the
filter than the `limit` of the query allows.

* `Service.serve`: the dialogue of a task.
-/

namespace LedgerFront

/-- What the server knows besides its connections; `now` is the time put on postings. -/
structure Service where
  schemas : Registry
  compiler : CompilerSettings
  bodyLimit : Nat
  now : OffsetDateTime

/-- A dialogue that may end with a refusal. -/
abbrev Talk := ExceptT RequestError Dialogue

namespace Talk

variable {α : Type}

/-- Makes a call; its failure refuses the request. -/
def ask (c : Call) : Talk c.Answer :=
  ExceptT.mk (.ask c fun reply => .done (reply.mapError RequestError.ofRemote))

/-- A computation without calls. -/
def ofRun (r : Run α) : Talk α := ExceptT.lift (Dialogue.ofRun r)

/-- A value, or a refusal. -/
def ofExcept (e : Except RequestError α) : Talk α := ExceptT.mk (.done e)

/-- A status other than success refuses the request. -/
def expectSuccess (s : Status) : Talk Unit :=
  if s.isSuccess then pure () else throw (.remote s)

end Talk

/-- The parameter that bounds a bulk write. -/
def limitKey : String := "limit"

/-- The bound in a query: the last one given, zero if there is none. -/
def limitOfQuery (query : String) : Except RequestError Nat :=
  match ((Text.Form.decode query).filter fun p => Text.sameName p.1 limitKey).getLast? with
  | none => .ok 0
  | some (_, v) =>
    match Text.natBelow? UInt64.size (Text.trimChars v.toList) with
    | some n => .ok n
    | none => .error (.badRequest ("Invalid limit '" ++ v ++ "'"))

/-- More rows than the bound refuse the request. -/
def ensureWithin (limit count : Nat) : Except RequestError Unit :=
  if limit < count then
    .error (.conflict ("There are more values (" ++ Text.natText count ++
      ") matching filter than allowed by the limit (" ++ Text.natText limit ++ ")"))
  else .ok ()

/-- The value in a body. -/
def bodyJson? (body : List UInt8) : Option Json := (Text.Utf8.toString? body).bind Json.parse?

/-- The rows in a body: an object, or an array of objects. -/
def bodyRows (body : List UInt8) : Except RequestError (List Json) :=
  match bodyJson? body with
  | some (.obj m) => .ok [.obj m]
  | some (.arr rows) =>
    if rows.all fun row => row.members?.isSome then .ok rows
    else .error (.badRequest "Object or array is expected")
  | _ => .error (.badRequest "Object or array is expected")

/-- A place whose text, without the slashes in front, names the key column or its field. -/
def isRowKey (path : Pointer) : Bool :=
  let target := String.ofList (path.text.toList.dropWhile (· = '/'))
  Text.sameName target Row.idKey || Text.sameName target (fieldName Row.idKey)

/-- The patch in a body, none of whose operations writes the key column. -/
def bodyPatch (body : List UInt8) : Except RequestError Patch :=
  match (bodyJson? body).bind Patch.decode? with
  | none => .error (.badRequest "Invalid JSON Patch document")
  | some ops =>
    if ops.any fun op => op.isWrite && isRowKey op.path then
      .error (.badRequest ("Cannot modify " ++ Row.idKey ++ " via JSON Patch"))
    else .ok ops

/-- The patched rows. -/
def patchRows (ops : Patch) (rows : List Json) : Except RequestError (List Json) :=
  rows.mapM fun row =>
    (ops.apply row).mapError fun e =>
      .badRequest ("Patch operation failed: " ++ Patch.failureMessage e)

namespace Service

/-- The entity of a type name. -/
def entity (s : Service) (type : String) : Except RequestError Entity :=
  match s.schemas.get? type with
  | some e => .ok e
  | none => .error (.badRequest ("The type " ++ type ++ " was not found"))

/-- A company that the user cannot see refuses the request. -/
def ensureCompany (companies : List Company) (id : Int) : Except RequestError Unit :=
  match Company.find? companies id with
  | some _ => .ok ()
  | none => .error (.notFound ("Company " ++ Text.intText id ++ " was not found"))

/-- The rows that match a filter. -/
def fetch (s : Service) (company : Int) (e : Entity) (p : Params) : Talk (List Json) := do
  let compiled ← Talk.ofRun (p.compile s.compiler e).run
  let q ← Talk.ofExcept (compiled.mapError RequestError.ofFilter)
  let rows ← Talk.ask (.query company e.name q.server)
  Talk.ofRun (q.apply rows)

/-- Answers with the rows that match. -/
def query (s : Service) (company : Int) (e : Entity) (filter : String) : Talk Response := do
  let rows ← s.fetch company e (Params.parseQuery filter [])
  pure (.ok (.arr rows))

/-- Inserts rows. -/
def create (company : Int) (e : Entity) (body : List UInt8) : Talk Response := do
  let rows ← Talk.ofExcept (bodyRows body)
  let (outcome : WriteOutcome) ← Talk.ask (.insert company e.name rows)
  Talk.expectSuccess outcome.status
  pure (.ok (.arr outcome.rows))

/-- Patches every row that matches. -/
def patch (s : Service) (company : Int) (e : Entity) (filter : String) (body : List UInt8) :
    Talk Response := do
  let limit ← Talk.ofExcept (limitOfQuery filter)
  let ops ← Talk.ofExcept (bodyPatch body)
  let rows ← s.fetch company e (Params.parseQuery filter [limitKey])
  Talk.ofExcept (ensureWithin limit rows.length)
  let rows ← Talk.ofExcept (patchRows ops rows)
  let (outcome : WriteOutcome) ← Talk.ask (.update company e.name rows)
  Talk.expectSuccess outcome.status
  pure (.ok (.arr outcome.rows))

/-- Deletes every row that matches. -/
def delete (s : Service) (company : Int) (e : Entity) (filter : String) : Talk Response := do
  let limit ← Talk.ofExcept (limitOfQuery filter)
  let rows ← s.fetch company e (Params.parseQuery filter [limitKey])
  Talk.ofExcept (ensureWithin limit rows.length)
  let status ← Talk.ask (.delete company e.name rows)
  Talk.expectSuccess status
  pure (.empty 204)

/-- Reads the one row with a key. -/
def readRow (company : Int) (entity : String) (key : Json) : Talk Json := do
  let (outcome : ReadOutcome) ← Talk.ask (.read company entity key)
  Talk.expectSuccess outcome.status
  match outcome.row with
  | some row => pure row
  | none => throw (.remote .keyNotFound)

/-- Posts an invoice for an order and its lines. -/
def invoice (s : Service) (company : Int) (kind : OrderKind) (number : Int) (o : InvoiceOptions)
    (returnPdf : Bool) : Talk Response := do
  let order ← readRow company kind.orderEntity (.ofPairs [(Row.orderKey, .ofInt number)])
  let lines ← Talk.ask (.lines company kind.lineEntity order)
  let emails := ";".intercalate o.emails
  let request : InvoiceRequest :=
    { kind, order, lines
      date := s.now
      simulate := o.simulate
      sendEmail := !emails.isEmpty
      showInvoice := kind == .creditor
      documentType := o.documentType
      emails, returnPdf }
  let (outcome : InvoiceOutcome) ← Talk.ask (.invoice company request)
  Talk.expectSuccess outcome.status
  match outcome.pdf with
  | some bytes => pure (.of 200 (.pdf bytes))
  | none => pure (.ok outcome.encode)

/-- The entity of journals. -/
def journalEntity : String := "InvJournal"

/-- Posts a journal; one without lines is no failure. -/
def journal (s : Service) (company id : Int) (simulate : Bool) : Talk Response := do
  let journal ← readRow company journalEntity (.ofPairs [(Row.idKey, .ofInt id)])
  let (outcome : PostingOutcome) ← Talk.ask (.journal company ⟨journal, s.now, simulate⟩)
  if outcome.status = .noLines then pure (.empty 204)
  else do
    Talk.expectSuccess outcome.status
    pure (.ok outcome.encode)

/-- An action on the rows of an entity type, which is looked up before the company. -/
def onEntity (s : Service) (companies : List Company) (company : Int) (type : String)
    (act : Entity → Talk Response) : Talk Response := do
  let e ← Talk.ofExcept (s.entity type)
  Talk.ofExcept (ensureCompany companies company)
  act e

/-- The dialogue of an action for a company. -/
def act (s : Service) (companies : List Company) (company : Int) : Action → Talk Response
  | .query type filter => s.onEntity companies company type fun e => s.query company e filter
  | .create type body => s.onEntity companies company type fun e => create company e body
  | .patch type filter body =>
    s.onEntity companies company type fun e => s.patch company e filter body
  | .delete type filter => s.onEntity companies company type fun e => s.delete company e filter
  | .invoice kind order options returnPdf => do
    Talk.ofExcept (ensureCompany companies company)
    s.invoice company kind order options returnPdf
  | .journal id simulate => do
    Talk.ofExcept (ensureCompany companies company)
    s.journal company id simulate

/-- The dialogue of a task, with the response at its end. -/
def serve (s : Service) (companies : List Company) (t : Task) : Dialogue Response := do
  match ← (s.act companies t.company t.action).run with
  | .ok response => pure response
  | .error e => pure (.ofError e)

end Service

end LedgerFront
