import LedgerFront.Filter.Params
import LedgerFront.Server.Authorization
import LedgerFront.Server.Route

/-!
# Tasks

What a request to a company asks for, read from the request alone: who asks, the
company, and the action. Nothing is known yet about the entity type, the filter
or the company.

* `Task.ofRequest`: the task, or the response that refuses it.
-/

namespace LedgerFront

/-- What the query of an invoice request says. -/
structure InvoiceOptions where
  simulate : Bool
  documentType : String
  emails : List String
deriving DecidableEq, Repr

/-- What is to be done for a company. -/
inductive Action where
  | query (type filter : String)
  | create (type : String) (body : List UInt8)
  | patch (type filter : String) (body : List UInt8)
  | delete (type filter : String)
  | invoice (kind : OrderKind) (order : Int) (options : InvoiceOptions) (returnPdf : Bool)
  | journal (journal : Int) (simulate : Bool)
deriving DecidableEq, Repr

/-- An action for a user and a company. -/
structure Task where
  user : Credentials
  company : Int
  action : Action
deriving DecidableEq, Repr

/-- A truth value in a query; nothing stands for false. -/
def queryFlag (name value : String) : Except RequestError Bool :=
  match Text.lower value with
  | "true" | "1" => .ok true
  | "false" | "0" | "" => .ok false
  | _ => .error (.badRequest ("Invalid " ++ name ++ " '" ++ value ++ "'"))

namespace InvoiceOptions

/-- The options where a query says nothing. -/
def default : InvoiceOptions := ⟨false, "Invoice", []⟩

/-- The options with one more pair of a query. -/
def add (o : InvoiceOptions) (pair : String × String) : Except RequestError InvoiceOptions :=
  match Text.lower pair.1 with
  | "simulate" => (queryFlag "simulate" pair.2).map fun simulate => { o with simulate }
  | "documenttype" => .ok { o with documentType := pair.2 }
  | "email" => .ok (if pair.2.isEmpty then o else { o with emails := o.emails ++ [pair.2] })
  | _ => .ok o

/-- The options in a query. -/
def ofQuery (query : String) : Except RequestError InvoiceOptions :=
  (Text.Form.decode query).foldlM add default

end InvoiceOptions

/-- The last `simulate` in a query; every one of them has to be a truth value. -/
def simulateOfQuery (query : String) : Except RequestError Bool :=
  (Text.Form.decode query).foldlM
    (fun simulate pair =>
      if Text.sameName pair.1 "simulate" then queryFlag "simulate" pair.2 else .ok simulate) false

/-- The media type of an item of an accept header. -/
def mediaTypeOf (item : String) : String := Text.trim ((Text.pieces ";" item).headD "")

/-- A PDF is among what the request accepts. -/
def Request.acceptsPdf (r : Request) : Bool :=
  ((r.headerValues "accept").filterMap Request.headerText?).any fun value =>
    (Text.pieces "," value).any fun item => Text.sameName (mediaTypeOf item) "application/pdf"

namespace Task

/-- The response to a request without credentials. -/
def unauthorized (p : Authorization.Problem) : Response := .ofError (.unauthorized p.message)

/-- The response to a path whose parameters cannot be read. -/
def badPath (p : PathProblem) : Response := .of 400 (.text p.message)

/-- The response to a body that is too long. -/
def bodyTooLong : Response :=
  .of 413 (.text "Failed to buffer the request body: length limit exceeded")

/-- The company and entity type in a path. -/
def companyAndType (company type : String) : Except PathProblem (Int × String) := do
  let company ← PathParam.text "company_id" company
  let type ← PathParam.text "type_name" type
  pure (← PathParam.int32 0 company, type)

/-- The company and order in a path. -/
def companyAndOrder (company order : String) : Except PathProblem (Int × Int) := do
  let company ← PathParam.text "company_id" company
  let order ← PathParam.text "order_number" order
  pure (← PathParam.int32 0 company, ← PathParam.int32 1 order)

/-- The company and journal in a path. -/
def companyAndJournal (company journal : String) : Except PathProblem (Int × Int) := do
  let company ← PathParam.text "company_id" company
  let journal ← PathParam.text "journal_id" journal
  pure (← PathParam.int32 0 company, ← PathParam.int64 1 journal)

/-- The body of a request, unless it is too long. -/
def bodyWithin (limit : Nat) (r : Request) : Except Response (List UInt8) :=
  if limit < r.body.length then .error bodyTooLong else .ok r.body

/-- The task of a request to the rows of an entity. -/
def rowsTask (limit : Nat) (r : Request) (user : Credentials) (company : Int) (type : String) :
    Except Response Task :=
  match r.method with
  | "POST" => (bodyWithin limit r).map fun body => ⟨user, company, .create type body⟩
  | "PATCH" => (bodyWithin limit r).map fun body => ⟨user, company, .patch type r.queryText body⟩
  | _ => .ok ⟨user, company, .delete type r.queryText⟩

/-- The task of a request to a resource of a company. Credentials are looked at first, then the
path, then the body and the query. Other resources have no task. -/
def ofRequest (limit : Nat) (r : Request) : Route → Option (Except Response Task)
  | .index | .health | .stats => none
  | .query company type => some do
    let user ← (Authorization.credentials r).mapError unauthorized
    let (company, type) ← (companyAndType company type).mapError badPath
    pure ⟨user, company, .query type r.queryText⟩
  | .rows company type => some do
    let user ← (Authorization.credentials r).mapError unauthorized
    let (company, type) ← (companyAndType company type).mapError badPath
    rowsTask limit r user company type
  | .invoice kind company order => some do
    let user ← (Authorization.credentials r).mapError unauthorized
    let (company, order) ← (companyAndOrder company order).mapError badPath
    let options ← (InvoiceOptions.ofQuery r.queryText).mapError .ofError
    pure ⟨user, company, .invoice kind order options r.acceptsPdf⟩
  | .journal company journal => some do
    let user ← (Authorization.credentials r).mapError unauthorized
    let (company, journal) ← (companyAndJournal company journal).mapError badPath
    let simulate ← (simulateOfQuery r.queryText).mapError .ofError
    pure ⟨user, company, .journal journal simulate⟩

end Task

end LedgerFront
