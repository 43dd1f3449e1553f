import LedgerFront.Calendar.DateTime
import LedgerFront.Json.Decode

/-!
# Orders and journals

The requests that post a document: an invoice made from an order and its lines,
and the posting of a journal.
-/

namespace LedgerFront

/-- The side of the ledger that an order belongs to. -/
inductive OrderKind where
  | debtor
  | creditor
deriving DecidableEq, Repr

namespace OrderKind

/-- The name of the kind in a request. -/
def name : OrderKind → String
  | debtor => "Debtor"
  | creditor => "Creditor"

/-- The kind with exactly this name. -/
def ofName? : String → Option OrderKind
  | "Debtor" => some debtor
  | "Creditor" => some creditor
  | _ => none

/-- The entity of the orders. -/
def orderEntity (k : OrderKind) : String := k.name ++ "Order"

/-- The entity of the order lines. -/
def lineEntity (k : OrderKind) : String := k.name ++ "OrderLine"

/-- The kind that a value encodes. -/
def decode? (j : Json) : Option OrderKind := (j.choice? Json.isNull).bind ofName?

end OrderKind

/-- An instant in the internet date-time format. -/
def OffsetDateTime.decode? (j : Json) : Option OffsetDateTime :=
  j.str?.bind fun s => OffsetDateTime.ofChars? s.toList

/-- The instant as a value. -/
def OffsetDateTime.encode (t : OffsetDateTime) : Json := .str (String.ofList t.chars)

/-- An invoice to be posted from an order. -/
structure InvoiceRequest where
  kind : OrderKind
  order : Json
  lines : List Json
  date : OffsetDateTime
  simulate : Bool
  sendEmail : Bool
  showInvoice : Bool
  documentType : String
  emails : String
  returnPdf : Bool
deriving DecidableEq

namespace InvoiceRequest

/-- The fields of a request in their order. -/
def fieldNames : List String :=
  ["kind", "order", "lines", "date", "simulate", "sendEmail", "showInvoice", "documentType",
    "emails", "returnPdf"]

/-- The request as a value. -/
def encode (r : InvoiceRequest) : Json :=
  .ofPairs [("kind", .str r.kind.name), ("order", r.order), ("lines", .arr r.lines),
    ("date", r.date.encode), ("simulate", .bool r.simulate), ("sendEmail", .bool r.sendEmail),
    ("showInvoice", .bool r.showInvoice), ("documentType", .str r.documentType),
    ("emails", .str r.emails), ("returnPdf", .bool r.returnPdf)]

/-- The request that a value encodes. -/
def decode? (j : Json) : Option InvoiceRequest := do
  let f ← j.fields? fieldNames
  let kind ← Fields.required f "kind" OrderKind.decode?
  let order ← f.find? "order"
  let lines ← Fields.required f "lines" Json.items?
  let date ← Fields.required f "date" OffsetDateTime.decode?
  let simulate ← Fields.required f "simulate" Json.bool?
  let sendEmail ← Fields.required f "sendEmail" Json.bool?
  let showInvoice ← Fields.required f "showInvoice" Json.bool?
  let documentType ← Fields.required f "documentType" Json.str?
  let emails ← Fields.required f "emails" Json.str?
  let returnPdf ← Fields.required f "returnPdf" Json.bool?
  pure ⟨kind, order, lines, date, simulate, sendEmail, showInvoice, documentType, emails, returnPdf⟩

end InvoiceRequest

/-- A journal to be posted. -/
structure JournalPosting where
  journal : Json
  date : OffsetDateTime
  simulate : Bool
deriving DecidableEq

namespace JournalPosting

/-- The posting as a value. -/
def encode (p : JournalPosting) : Json :=
  .ofPairs [("journal", p.journal), ("date", p.date.encode), ("simulate", .bool p.simulate)]

/-- The posting that a value encodes. -/
def decode? (j : Json) : Option JournalPosting := do
  let f ← j.fields? ["journal", "date", "simulate"]
  let journal ← f.find? "journal"
  let date ← Fields.required f "date" OffsetDateTime.decode?
  let simulate ← Fields.required f "simulate" Json.bool?
  pure ⟨journal, date, simulate⟩

end JournalPosting

end LedgerFront
