import LedgerFront.Company
import LedgerFront.Credentials
import LedgerFront.Predicate
import LedgerFront.Remote.Error
import LedgerFront.Remote.Order
import LedgerFront.Status
import LedgerFront.Uuid

/-!
# Remote calls and their answers

Everything that is ever asked of a session on the remote side. The type of an
answer depends on the call, `Call.Answer`.
-/

namespace LedgerFront

/-- The result of an insert or update, with the rows as they are stored now. -/
structure WriteOutcome where
  status : Status
  rows : List Json
deriving DecidableEq

/-- The result of reading one row. -/
structure ReadOutcome where
  status : Status
  row : Option Json
deriving DecidableEq

/-- The result of posting an invoice; the document itself is no part of the encoded form. -/
structure InvoiceOutcome where
  status : Status
  pdf : Option (List UInt8)
  details : Members
deriving DecidableEq

/-- The result of posting a journal. -/
structure PostingOutcome where
  status : Status
  details : Members
deriving DecidableEq

namespace WriteOutcome

/-- The outcome as a value. -/
def encode (o : WriteOutcome) : Json :=
  .ofPairs [("status", o.status.encode), ("rows", .arr o.rows)]

/-- The outcome that a value encodes; rows that are left out are none. -/
def decode? (j : Json) : Option WriteOutcome := do
  let f ← j.fields? ["status", "rows"]
  let status ← Fields.required f "status" Status.decode?
  let rows ← Fields.optional f "rows" [] Json.items?
  pure ⟨status, rows⟩

end WriteOutcome

namespace ReadOutcome

/-- The outcome as a value. -/
def encode (o : ReadOutcome) : Json :=
  .ofPairs [("status", o.status.encode), ("row", o.row.getD .null)]

/-- The outcome that a value encodes; a row that is null or left out is none. -/
def decode? (j : Json) : Option ReadOutcome := do
  let f ← j.fields? ["status", "row"]
  let status ← Fields.required f "status" Status.decode?
  let row ← Fields.optional f "row" none (Json.nullable some)
  pure ⟨status, row⟩

end ReadOutcome

/-- A status with further members around it, which win over it. -/
def Status.withDetails (s : Status) (details : Members) : Json :=
  .ofPairs (("status", s.encode) :: details)

/-- The outcome as a value. -/
def InvoiceOutcome.encode (o : InvoiceOutcome) : Json := o.status.withDetails o.details

namespace PostingOutcome

/-- The outcome as a value. -/
def encode (o : PostingOutcome) : Json := o.status.withDetails o.details

/-- The outcome that a value encodes; all members but the status are details. -/
def decode? (j : Json) : Option PostingOutcome := do
  let m ← j.members?
  let status ← Fields.required m "status" Status.decode?
  pure ⟨status, m.erase "status"⟩

end PostingOutcome

/-- A question to a session; `company` is the number of the company that it is about. -/
inductive Call where
  | login (user : Credentials) (affiliateKey : Uuid)
  | companies
  | query (company : Int) (entity : String) (predicates : List Predicate)
  | read (company : Int) (entity : String) (key : Json)
  | lines (company : Int) (entity : String) (master : Json)
  | insert (company : Int) (entity : String) (rows : List Json)
  | update (company : Int) (entity : String) (rows : List Json)
  | delete (company : Int) (entity : String) (rows : List Json)
  | invoice (company : Int) (request : InvoiceRequest)
  | journal (company : Int) (posting : JournalPosting)
deriving DecidableEq

/-- The type of the answer. The company list may be missing for the moment. -/
def Call.Answer : Call → Type
  | login .. => Status
  | companies => Option (List Company)
  | query .. => List Json
  | read .. => ReadOutcome
  | lines .. => List Json
  | insert .. => WriteOutcome
  | update .. => WriteOutcome
  | delete .. => Status
  | invoice .. => InvoiceOutcome
  | journal .. => PostingOutcome

/-- An answer, or the failure in its place. -/
abbrev Reply (c : Call) := Except RemoteError c.Answer

/-- A call and the reply to it. -/
structure Exchange where
  call : Call
  reply : Reply call

end LedgerFront
