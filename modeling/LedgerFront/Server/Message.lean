import LedgerFront.Json.Printer
import LedgerFront.Server.Error
import LedgerFront.Text.Cut
import LedgerFront.Text.Utf8

/-!
# Requests and responses

HTTP messages as far as the server looks at them or sets them.
-/

namespace LedgerFront

/-- A request; `path` is escaped as it was sent, and so is the query behind the `?`. -/
structure Request where
  method : String
  path : String
  query : Option String
  headers : List (String × List UInt8)
  body : List UInt8
deriving DecidableEq, Repr

namespace Request

/-- The path and query of a target; what follows a `#` does not count. -/
def splitTarget (target : String) : String × Option String :=
  let s := target.toList.takeWhile (· != '#')
  match Text.splitFirst? '?' s with
  | some (path, query) => (String.ofList path, some (String.ofList query))
  | none => (String.ofList s, none)

/-- The values of a header in the order in which they were sent. -/
def headerValues (r : Request) (name : String) : List (List UInt8) :=
  (r.headers.filter fun h => Text.sameName h.1 name).map (·.2)

/-- The query, empty if there is none. -/
def queryText (r : Request) : String := r.query.getD ""

/-- Bytes that a header value can hold: tabs, and everything but control characters. -/
def isHeaderValue (value : List UInt8) : Bool := value.all fun b => b = 9 || (32 ≤ b && b != 127)

/-- The text of a header value; only visible ASCII characters, spaces and tabs make a text. -/
def headerText? (value : List UInt8) : Option String :=
  if value.all fun b => b = 9 ∨ (32 ≤ b ∧ b ≤ 126) then Text.Utf8.toString? value else none

end Request

/-- What a response holds. -/
inductive Content where
  | empty
  | json (j : Json)
  | text (s : String)
  | pdf (bytes : List UInt8)
deriving DecidableEq

/-- The media type of a content. -/
def Content.mediaType? : Content → Option String
  | .empty => none
  | .json _ => some "application/json"
  | .text _ => some "text/plain; charset=utf-8"
  | .pdf _ => some "application/pdf"

/-- The identifier of a request: the one that came with it, or a fresh one. -/
inductive RequestId where
  | given (value : List UInt8)
  | fresh
deriving DecidableEq, Repr

/-- A response. -/
structure Response where
  status : Nat
  content : Content
  mediaType : Option String
  challenge : Option String
  allow : Option String
  requestId : Option RequestId
deriving DecidableEq

namespace Response

/-- A response with a content. -/
def of (status : Nat) (content : Content) : Response :=
  ⟨status, content, content.mediaType?, none, none, none⟩

/-- A successful response with a value. -/
def ok (j : Json) : Response := of 200 (.json j)

/-- A response without content. -/
def empty (status : Nat) : Response := of status .empty

/-- The request succeeded. -/
def isSuccess (r : Response) : Bool := 200 ≤ r.status && r.status < 300

/-- The response to the same request that asks for the headers only. -/
def withoutContent (r : Response) : Response := { r with content := .empty }

/-- The response to a refused request. -/
def ofError (e : RequestError) : Response :=
  let r := of e.httpStatus (.json (.ofPairs [("error", .str e.code), ("message", .str e.message)]))
  match e with
  | .unauthorized _ => { r with challenge := some "Basic realm=\"unirest\"" }
  | _ => r

end Response

end LedgerFront
