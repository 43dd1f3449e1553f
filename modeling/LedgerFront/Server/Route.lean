import LedgerFront.Remote.Order
import LedgerFront.Server.Message
import LedgerFront.Text.Percent

/-!
# Routes

The resources of the server by path, the methods that each of them takes, and the
parameters in a path. Paths are compared as they were sent; a parameter is one
segment, which may be empty only in the middle of a path.
-/

namespace LedgerFront

/-- A resource; parameters are still escaped. -/
inductive Route where
  | index
  | health
  | stats
  | query (company type : String)
  | rows (company type : String)
  | invoice (kind : OrderKind) (company order : String)
  | journal (company journal : String)
deriving DecidableEq, Repr

namespace Route

/-- The orders that a segment of an invoice path stands for. -/
def orders? : String → Option OrderKind
  | "DebtorOrders" | "Orders" => some .debtor
  | "CreditorOrders" => some .creditor
  | _ => none

/-- The resource at the end of the segments of a path. -/
def ofSegments? : List String → Option Route
  | ["", ""] => some index
  | ["", "healthz"] => some health
  | ["", "stats"] => some stats
  | ["", "Companies", company, "Query", type] =>
    if type.isEmpty then none else some (query company type)
  | ["", "Companies", company, "Crud", type] =>
    if type.isEmpty then none else some (rows company type)
  | ["", "Companies", company, "Invoice", orders, order] =>
    if order.isEmpty then none else (orders? orders).map fun kind => invoice kind company order
  | ["", "Companies", company, "Posting", "InventoryJournals", id] =>
    if id.isEmpty then none else some (journal company id)
  | _ => none

/-- The resource at a path. -/
def ofPath? (path : String) : Option Route := ofSegments? (Text.pieces "/" path)

/-- The methods that a resource takes. -/
def methods : Route → List String
  | index | health | stats | query _ _ => ["GET", "HEAD"]
  | rows _ _ => ["POST", "PATCH", "DELETE"]
  | invoice _ _ _ | journal _ _ => ["POST"]

/-- The methods as a header value. -/
def allow (r : Route) : String := ",".intercalate r.methods

end Route

/-- Why the parameters in a path cannot be read. -/
inductive PathProblem where
  | badUtf8 (name : String)
  | notInteger (index : Nat) (value typeName : String)
deriving DecidableEq, Repr

/-- The text of the problem. -/
def PathProblem.message : PathProblem → String
  | badUtf8 name => "Invalid URL: Invalid UTF-8 in \x60" ++ name ++ "\x60"
  | notInteger index value typeName =>
    "Invalid URL: Cannot parse value at index " ++ Text.natText index ++ " with value \x60" ++
      value ++ "\x60 to a \x60" ++ typeName ++ "\x60"

namespace PathParam

/-- The text of a parameter. -/
def text (name raw : String) : Except PathProblem String :=
  match Text.Utf8.toString? (Text.Percent.decode (Text.Utf8.ofString raw)) with
  | some s => .ok s
  | none => .error (.badUtf8 name)

/-- A 32-bit parameter. -/
def int32 (index : Nat) (s : String) : Except PathProblem Int :=
  match Text.int32? s.toList with
  | some i => .ok i
  | none => .error (.notInteger index s "i32")

/-- A 64-bit parameter. -/
def int64 (index : Nat) (s : String) : Except PathProblem Int :=
  match Text.int64? s.toList with
  | some i => .ok i
  | none => .error (.notInteger index s "i64")

end PathParam

end LedgerFront
