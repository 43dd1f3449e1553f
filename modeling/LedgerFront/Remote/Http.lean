import LedgerFront.Json.Described
import LedgerFront.Json.Parser
import LedgerFront.Json.Printer
import LedgerFront.Remote.Call
import LedgerFront.Text.Base64
import LedgerFront.Url.Basic

/-!
# The remote side over HTTP

Each call is one request and one response. A session has an identifier once a
login succeeded; every other call carries it in a header.

* `Http.request`: the request of a call, refused while there is no identifier.
* `Http.reply`: the answer that a response gives, with the identifier after it.
* `Http.gateway`: the address that a configured text names.
-/

namespace LedgerFront.Http

/-- The methods of requests. -/
inductive Method where
  | get
  | post
deriving DecidableEq, Repr

/-- A request; `session` is the value of the session header. -/
structure Request where
  method : Method
  url : Url
  session : Option String
  body : Option Json
deriving DecidableEq

/-- A response. -/
structure Response where
  status : Nat
  body : List UInt8
deriving DecidableEq, Repr

/-- The name of the session header. -/
def sessionHeader : String := "X-Session-Id"

/-- The headers of a request. -/
def Request.headers (r : Request) : List (String × String) :=
  (r.session.map fun id => (sessionHeader, id)).toList ++
    (r.body.map fun _ => ("content-type", "application/json")).toList

/-- The address that a text names; a path has to fit behind it. -/
def gateway (text : String) : Except RemoteError Url :=
  match Url.parse text with
  | .error e => .error (.connection ("Invalid base URL " ++ text ++ ": " ++ e.message))
  | .ok url =>
    if url.isBare then .error (.connection ("Base URL cannot carry a path: " ++ url.text))
    else .ok url

/-- The path of a call behind the address of the remote side. -/
def path : Call → List String
  | .login .. => ["session", "login"]
  | .companies => ["session", "companies"]
  | .query company entity _ => ["companies", Text.intText company, "query", entity]
  | .read company entity _ => ["companies", Text.intText company, "crud", entity, "read"]
  | .lines company entity _ => ["companies", Text.intText company, "crud", entity, "lines"]
  | .insert company entity _ => ["companies", Text.intText company, "crud", entity, "insert"]
  | .update company entity _ => ["companies", Text.intText company, "crud", entity, "update"]
  | .delete company entity _ => ["companies", Text.intText company, "crud", entity, "delete"]
  | .invoice company _ => ["companies", Text.intText company, "invoice"]
  | .journal company _ => ["companies", Text.intText company, "posting", "journal"]

/-- The body of a call. -/
def body : Call → Option Json
  | .login user key => some (.ofPairs [("username", .str user.username),
      ("password", .str user.password), ("affiliateKey", .str key.text)])
  | .companies => none
  | .query _ _ predicates =>
    some (.ofPairs [("predicates", .arr (predicates.map Predicate.encode))])
  | .read _ _ key => some key
  | .lines _ _ master => some master
  | .insert _ _ rows | .update _ _ rows | .delete _ _ rows => some (.arr rows)
  | .invoice _ request => some request.encode
  | .journal _ posting => some posting.encode

/-- The method of a call. -/
def method : Call → Method
  | .companies => .get
  | _ => .post

/-- A text that a header can hold. -/
def isHeaderText (s : String) : Bool :=
  s.toList.all fun c => c = '\t' || (32 ≤ c.toNat && c.toNat != 127)

/-- The request of a call to the remote side at `base`. -/
def request (base : Url) (session : Option String) (c : Call) : Except RemoteError Request :=
  let url := base.addSegments (path c)
  match c, session with
  | .login .., _ => .ok ⟨method c, url, none, body c⟩
  | _, none => .error .notLoggedIn
  | _, some id =>
    if isHeaderText id then .ok ⟨method c, url, some id, body c⟩
    else .error (.connection "builder error")

/-- The status in a response object, and the other members. -/
def takeStatus (m : Members) : Except RemoteError (Status × Members) :=
  match Members.find? "status" m with
  | none => .error (.protocol "Response is missing a status")
  | some (.str s) => .ok (.ofText s, Members.erase "status" m)
  | some j => .error (.protocol (j.wrongType "a string"))

/-- The document in an invoice response, and the other members. A document that is no text is
dropped. -/
def takePdf (m : Members) : Except RemoteError (Option (List UInt8) × Members) :=
  let rest := Members.erase "pdf" m
  match Members.find? "pdf" m with
  | some (.str s) =>
    match Text.Base64.decode? (Text.Utf8.ofString s) with
    | some bytes => .ok (some bytes, rest)
    | none => .error (.protocol "Invalid PDF payload")
  | _ => .ok (none, rest)

/-- The value of a body, decoded. -/
def decodeBody {α : Type} (bytes : List UInt8) (decode : Json → Option α) : Except RemoteError α :=
  match ((Text.Utf8.toString? bytes).bind Json.parse?).bind decode with
  | some a => .ok a
  | none => .error (.protocol "error decoding response body")

/-- The status in the object of a body. -/
def status (bytes : List UInt8) : Except RemoteError Status := do
  let m ← decodeBody bytes Json.members?
  (takeStatus m).map (·.1)

/-- The answer in the body of a successful response. -/
def answer (bytes : List UInt8) : (c : Call) → Reply c
  | .login .. => status bytes
  | .companies => decodeBody bytes (Json.nullable fun j => j.items?.bind (·.mapM Company.decode?))
  | .query .. => decodeBody bytes Json.items?
  | .read .. => decodeBody bytes ReadOutcome.decode?
  | .lines .. => decodeBody bytes Json.items?
  | .insert .. => decodeBody bytes WriteOutcome.decode?
  | .update .. => decodeBody bytes WriteOutcome.decode?
  | .delete .. => status bytes
  | .invoice .. => do
    let m ← decodeBody bytes Json.members?
    let (status, m) ← takeStatus m
    let (pdf, details) ← takePdf m
    pure (⟨status, pdf, details⟩ : InvoiceOutcome)
  | .journal .. => decodeBody bytes PostingOutcome.decode?

/-- The identifier that a successful login response issues. -/
def issued (bytes : List UInt8) : Except RemoteError String := do
  let m ← decodeBody bytes Json.members?
  match (Members.find? "sessionId" m).bind Json.str? with
  | some id => pure id
  | none => throw (.protocol "Login succeeded without a session id")

/-- The answer to a login, with the identifier after it. Only a success changes the identifier. -/
def loginReply (session : Option String) (bytes : List UInt8) :
    Except RemoteError Status × Option String :=
  match status bytes with
  | .ok .success =>
    match issued bytes with
    | .ok id => (.ok .success, some id)
    | .error e => (.error e, session)
  | reply => (reply, session)

/-- Statuses of responses to requests that were carried out. -/
def Response.isSuccess (r : Response) : Bool := 200 ≤ r.status && r.status < 300

/-- The answer to a call that a response gives, with the identifier after it. -/
def reply (session : Option String) (r : Response) (c : Call) : Reply c × Option String :=
  if r.isSuccess then
    match c with
    | .login .. => loginReply session r.body
    | c => (answer r.body c, session)
  else (.error (.remote r.status (Text.Utf8.toStringLossy r.body)), session)

end LedgerFront.Http
