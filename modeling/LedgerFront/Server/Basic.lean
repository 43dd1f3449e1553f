import LedgerFront.Connection.Connect
import LedgerFront.Server.Service

/-!
# The server

Requests are answered one after the other. What is kept between them are the
connections and the remote side.

* `Server.handle`: the response to a request, and the server after it.
-/

namespace LedgerFront

/-- The state of a server over a remote side that remembers a `σ`. -/
structure Server (σ : Type) where
  cache : Cache
  remote : σ
  stopping : Bool

namespace Server

variable {σ : Type}

/-- The numbers of the connection cache. -/
def stats (c : Cache) : Json :=
  .ofPairs [("entries", .ofNat c.entries.length), ("hits", .ofNat c.hits),
    ("misses", .ofNat c.misses), ("logins", .ofNat c.logins)]

/-- The list of resources and entity types. -/
def index (schemas : Registry) : Json :=
  .ofPairs [("queryEndpoint", .str "/Companies/:companyId/Query/:type"),
    ("crudEndpoint", .str "/Companies/:companyId/Crud/:type"),
    ("invoiceOrderEndpoint", .str "/Companies/:companyId/Invoice/DebtorOrders/:orderNumber"),
    ("invoiceCreditorOrderEndpoint",
      .str "/Companies/:companyId/Invoice/CreditorOrders/:orderNumber"),
    ("postingJournalEndpoint", .str "/Companies/:companyId/Posting/InventoryJournals/:journalId"),
    ("types", .arr (schemas.names.map .str))]

/-- Connects the user of a task and carries the task out. -/
def perform (service : Service) (remote : Remote σ) (t : Task) (s : Server σ) :
    Run (Response × Server σ) := do
  let (outcome, cache, r) ← s.cache.connect remote t.user s.stopping s.remote
  let s := { s with cache, remote := r }
  match outcome with
  | .error e => pure (.ofError (.ofConnection e), s)
  | .ok e =>
    let dialogue := service.serve e.connected.companies t
    let (response, r) ← dialogue.run remote e.connected.session s.remote
    pure (response, { s with remote := r })

/-- The response of a resource to a method that it takes. -/
def respond (service : Service) (remote : Remote σ) (r : Request) (route : Route) (s : Server σ) :
    Run (Response × Server σ) :=
  match Task.ofRequest service.bodyLimit r route with
  | some (.ok t) => perform service remote t s
  | some (.error response) => .ok (response, s)
  | none =>
    match route with
    | .stats => .ok (.ok (stats s.cache), s)
    | .health => .ok (.ok (.ofPairs [("status", .str "ok")]), s)
    | _ => .ok (.ok (index service.schemas), s)

/-- The response that a path gives to a method. -/
def dispatch (service : Service) (remote : Remote σ) (r : Request) (s : Server σ) :
    Run (Response × Server σ) :=
  match Route.ofPath? r.path with
  | none => .ok (.empty 404, s)
  | some route =>
    if route.methods.contains r.method then do
      let (response, s) ← respond service remote r route s
      pure (if r.method = "HEAD" then response.withoutContent else response, s)
    else .ok ({ Response.empty 405 with allow := some route.allow }, s)

/-- The identifier under which a request is answered. -/
def requestId (r : Request) : RequestId :=
  match (r.headerValues "x-request-id").head? with
  | some value => .given value
  | none => .fresh

/-- The response to a request. The options of a resource are open to everybody and are told without
looking at the request any further. -/
def handle (service : Service) (remote : Remote σ) (r : Request) (s : Server σ) :
    Run (Response × Server σ) :=
  if r.method = "OPTIONS" then
    .ok ({ Response.empty 200 with allow := (Route.ofPath? r.path).map Route.allow }, s)
  else do
    let (response, s) ← dispatch service remote r s
    pure ({ response with requestId := some (requestId r) }, s)

end Server

end LedgerFront
