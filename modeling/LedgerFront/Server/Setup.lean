import LedgerFront.Config.Basic
import LedgerFront.Remote.Http
import LedgerFront.Remote.Memory.Session
import LedgerFront.Schema.Catalogue
import LedgerFront.Schema.Document
import LedgerFront.Server.Basic

/-!
# Setting up a server

A configuration names the remote side and may name a file with more entities.
The address of the remote side is looked at before the file is.

* `Config.setup`: what a server works with.
* `Service.ofConfig`, `Server.ofConfig`: the server itself.
-/

namespace LedgerFront

/-- Why a server cannot be set up. -/
inductive SetupError where
  | remote (e : RemoteError)
  | schema (e : SchemaError)
deriving DecidableEq, Repr

/-- The text of the error. -/
def SetupError.message : SetupError → String
  | remote e => e.message
  | schema e => e.message

/-- The remote side that a configuration names. -/
inductive RemoteChoice where
  | http (base : Url)
  | memory (m : Memory)

/-- What a server works with. -/
structure Setup where
  remote : RemoteChoice
  schemas : Registry

namespace Config

/-- The memory with the accounts and companies of a configuration. -/
def memory (c : Config) : Memory :=
  let m := c.remote.accounts.foldl (fun m a => m.addAccount a.username a.password) Memory.empty
  c.remote.companies.foldl (fun m company => m.addCompany company) m

/-- The remote side. -/
def remoteChoice (c : Config) : Except SetupError RemoteChoice :=
  match c.remote.backend with
  | .http => ((Http.gateway (c.remote.baseUrl.getD "")).mapError .remote).map .http
  | .memory => .ok (.memory c.memory)

/-- The builtin entities and those of a file, given what the file holds. -/
def schemas (c : Config) (file : Option String) : Except SetupError Registry :=
  match c.schemaPath with
  | none => .ok .builtin
  | some _ =>
    match Registry.builtin.loadFile file with
    | (r, .ok _) => .ok r
    | (_, .error e) => .error (.schema e)

/-- What a server works with, given what the schema file holds. -/
def setup (c : Config) (file : Option String) : Except SetupError Setup := do
  let remote ← c.remoteChoice
  let schemas ← c.schemas file
  pure ⟨remote, schemas⟩

end Config

/-- How a server with a configuration and these entities serves tasks at a time. -/
def Service.ofConfig (c : Config) (schemas : Registry) (now : OffsetDateTime) : Service :=
  ⟨schemas, c.filter, c.server.bodyLimit, now⟩

/-- A server with a configuration before its first request. -/
def Server.ofConfig {σ : Type} (c : Config) (remote : σ) : Server σ :=
  ⟨.empty c.connectionSettings, remote, false⟩

end LedgerFront
