import LedgerFront.Company
import LedgerFront.Config.Format
import LedgerFront.Connection.Cache
import LedgerFront.Credentials
import LedgerFront.Filter.Compile
import LedgerFront.IpAddress

/-!
# The configuration

The sections of a configuration, how they are read in any format, and the rules
that a configuration has to keep. Every setting has a default.

* `Format.config?`: the configuration that a value stands for.
* `Config.problem?`: the first rule that it breaks.
-/

namespace LedgerFront

/-- Where the server listens, and the longest body that it reads. -/
structure ServerSection where
  host : String
  tcpPort : Nat
  bodyLimit : Nat
deriving DecidableEq, Repr

/-- The kind of remote side that the server works with. -/
inductive Backend where
  | http
  | memory
deriving DecidableEq, Repr

/-- The remote side; a memory starts with the accounts and the companies. -/
structure RemoteSection where
  backend : Backend
  baseUrl : Option String
  affiliateKey : Uuid
  timeoutMs : Nat
  accounts : List Credentials
  companies : List Company
deriving DecidableEq

/-- How connections are shared. -/
structure ConnectionsSection where
  ttlSecs : Nat
  maxWaiters : Nat
  loginAttempts : Nat
  maxEntries : Nat
deriving DecidableEq, Repr

/-- A configuration; `schemaPath` names a file with more entities. -/
structure Config where
  server : ServerSection
  remote : RemoteSection
  connections : ConnectionsSection
  filter : CompilerSettings
  schemaPath : Option String
  logLevel : String
deriving DecidableEq

/-- The name of a backend in a configuration. -/
def Backend.name : Backend → String
  | http => "http"
  | memory => "memory"

/-- The backend with a name. -/
def Backend.ofName? : String → Option Backend
  | "http" => some .http
  | "memory" => some .memory
  | _ => none

/-- Where the server listens by default. -/
def ServerSection.default : ServerSection := ⟨"0.0.0.0", 8080, 4194304⟩

/-- The remote side by default. -/
def RemoteSection.default : RemoteSection := ⟨.http, none, .zero, 30000, [], []⟩

/-- How connections are shared by default. -/
def ConnectionsSection.default : ConnectionsSection := ⟨1800, 20, 5, 10000⟩

/-- The settings of the cache. -/
def Config.connectionSettings (c : Config) : ConnectionSettings :=
  ⟨1000 * c.connections.ttlSecs, c.connections.maxWaiters, c.connections.loginAttempts,
    c.remote.affiliateKey⟩

namespace Format

variable {V : Type} (F : Format V)

/-- How filters are compiled. -/
def compilerSettings? (v : V) : Option CompilerSettings := do
  let f ← F.fields? ["or_limit", "overflow", "raw_query_key"] v
  let d := CompilerSettings.default
  let orLimit ← Fields.optional f "or_limit" d.orLimit (F.nat? UInt64.size)
  let overflow ← Fields.optional f "overflow" d.overflow fun w =>
    (F.choice? w).bind Overflow.ofName?
  let rawKey ← Fields.optional f "raw_query_key" d.rawKey F.text?
  pure ⟨orLimit, overflow, rawKey⟩

/-- The section on the server. -/
def serverSection? (v : V) : Option ServerSection := do
  let f ← F.fields? ["host", "port", "body_limit_bytes"] v
  let d := ServerSection.default
  let host ← Fields.optional f "host" d.host F.text?
  let tcpPort ← Fields.optional f "port" d.tcpPort (F.nat? UInt16.size)
  let bodyLimit ← Fields.optional f "body_limit_bytes" d.bodyLimit (F.nat? UInt64.size)
  pure ⟨host, tcpPort, bodyLimit⟩

/-- An account of a memory. -/
def account? (v : V) : Option Credentials := do
  let f ← F.fields? ["username", "password"] v
  pure ⟨← Fields.required f "username" F.text?, ← Fields.required f "password" F.text?⟩

/-- A company of a memory. -/
def company? (v : V) : Option Company := do
  let f ← F.fields? ["id", "name"] v
  pure ⟨← Fields.required f "id" F.int32?, ← Fields.optional f "name" "" F.text?, []⟩

/-- A list of items. -/
def listOf? {α : Type} (item : V → Option α) (v : V) : Option (List α) :=
  (F.items? v).bind (·.mapM item)

/-- The section on the remote side. -/
def remoteSection? (v : V) : Option RemoteSection := do
  let f ← F.fields?
    ["backend", "base_url", "affiliate_key", "timeout_ms", "accounts", "companies"] v
  let d := RemoteSection.default
  let backend ← Fields.optional f "backend" d.backend fun w => (F.choice? w).bind Backend.ofName?
  let baseUrl ← Fields.optional f "base_url" d.baseUrl F.optionalText?
  let key ← Fields.optional f "affiliate_key" d.affiliateKey fun w =>
    (F.text? w).bind Uuid.ofString?
  let timeoutMs ← Fields.optional f "timeout_ms" d.timeoutMs (F.nat? UInt64.size)
  let accounts ← Fields.optional f "accounts" d.accounts (F.listOf? F.account?)
  let companies ← Fields.optional f "companies" d.companies (F.listOf? F.company?)
  pure ⟨backend, baseUrl, key, timeoutMs, accounts, companies⟩

/-- The section on the connections. -/
def connectionsSection? (v : V) : Option ConnectionsSection := do
  let f ← F.fields? ["ttl_secs", "max_waiters", "login_attempts", "max_entries"] v
  let d := ConnectionsSection.default
  let ttlSecs ← Fields.optional f "ttl_secs" d.ttlSecs (F.nat? UInt64.size)
  let maxWaiters ← Fields.optional f "max_waiters" d.maxWaiters (F.nat? UInt64.size)
  let loginAttempts ← Fields.optional f "login_attempts" d.loginAttempts (F.nat? UInt32.size)
  let maxEntries ← Fields.optional f "max_entries" d.maxEntries (F.nat? UInt64.size)
  pure ⟨ttlSecs, maxWaiters, loginAttempts, maxEntries⟩

/-- The section with the path of the schema file. -/
def schemaSection? (v : V) : Option (Option String) := do
  let f ← F.fields? ["path"] v
  Fields.optional f "path" none F.optionalText?

/-- The section with the level of the log. -/
def loggingSection? (v : V) : Option String := do
  let f ← F.fields? ["level"] v
  Fields.optional f "level" "info" F.text?

/-- The configuration that a value stands for. -/
def config? (v : V) : Option Config := do
  let f ← F.fields? ["server", "remote", "connections", "filter", "schema", "logging"] v
  let server ← Fields.optional f "server" ServerSection.default F.serverSection?
  let remote ← Fields.optional f "remote" RemoteSection.default F.remoteSection?
  let connections ← Fields.optional f "connections" ConnectionsSection.default F.connectionsSection?
  let filter ← Fields.optional f "filter" CompilerSettings.default F.compilerSettings?
  let schemaPath ← Fields.optional f "schema" none F.schemaSection?
  let logLevel ← Fields.optional f "logging" "info" F.loggingSection?
  pure ⟨server, remote, connections, filter, schemaPath, logLevel⟩

end Format

/-- A rule that a configuration breaks. -/
inductive ConfigProblem where
  | zero (setting : String)
  | outside (setting : String) (high : Nat)
  | noBaseUrl
  | blankRawKey
  | unknownLevel
deriving DecidableEq, Repr

/-- The levels of a log. -/
def logLevels : List String := ["trace", "debug", "info", "warn", "error", "off"]

/-- The text of the problem. -/
def ConfigProblem.message : ConfigProblem → String
  | zero setting => setting ++ " must be > 0"
  | outside setting high => setting ++ " must be between 1 and " ++ Text.natText high
  | noBaseUrl => "remote.backend=http requires remote.base_url"
  | blankRawKey => "filter.raw_query_key must not be empty"
  | unknownLevel =>
    "logging.level must be one of [" ++ ", ".intercalate (logLevels.map Text.quoted) ++ "]"

/-- The longest life of a connection: a day. -/
def maxTtlSecs : Nat := 86400

namespace Config

/-- The rules in their order, each with what breaks it. -/
def rules (c : Config) : List (Bool × ConfigProblem) :=
  [(c.server.tcpPort == 0, .zero "server.port"),
    (c.server.bodyLimit == 0, .zero "server.body_limit_bytes"),
    (c.remote.backend == .http && (c.remote.baseUrl.getD "").isEmpty, .noBaseUrl),
    (c.remote.timeoutMs == 0, .zero "remote.timeout_ms"),
    (c.connections.ttlSecs == 0 || maxTtlSecs < c.connections.ttlSecs,
      .outside "connections.ttl_secs" maxTtlSecs),
    (c.connections.maxWaiters == 0, .zero "connections.max_waiters"),
    (c.connections.loginAttempts == 0, .zero "connections.login_attempts"),
    (c.connections.maxEntries == 0, .zero "connections.max_entries"),
    (c.filter.orLimit == 0 || maxAlternatives < c.filter.orLimit,
      .outside "filter.or_limit" maxAlternatives),
    (Text.isBlankText c.filter.rawKey, .blankRawKey),
    (!logLevels.contains (Text.lower c.logLevel), .unknownLevel)]

/-- The first rule that the configuration breaks. -/
def problem? (c : Config) : Option ConfigProblem := (c.rules.find? (·.1)).map (·.2)

/-- The address at which the server listens; a host that is no address stands for all of them. -/
def address (c : Config) : String :=
  ((IpAddress.ofString? c.server.host).getD (.v4 0)).withPort c.server.tcpPort

/-- An account in diagnostics, without its password. -/
def describeAccount (a : Credentials) : String :=
  "AccountConfig \x7b username: " ++ Text.quoted a.username ++ ", password: \"***\" \x7d"

/-- The configuration as a value. -/
def encode (c : Config) : Json :=
  .ofPairs
    [("server", .ofPairs [("host", .str c.server.host), ("port", .ofNat c.server.tcpPort),
      ("body_limit_bytes", .ofNat c.server.bodyLimit)]),
    ("remote", .ofPairs [("backend", .str c.remote.backend.name),
      ("base_url", (c.remote.baseUrl.map Json.str).getD .null),
      ("affiliate_key", .str c.remote.affiliateKey.text),
      ("timeout_ms", .ofNat c.remote.timeoutMs),
      ("accounts", .arr (c.remote.accounts.map fun a =>
        .ofPairs [("username", .str a.username), ("password", .str a.password)])),
      ("companies", .arr (c.remote.companies.map fun a =>
        .ofPairs [("id", .ofInt a.id), ("name", .str a.name)]))]),
    ("connections", .ofPairs [("ttl_secs", .ofNat c.connections.ttlSecs),
      ("max_waiters", .ofNat c.connections.maxWaiters),
      ("login_attempts", .ofNat c.connections.loginAttempts),
      ("max_entries", .ofNat c.connections.maxEntries)]),
    ("filter", .ofPairs [("or_limit", .ofNat c.filter.orLimit),
      ("overflow", .str c.filter.overflow.name), ("raw_query_key", .str c.filter.rawKey)]),
    ("schema", .ofPairs [("path", (c.schemaPath.map Json.str).getD .null)]),
    ("logging", .ofPairs [("level", .str c.logLevel)])]

end Config

end LedgerFront
