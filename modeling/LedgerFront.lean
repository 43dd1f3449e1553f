import LedgerFront.Abort
import LedgerFront.Calendar.Date
import LedgerFront.Calendar.DateTime
import LedgerFront.CommandLine
import LedgerFront.Company
import LedgerFront.Config.Basic
import LedgerFront.Config.DotEnv
import LedgerFront.Config.Format
import LedgerFront.Config.Load
import LedgerFront.Connection.Cache
import LedgerFront.Connection.Connect
import LedgerFront.Connection.Login
import LedgerFront.Connection.Scheduler
import LedgerFront.Credentials
import LedgerFront.Fields
import LedgerFront.Filter.Compile
import LedgerFront.Filter.Params
import LedgerFront.IpAddress
import LedgerFront.Json.Basic
import LedgerFront.Json.Decode
import LedgerFront.Json.Described
import LedgerFront.Json.Parser
import LedgerFront.Json.Patch
import LedgerFront.Json.Pointer
import LedgerFront.Json.Printer
import LedgerFront.Literal
import LedgerFront.Main
import LedgerFront.Number.Binary64
import LedgerFront.Number.Reading
import LedgerFront.Number.Shortest
import LedgerFront.Pairs
import LedgerFront.Predicate
import LedgerFront.Remote.Call
import LedgerFront.Remote.Dialogue
import LedgerFront.Remote.Error
import LedgerFront.Remote.Http
import LedgerFront.Remote.HttpSession
import LedgerFront.Remote.Memory.Basic
import LedgerFront.Remote.Memory.Session
import LedgerFront.Remote.Order
import LedgerFront.Remote.Side
import LedgerFront.Row
import LedgerFront.Schema.Basic
import LedgerFront.Schema.Catalogue
import LedgerFront.Schema.Document
import LedgerFront.Server.Authorization
import LedgerFront.Server.Basic
import LedgerFront.Server.Error
import LedgerFront.Server.Message
import LedgerFront.Server.Route
import LedgerFront.Server.Service
import LedgerFront.Server.Setup
import LedgerFront.Server.Task
import LedgerFront.Status
import LedgerFront.Text.Base64
import LedgerFront.Text.Blank
import LedgerFront.Text.Cut
import LedgerFront.Text.Digits
import LedgerFront.Text.Form
import LedgerFront.Text.Letter
import LedgerFront.Text.Offset
import LedgerFront.Text.Percent
import LedgerFront.Text.Quoted
import LedgerFront.Text.Utf8
import LedgerFront.Toml.Basic
import LedgerFront.Toml.Decode
import LedgerFront.Toml.Parser
import LedgerFront.Url.Basic
import LedgerFront.Url.Escape
import LedgerFront.Url.Host
import LedgerFront.Url.Punycode
import LedgerFront.Uuid
import LedgerFront.Where
import LedgerFront.Where.Scan
import LedgerFront.Proofs.Calendar.Ends
import LedgerFront.Proofs.Calendar.Text
import LedgerFront.Proofs.Connection.Frame
import LedgerFront.Proofs.Connection.Gates
import LedgerFront.Proofs.Connection.SingleFlight
import LedgerFront.Proofs.Filter.ClientFilter
import LedgerFront.Proofs.Filter.Compile
import LedgerFront.Proofs.Filter.Decide
import LedgerFront.Proofs.Filter.Faithful
import LedgerFront.Proofs.Filter.Fetch
import LedgerFront.Proofs.Filter.Folding
import LedgerFront.Proofs.Filter.Groups
import LedgerFront.Proofs.Filter.NormalForm
import LedgerFront.Proofs.Filter.ServerFold
import LedgerFront.Proofs.Filter.Stops
import LedgerFront.Proofs.Filter.Traversal
import LedgerFront.Proofs.Json.Place
import LedgerFront.Proofs.Number.ReadBack
import LedgerFront.Proofs.Number.Rounding
import LedgerFront.Proofs.Text.Blank
import LedgerFront.Proofs.Text.Cut
import LedgerFront.Proofs.Text.Digits
import LedgerFront.Proofs.Text.Letter
import LedgerFront.Proofs.Where.Fold
import LedgerFront.Proofs.Where.Misread
import LedgerFront.Proofs.Where.Read
import LedgerFront.Proofs.Json.PatchKey
import LedgerFront.Proofs.Server.PatchedRows
import LedgerFront.Proofs.Filter.Verdict
import LedgerFront.Proofs.Connection.Provenance
import LedgerFront.Proofs.Server.Demo
import LedgerFront.Proofs.Server.Effects
import LedgerFront.Proofs.Server.FailedRequest
import LedgerFront.Proofs.Connection.Moves
import LedgerFront.Proofs.Connection.Waiters
import LedgerFront.Proofs.Connection.GateLife
import LedgerFront.Proofs.Connection.TimeToLive
import LedgerFront.Proofs.Server.BulkWrites
import LedgerFront.Proofs.Server.Door
import LedgerFront.Proofs.Server.Tasks
import LedgerFront.Proofs.Server.Accounts
import LedgerFront.Proofs.Json.SameValue
import LedgerFront.Proofs.Memory.Tables
import LedgerFront.Proofs.Memory.Marks
import LedgerFront.Proofs.Memory.Writes
import LedgerFront.Proofs.Memory.RowIds
import LedgerFront.Proofs.Server.Scope
import LedgerFront.Proofs.Server.Companies
import LedgerFront.Proofs.Connection.UsersApart
import LedgerFront.Proofs.Connection.GivingUp
import LedgerFront.Proofs.Connection.Tally
import LedgerFront.Proofs.Connection.Counters
import LedgerFront.Proofs.Json.ReadBack
import LedgerFront.Proofs.Predicate.Document
import LedgerFront.Proofs.Predicate.Wire
import LedgerFront.Proofs.Predicate.Values
import LedgerFront.Proofs.Remote.Life
import LedgerFront.Proofs.Remote.MemoryLogin
import LedgerFront.Proofs.Remote.HttpLogin
import LedgerFront.Proofs.Remote.LoginState
import LedgerFront.Proofs.Where.ReadBack
import LedgerFront.Proofs.Memory.ByNumber
import LedgerFront.Proofs.Server.MatchingRows
import LedgerFront.Proofs.Connection.Invalidation
import LedgerFront.Proofs.Memory.Written
import LedgerFront.Proofs.Server.NoMatch
import LedgerFront.Proofs.Connection.Rounds
import LedgerFront.Proofs.Connection.Alone
import LedgerFront.Proofs.Server.Settled
import LedgerFront.Proofs.Server.Journal
import LedgerFront.Proofs.Server.Invoice
import LedgerFront.Proofs.Calendar.Instant
import LedgerFront.Proofs.Calendar.Spelling
import LedgerFront.Proofs.Number.Value
import LedgerFront.Proofs.Number.Printed
import LedgerFront.Proofs.Literal.Dates
import LedgerFront.Proofs.Literal.Numbers
import LedgerFront.Proofs.Pairs
import LedgerFront.Proofs.Schema.Index
import LedgerFront.Proofs.Schema.Columns
import LedgerFront.Proofs.Schema.Loading
import LedgerFront.Proofs.Filter.Params
import LedgerFront.Proofs.Server.Limit
import LedgerFront.Proofs.Server.LetterCase
import LedgerFront.Proofs.Text.Utf8
import LedgerFront.Proofs.Text.Base64
import LedgerFront.Proofs.Server.BasicHeader
import LedgerFront.Proofs.Json.Ordered
import LedgerFront.Proofs.Json.Decode
import LedgerFront.Proofs.Remote.CarriedMembers
import LedgerFront.Proofs.Text.Percent
import LedgerFront.Proofs.Url.Escape
import LedgerFront.Proofs.Url.Segments
import LedgerFront.Proofs.Remote.Paths
import LedgerFront.Proofs.Memory.Updated
import LedgerFront.Proofs.Text.Offset
import LedgerFront.Proofs.Where.Piece
import LedgerFront.Proofs.Where.Grammar
