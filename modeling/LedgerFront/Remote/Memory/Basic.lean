import LedgerFront.Company
import LedgerFront.Pairs
import LedgerFront.Row
import LedgerFront.Text.Letter

/-!
# The in-memory remote side

Accounts, companies and entity tables, the opened sessions, and counters for row
numbers, posted documents and login attempts. A table belongs to one company
and one entity, whose name may be given in any letter case.

* `Memory.table?`, `Memory.rows`, `Memory.putTable`: the tables as a map.
* `Memory.seedRows`: rows put into a table, numbered where they have no number.
-/

namespace LedgerFront

/-- The company number and the lower-case entity name of a table. -/
abbrev TableKey := Int × String

/-- The key of an entity's table. -/
def TableKey.of (company : Int) (entity : String) : TableKey := (company, Text.lower entity)

/-- Everything that the in-memory side holds; `sessions` says of each opened session whether it is
logged in. -/
structure Memory where
  accounts : List (String × String)
  companies : List Company
  tables : List (TableKey × List Json)
  lastRowId : Nat
  lastDocument : Nat
  logins : Nat
  sessions : List Bool
deriving DecidableEq

namespace Memory

/-- Nothing at all. -/
def empty : Memory := ⟨[], [], [], 0, 0, 0, []⟩

/-- The rows of a table, unless it was never written. -/
def table? (m : Memory) (key : TableKey) : Option (List Json) := m.tables.lookup key

/-- The rows of a table. -/
def rows (m : Memory) (key : TableKey) : List Json := (m.table? key).getD []

/-- The memory with other rows in one table. -/
def putTable (key : TableKey) (rows : List Json) (m : Memory) : Memory :=
  { m with tables := Pairs.put key rows m.tables }

/-- An account, in the place of an older one with the same user name. -/
def addAccount (username password : String) (m : Memory) : Memory :=
  { m with accounts := (username, password) :: m.accounts.filter (·.1 != username) }

/-- One more company. -/
def addCompany (c : Company) (m : Memory) : Memory := { m with companies := m.companies ++ [c] }

/-- One more session, with the next number. -/
def openSession (m : Memory) : Memory := { m with sessions := m.sessions ++ [false] }

/-- The session with a number is logged in. -/
def isLoggedIn (session : Nat) (m : Memory) : Bool := m.sessions[session]?.getD false

/-- The number of a row. -/
def rowId? (row : Json) : Option Json := row.get? Row.idKey

/-- Rows that have the same number. -/
def sameRow (a b : Json) : Bool :=
  match rowId? a, rowId? b with
  | some x, some y => x.sameValue y
  | _, _ => false

/-- The row with a number after `last` unless it has one, and the last number given out then. -/
def number (last : Nat) : Json → Json × Nat
  | .obj row =>
    match Members.find? Row.idKey row with
    | some _ => (.obj row, last)
    | none => (.obj (Members.insert Row.idKey (.ofNat (last + 1)) row), last + 1)
  | row => (row, last)

/-- The rows with numbers after `last` where they have none, and the last number given out then. -/
def numberAll (last : Nat) : List Json → List Json × Nat
  | [] => ([], last)
  | row :: rest =>
    let (row, last) := number last row
    let (rest, last) := numberAll last rest
    (row :: rest, last)

/-- Puts rows at the end of a table; the rows as they are stored. -/
def append (key : TableKey) (rows : List Json) (m : Memory) : List Json × Memory :=
  let (stored, last) := numberAll m.lastRowId rows
  (stored, { m.putTable key (m.rows key ++ stored) with lastRowId := last })

/-- Fills a table before the first session. -/
def seedRows (company : Int) (entity : String) (rows : List Json) (m : Memory) : Memory :=
  (m.append (TableKey.of company entity) rows).2

end Memory

end LedgerFront
