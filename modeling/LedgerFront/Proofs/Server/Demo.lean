import LedgerFront.Remote.Memory.Session
import LedgerFront.Server.Basic

/-!
# A small server

The company Demo and its user alice, for requests at fixed inputs.

* `Demo.service`, `Demo.memory`, `Demo.server`: a server with given schemas and tables.
* `Demo.alice`, `Demo.header`: the user, and the header that names her.
* `Demo.debtors`, `Demo.debtor`: debtors with a city.
-/

namespace LedgerFront.Demo

/-- Debtors have a city. -/
def debtorType : Entity := (Entity.empty "Debtor").property "City" .string

/-- Debtors are the only entities. -/
def debtors : Registry := Registry.empty.register debtorType

/-- A debtor as it is stored. -/
def debtor (rowId : Nat) (city : String) : Json := .obj [("City", .str city), ("RowId", .ofNat rowId)]

def service (schemas : Registry) (settings : CompilerSettings) : Service :=
  ⟨schemas, settings, 1024, ⟨.midnight ⟨2024, 1, 1⟩, 0, 0⟩⟩

/-- Tables whose rows have numbers up to `lastRowId`; no document has been posted. -/
def memory (tables : List (TableKey × List Json)) (lastRowId : Nat) : Memory :=
  { Memory.empty with
    accounts := [("alice", "s3cret")], companies := [⟨1, "Demo", []⟩]
    tables := tables, lastRowId := lastRowId }

/-- Nobody has a connection yet. -/
def server (m : Memory) : Server Memory := ⟨.empty ⟨1000, 4, 3, .zero⟩, m, false⟩

def alice : Credentials := ⟨"alice", "s3cret"⟩

/-- The header that names alice. -/
def header : List (String × List UInt8) :=
  [("authorization", Text.Utf8.ofString "Basic YWxpY2U6czNjcmV0")]

end LedgerFront.Demo
