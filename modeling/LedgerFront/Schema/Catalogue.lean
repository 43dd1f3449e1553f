import LedgerFront.Schema.Basic

/-!
# Built-in entity types

The ledger entities that every registry starts with. Each has a `RowId` besides
the properties listed here.
-/

namespace LedgerFront.Catalogue

open ValueType

/-- Debtors and creditors. -/
def party : List (String × ValueType) :=
  [("Account", string), ("Name", string), ("Address1", string), ("Address2", string),
    ("ZipCode", string), ("City", string), ("Country", enum), ("Currency", enum),
    ("Group", string), ("Email", string), ("Phone", string), ("VatNumber", string),
    ("Payment", string), ("PriceList", string), ("LayoutGroup", string), ("Employee", string),
    ("EndDiscountPct", decimal), ("Blocked", boolean), ("Dim1", string), ("Dim2", string),
    ("Dim3", string), ("Dim4", string), ("Dim5", string)]

/-- Orders. -/
def order : List (String × ValueType) :=
  [("OrderNumber", integer), ("Account", string), ("DCAccount", string), ("DeliveryName", string),
    ("DeliveryAddress1", string), ("DeliveryCity", string), ("Currency", enum),
    ("EndDiscountPct", decimal), ("Employee", string), ("YourRef", string), ("OurRef", string),
    ("Date", date), ("DeliveryDate", date), ("Total", decimal), ("Created", dateTime),
    ("Dim1", string), ("Dim2", string)]

/-- Lines of an order. -/
def orderLine : List (String × ValueType) :=
  [("OrderNumber", integer), ("LineNumber", decimal), ("Item", string), ("Text", string),
    ("Qty", decimal), ("Price", decimal), ("DiscountPct", decimal), ("Total", decimal),
    ("Warehouse", string), ("Unit", enum)]

/-- Ledger transactions. -/
def transaction : List (String × ValueType) :=
  [("Account", string), ("Date", date), ("Voucher", integer), ("Invoice", integer),
    ("Text", string), ("Amount", decimal), ("AmountCur", decimal), ("Currency", enum)]

/-- Inventory items. -/
def item : List (String × ValueType) :=
  [("Item", string), ("Name", string), ("Group", string), ("ItemType", enum),
    ("SalesPrice1", decimal), ("CostPrice", decimal), ("Qty", decimal), ("Blocked", boolean),
    ("EAN", string)]

/-- Accounts of the general ledger. -/
def account : List (String × ValueType) :=
  [("Account", string), ("Name", string), ("AccountType", enum), ("Vat", string),
    ("Blocked", boolean)]

/-- Posted invoices. -/
def invoice : List (String × ValueType) :=
  [("InvoiceNumber", integer), ("OrderNumber", integer), ("Account", string), ("Date", date),
    ("Total", decimal), ("Currency", enum)]

/-- Journals. -/
def journal : List (String × ValueType) := [("Journal", string), ("Name", string)]

/-- Lines of a journal. -/
def journalLine : List (String × ValueType) :=
  [("Journal", string), ("Date", date), ("Item", string), ("Text", string), ("Qty", decimal),
    ("Voucher", integer), ("Amount", decimal)]

/-- Every entity type with its properties. -/
def entities : List (String × List (String × ValueType)) :=
  [("Debtor", party), ("Creditor", party), ("DebtorOrder", order), ("CreditorOrder", order),
    ("DebtorOrderLine", orderLine), ("CreditorOrderLine", orderLine), ("DebtorTrans", transaction),
    ("CreditorTrans", transaction), ("GLTrans", transaction), ("DebtorInvoice", invoice),
    ("CreditorInvoice", invoice), ("InvItem", item), ("GLAccount", account),
    ("InvJournal", journal), ("InvJournalLine", journalLine), ("GLDailyJournal", journal),
    ("GLDailyJournalLine", journalLine)]

/-- The entity with these properties and a `RowId`. -/
def entity (name : String) (properties : List (String × ValueType)) : Entity :=
  .ofDefinitions name ((("RowId", integer) :: properties).map fun p => ⟨.property, p.1, p.2⟩)

end LedgerFront.Catalogue

namespace LedgerFront

/-- The registry of the built-in entities. -/
def Registry.builtin : Registry :=
  Catalogue.entities.foldl (fun r e => r.register (Catalogue.entity e.1 e.2)) .empty

end LedgerFront
