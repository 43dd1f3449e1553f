import LedgerFront.Proofs.Pairs
import LedgerFront.Remote.Memory.Basic

/-!
# Tables under keys

What is found in the memory after a table is put into it.

* `Memory.table?_putTable`, `Memory.rows_putTable`: the table itself, and all others.
-/

namespace LedgerFront.Memory

variable {m : Memory}

@[simp] theorem table?_putTable (key key' : TableKey) (rows : List Json) (m : Memory) :
    (m.putTable key rows).table? key' = if key' = key then some rows else m.table? key' :=
  Pairs.lookup_put key key' rows m.tables

@[simp] theorem rows_putTable (key key' : TableKey) (rows : List Json) (m : Memory) :
    (m.putTable key rows).rows key' = if key' = key then rows else m.rows key' := by
  unfold Memory.rows
  rw [table?_putTable]
  split <;> rfl

theorem rows_of_table? {key : TableKey} {rows : List Json} (h : m.table? key = some rows) :
    m.rows key = rows := by
  unfold Memory.rows
  rw [h]
  rfl

end LedgerFront.Memory
