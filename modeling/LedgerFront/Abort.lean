/-!
# Runs without an answer

Moving an instant to UTC has no result when the UTC date lies outside the
calendar. The program stops there: such a run has no answer at all, which is
different from answering with an error.
-/

namespace LedgerFront

/-- Why a run stops without an answer. -/
inductive Abort where
  | outsideCalendar
deriving DecidableEq, Repr

/-- A computation that may stop the program. -/
abbrev Run := Except Abort

namespace Run

/-- The items on which a test holds, in order; the tests run until one stops the program. -/
def filter {α : Type} (test : α → Run Bool) : List α → Run (List α)
  | [] => .ok []
  | a :: r => do
    let keep ← test a
    let kept ← filter test r
    pure (if keep then a :: kept else kept)

/-- A test holds on every item; items behind the first failure are not looked at. -/
def all {α : Type} (test : α → Run Bool) : List α → Run Bool
  | [] => .ok true
  | a :: r => do if ← test a then all test r else pure false

end Run

end LedgerFront
