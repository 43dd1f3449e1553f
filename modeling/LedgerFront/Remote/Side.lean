import LedgerFront.Abort
import LedgerFront.Remote.Call

/-!
# A remote side

What the program needs of the other side: sessions can be opened, and calls made
in them. `σ` is everything that the remote side remembers.
-/

namespace LedgerFront

/-- A remote side; sessions are known by number. -/
structure Remote (σ : Type) where
  openSession : σ → Except RemoteError Nat × σ
  call : Nat → (c : Call) → σ → Run (Reply c × σ)

end LedgerFront
