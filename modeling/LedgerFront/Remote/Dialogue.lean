import LedgerFront.Abort
import LedgerFront.Remote.Side

/-!
# Dialogues with a session

What is done for one request is a dialogue with the caller's session: calls, each
of which may depend on the answers before it, and a result at the end. The
dialogue itself changes nothing; `Dialogue.run` carries it out.
-/

namespace LedgerFront

/-- Calls with what to do with each reply, and a result. -/
inductive Dialogue (α : Type) where
  | done (a : α)
  | abort (why : Abort)
  | ask (c : Call) (next : Reply c → Dialogue α)

namespace Dialogue

variable {α β σ : Type}

/-- Goes on with the result. -/
def bind : Dialogue α → (α → Dialogue β) → Dialogue β
  | done a, f => f a
  | abort why, _ => abort why
  | ask c next, f => ask c fun reply => (next reply).bind f

instance : Monad Dialogue where
  pure := done
  bind := bind

/-- A computation without calls. -/
def ofRun : Run α → Dialogue α
  | .ok a => done a
  | .error why => abort why

/-- Carries a dialogue out in a session. -/
def run (remote : Remote σ) (session : Nat) : Dialogue α → σ → Run (α × σ)
  | done a, s => .ok (a, s)
  | abort why, _ => .error why
  | ask c next, s => do
    let (reply, s) ← remote.call session c s
    (next reply).run remote session s

end Dialogue

end LedgerFront
