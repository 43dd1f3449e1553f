import LedgerFront.Proofs.Refusal
import LedgerFront.Remote.Memory.Session
import LedgerFront.Server.Service

/-!
# Fetching rows from the in-memory side

A fetch is a dialogue of one call. In a session that is logged in, the in-memory
side answers it without a change of its own state, so the dialogue comes down to
three steps: the filter is compiled, the table queried, the rows checked.

* `Service.fetch_run`: these three steps are what a fetch does.
-/

namespace LedgerFront

namespace Dialogue

variable {α β σ : Type} {remote : Remote σ} {session : Nat}

theorem run_bind (d : Dialogue α) (f : α → Dialogue β) (s : σ) :
    (d >>= f).run remote session s =
      (d.run remote session s).bind fun r => (f r.1).run remote session r.2 := by
  change (d.bind f).run remote session s = _
  induction d generalizing s with
  | done a => rfl
  | abort why => rfl
  | ask c next ih =>
    simp only [Dialogue.bind, Dialogue.run, bind]
    cases remote.call session c s with
    | error why => rfl
    | ok r => exact ih r.1 r.2

end Dialogue

namespace Talk

variable {α β σ : Type} {remote : Remote σ} {session : Nat}

theorem run_bind (t : Talk α) (f : α → Talk β) (s : σ) :
    (t >>= f).run.run remote session s =
      (t.run.run remote session s).bind fun r => match r.1 with
        | .ok a => (f a).run.run remote session r.2
        | .error e => .ok (.error e, r.2) := by
  change Dialogue.run remote session (ExceptT.run t >>= ExceptT.bindCont f) s = _
  rw [Dialogue.run_bind]
  congr 1
  funext r
  rcases r with ⟨_ | _, _⟩ <;> rfl

theorem run_ofRun (r : Run α) (s : σ) :
    (Talk.ofRun r).run.run remote session s = r.map fun a => (.ok a, s) := by
  cases r <;> rfl

theorem run_ofExcept (e : Except RequestError α) (s : σ) :
    (Talk.ofExcept e).run.run remote session s = .ok (e, s) := rfl

theorem run_ask (c : Call) (s : σ) :
    (Talk.ask c).run.run remote session s =
      (remote.call session c s).map fun r => (r.1.mapError RequestError.ofRemote, r.2) := by
  change ((remote.call session c s).bind fun r => _) = _
  cases remote.call session c s <;> rfl

end Talk

namespace Memory

/-- What compiling a filter, querying the table and checking the rows come to. -/
def select (s : CompilerSettings) (e : Entity) (p : Params) (key : TableKey) (m : Memory) :
    Run (Except RequestError (List Json)) := do
  match ← (p.compile s e).run with
  | .error refusal => pure (.error (.ofFilter refusal))
  | .ok q =>
    match ← m.query key q.server with
    | .error failure => pure (.error (.ofRemote failure))
    | .ok rows => return .ok (← q.apply rows)

theorem call_query {session : Nat} {m : Memory} (h : m.isLoggedIn session) (company : Int)
    (entity : String) (predicates : List Predicate) :
    Memory.remote.call session (.query company entity predicates) m =
      (m.query (.of company entity) predicates).map fun reply => (reply, m) := by
  simp only [remote, answer, h, if_true, serve]
  rfl

end Memory

/-- **A fetch.** In a session that is logged in, it selects from the table and changes nothing. -/
theorem Service.fetch_run (svc : Service) {session : Nat} {m : Memory} (h : m.isLoggedIn session)
    (company : Int) (e : Entity) (p : Params) :
    (svc.fetch company e p).run.run Memory.remote session m =
      (m.select svc.compiler e p (.of company e.name)).map fun r => (r, m) := by
  simp only [Service.fetch, Talk.run_bind, Talk.run_ofRun, Talk.run_ofExcept, Talk.run_ask,
    Memory.select]
  rcases (p.compile svc.compiler e).run with why | refusal | q
  · rfl
  · rfl
  · simp only [Except.map, Except.bind, mapError_ok, bind, pure, Except.pure]
    rw [Memory.call_query h]
    rcases m.query (.of company e.name) q.server with why | failure | rows
    · rfl
    · rfl
    · change (q.apply rows).map (fun kept => (Except.ok kept, m)) =
        ((q.apply rows).map Except.ok).map fun r => (r, m)
      cases q.apply rows <;> rfl

end LedgerFront
