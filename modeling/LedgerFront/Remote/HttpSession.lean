import LedgerFront.Remote.Http
import LedgerFront.Remote.Side

/-!
# Sessions over HTTP

The remote side behind an address, given how one request is exchanged for a
response. A session has no identifier until a login in it succeeds.
-/

namespace LedgerFront.Http

/-- How a network in some state exchanges a request for a response. -/
abbrev Exchange (τ : Type) := Request → τ → Except RemoteError Response × τ

/-- The identifiers of the sessions, and the state of the network. -/
structure Sessions (τ : Type) where
  ids : List (Option String)
  network : τ

variable {τ : Type}

/-- The identifier of a session. -/
def Sessions.id? (s : Sessions τ) (session : Nat) : Option String := s.ids[session]?.getD none

/-- One call in a session. -/
def call (base : Url) (exchange : Exchange τ) (session : Nat) (c : Call) (s : Sessions τ) :
    Reply c × Sessions τ :=
  match request base (s.id? session) c with
  | .error e => (.error e, s)
  | .ok r =>
    match exchange r s.network with
    | (.error e, network) => (.error e, { s with network })
    | (.ok response, network) =>
      let (reply, id) := reply (s.id? session) response c
      (reply, ⟨s.ids.set session id, network⟩)

/-- The remote side at an address. -/
def remote (base : Url) (exchange : Exchange τ) : Remote (Sessions τ) where
  openSession s := (.ok s.ids.length, { s with ids := s.ids ++ [none] })
  call session c s := .ok (call base exchange session c s)

end LedgerFront.Http
