import LedgerFront.Connection.Login
import LedgerFront.Filter.Compile

/-!
# Refused requests

Why a request is answered with an error, and the HTTP status, the code and the
message of that answer.
-/

namespace LedgerFront

/-- Why a request is refused. -/
inductive RequestError where
  | badRequest (message : String)
  | unauthorized (message : String)
  | forbidden (message : String)
  | notFound (message : String)
  | conflict (message : String)
  | tooManyRequests (message : String)
  | badGateway (message : String)
  | serviceUnavailable (message : String)
  | notImplemented (message : String)
  | internal (message : String)
  | remote (status : Status)
deriving DecidableEq, Repr

namespace RequestError

/-- The HTTP status of the answer. -/
def httpStatus : RequestError → Nat
  | badRequest _ => 400
  | unauthorized _ => 401
  | forbidden _ => 403
  | notFound _ => 404
  | conflict _ => 409
  | tooManyRequests _ => 429
  | badGateway _ => 502
  | serviceUnavailable _ => 503
  | notImplemented _ => 501
  | internal _ | remote _ => 500

/-- The code in the body of the answer. -/
def code : RequestError → String
  | badRequest _ => "bad_request"
  | unauthorized _ => "unauthorized"
  | forbidden _ => "forbidden"
  | notFound _ => "not_found"
  | conflict _ => "conflict"
  | tooManyRequests _ => "too_many_requests"
  | badGateway _ => "bad_gateway"
  | serviceUnavailable _ => "service_unavailable"
  | notImplemented _ => "not_implemented"
  | internal _ => "internal"
  | remote _ => "remote_failure"

/-- What the error is called in diagnostics. -/
def title : RequestError → String
  | badRequest _ => "Bad request"
  | unauthorized _ => "Unauthorized"
  | forbidden _ => "Forbidden"
  | notFound _ => "Not found"
  | conflict _ => "Conflict"
  | tooManyRequests _ => "Too many requests"
  | badGateway _ => "Bad gateway"
  | serviceUnavailable _ => "Service unavailable"
  | notImplemented _ => "Not implemented"
  | internal _ => "Internal server error"
  | remote _ => "Remote operation failed"

/-- The message in the body of the answer. -/
def message : RequestError → String
  | badRequest m | unauthorized m | forbidden m | notFound m | conflict m | tooManyRequests m
  | badGateway m | serviceUnavailable m | notImplemented m | internal m => m
  | remote status => status.text

/-- The text in diagnostics. -/
def describe (e : RequestError) : String := e.title ++ ": " ++ e.message

/-- A remote call failed. -/
def ofRemote (e : RemoteError) : RequestError :=
  match e with
  | .unsupported _ => notImplemented e.message
  | _ => badGateway e.message

/-- There is no connection. -/
def ofConnection (e : ConnectionError) : RequestError :=
  match e with
  | .forbidden _ => forbidden e.message
  | .tooManyWaiters _ => tooManyRequests e.message
  | .noCompanies _ => badGateway e.message
  | .remote inner => ofRemote inner
  | .cancelled => serviceUnavailable e.message
  | .internal _ => internal e.message

/-- A filter is refused. -/
def ofFilter (e : FilterError) : RequestError := badRequest e.message

end RequestError

end LedgerFront
