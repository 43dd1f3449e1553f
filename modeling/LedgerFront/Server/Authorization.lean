import LedgerFront.Credentials
import LedgerFront.Server.Message
import LedgerFront.Text.Base64
import LedgerFront.Text.Blank

/-!
# Basic authorization

The credentials of a request come in its authorization header: the scheme
`Basic`, in any letter case, and the base64 form of `username:password`. They are
not checked here; the remote side does that at login.
-/

namespace LedgerFront.Authorization

/-- Why a request has no credentials. -/
inductive Problem where
  | missing
  | otherScheme
  | badBase64
  | badUtf8
  | noColon
  | emptyPart
deriving DecidableEq, Repr

/-- The text of the problem. -/
def Problem.message : Problem → String
  | missing => "Missing Authorization header"
  | otherScheme => "Authorization header must start with 'Basic '"
  | badBase64 => "Invalid base64 encoding in Authorization header"
  | badUtf8 => "Invalid UTF-8 in decoded credentials"
  | noColon => "Credentials must be in format 'username:password'"
  | emptyPart => "Username and password must not be empty"

/-- What follows the scheme and a space. -/
def afterScheme? (header : String) : Option (List Char) :=
  Text.after? (fun c d => c == d.toLower) "basic ".toList header.toList

/-- The credentials in a header. The user name ends at the first colon. -/
def parse (header : String) : Except Problem Credentials :=
  match afterScheme? header with
  | none => .error .otherScheme
  | some rest =>
    match Text.Base64.decode? (Text.Utf8.encode (Text.trimChars rest)) with
    | none => .error .badBase64
    | some bytes =>
      match Text.Utf8.decode? bytes with
      | none => .error .badUtf8
      | some s =>
        match Text.splitFirst? ':' s with
        | none => .error .noColon
        | some (username, password) =>
          if username.isEmpty ∨ password.isEmpty then .error .emptyPart
          else .ok ⟨String.ofList username, String.ofList password⟩

/-- The credentials of a request; of several headers the first one counts. -/
def credentials (r : Request) : Except Problem Credentials :=
  match (r.headerValues "authorization").head?.bind Request.headerText? with
  | none => .error .missing
  | some header => parse header

end LedgerFront.Authorization
