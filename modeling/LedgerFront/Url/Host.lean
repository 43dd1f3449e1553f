import LedgerFront.IpAddress
import LedgerFront.Url.Escape
import LedgerFront.Url.Punycode

/-!
# Hosts

The host of a URL in its normal form: a lower-case domain name, an IPv4 address
in four decimal numbers, or an IPv6 address in brackets.
-/

namespace LedgerFront

/-- Why a text is no URL. -/
inductive UrlError where
  | relative
  | emptyHost
  | invalidPort
  | invalidIpv4
  | invalidIpv6
  | invalidCharacter
  | invalidDomain
deriving DecidableEq, Repr

/-- The text of the error. -/
def UrlError.message : UrlError → String
  | relative => "relative URL without a base"
  | emptyHost => "empty host"
  | invalidPort => "invalid port number"
  | invalidIpv4 => "invalid IPv4 address"
  | invalidIpv6 => "invalid IPv6 address"
  | invalidCharacter => "invalid domain character"
  | invalidDomain => "invalid international domain name"

namespace Url.Host

/-- A part of an IPv4 address: hexadecimal behind `0x`, octal behind `0`, else decimal. -/
def part? : List Char → Option Nat
  | [] => none
  | '0' :: 'x' :: r | '0' :: 'X' :: r => IpAddress.number? 16 r
  | '0' :: r => IpAddress.number? 8 r
  | s => IpAddress.number? 10 s

/-- The parts between points; a point at the end is passed over. -/
def labels (s : List Char) : List (List Char) :=
  let ls := Text.cutAt (· == ·) ['.'] s
  if 1 < ls.length ∧ ls.getLast? = some [] then ls.dropLast else ls

/-- A domain whose last part is a number has to be an IPv4 address. -/
def endsInNumber (s : List Char) : Bool :=
  match (labels s).getLast? with
  | some l => (!l.isEmpty && l.all Text.isDigit) || (part? l).isSome
  | none => false

/-- The last part of an IPv4 address fills all bytes that are left. -/
def ipv4? (s : List Char) : Except UrlError (List Char) :=
  match (labels s).mapM part? with
  | none => .error .invalidIpv4
  | some parts =>
    let first := parts.dropLast
    let last := parts.getLast?.getD 0
    if parts.length ≤ 4 ∧ first.all (· < 256) ∧ last < Nat.pow 256 (4 - first.length) then
      .ok (IpAddress.dotted (first.foldr (fun p n => p * 16777216 + n / 256) 0 + last))
    else .error .invalidIpv4

/-- An IPv6 address between brackets. -/
def bracketed? (s : List Char) : Except UrlError String :=
  if s.getLast? = some ']' then
    match IpAddress.ipv6? s.dropLast with
    | some gs => .ok (String.ofList ('[' :: (IpAddress.ipv6Chars gs ++ [']'])))
    | none => .error .invalidIpv6
  else .error .invalidIpv6

/-- Characters that no host can hold. -/
def isForbidden (c : Char) : Bool :=
  c.toNat = 0 || [' ', '\t', '\n', '\r', '#', '/', ':', '<', '>', '?', '@', '[', '\\', ']', '^',
    '|'].contains c

/-- Characters that no domain name can hold. -/
def isForbiddenInDomain (c : Char) : Bool :=
  isForbidden c || c = '%' || c.toNat < 32 || 126 < c.toNat

/-- The host of a web scheme. -/
def web (s : List Char) : Except UrlError String :=
  match s with
  | '[' :: r => bracketed? r
  | _ =>
    match Punycode.domain? (Text.Utf8.decodeLossy (Text.Percent.decode (Text.Utf8.encode s))) with
    | none => .error .invalidDomain
    | some domain =>
      if domain.isEmpty then .error .emptyHost
      else if domain.any isForbiddenInDomain then .error .invalidDomain
      else if endsInNumber domain then (ipv4? domain).map String.ofList
      else .ok (String.ofList domain)

/-- The host of any other scheme. -/
def other (s : List Char) : Except UrlError String :=
  match s with
  | '[' :: r => bracketed? r
  | _ => if s.any isForbidden then .error .invalidCharacter else .ok (escape inBare s)

end Url.Host

end LedgerFront
