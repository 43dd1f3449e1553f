import LedgerFront.Text.Percent
import LedgerFront.Text.Utf8

/-!
# Escapes in a URL

Which bytes are written as percent triples in which part of a URL. Every part
escapes controls and all bytes outside ASCII.
-/

namespace LedgerFront.Url

/-- The byte is one of these characters. -/
def isAmong (marks : List Char) (b : UInt8) : Bool := marks.any fun c => c.toNat == b.toNat

/-- Controls and bytes outside ASCII. -/
def inBare (b : UInt8) : Bool := b < 0x20 || 0x7E < b

/-- Escaped in a fragment. -/
def inFragment (b : UInt8) : Bool := inBare b || isAmong [' ', '"', '<', '>', '\x60'] b

/-- Escaped in a query. -/
def inQuery (b : UInt8) : Bool := inBare b || isAmong [' ', '"', '#', '<', '>'] b

/-- Escaped in the query of a web scheme. -/
def inWebQuery (b : UInt8) : Bool := inQuery b || isAmong ['\''] b

/-- Escaped in a path. -/
def inPath (b : UInt8) : Bool := inFragment b || isAmong ['#', '?', '\x7b', '\x7d'] b

/-- Escaped in a user name or password. -/
def inUser (b : UInt8) : Bool :=
  inPath b || isAmong ['/', ':', ';', '=', '@', '[', '\\', ']', '^', '|'] b

/-- Escaped in a segment that is added to a path. -/
def inSegment (b : UInt8) : Bool := inPath b || isAmong ['/', '%'] b

/-- Escaped in a segment that is added to the path of a web scheme. -/
def inWebSegment (b : UInt8) : Bool := inSegment b || isAmong ['\\'] b

/-- The text with the bytes of a set escaped. -/
def escape (set : UInt8 → Bool) (s : List Char) : String :=
  String.ofList ((Text.Percent.encode set (Text.Utf8.encode s)).map fun b => Char.ofNat b.toNat)

end LedgerFront.Url
