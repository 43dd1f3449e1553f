import LedgerFront.Calendar.Date

/-!
# Dates with a time of day

`DateTime` is a date and a time without an offset, `OffsetDateTime` the same
with an offset from UTC and a fraction of a second. `toUtc?` moves an instant to
UTC; it fails exactly when the UTC date lies outside the calendar.

* `OffsetDateTime.ofChars?`: the internet date-time format, with any one-byte
  character between date and time.
* `DateTime.ofChars?`: the offset-free format.
-/

namespace LedgerFront

/-- A date and a time of day. -/
structure DateTime where
  date : Date
  hour : Nat
  minute : Nat
  second : Nat
deriving DecidableEq, Repr

/-- A local date and time with a fraction of a second and the local offset in minutes. -/
structure OffsetDateTime where
  here : DateTime
  nanosecond : Nat
  offset : Int
deriving DecidableEq, Repr

namespace DateTime

/-- Midnight at the start of a day. -/
def midnight (d : Date) : DateTime := ⟨d, 0, 0, 0⟩

/-- `HH:MM:SS`. -/
def timeChars (t : DateTime) : List Char :=
  Text.padded 2 t.hour ++ ':' :: (Text.padded 2 t.minute ++ ':' :: Text.padded 2 t.second)

/-- `YYYY-MM-DDTHH:MM:SS`. -/
def chars (t : DateTime) : List Char := t.date.chars ++ 'T' :: t.timeChars

/-- Reads `HH:MM:SS`; the hour is below 24 and the minute below 60. -/
def clock? (s : List Char) : Option ((Nat × Nat × Nat) × List Char) := do
  let (hour, s) ← Text.fixedNat? 2 s
  let s ← Text.mark? ':' s
  let (minute, s) ← Text.fixedNat? 2 s
  let s ← Text.mark? ':' s
  let (second, s) ← Text.fixedNat? 2 s
  if hour < 24 ∧ minute < 60 then some ((hour, minute, second), s) else none

/-- A point and at least one digit, if both stand here; the digits and what follows. -/
def fraction (s : List Char) : List Char × List Char :=
  match s with
  | '.' :: r => if (Text.spanDigits r).1 = [] then ([], s) else Text.spanDigits r
  | _ => ([], s)

/-- The date and time that a whole text without offset denotes. -/
def ofChars? (s : List Char) : Option DateTime := do
  let (year, s) ← Date.signedYear? s
  let (date, s) ← Date.afterYear? year s
  let s ← Text.mark? 'T' s
  let ((hour, minute, second), s) ← clock? s
  if second < 60 ∧ (fraction s).2.isEmpty then some ⟨date, hour, minute, second⟩ else none

/-- The date and time a number of minutes later or earlier, by less than a day. -/
def addMinutes? (t : DateTime) (minutes : Int) : Option DateTime :=
  let total := ((60 * t.hour + t.minute : Nat) : Int) + minutes
  let timed (d : Date) (m : Int) : DateTime := ⟨d, (m / 60).toNat, (m % 60).toNat, t.second⟩
  if total < 0 then t.date.previous?.map (timed · (total + 1440))
  else if 1440 ≤ total then t.date.next?.map (timed · (total - 1440))
  else some (timed t.date total)

end DateTime

namespace OffsetDateTime

/-- The same instant without an offset, unless its UTC date lies outside the calendar. -/
def toUtc? (t : OffsetDateTime) : Option DateTime := t.here.addMinutes? (-t.offset)

/-- `Z`, or a sign and `HH:MM`; the offset in minutes. -/
def offset? (s : List Char) : Option (Int × List Char) :=
  let hhmm (s : List Char) : Option (Int × List Char) := do
    let (hour, s) ← Text.fixedNat? 2 s
    let s ← Text.mark? ':' s
    let (minute, s) ← Text.fixedNat? 2 s
    if hour < 24 ∧ minute < 60 then some (((60 * hour + minute : Nat) : Int), s) else none
  match s with
  | '+' :: r => hhmm r
  | '-' :: r => (hhmm r).map fun p => (-p.1, p.2)
  | c :: r => if c = 'Z' ∨ c = 'z' then some (0, r) else none
  | [] => none

/-- The first nine digits of a fraction as nanoseconds, zeros standing for the missing ones. -/
def nanoseconds (ds : List Char) : Nat :=
  Text.digitsValue ((ds ++ List.replicate 9 '0').take 9)

/-- A leap second stands for the last second before it, and only where one can be inserted: at the
end of the last UTC day of a month. -/
def leapSecond? (t : OffsetDateTime) : Option OffsetDateTime := do
  let t := { t with here.second := 59, nanosecond := 999999999 }
  let utc ← t.toUtc?
  if utc.hour = 23 ∧ utc.minute = 59 ∧ utc.date.isMonthEnd then some t else none

/-- The instant that a whole text with an offset denotes. -/
def ofChars? (s : List Char) : Option OffsetDateTime := do
  let (year, s) ← Date.plainYear? s
  let (date, s) ← Date.afterYear? year s
  let (hour, minute, second, digits, s) ← match s with
    | c :: r =>
      if c.toNat < 128 then
        (DateTime.clock? r).map fun p =>
          (p.1.1, p.1.2.1, p.1.2.2, (DateTime.fraction p.2).1, (DateTime.fraction p.2).2)
      else none
    | [] => none
  let (offset, s) ← offset? s
  let t : OffsetDateTime := ⟨⟨date, hour, minute, second⟩, nanoseconds digits, offset⟩
  if !s.isEmpty then none
  else if second < 60 then some t
  else if second = 60 then t.leapSecond?
  else none

/-- The fraction without zeros at its end, behind a point; nothing for a whole second. -/
def fractionChars (nanosecond : Nat) : List Char :=
  if nanosecond = 0 then []
  else '.' :: ((Text.padded 9 nanosecond).reverse.dropWhile (· = '0')).reverse

/-- `Z` for UTC, otherwise the sign and `HH:MM`. -/
def offsetChars (offset : Int) : List Char :=
  if offset = 0 then ['Z']
  else
    let m := offset.natAbs
    (if offset < 0 then '-' else '+') :: (Text.padded 2 (m / 60) ++ ':' :: Text.padded 2 (m % 60))

/-- The internet date-time form with the offset that was given. -/
def chars (t : OffsetDateTime) : List Char :=
  t.here.chars ++ fractionChars t.nanosecond ++ offsetChars t.offset

end OffsetDateTime

end LedgerFront
