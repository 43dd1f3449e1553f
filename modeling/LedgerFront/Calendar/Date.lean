import LedgerFront.Text.Digits

/-!
# Dates

Days of the proleptic Gregorian calendar in the years -9999 to 9999, their text
form `YYYY-MM-DD`, and the steps to the day before and after, which fail at the
two ends of the calendar.
-/

namespace LedgerFront

/-- A day of the calendar. -/
structure Date where
  year : Int
  month : Nat
  day : Nat
deriving DecidableEq, Repr

namespace Date

/-- Leap years of the Gregorian rule. -/
def isLeap (year : Int) : Bool := year % 4 == 0 && (year % 100 != 0 || year % 400 == 0)

/-- The number of days of a month. -/
def daysIn (year : Int) (month : Nat) : Nat :=
  if month = 2 then if isLeap year then 29 else 28
  else if month = 4 ∨ month = 6 ∨ month = 9 ∨ month = 11 then 30
  else 31

/-- A year, month and day that name a day of the calendar. -/
def Valid (d : Date) : Prop :=
  -9999 ≤ d.year ∧ d.year ≤ 9999 ∧ 1 ≤ d.month ∧ d.month ≤ 12 ∧ 1 ≤ d.day ∧
    d.day ≤ daysIn d.year d.month

instance (d : Date) : Decidable d.Valid := by unfold Valid; infer_instance

/-- The day with these numbers, if there is one. -/
def of? (year : Int) (month day : Nat) : Option Date :=
  if Valid ⟨year, month, day⟩ then some ⟨year, month, day⟩ else none

/-- The last day of its month. -/
def isMonthEnd (d : Date) : Bool := d.day == daysIn d.year d.month

/-- The day after, unless the calendar ends. -/
def next? (d : Date) : Option Date :=
  if d.day < daysIn d.year d.month then of? d.year d.month (d.day + 1)
  else if d.month < 12 then of? d.year (d.month + 1) 1
  else of? (d.year + 1) 1 1

/-- The day before, unless the calendar starts. -/
def previous? (d : Date) : Option Date :=
  if 1 < d.day then of? d.year d.month (d.day - 1)
  else if 1 < d.month then of? d.year (d.month - 1) (daysIn d.year (d.month - 1))
  else of? (d.year - 1) 12 31

/-- The year in four digits, with a minus sign before year zero. -/
def yearChars (year : Int) : List Char :=
  if year < 0 then '-' :: Text.padded 4 year.natAbs else Text.padded 4 year.natAbs

/-- `YYYY-MM-DD`. -/
def chars (d : Date) : List Char :=
  yearChars d.year ++ '-' :: (Text.padded 2 d.month ++ '-' :: Text.padded 2 d.day)

end Date

namespace Text

/-- A number of exactly `width` digits, and what follows it. -/
def fixedNat? (width : Nat) (s : List Char) : Option (Nat × List Char) :=
  let ds := s.take width
  if ds.length = width ∧ ds.all isDigit then some (digitsValue ds, s.drop width) else none

/-- A character that has to stand here, and what follows it. -/
def mark? (c : Char) : List Char → Option (List Char)
  | d :: r => if d = c then some r else none
  | [] => none

end Text

namespace Date

/-- A year of four digits without a sign. -/
def plainYear? (s : List Char) : Option (Int × List Char) :=
  (Text.fixedNat? 4 s).map fun p => ((p.1 : Int), p.2)

/-- A year of four digits with an optional sign. -/
def signedYear? : List Char → Option (Int × List Char)
  | '-' :: r => (Text.fixedNat? 4 r).map fun p => (-(p.1 : Int), p.2)
  | '+' :: r => plainYear? r
  | r => plainYear? r

/-- Reads `-MM-DD` behind a year. -/
def afterYear? (year : Int) (s : List Char) : Option (Date × List Char) := do
  let s ← Text.mark? '-' s
  let (month, s) ← Text.fixedNat? 2 s
  let s ← Text.mark? '-' s
  let (day, s) ← Text.fixedNat? 2 s
  let date ← of? year month day
  pure (date, s)

/-- The date that a whole text denotes, its year with an optional sign. -/
def ofChars? (s : List Char) : Option Date := do
  let (year, s) ← signedYear? s
  let (date, s) ← afterYear? year s
  if s.isEmpty then some date else none

end Date

end LedgerFront
