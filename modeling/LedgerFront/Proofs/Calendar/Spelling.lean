import LedgerFront.Proofs.Calendar.Instant

/-!
# The texts of dates

The three formats as grammars, and that the readers accept just the texts of their grammar. A day is
`YYYY-MM-DD` with an optional sign before the year; a local time adds `T`, the clock and an optional
fraction; an instant has a year without a sign, any one character of ASCII before the clock, and an
offset at its end.

* `Date.Spells`, `Date.ofChars?_eq_some_iff`: days.
* `DateTime.Spells`, `DateTime.ofChars?_eq_some_iff`: local times.
* `Timestamp`, `OffsetDateTime.ofChars?_eq_some_iff`: instants.
* `OffsetDateTime.ofChars?_none_of_spells`: a local time is not the text of an instant.
-/

namespace LedgerFront

namespace Text

theorem mark?_eq_some_iff {c : Char} {s r : List Char} : mark? c s = some r ↔ s = c :: r := by
  cases s with
  | nil => simp [mark?]
  | cons d s => simp [mark?]

/-- **Fixed width.** A number of a fixed number of digits is the number padded to that width. -/
theorem fixedNat?_eq_some_iff {width n : Nat} {s r : List Char} (hw : width ≠ 0) :
    fixedNat? width s = some (n, r) ↔ n < 10 ^ width ∧ s = padded width n ++ r := by
  constructor
  · intro h
    simp only [fixedNat?, Option.ite_none_right_eq_some, Option.some.injEq, Prod.mk.injEq] at h
    obtain ⟨⟨hlen, hall⟩, rfl, rfl⟩ := h
    have hlt := digitsValue_lt hall
    rw [hlen] at hlt
    have hpadded : s.take width = padded width (digitsValue (s.take width)) :=
      digitsValue_injective hall (padded_all width _)
        (hlen.trans (length_padded hlt hw).symm) (digitsValue_padded width _).symm
    exact ⟨hlt, by rw [← hpadded, List.take_append_drop]⟩
  · rintro ⟨hlt, rfl⟩
    exact fixedNat?_padded hlt hw r

end Text

namespace Date

/-- The text is `YYYY-MM-DD` for this day, its year with or without a sign. -/
def Spells (d : Date) (s : List Char) : Prop :=
  d.Valid ∧ (s = d.chars ∨ 0 ≤ d.year ∧ s = '+' :: d.chars ∨ d.year = 0 ∧ s = '-' :: d.chars)

theorem spells_chars {d : Date} (h : d.Valid) : d.Spells d.chars := ⟨h, .inl rfl⟩

theorem plainYear?_eq_some_iff {y : Int} {s r : List Char} :
    plainYear? s = some (y, r) ↔ 0 ≤ y ∧ y ≤ 9999 ∧ s = yearChars y ++ r := by
  simp only [plainYear?, Option.map_eq_some_iff, Prod.exists, Prod.mk.injEq]
  constructor
  · rintro ⟨n, r, hn, rfl, rfl⟩
    obtain ⟨hlt, rfl⟩ := (Text.fixedNat?_eq_some_iff (by decide)).1 hn
    refine ⟨Int.natCast_nonneg n, by omega, ?_⟩
    rw [yearChars, if_neg (by omega), Int.natAbs_natCast]
  · rintro ⟨h0, h, rfl⟩
    refine ⟨y.natAbs, r, ?_, by omega, rfl⟩
    rw [yearChars, if_neg (by omega), Text.fixedNat?_padded (by omega) (by decide)]

/-- A year with an optional sign: a minus sign also stands before year zero. -/
theorem signedYear?_eq_some {y : Int} {s r : List Char} (h : signedYear? s = some (y, r)) :
    -9999 ≤ y ∧ y ≤ 9999 ∧
      (s = yearChars y ++ r ∨ 0 ≤ y ∧ s = '+' :: yearChars y ++ r ∨
        y = 0 ∧ s = '-' :: yearChars y ++ r) := by
  unfold signedYear? at h
  split at h
  · rename_i t
    simp only [Option.map_eq_some_iff, Prod.exists, Prod.mk.injEq] at h
    obtain ⟨n, r, hn, rfl, rfl⟩ := h
    obtain ⟨hlt, rfl⟩ := (Text.fixedNat?_eq_some_iff (by decide)).1 hn
    refine ⟨by omega, by omega, ?_⟩
    obtain rfl | hpos := Nat.eq_zero_or_pos n
    · exact .inr (.inr ⟨rfl, rfl⟩)
    · left
      rw [yearChars, if_pos (by omega), Int.natAbs_neg, Int.natAbs_natCast]
      rfl
  · obtain ⟨h0, hhigh, rfl⟩ := plainYear?_eq_some_iff.1 h
    exact ⟨by omega, hhigh, .inr (.inl ⟨h0, rfl⟩)⟩
  · obtain ⟨h0, hhigh, rfl⟩ := plainYear?_eq_some_iff.1 h
    exact ⟨by omega, hhigh, .inl rfl⟩

theorem afterYear?_eq_some_iff {y : Int} {s r : List Char} {d : Date} :
    afterYear? y s = some (d, r) ↔ d.Valid ∧ d.year = y ∧
      s = '-' :: (Text.padded 2 d.month ++ '-' :: (Text.padded 2 d.day ++ r)) := by
  constructor
  · intro h
    obtain ⟨hyear, hvalid⟩ := afterYear?_eq_some h
    simp only [afterYear?, bind, Option.bind_eq_some_iff, Prod.exists, pure, Option.some.injEq,
      Prod.mk.injEq] at h
    obtain ⟨s₁, h₁, m, s₂, h₂, s₃, h₃, n, s₄, h₄, e, he, rfl, rfl⟩ := h
    obtain ⟨rfl, _⟩ := valid_of_of? he
    rw [Text.mark?_eq_some_iff] at h₁ h₃
    obtain ⟨_, rfl⟩ := (Text.fixedNat?_eq_some_iff (by decide)).1 h₂
    obtain ⟨_, rfl⟩ := (Text.fixedNat?_eq_some_iff (by decide)).1 h₄
    exact ⟨hvalid, hyear, by rw [h₁, h₃]⟩
  · rintro ⟨hvalid, rfl, rfl⟩
    exact afterYear?_chars hvalid r

/-- **Reading a day**, whatever follows it. -/
theorem reads_iff {s r : List Char} {d : Date} :
    ((signedYear? s).bind fun p => afterYear? p.1 p.2) = some (d, r) ↔
      ∃ ds, d.Spells ds ∧ s = ds ++ r := by
  simp only [Option.bind_eq_some_iff, Prod.exists]
  constructor
  · rintro ⟨y, q, hy, hd⟩
    obtain ⟨hvalid, rfl, rfl⟩ := afterYear?_eq_some_iff.1 hd
    obtain ⟨_, _, rfl | ⟨h0, rfl⟩ | ⟨h0, rfl⟩⟩ := signedYear?_eq_some hy
    · exact ⟨_, spells_chars hvalid, (chars_append d r).symm⟩
    · exact ⟨_, ⟨hvalid, .inr (.inl ⟨h0, rfl⟩)⟩, by simp [chars]⟩
    · exact ⟨_, ⟨hvalid, .inr (.inr ⟨h0, rfl⟩)⟩, by simp [chars]⟩
  · rintro ⟨ds, ⟨hvalid, hds⟩, rfl⟩
    refine ⟨d.year, _, ?_, afterYear?_chars hvalid r⟩
    obtain rfl | ⟨h0, rfl⟩ | ⟨h0, rfl⟩ := hds
    · rw [chars_append, signedYear?_yearChars hvalid.1 hvalid.2.1]
    · rw [List.cons_append, chars_append]
      exact plainYear?_eq_some_iff.2 ⟨h0, hvalid.2.1, rfl⟩
    · have hyear : yearChars d.year = Text.padded 4 0 := by rw [h0]; rfl
      rw [List.cons_append, chars_append, signedYear?, hyear,
        Text.fixedNat?_padded (by decide) (by decide), h0]
      rfl

theorem ofChars?_eq (s : List Char) : ofChars? s =
    ((signedYear? s).bind fun p => afterYear? p.1 p.2).bind fun q =>
      if q.2.isEmpty then some q.1 else none := by
  simp only [ofChars?, bind, Option.bind_assoc]

/-- **Days.** A text is read as a day exactly when it spells it. -/
theorem ofChars?_eq_some_iff {s : List Char} {d : Date} : ofChars? s = some d ↔ d.Spells s := by
  simp only [ofChars?_eq, Option.bind_eq_some_iff (x := (signedYear? s).bind _),
    Option.ite_none_right_eq_some, Option.some.injEq, Prod.exists, reads_iff, List.isEmpty_iff]
  constructor
  · rintro ⟨e, r, ⟨ds, hds, rfl⟩, rfl, rfl⟩
    rwa [List.append_nil]
  · intro h
    exact ⟨d, [], ⟨s, h, (List.append_nil s).symm⟩, rfl, rfl⟩

end Date

namespace DateTime

/-- A fraction of a second: a point and its digits, or nothing. -/
def pointed (fs : List Char) : List Char := if fs = [] then [] else '.' :: fs

/-- The text is `YYYY-MM-DDTHH:MM:SS` for this date and time, its year with or without a sign and
its second with or without a fraction. -/
def Spells (t : DateTime) (s : List Char) : Prop :=
  t.Valid ∧ ∃ ds fs, t.date.Spells ds ∧ fs.all Text.isDigit = true ∧
    s = ds ++ 'T' :: (t.timeChars ++ pointed fs)

theorem spells_chars {t : DateTime} (h : t.Valid) : t.Spells t.chars :=
  ⟨h, t.date.chars, [], Date.spells_chars h.date, rfl, by simp [chars, pointed]⟩

/-- A fraction is cut off the text. -/
theorem fraction_eq (s : List Char) :
    s = pointed (fraction s).1 ++ (fraction s).2 ∧ (fraction s).1.all Text.isDigit = true := by
  unfold fraction
  split
  · rename_i r
    split
    · exact ⟨rfl, rfl⟩
    · rename_i hne
      refine ⟨?_, ?_⟩
      · rw [pointed, if_neg hne, List.cons_append]
        simp [Text.spanDigits]
      · simp [Text.spanDigits, List.all_takeWhile]
  · exact ⟨rfl, rfl⟩

/-- A fraction ends where neither a digit nor a point follows. -/
theorem fraction_pointed {fs r : List Char} (hfs : fs.all Text.isDigit = true)
    (hr : ∀ c, r.head? = some c → Text.isDigit c = false ∧ c ≠ '.') :
    fraction (pointed fs ++ r) = (fs, r) := by
  unfold pointed
  split
  · rename_i hnil
    rw [hnil, List.nil_append]
    unfold fraction
    split
    · exact absurd rfl (hr '.' rfl).2
    · rfl
  · rename_i hne
    have hspan := Text.spanDigits_append hfs fun c hc => (hr c hc).1
    simp only [List.cons_append, fraction, hspan]
    rw [if_neg hne]

/-- **Clocks.** A second of two digits may be out of range. -/
theorem clock?_eq_some_iff {s r : List Char} {t : DateTime} :
    clock? s = some ((t.hour, t.minute, t.second), r) ↔
      t.hour < 24 ∧ t.minute < 60 ∧ t.second < 100 ∧ s = t.timeChars ++ r := by
  constructor
  · intro hc
    simp only [clock?, bind, Option.bind_eq_some_iff, Option.ite_none_right_eq_some,
      Option.some.injEq, Prod.mk.injEq, Prod.exists] at hc
    obtain ⟨h, s₁, h₁, s₂, h₂, m, s₃, h₃, s₄, h₄, n, s₅, h₅, ⟨hh, hm⟩, ⟨rfl, rfl, rfl⟩, rfl⟩ := hc
    rw [Text.mark?_eq_some_iff] at h₂ h₄
    obtain ⟨_, rfl⟩ := (Text.fixedNat?_eq_some_iff (by decide)).1 h₁
    obtain ⟨_, rfl⟩ := (Text.fixedNat?_eq_some_iff (by decide)).1 h₃
    obtain ⟨hn, rfl⟩ := (Text.fixedNat?_eq_some_iff (by decide)).1 h₅
    exact ⟨hh, hm, hn, by simp [timeChars, h₂, h₄]⟩
  · rintro ⟨hh, hm, hn, rfl⟩
    simp only [clock?, timeChars, List.append_assoc, List.cons_append, bind, Text.mark?_self,
      Option.bind_some, Text.fixedNat?_padded (show t.hour < 10 ^ 2 by omega) (by decide),
      Text.fixedNat?_padded (show t.minute < 10 ^ 2 by omega) (by decide),
      Text.fixedNat?_padded (show t.second < 10 ^ 2 by omega) (by decide), hh, hm, and_self, if_true]

theorem clock?_timeChars {t : DateTime} (h : t.Valid) (r : List Char) :
    clock? (t.timeChars ++ r) = some ((t.hour, t.minute, t.second), r) :=
  clock?_eq_some_iff.2 ⟨h.hour, h.minute, h.second.trans (by decide), rfl⟩

/-- **Local times.** A text is read as a date and time exactly when it spells it. -/
theorem ofChars?_eq_some_iff {t : DateTime} {s : List Char} : ofChars? s = some t ↔ t.Spells s := by
  constructor
  · intro h
    have hvalid := valid_of_ofChars? h
    simp only [ofChars?, bind, Option.bind_eq_some_iff, Option.ite_none_right_eq_some,
      Option.some.injEq, Prod.exists] at h
    obtain ⟨y, q, hy, d, r, hd, u, hu, hh, mm, ss, w, hclock, ⟨_, hend⟩, rfl⟩ := h
    obtain ⟨ds, hds, rfl⟩ := Date.reads_iff.1 (Option.bind_eq_some_iff.2 ⟨(y, q), hy, hd⟩)
    rw [Text.mark?_eq_some_iff] at hu
    obtain ⟨_, _, _, rfl⟩ := clock?_eq_some_iff (t := ⟨d, hh, mm, ss⟩).1 hclock
    obtain ⟨hfraction, hdigits⟩ := fraction_eq w
    rw [List.isEmpty_iff.1 hend, List.append_nil] at hfraction
    exact ⟨hvalid, ds, (fraction w).1, hds, hdigits, by rw [hu, ← hfraction]⟩
  · rintro ⟨ht, ds, fs, hds, hfs, rfl⟩
    obtain ⟨⟨y, q⟩, hy, hd⟩ := Option.bind_eq_some_iff.1 (Date.reads_iff.2 ⟨ds, hds, rfl⟩)
    have hfraction : fraction (pointed fs) = (fs, []) := by
      simpa using fraction_pointed (r := []) hfs (by simp)
    rw [ofChars?, hy]
    simp only [bind, Option.bind_some, hd, Text.mark?_self, clock?_timeChars ht, hfraction]
    exact if_pos ⟨ht.second, rfl⟩

/-- The text of a local time is not that of a day. -/
theorem date_none_of_spells {t : DateTime} {s : List Char} (h : t.Spells s) :
    Date.ofChars? s = none := by
  obtain ⟨_, ds, fs, hds, _, rfl⟩ := h
  rw [Date.ofChars?_eq, Date.reads_iff.2 ⟨ds, hds, rfl⟩]
  rfl

end DateTime

/-- The offset of a literal: a letter for UTC, or a sign with hours and minutes. -/
inductive Zone where
  | utc (letter : Char)
  | offset (west : Bool) (hour minute : Nat)

namespace Zone

/-- The text of an offset. -/
def chars : Zone → List Char
  | utc letter => [letter]
  | offset west hour minute =>
    (if west then '-' else '+') :: (Text.padded 2 hour ++ ':' :: Text.padded 2 minute)

/-- The minutes that local time is ahead of UTC. -/
def minutes : Zone → Int
  | utc _ => 0
  | offset west hour minute => if west then -(60 * hour + minute : Int) else 60 * hour + minute

/-- The letter is `Z` in either case, the hours and minutes are those of a clock. -/
def WellFormed : Zone → Prop
  | utc letter => letter = 'Z' ∨ letter = 'z'
  | offset _ hour minute => hour < 24 ∧ minute < 60

/-- No offset starts with a digit or a point. -/
theorem WellFormed.head {z : Zone} (h : z.WellFormed) {c : Char} (hc : z.chars.head? = some c) :
    Text.isDigit c = false ∧ c ≠ '.' := by
  cases z with
  | utc letter =>
    obtain rfl : letter = c := by simpa [chars] using hc
    obtain rfl | rfl := h <;> decide
  | offset west hour minute =>
    obtain rfl : (if west then '-' else '+') = c := by simpa [chars] using hc
    cases west <;> decide

end Zone

/-- The parts of a literal with an offset. -/
structure Timestamp where
  here : DateTime
  separator : Char
  fraction : List Char
  zone : Zone

namespace Timestamp

/-- `YYYY-MM-DD`, the separator, `HH:MM:SS`, the fraction and the offset. -/
def chars (s : Timestamp) : List Char :=
  s.here.date.chars ++ s.separator :: (s.here.timeChars ++ (DateTime.pointed s.fraction ++ s.zone.chars))

/-- The local time, a second 60 counted as the second before it. -/
def counted (s : Timestamp) : DateTime := { s.here with second := min s.here.second 59 }

/-- The seconds that have passed at the instant, without its fraction. -/
def instant (s : Timestamp) : Int := s.counted.instant - 60 * s.zone.minutes

/-- A second of the last minute of a month in UTC. -/
def InLastMinute (i : Int) : Prop :=
  ∃ u : DateTime, u.Valid ∧ u.instant = i ∧ u.hour = 23 ∧ u.minute = 59 ∧ u.date.isMonthEnd = true

/-- The parts but the second are in range: a year without a sign, and a separator of one byte. -/
structure Shaped (s : Timestamp) : Prop where
  date : s.here.date.Valid
  year : 0 ≤ s.here.date.year
  separator : s.separator.toNat < 128
  hour : s.here.hour < 24
  minute : s.here.minute < 60
  fraction : s.fraction.all Text.isDigit = true
  zone : s.zone.WellFormed

/-- So is the second, which is 60 only where one can be inserted. -/
structure WellFormed (s : Timestamp) : Prop extends s.Shaped where
  second : s.here.second < 60 ∨ s.here.second = 60 ∧ InLastMinute s.instant

/-- What the literal is read as. -/
def read (s : Timestamp) : OffsetDateTime where
  here := s.counted
  nanosecond := if s.here.second = 60 then 999999999 else OffsetDateTime.nanoseconds s.fraction
  offset := s.zone.minutes

end Timestamp

namespace OffsetDateTime

/-- Reads `HH:MM` behind a sign; the minutes it comes to. -/
def hoursMinutes? (s : List Char) : Option (Int × List Char) := do
  let (hour, s) ← Text.fixedNat? 2 s
  let s ← Text.mark? ':' s
  let (minute, s) ← Text.fixedNat? 2 s
  if hour < 24 ∧ minute < 60 then some (((60 * hour + minute : Nat) : Int), s) else none

theorem offset?_plus (r : List Char) : offset? ('+' :: r) = hoursMinutes? r := rfl

theorem offset?_minus (r : List Char) :
    offset? ('-' :: r) = (hoursMinutes? r).map fun p => (-p.1, p.2) := rfl

theorem hoursMinutes?_eq_some_iff {s r : List Char} {o : Int} :
    hoursMinutes? s = some (o, r) ↔ ∃ h m, h < 24 ∧ m < 60 ∧
      s = Text.padded 2 h ++ ':' :: (Text.padded 2 m ++ r) ∧ ((60 * h + m : Nat) : Int) = o := by
  constructor
  · intro hc
    simp only [hoursMinutes?, bind, Option.bind_eq_some_iff, Option.ite_none_right_eq_some,
      Option.some.injEq, Prod.mk.injEq, Prod.exists] at hc
    obtain ⟨h, s₁, h₁, s₂, h₂, m, s₃, h₃, ⟨hh, hm⟩, rfl, rfl⟩ := hc
    rw [Text.mark?_eq_some_iff] at h₂
    obtain ⟨_, rfl⟩ := (Text.fixedNat?_eq_some_iff (by decide)).1 h₁
    obtain ⟨_, rfl⟩ := (Text.fixedNat?_eq_some_iff (by decide)).1 h₃
    exact ⟨h, m, hh, hm, by rw [h₂], rfl⟩
  · rintro ⟨h, m, hh, hm, rfl, rfl⟩
    simp only [hoursMinutes?, bind, Text.mark?_self, Option.bind_some,
      Text.fixedNat?_padded (show h < 10 ^ 2 by omega) (by decide),
      Text.fixedNat?_padded (show m < 10 ^ 2 by omega) (by decide), hh, hm, and_self, if_true]

/-- **Offsets.** -/
theorem offset?_eq_some_iff {s r : List Char} {o : Int} :
    offset? s = some (o, r) ↔ ∃ z : Zone, z.WellFormed ∧ s = z.chars ++ r ∧ z.minutes = o := by
  constructor
  · intro hc
    unfold offset? at hc
    split at hc
    · obtain ⟨h, m, hh, hm, rfl, rfl⟩ := hoursMinutes?_eq_some_iff.1 hc
      exact ⟨.offset false h m, ⟨hh, hm⟩, by simp [Zone.chars], by simp [Zone.minutes]⟩
    · obtain ⟨⟨p, q⟩, hp, he⟩ := Option.map_eq_some_iff.1 hc
      obtain ⟨h, m, hh, hm, rfl, rfl⟩ := hoursMinutes?_eq_some_iff.1 hp
      obtain ⟨rfl, rfl⟩ := Prod.mk.inj he
      exact ⟨.offset true h m, ⟨hh, hm⟩, by simp [Zone.chars], by simp [Zone.minutes]⟩
    · rename_i letter _ _ _
      simp only [Option.ite_none_right_eq_some, Option.some.injEq, Prod.mk.injEq] at hc
      obtain ⟨hletter, rfl, rfl⟩ := hc
      exact ⟨.utc letter, hletter, rfl, rfl⟩
    · exact absurd hc (by simp)
  · rintro ⟨z, hz, rfl, rfl⟩
    cases z with
    | utc letter => obtain rfl | rfl := hz <;> rfl
    | offset west h m =>
      have hread (r : List Char) : hoursMinutes? (Text.padded 2 h ++ ':' :: (Text.padded 2 m ++ r)) =
          some (((60 * h + m : Nat) : Int), r) :=
        hoursMinutes?_eq_some_iff.2 ⟨h, m, hz.1, hz.2, rfl, rfl⟩
      cases west with
      | false =>
        simp only [Zone.chars, Zone.minutes, List.cons_append, List.append_assoc]
        exact (offset?_plus _).trans (by simp [hread])
      | true =>
        simp only [Zone.chars, Zone.minutes, List.cons_append, List.append_assoc]
        exact (offset?_minus _).trans (by simp [hread])

theorem plainYear?_chars {d : Date} (h : d.Valid) (h0 : 0 ≤ d.year) (r : List Char) :
    Date.plainYear? (d.chars ++ r) = some (d.year,
      '-' :: (Text.padded 2 d.month ++ '-' :: (Text.padded 2 d.day ++ r))) := by
  rw [Date.chars_append]
  exact Date.plainYear?_eq_some_iff.2 ⟨h0, h.2.1, rfl⟩

/-- The second is that of a clock, or 60 where one can be inserted. -/
def accept? (t : OffsetDateTime) : Option OffsetDateTime :=
  if t.here.second < 60 then some t else if t.here.second = 60 then t.leapSecond? else none

/-- The parts of a text, its second not yet looked at. -/
theorem ofChars?_iff_shaped {cs : List Char} {t : OffsetDateTime} :
    ofChars? cs = some t ↔ ∃ s : Timestamp, s.Shaped ∧ s.here.second < 100 ∧ cs = s.chars ∧
      accept? ⟨s.here, nanoseconds s.fraction, s.zone.minutes⟩ = some t := by
  constructor
  · intro h
    -- each reader says what it took off the text, from the year to the offset
    simp only [ofChars?, bind, Option.bind_eq_some_iff, Prod.exists] at h
    obtain ⟨y, q, hy, d, q, hd, h⟩ := h
    obtain ⟨h0, _, rfl⟩ := Date.plainYear?_eq_some_iff.1 hy
    obtain ⟨hvalid, rfl, rfl⟩ := Date.afterYear?_eq_some_iff.1 hd
    cases q with
    | nil => simp at h
    | cons c q =>
      have hc : c.toNat < 128 := by
        by_contra hc
        simp [hc] at h
      simp only [hc, if_true, Option.bind_eq_some_iff, Option.map_eq_some_iff, Prod.mk.injEq,
        Prod.exists] at h
      obtain ⟨_, _, _, _, _, ⟨hh, mm, ss, w, hclock, rfl, rfl, rfl, rfl, rfl⟩, o, v, ho, h⟩ := h
      obtain ⟨hhour, hminute, hsecond, rfl⟩ :=
        DateTime.clock?_eq_some_iff (t := ⟨d, hh, mm, ss⟩).1 hclock
      obtain ⟨hfraction, hdigits⟩ := DateTime.fraction_eq w
      obtain ⟨z, hz, hrest, rfl⟩ := offset?_eq_some_iff.1 ho
      cases v with
      | cons => simp at h
      | nil =>
        rw [List.append_nil] at hrest
        rw [hrest] at hfraction
        refine ⟨⟨⟨d, hh, mm, ss⟩, c, (DateTime.fraction w).1, z⟩,
          ⟨hvalid, h0, hc, hhour, hminute, hdigits, hz⟩, hsecond, ?_, h⟩
        rw [Timestamp.chars, ← hfraction, Date.chars_append]
  · rintro ⟨s, hs, hsecond, rfl, h⟩
    have hclock := DateTime.clock?_eq_some_iff (r := DateTime.pointed s.fraction ++ s.zone.chars).2
      ⟨hs.hour, hs.minute, hsecond, rfl⟩
    have hfraction := DateTime.fraction_pointed hs.fraction fun c hc => hs.zone.head hc
    have hoffset := offset?_eq_some_iff.2 ⟨s.zone, hs.zone, (List.append_nil _).symm, rfl⟩
    simp only [ofChars?, Timestamp.chars, plainYear?_chars hs.date hs.year, bind, Option.bind_some,
      Date.afterYear?_chars hs.date, hs.separator, if_true, hclock, Option.map_some, hfraction,
      hoffset]
    exact h

theorem read_of_shaped {s : Timestamp} (h : s.Shaped) : s.read.Read := by
  have hzone : -1440 < s.zone.minutes ∧ s.zone.minutes < 1440 := by
    have hz := h.zone
    cases hs : s.zone with
    | utc letter => simp [Zone.minutes]
    | offset west hour minute =>
      rw [hs] at hz
      obtain ⟨hhour, hminute⟩ := hz
      simp only [Zone.minutes]
      split <;> omega
  exact ⟨h.date, h.year, h.hour, h.minute, Nat.lt_succ_of_le (Nat.min_le_right _ _), hzone.1, hzone.2⟩

/-- The second is accepted where it is in range, and then a second 60 is the second before it. -/
theorem accept?_eq_some_iff {s : Timestamp} {t : OffsetDateTime} (h : s.Shaped) :
    accept? ⟨s.here, nanoseconds s.fraction, s.zone.minutes⟩ = some t ↔ s.WellFormed ∧ s.read = t := by
  have hread := read_of_shaped h
  simp only [accept?]
  -- a second in range, a second 60, and any other
  split_ifs with h1 h2
  · have hcounted : s.counted = s.here := by
      unfold Timestamp.counted
      rw [Nat.min_eq_left (by omega)]
    have hne : s.here.second ≠ 60 := by omega
    rw [Option.some.injEq, Timestamp.read, hcounted, if_neg hne]
    exact ⟨fun ht => ⟨⟨h, .inl h1⟩, ht⟩, fun ht => ht.2⟩
  · have hleap : leapSecond? ⟨s.here, nanoseconds s.fraction, s.zone.minutes⟩ =
        s.read.toUtc?.bind fun u =>
          if u.hour = 23 ∧ u.minute = 59 ∧ u.date.isMonthEnd then some s.read else none := by
      simp only [leapSecond?, Timestamp.read, Timestamp.counted, h2, if_true]
      rfl
    simp only [hleap, Option.bind_eq_some_iff, Option.ite_none_right_eq_some, Option.some.injEq,
      toUtc?_eq_some_iff hread]
    constructor
    · rintro ⟨u, ⟨hu, hinstant⟩, hend, rfl⟩
      exact ⟨⟨h, .inr ⟨h2, u, hu, hinstant, hend⟩⟩, rfl⟩
    · rintro ⟨⟨_, h3 | ⟨_, u, hu, hinstant, hend⟩⟩, rfl⟩
      · omega
      · exact ⟨u, ⟨hu, hinstant⟩, hend, rfl⟩
  · refine ⟨fun ht => absurd ht (by simp), fun ht => ?_⟩
    have := ht.1.second
    omega

/-- **Instants.** A text is read as an instant exactly when it is a well-formed literal. -/
theorem ofChars?_eq_some_iff {cs : List Char} {t : OffsetDateTime} :
    ofChars? cs = some t ↔ ∃ s : Timestamp, s.WellFormed ∧ cs = s.chars ∧ s.read = t := by
  rw [ofChars?_iff_shaped]
  constructor
  · rintro ⟨s, hs, _, rfl, h⟩
    obtain ⟨hwf, ht⟩ := (accept?_eq_some_iff hs).1 h
    exact ⟨s, hwf, rfl, ht⟩
  · rintro ⟨s, hwf, rfl, ht⟩
    have hsecond := hwf.second
    exact ⟨s, hwf.toShaped, by omega, rfl, (accept?_eq_some_iff hwf.toShaped).2 ⟨hwf, ht⟩⟩

/-- **No offset.** A local time is not the text of an instant. -/
theorem ofChars?_none_of_spells {u : DateTime} {cs : List Char} (h : u.Spells cs) :
    ofChars? cs = none := by
  obtain ⟨hu, ds, fs, ⟨hd, hds⟩, hfs, rfl⟩ := h
  -- a sign is not read here
  have hsign {c : Char} (hc : Text.isDigit c = false) (r : List Char) : ofChars? (c :: r) = none := by
    simp [ofChars?, Date.plainYear?, Text.fixedNat?, hc]
  by_cases h0 : 0 ≤ u.date.year
  · obtain rfl | ⟨_, rfl⟩ | ⟨_, rfl⟩ := hds
    · -- the text is read up to its end, where the offset is missing
      have hT : 'T'.toNat < 128 := by decide
      have hfraction : DateTime.fraction (DateTime.pointed fs) = (fs, []) := by
        simpa using DateTime.fraction_pointed (r := []) hfs (by simp)
      simp only [ofChars?, plainYear?_chars hd h0, bind, Option.bind_some, Date.afterYear?_chars hd,
        hT, if_true, DateTime.clock?_timeChars hu, Option.map_some, hfraction]
      rfl
    · exact hsign (by decide) _
    · exact hsign (by decide) _
  · obtain rfl | ⟨h, _⟩ | ⟨h, _⟩ := hds
    · rw [Date.chars_append, Date.yearChars, if_pos (by omega)]
      exact hsign (by decide) _
    · exact absurd h h0
    · omega

end OffsetDateTime

end LedgerFront
