import LedgerFront.Calendar.DateTime
import Mathlib.Tactic.ByContra
import Mathlib.Tactic.SplitIfs

/-!
# The two ends of the calendar

Which instants have no UTC form. A local time is read in the years 0 to 9999, so
moving it to UTC can leave the calendar at its last day only.

* `Date.next?_eq_none`: the last day is the only one without a day after it.
* `OffsetDateTime.Read`: what is known of an instant that was read from a text.
* `OffsetDateTime.toUtc?_eq_none`: such an instant has no UTC form exactly when
  it lies past the end of the calendar.
-/

namespace LedgerFront

namespace Date

/-- The last day of the calendar. -/
def last : Date := ⟨9999, 12, 31⟩

theorem daysIn_pos (y : Int) (m : Nat) : 28 ≤ daysIn y m := by
  unfold daysIn
  split_ifs <;> omega

theorem daysIn_le (y : Int) (m : Nat) : daysIn y m ≤ 31 := by
  unfold daysIn
  split_ifs <;> omega

theorem daysIn_december (y : Int) : daysIn y 12 = 31 := by simp [daysIn]

theorem of?_eq_some {y : Int} {m d : Nat} (h : Valid ⟨y, m, d⟩) : of? y m d = some ⟨y, m, d⟩ :=
  if_pos h

theorem of?_eq_none {y : Int} {m d : Nat} (h : ¬ Valid ⟨y, m, d⟩) : of? y m d = none := if_neg h

theorem valid_of_of? {y : Int} {m d : Nat} {t : Date} (h : of? y m d = some t) :
    t = ⟨y, m, d⟩ ∧ t.Valid := by
  unfold of? at h
  split at h
  · rename_i hv
    obtain rfl := Option.some.inj h
    exact ⟨rfl, hv⟩
  · exact absurd h (by simp)

/-- **The end.** Only the last day has no day after it. -/
theorem next?_eq_none {d : Date} (h : d.Valid) : d.next? = none ↔ d = last := by
  obtain ⟨y, m, n⟩ := d
  obtain ⟨h1, h2, h3, h4, h5, h6⟩ := h
  simp only at h1 h2 h3 h4 h5 h6
  unfold next? last
  simp only [mk.injEq]
  split_ifs with hd hm
  · -- within the month
    have hv : Valid ⟨y, m, n + 1⟩ := ⟨h1, h2, h3, h4, by simp, hd⟩
    rw [of?_eq_some hv]
    refine ⟨by simp, fun ⟨_, hm, hn⟩ => ?_⟩
    rw [hm, daysIn_december] at hd
    omega
  · -- on the last day of a month but December
    have hv : Valid ⟨y, m + 1, 1⟩ :=
      ⟨h1, h2, by simp, hm, by simp, by have := daysIn_pos y (m + 1); simp; omega⟩
    rw [of?_eq_some hv]
    exact ⟨by simp, fun ⟨_, hm', _⟩ => by omega⟩
  · -- on the last day of the year
    obtain rfl : m = 12 := by omega
    rw [daysIn_december] at hd h6
    by_cases hy : y = 9999
    · have hv : ¬ Valid ⟨y + 1, 1, 1⟩ := fun hv => by have := hv.2.1; simp at this; omega
      rw [of?_eq_none hv]
      exact ⟨fun _ => ⟨hy, rfl, by omega⟩, fun _ => rfl⟩
    · have hv : Valid ⟨y + 1, 1, 1⟩ :=
        ⟨by simp; omega, by simp; omega, by simp, by simp, by simp, by simp [daysIn]⟩
      rw [of?_eq_some hv]
      exact ⟨by simp, fun h => absurd h.1 hy⟩

/-- From year 0 on every day has a day before it. -/
theorem previous?_isSome {d : Date} (h : d.Valid) (h0 : 0 ≤ d.year) : d.previous?.isSome := by
  obtain ⟨y, m, n⟩ := d
  obtain ⟨h1, h2, h3, h4, h5, h6⟩ := h
  simp only at h0 h1 h2 h3 h4 h5 h6
  unfold previous?
  simp only
  split_ifs with hd hm
  · rw [of?_eq_some ⟨h1, h2, h3, h4, by simp; omega, by simp; omega⟩]
    rfl
  · have := daysIn_pos y (m - 1)
    rw [of?_eq_some ⟨h1, h2, by simp; omega, by simp; omega, by simp; omega, by simp⟩]
    rfl
  · rw [of?_eq_some ⟨by simp; omega, by simp; omega, by simp, by simp, by simp, by simp [daysIn]⟩]
    rfl

theorem afterYear?_eq_some {y : Int} {s r : List Char} {d : Date} (h : afterYear? y s = some (d, r)) :
    d.year = y ∧ d.Valid := by
  simp only [afterYear?, bind, Option.bind_eq_some_iff, pure, Option.some.injEq, Prod.mk.injEq,
    Prod.exists] at h
  obtain ⟨_, _, m, _, _, _, _, n, _, _, t, ht, rfl, _⟩ := h
  obtain ⟨rfl, hv⟩ := valid_of_of? ht
  exact ⟨rfl, hv⟩

theorem plainYear?_nonneg {y : Int} {s r : List Char} (h : plainYear? s = some (y, r)) : 0 ≤ y := by
  simp only [plainYear?, Option.map_eq_some_iff, Prod.mk.injEq, Prod.exists] at h
  obtain ⟨n, _, _, rfl, _⟩ := h
  exact Int.natCast_nonneg n

/-- A year without a sign is read in the same way where a sign is allowed. -/
theorem signedYear?_of_plain {s : List Char} {p : Int × List Char} (h : plainYear? s = some p) :
    signedYear? s = some p := by
  unfold signedYear?
  split
  · simp [plainYear?, Text.fixedNat?, Text.isDigit] at h
  · simp [plainYear?, Text.fixedNat?, Text.isDigit] at h
  · exact h

end Date

namespace DateTime

theorem clock?_eq_some {s r : List Char} {h m n : Nat} (hc : clock? s = some ((h, m, n), r)) :
    h < 24 ∧ m < 60 := by
  simp only [clock?, bind, Option.bind_eq_some_iff, Option.ite_none_right_eq_some,
    Option.some.injEq, Prod.mk.injEq, Prod.exists] at hc
  obtain ⟨_, _, _, _, _, _, _, _, _, _, _, _, _, ⟨hh, hm⟩, ⟨rfl, rfl, _⟩, _⟩ := hc
  exact ⟨hh, hm⟩

end DateTime

namespace OffsetDateTime

/-- The UTC form lies behind the last day of the calendar. -/
def PastEnd (t : OffsetDateTime) : Prop :=
  t.here.date = Date.last ∧ (1440 : Int) ≤ 60 * t.here.hour + t.here.minute - t.offset

instance (t : OffsetDateTime) : Decidable t.PastEnd := by unfold PastEnd; infer_instance

/-- What is known of every instant that was read from a text. -/
structure Read (t : OffsetDateTime) : Prop where
  valid : t.here.date.Valid
  year : 0 ≤ t.here.date.year
  hour : t.here.hour < 24
  minute : t.here.minute < 60
  second : t.here.second < 60
  low : -1440 < t.offset
  high : t.offset < 1440

/-- **The UTC form.** An instant that was read has none exactly past the end of the calendar. -/
theorem toUtc?_eq_none {t : OffsetDateTime} (h : t.Read) : t.toUtc? = none ↔ t.PastEnd := by
  have hh := h.hour
  have hm := h.minute
  have hl := h.low
  have hr := h.high
  simp only [toUtc?, DateTime.addMinutes?, PastEnd]
  push_cast
  split_ifs with h0 h1
  -- to the day before, which there always is, to the day after, or to the same day
  · have hp := Date.previous?_isSome h.valid h.year
    rw [Option.map_eq_none_iff]
    exact ⟨fun hn => by simp [hn] at hp, fun ⟨_, h2⟩ => by omega⟩
  · rw [Option.map_eq_none_iff, Date.next?_eq_none h.valid]
    exact ⟨fun hd => ⟨hd, by omega⟩, fun hd => hd.1⟩
  · exact ⟨by simp, fun ⟨_, h2⟩ => by omega⟩

theorem offset?_eq_some {s r : List Char} {o : Int} (h : offset? s = some (o, r)) :
    -1440 < o ∧ o < 1440 := by
  have hhmm : ∀ {s r : List Char} {o : Int},
      ((Text.fixedNat? 2 s).bind fun hour => (Text.mark? ':' hour.2).bind fun s =>
        (Text.fixedNat? 2 s).bind fun minute =>
          if hour.1 < 24 ∧ minute.1 < 60 then
            some (((60 * hour.1 + minute.1 : Nat) : Int), minute.2)
          else none) = some (o, r) → 0 ≤ o ∧ o < 1440 := by
    intro s r o h
    simp only [Option.bind_eq_some_iff, Option.ite_none_right_eq_some, Option.some.injEq,
      Prod.mk.injEq] at h
    obtain ⟨_, _, _, _, _, _, ⟨_, _⟩, rfl, _⟩ := h
    omega
  unfold offset? at h
  split at h
  · have := hhmm h
    omega
  · obtain ⟨⟨p, q⟩, hp, he⟩ := Option.map_eq_some_iff.1 h
    have := hhmm hp
    simp only [Prod.mk.injEq] at he
    omega
  · split at h
    · simp only [Option.some.injEq, Prod.mk.injEq] at h
      omega
    · exact absurd h (by simp)
  · exact absurd h (by simp)

theorem leapSecond?_eq_some {t u : OffsetDateTime} (h : t.leapSecond? = some u) :
    u.here = { t.here with second := 59 } ∧ u.offset = t.offset := by
  simp only [leapSecond?, bind, Option.bind_eq_some_iff, Option.ite_none_right_eq_some,
    Option.some.injEq] at h
  obtain ⟨_, _, _, rfl⟩ := h
  exact ⟨rfl, rfl⟩

/-- The parts of a text with an offset: a date, at least one character, and a clock in range. -/
theorem ofChars?_parts {s : List Char} {t : OffsetDateTime} (h : ofChars? s = some t) :
    (∃ y r c q, Date.plainYear? s = some (y, r) ∧ Date.afterYear? y r = some (t.here.date, c :: q)) ∧
      t.here.hour < 24 ∧ t.here.minute < 60 ∧ t.here.second < 60 ∧
      -1440 < t.offset ∧ t.offset < 1440 := by
  simp only [ofChars?, bind, Option.bind_eq_some_iff, Prod.exists] at h
  obtain ⟨y, r, hy, d, q, hd, h⟩ := h
  cases q with
  | nil => simp at h
  | cons c q =>
    have hascii : c.toNat < 128 := by
      by_contra hc
      simp [hc] at h
    simp only [hascii, if_true, Option.bind_eq_some_iff, Option.map_eq_some_iff, Prod.mk.injEq,
      Prod.exists] at h
    obtain ⟨hh, mm, ss, fs, u, ⟨_, _, _, w, hclock, rfl, rfl, rfl, _⟩, o, v, ho, h⟩ := h
    have hin := DateTime.clock?_eq_some hclock
    have hoff := offset?_eq_some ho
    split_ifs at h with h1 h2 h3
    -- an ordinary second, or a leap second that is read as the second before
    · obtain rfl := Option.some.inj h
      exact ⟨⟨y, r, c, q, hy, hd⟩, hin.1, hin.2, h2, hoff.1, hoff.2⟩
    · obtain ⟨hhere, ho⟩ := leapSecond?_eq_some h
      rw [hhere, ho]
      exact ⟨⟨y, r, c, q, hy, hd⟩, hin.1, hin.2, Nat.lt_add_one 59, hoff.1, hoff.2⟩

theorem read_of_ofChars? {s : List Char} {t : OffsetDateTime} (h : ofChars? s = some t) : t.Read := by
  obtain ⟨⟨y, r, c, q, hy, hd⟩, hh, hm, hs, hl, hr⟩ := ofChars?_parts h
  obtain ⟨rfl, hv⟩ := Date.afterYear?_eq_some hd
  exact ⟨hv, Date.plainYear?_nonneg hy, hh, hm, hs, hl, hr⟩

/-- A text with an offset is not the text of a day. -/
theorem date_none_of_ofChars? {s : List Char} {t : OffsetDateTime} (h : ofChars? s = some t) :
    Date.ofChars? s = none := by
  obtain ⟨⟨y, r, c, q, hy, hd⟩, _⟩ := ofChars?_parts h
  simp [Date.ofChars?, Date.signedYear?_of_plain hy, hd]

end OffsetDateTime

end LedgerFront
