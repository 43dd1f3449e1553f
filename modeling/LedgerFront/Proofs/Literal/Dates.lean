import LedgerFront.Proofs.Filter.NormalForm

/-!
# Dates among literals

A literal of a day, of a local time and of an instant each denotes one date and time in UTC, whichever
of the two calendar types it is read for.

* `ValueType.instants_by_second`: instants have the same normal form when they fall into the same second,
  which is that of the local time that spells it in UTC.
* `ValueType.date_of_dateTime`: the normal form as a date is the part of the other before its `T`.
-/

namespace LedgerFront

namespace DateTime

/-- The text of a date and time. -/
def text (t : DateTime) : String := String.ofList t.chars

/-- The first second of the calendar. -/
def first : DateTime := ⟨⟨-9999, 1, 1⟩, 0, 0, 0⟩

/-- A second of the years of the calendar. -/
def InCalendar (i : Int) : Prop := first.instant ≤ i ∧ i ≤ last.instant

theorem text_injective {t u : DateTime} (ht : t.Valid) (hu : u.Valid) (h : t.text = u.text) : t = u := by
  have hread := ofChars?_eq_some_iff.2 (spells_chars ht)
  rw [String.ofList_injective h, ofChars?_eq_some_iff.2 (spells_chars hu)] at hread
  exact (Option.some.inj hread).symm

end DateTime

namespace ValueType

open Literal

variable {raw : String}

/-- A local time has the normal form that it spells. -/
theorem normalize_of_spells {t : DateTime} (h : t.Spells (Text.trimChars raw.toList)) :
    dateTime.normalize raw = .ok (some t.text) := by
  simp only [normalize, dateTime?_of_spells h]
  rfl

/-- A literal with an offset has the normal form of the date and time at its second. -/
theorem normalize_of_timestamp {s : Timestamp} (hraw : Text.trimChars raw.toList = s.chars)
    (hs : s.WellFormed) {u : DateTime} (hu : u.Valid) (hinstant : u.instant = s.instant) :
    dateTime.normalize raw = .ok (some u.text) := by
  have hread : OffsetDateTime.ofChars? s.chars = some s.read :=
    OffsetDateTime.ofChars?_eq_some_iff.2 ⟨s, hs, rfl, rfl⟩
  have hutc : s.read.toUtc? = some u :=
    (OffsetDateTime.toUtc?_eq_some_iff (OffsetDateTime.read_of_shaped hs.toShaped)).2 ⟨hu, hinstant⟩
  simp only [normalize, dateTime?, hraw, hread, hutc]
  rfl

/-- Every second of an instant in the calendar is that of a date and time. -/
theorem exists_utc {s : Timestamp} (hs : s.WellFormed) (h : DateTime.InCalendar s.instant) :
    ∃ u : DateTime, u.Valid ∧ u.instant = s.instant := by
  have hread := OffsetDateTime.read_of_shaped hs.toShaped
  cases hu : s.read.toUtc? with
  | some u => exact ⟨u, (OffsetDateTime.toUtc?_eq_some_iff hread).1 hu⟩
  | none =>
    have hpast := (OffsetDateTime.pastEnd_iff hread).1 ((OffsetDateTime.toUtc?_eq_none hread).1 hu)
    exact absurd h.2 (not_le.2 hpast)

/-- The text is the normal form of the date and time at a second, and of every literal without an
offset that spells it. -/
def IsUtcForm (i : Int) (v : String) : Prop :=
  ∃ u : DateTime, u.Valid ∧ u.instant = i ∧ v = u.text ∧
    ∀ c : String, u.Spells (Text.trimChars c.toList) → dateTime.normalize c = .ok (some v)

/-- **Instants.** Two literals with offsets, between any blanks, have normal forms if their instants lie
in the years of the calendar. The two are the same exactly when the instants fall into the same second,
and each is that of the literal without an offset that spells its second in UTC. -/
theorem instants_by_second {a b : String} {s t : Timestamp}
    (ha : Text.trimChars a.toList = s.chars) (hs : s.WellFormed) (hsin : DateTime.InCalendar s.instant)
    (hb : Text.trimChars b.toList = t.chars) (ht : t.WellFormed) (htin : DateTime.InCalendar t.instant) :
    ∃ v w, dateTime.normalize a = .ok (some v) ∧ dateTime.normalize b = .ok (some w) ∧
      (v = w ↔ s.instant = t.instant) ∧ IsUtcForm s.instant v ∧ IsUtcForm t.instant w := by
  obtain ⟨u, hu, hus⟩ := exists_utc hs hsin
  obtain ⟨x, hx, hxt⟩ := exists_utc ht htin
  refine ⟨u.text, x.text, normalize_of_timestamp ha hs hu hus, normalize_of_timestamp hb ht hx hxt, ?_,
    ⟨u, hu, hus, rfl, fun _ => normalize_of_spells⟩, ⟨x, hx, hxt, rfl, fun _ => normalize_of_spells⟩⟩
  rw [← hus, ← hxt]
  constructor
  · intro h
    rw [DateTime.text_injective hu hx h]
  · intro h
    rw [DateTime.instant_injective hu hx h]

/-- A leap second, and the second before it with a fraction, farther east and in UTC without an offset. -/
theorem instants_by_second_leap : ∃ v,
    dateTime.normalize "2016-12-31T23:59:60Z" = .ok (some v) ∧
    dateTime.normalize " 2017-01-01 05:29:59.75+05:30 " = .ok (some v) ∧
    dateTime.normalize "+2016-12-31T23:59:59.5" = .ok (some v) := by
  have hleap : (⟨⟨⟨2016, 12, 31⟩, 23, 59, 60⟩, 'T', [], .utc 'Z'⟩ : Timestamp).WellFormed :=
    ⟨⟨by decide, by decide, by decide, by decide, by decide, by decide, .inl rfl⟩,
      .inr ⟨rfl, ⟨⟨2016, 12, 31⟩, 23, 59, 59⟩, ⟨by decide, by decide, by decide, by decide⟩,
        by decide, by decide⟩⟩
  have heast : (⟨⟨⟨2017, 1, 1⟩, 5, 29, 59⟩, ' ', ['7', '5'], .offset false 5 30⟩ :
      Timestamp).WellFormed :=
    ⟨⟨by decide, by decide, by decide, by decide, by decide, by decide, ⟨by decide, by decide⟩⟩,
      .inl (by decide)⟩
  obtain ⟨v, w, hv, hw, hsame, hutc, _⟩ := instants_by_second (a := "2016-12-31T23:59:60Z")
    (b := " 2017-01-01 05:29:59.75+05:30 ") (by decide +kernel) hleap ⟨by decide, by decide⟩
    (by decide +kernel) heast ⟨by decide, by decide⟩
  obtain rfl := hsame.2 (by decide)
  obtain ⟨u, hu, hinstant, _, hspelled⟩ := hutc
  have hlocal : DateTime.Spells ⟨⟨2016, 12, 31⟩, 23, 59, 59⟩
      (Text.trimChars "+2016-12-31T23:59:59.5".toList) :=
    ⟨⟨by decide, by decide, by decide, by decide⟩, "+2016-12-31".toList, ['5'],
      ⟨by decide, .inr (.inl ⟨by decide, by decide +kernel⟩)⟩, by decide, by decide +kernel⟩
  obtain rfl := DateTime.instant_injective hu hlocal.1 (hinstant.trans (by decide))
  exact ⟨v, hv, hw, hspelled _ hlocal⟩

/-- The text before its first `T`. -/
def beforeT (s : String) : String := String.ofList (s.toList.takeWhile (· ≠ 'T'))

theorem beforeT_text (t : DateTime) : beforeT t.text = String.ofList t.date.chars := by
  have hno (c : Char) (hc : c ∈ t.date.chars) : decide (c ≠ 'T') = true := by
    obtain h | rfl := Date.mem_chars hc
    · rw [decide_eq_true_eq]
      rintro rfl
      exact absurd h (by decide)
    · decide
  rw [beforeT, DateTime.text, String.toList_ofList, DateTime.chars, List.takeWhile_append_of_pos hno]
  simp

theorem text_midnight (d : Date) :
    (DateTime.midnight d).text = String.ofList d.chars ++ "T00:00:00" := by
  have hzero : Text.padded 2 0 = ['0', '0'] := by decide +kernel
  have hclock : (DateTime.midnight d).timeChars = "00:00:00".toList := by
    simp [DateTime.timeChars, DateTime.midnight, hzero]
  rw [DateTime.text, DateTime.chars, hclock, DateTime.midnight, String.ofList_append]
  rfl

/-- **Dates.** As a date a literal has a normal form, is refused or stops the program where it does as a
date and time, and the form is the part of the other before its `T`. A plain date is the midnight
that starts it. -/
theorem date_of_dateTime (raw : String) :
    date.normalize raw = (dateTime.normalize raw).map (·.map beforeT) ∧
    (∀ w, dateTime.normalize raw = .ok (some w) → 'T' ∈ w.toList) ∧
    ∀ d : Date, d.Spells (Text.trimChars raw.toList) →
      dateTime.normalize raw = .ok (some (String.ofList d.chars ++ "T00:00:00")) := by
  refine ⟨?_, ?_, ?_⟩
  · simp only [normalize, date?_eq]
    rcases dateTime? (Text.trimChars raw.toList) with why | _ | t
    · rfl
    · rfl
    · exact congrArg (fun s => Except.ok (some s)) (beforeT_text t).symm
  · intro w hw
    obtain ⟨t, _, rfl⟩ := map_eq_ok hw
    simp [DateTime.chars]
  · intro d hd
    have hread := dateTime?_of_day (Date.ofChars?_eq_some_iff.2 hd)
    simp only [normalize, hread, ← text_midnight]
    rfl

end ValueType

end LedgerFront
