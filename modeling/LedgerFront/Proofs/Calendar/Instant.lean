import LedgerFront.Proofs.Calendar.Text

/-!
# Counting days and seconds

Every day of the calendar has a number, and every date and time the number of seconds that have
passed at it. The day after has the next number, and no two days have the same one, so a date and
time is known by its seconds.

* `Date.number_next`, `Date.number_previous`: neighbouring days.
* `Date.number_injective`, `DateTime.instant_injective`: one day, one date and time for each number.
* `DateTime.instant_addMinutes`: minutes later or earlier.
* `OffsetDateTime.toUtc?_eq_some_iff`: the UTC form is the date and time at the same second.
-/

namespace LedgerFront

namespace Date

/-- The days of a year. -/
def daysInYear (year : Int) : Nat := if isLeap year then 366 else 365

/-- The days of all years before this one, counted from the start of year 1. -/
def daysBeforeYear (year : Int) : Int :=
  365 * (year - 1) + (year - 1) / 4 - (year - 1) / 100 + (year - 1) / 400

/-- The days of all months before this one in its year. -/
def daysBeforeMonth (year : Int) (month : Nat) : Nat :=
  ((List.range (month - 1)).map fun m => daysIn year (m + 1)).sum

/-- The number of a day; the first day of year 1 has number 1. -/
def number (d : Date) : Int :=
  daysBeforeYear d.year + daysBeforeMonth d.year d.month + d.day

example : number ⟨1, 1, 1⟩ = 1 ∧ number ⟨1970, 1, 1⟩ = 719163 ∧ number ⟨0, 12, 31⟩ = 0 := by decide

theorem daysBeforeYear_succ (y : Int) :
    daysBeforeYear (y + 1) = daysBeforeYear y + daysInYear y := by
  unfold daysBeforeYear daysInYear isLeap
  simp only [Bool.and_eq_true, Bool.or_eq_true, beq_iff_eq, bne_iff_ne]
  split_ifs with h <;> omega

theorem daysBeforeYear_mono {y z : Int} (h : y ≤ z) : daysBeforeYear y ≤ daysBeforeYear z := by
  unfold daysBeforeYear
  omega

theorem daysBeforeMonth_january (y : Int) : daysBeforeMonth y 1 = 0 := rfl

theorem daysBeforeMonth_succ (y : Int) {m : Nat} (h : 1 ≤ m) :
    daysBeforeMonth y (m + 1) = daysBeforeMonth y m + daysIn y m := by
  obtain ⟨k, rfl⟩ : ∃ k, m = k + 1 := ⟨m - 1, by omega⟩
  simp [daysBeforeMonth, List.range_succ]

/-- The months up to December make up the year. -/
theorem daysBeforeMonth_december (y : Int) :
    daysBeforeMonth y 12 + 31 = daysInYear y := by
  simp only [daysBeforeMonth, List.range_succ, List.range_zero, daysIn, daysInYear]
  split <;> simp

theorem daysBeforeMonth_mono (y : Int) {m n : Nat} (h : m ≤ n) :
    daysBeforeMonth y m ≤ daysBeforeMonth y n := by
  induction n, h using Nat.le_induction with
  | base => exact le_rfl
  | succ n _ ih =>
    by_cases hn : 1 ≤ n
    · rw [daysBeforeMonth_succ y hn]
      omega
    · obtain rfl : n = 0 := by omega
      exact ih

variable {d e : Date}

/-- The days of a year lie behind those of the years before and not behind its own last day. -/
theorem number_in_year (h : d.Valid) :
    daysBeforeYear d.year < d.number ∧ d.number ≤ daysBeforeYear (d.year + 1) := by
  obtain ⟨_, _, h1, h12, hday, hlast⟩ := h
  have hyear := daysBeforeYear_succ d.year
  have hdecember := daysBeforeMonth_december d.year
  have hmonth : daysBeforeMonth d.year d.month + d.day ≤ daysBeforeMonth d.year 12 + 31 := by
    obtain h | h := Nat.lt_or_eq_of_le h12
    · have hnext := daysBeforeMonth_succ d.year h1
      have := daysBeforeMonth_mono d.year (show d.month + 1 ≤ 12 from h)
      omega
    · rw [h, daysIn_december] at hlast
      rw [h]
      omega
  unfold number
  omega

/-- **One day for each number.** -/
theorem number_injective (hd : d.Valid) (he : e.Valid) (h : d.number = e.number) : d = e := by
  have hyear : d.year = e.year := by
    obtain ⟨hd1, hd2⟩ := number_in_year hd
    obtain ⟨he1, he2⟩ := number_in_year he
    by_contra hne
    obtain hlt | hlt := Int.lt_or_gt_of_ne hne
    · have := daysBeforeYear_mono (show d.year + 1 ≤ e.year from hlt)
      omega
    · have := daysBeforeYear_mono (show e.year + 1 ≤ d.year from hlt)
      omega
  obtain ⟨_, _, hd1, _, hd2, hd3⟩ := hd
  obtain ⟨_, _, he1, _, he2, he3⟩ := he
  have hdays : daysBeforeMonth d.year d.month + d.day = daysBeforeMonth d.year e.month + e.day := by
    unfold number at h
    rw [← hyear] at h
    omega
  have hmonth : d.month = e.month := by
    rw [← hyear] at he3
    by_contra hne
    obtain hlt | hlt := Nat.lt_or_gt_of_ne hne
    · have := daysBeforeMonth_mono d.year (show d.month + 1 ≤ e.month from hlt)
      rw [daysBeforeMonth_succ d.year hd1] at this
      omega
    · have := daysBeforeMonth_mono d.year (show e.month + 1 ≤ d.month from hlt)
      rw [daysBeforeMonth_succ d.year he1] at this
      omega
  obtain ⟨y, m, n⟩ := d
  obtain ⟨y', m', n'⟩ := e
  simp only at hyear hmonth hdays
  subst hyear hmonth
  obtain rfl : n = n' := by omega
  rfl

/-- **The day after.** -/
theorem number_next (hd : d.Valid) (h : d.next? = some e) : e.number = d.number + 1 := by
  obtain ⟨y, m, n⟩ := d
  obtain ⟨_, _, hm, h12, _, hlast⟩ := hd
  simp only at hm h12 hlast
  simp only [next?] at h
  split_ifs at h with h1 h2
  -- in the month, at its end, and at the end of the year
  · obtain ⟨rfl, _⟩ := valid_of_of? h
    simp only [number]
    push_cast
    ring
  · obtain ⟨rfl, _⟩ := valid_of_of? h
    have := daysBeforeMonth_succ y hm
    simp only [number]
    omega
  · obtain ⟨rfl, _⟩ := valid_of_of? h
    obtain rfl : m = 12 := by omega
    have hyear := daysBeforeYear_succ y
    have hdecember := daysBeforeMonth_december y
    rw [daysIn_december] at h1 hlast
    simp only [number, daysBeforeMonth_january]
    omega

/-- **The day before.** -/
theorem number_previous (hd : d.Valid) (h : d.previous? = some e) : e.number = d.number - 1 := by
  obtain ⟨y, m, n⟩ := d
  obtain ⟨_, _, hm, _, hn, _⟩ := hd
  simp only at hm hn
  simp only [previous?] at h
  split_ifs at h with h1 h2
  -- in the month, at its start, and at the start of the year
  · obtain ⟨rfl, _⟩ := valid_of_of? h
    simp only [number]
    omega
  · obtain ⟨rfl, _⟩ := valid_of_of? h
    obtain ⟨k, rfl⟩ : ∃ k, m = k + 1 := ⟨m - 1, by omega⟩
    have := daysBeforeMonth_succ y (show 1 ≤ k by omega)
    simp only [number, Nat.add_sub_cancel]
    omega
  · obtain ⟨rfl, _⟩ := valid_of_of? h
    obtain rfl : m = 1 := by omega
    have hyear := daysBeforeYear_succ (y - 1)
    have hdecember := daysBeforeMonth_december (y - 1)
    rw [sub_add_cancel] at hyear
    simp only [number, daysBeforeMonth_january]
    omega

theorem last_valid : last.Valid := by decide

/-- No day of the calendar lies behind the last one. -/
theorem number_le_last (h : d.Valid) : d.number ≤ last.number := by
  have hlast : daysBeforeYear (9999 + 1) = last.number := by decide
  have hin := (number_in_year h).2
  have hmono := daysBeforeYear_mono (show d.year + 1 ≤ 9999 + 1 by have := h.2.1; omega)
  omega

end Date

namespace DateTime

/-- The seconds that have passed at a date and time. -/
def instant (t : DateTime) : Int :=
  86400 * t.date.number + 3600 * t.hour + 60 * t.minute + t.second

variable {t u : DateTime}

/-- **One date and time for each second.** -/
theorem instant_injective (ht : t.Valid) (hu : u.Valid) (h : t.instant = u.instant) : t = u := by
  obtain ⟨htd, hth, htm, hts⟩ := ht
  obtain ⟨hud, huh, hum, hus⟩ := hu
  unfold instant at h
  have hdate : t.date = u.date := Date.number_injective htd hud (by omega)
  obtain ⟨d, hh, mm, ss⟩ := t
  obtain ⟨d', hh', mm', ss'⟩ := u
  simp only at hdate h hth htm hts huh hum hus
  subst hdate
  simp only [mk.injEq, true_and]
  omega

/-- **Minutes later or earlier.** -/
theorem instant_addMinutes {minutes : Int} (ht : t.Valid) (hlow : -1440 < minutes)
    (hhigh : minutes < 1440) (hu : t.addMinutes? minutes = some u) :
    u.instant = t.instant + 60 * minutes := by
  have hh := ht.hour
  have hm := ht.minute
  -- a minute of the day is an hour and a minute again
  have htimed (d : Date) {k : Int} (h0 : 0 ≤ k) :
      instant ⟨d, (k / 60).toNat, (k % 60).toNat, t.second⟩ =
        86400 * d.number + 60 * k + t.second := by
    simp only [instant]
    omega
  simp only [addMinutes?] at hu
  push_cast at hu
  split_ifs at hu with h1 h2
  · obtain ⟨d, hd, rfl⟩ := Option.map_eq_some_iff.1 hu
    rw [htimed d (by omega), Date.number_previous ht.date hd]
    unfold instant
    omega
  · obtain ⟨d, hd, rfl⟩ := Option.map_eq_some_iff.1 hu
    rw [htimed d (by omega), Date.number_next ht.date hd]
    unfold instant
    omega
  · obtain rfl := Option.some.inj hu
    rw [htimed t.date (by omega)]
    unfold instant
    omega

/-- The last second of the calendar. -/
def last : DateTime := ⟨Date.last, 23, 59, 59⟩

theorem instant_le_last (h : t.Valid) : t.instant ≤ last.instant := by
  have hh := h.hour
  have hm := h.minute
  have hs := h.second
  have hd := Date.number_le_last h.date
  simp only [instant, last]
  omega

end DateTime

namespace OffsetDateTime

variable {t : OffsetDateTime}

/-- The seconds that have passed at an instant with an offset. -/
def instant (t : OffsetDateTime) : Int := t.here.instant - 60 * t.offset

/-- An instant that was read lies past the end exactly when it is later than the last second. -/
theorem pastEnd_iff (h : t.Read) : t.PastEnd ↔ DateTime.last.instant < t.instant := by
  have hh := h.hour
  have hm := h.minute
  have hs := h.second
  have hl := h.low
  have hd := Date.number_le_last h.valid
  simp only [PastEnd, instant, DateTime.instant, DateTime.last]
  constructor
  · rintro ⟨hlast, hover⟩
    rw [hlast]
    omega
  · intro hlt
    have hlast : t.here.date = Date.last :=
      Date.number_injective h.valid Date.last_valid (by omega)
    exact ⟨hlast, by rw [hlast] at hlt; omega⟩

/-- **The UTC form.** It is the date and time of the calendar at the same second. -/
theorem toUtc?_eq_some_iff (h : t.Read) {u : DateTime} :
    t.toUtc? = some u ↔ u.Valid ∧ u.instant = t.instant := by
  have hl := h.low
  have hr := h.high
  have hvalid : t.here.Valid := ⟨h.valid, h.hour, h.minute, h.second⟩
  have hsound {w : DateTime} (hw : t.toUtc? = some w) : w.Valid ∧ w.instant = t.instant := by
    refine ⟨valid_of_toUtc? h hw, ?_⟩
    rw [DateTime.instant_addMinutes hvalid (by omega) (by omega) hw]
    unfold instant
    omega
  refine ⟨hsound, fun ⟨hu, hinstant⟩ => ?_⟩
  have hin : ¬ t.PastEnd := by
    rw [pastEnd_iff h, ← hinstant, not_lt]
    exact DateTime.instant_le_last hu
  obtain ⟨w, hw⟩ := Option.ne_none_iff_exists'.1 fun hn => hin ((toUtc?_eq_none h).1 hn)
  obtain ⟨hwv, hwi⟩ := hsound hw
  rw [hw, DateTime.instant_injective hwv hu (hwi.trans hinstant.symm)]

end OffsetDateTime

end LedgerFront
