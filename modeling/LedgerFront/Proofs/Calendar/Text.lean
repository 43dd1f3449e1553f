import LedgerFront.Proofs.Calendar.Ends
import LedgerFront.Proofs.Text.Blank
import LedgerFront.Proofs.Text.Digits

/-!
# Writing dates

Numbers of a fixed width, the year with its sign and the parts of a day behind it: each is read back
from the text that is written for it, whatever follows. What is read, or moved by less than a day, is
valid.

* `Text.fixedNat?_padded`, `Date.signedYear?_yearChars`, `Date.afterYear?_chars`: the parts of a text.
* `Date.valid_of_ofChars?`, `DateTime.valid_of_ofChars?`: what is read is valid.
* `OffsetDateTime.valid_of_toUtc?`: moving an instant to UTC gives a date and time.
-/

namespace LedgerFront

namespace Text

theorem padded_all (width n : Nat) : (padded width n).all isDigit = true := by
  unfold padded
  rw [List.all_append, digits_all, Bool.and_true, List.all_eq_true]
  intro c hc
  rw [List.eq_of_mem_replicate hc]
  decide

theorem length_padded {width n : Nat} (h : n < 10 ^ width) (hw : width ≠ 0) :
    (padded width n).length = width := by
  have := length_digits_le h hw
  simp [padded]
  omega

theorem digitsValue_padded (width n : Nat) : digitsValue (padded width n) = n := by
  rw [padded, digitsValue_append, digitsValue_zeros, digitsValue_digits]
  omega

/-- A padded number is read back, whatever follows. -/
theorem fixedNat?_padded {width n : Nat} (h : n < 10 ^ width) (hw : width ≠ 0) (r : List Char) :
    fixedNat? width (padded width n ++ r) = some (n, r) := by
  have hlen := length_padded h hw
  have htake : (padded width n ++ r).take width = padded width n := by
    rw [List.take_append_of_le_length (by omega), List.take_of_length_le (by omega)]
  have hdrop : (padded width n ++ r).drop width = r := by
    rw [List.drop_append_of_le_length (by omega), List.drop_of_length_le (by omega)]
    rfl
  simp only [fixedNat?, htake, hdrop, hlen, padded_all, digitsValue_padded, and_self, if_true]

theorem isDigit_not_blank {c : Char} (h : isDigit c = true) : isBlank c = false := by
  simp only [isDigit, Bool.and_eq_true, decide_eq_true_eq] at h
  simp only [isBlank, Bool.or_eq_false_iff, Bool.and_eq_false_iff, decide_eq_false_iff_not,
    beq_eq_false_iff_ne]
  omega

theorem padded_not_blank {width n : Nat} {c : Char} (h : c ∈ padded width n) : isBlank c = false :=
  isDigit_not_blank (List.all_eq_true.1 (padded_all width n) c h)

@[simp] theorem mark?_self (c : Char) (r : List Char) : mark? c (c :: r) = some r := by simp [mark?]

end Text

namespace Date

variable {d : Date}

theorem afterYear?_chars (h : d.Valid) (r : List Char) :
    afterYear? d.year ('-' :: (Text.padded 2 d.month ++ '-' :: (Text.padded 2 d.day ++ r))) =
      some (d, r) := by
  obtain ⟨h1, h2, h3, h4, h5, h6⟩ := h
  have hday : d.day < 10 ^ 2 := by
    have := daysIn_le d.year d.month
    omega
  have hof : of? d.year d.month d.day = some d := of?_eq_some ⟨h1, h2, h3, h4, h5, h6⟩
  simp only [afterYear?, bind, Text.mark?_self, Option.bind_some,
    Text.fixedNat?_padded (show d.month < 10 ^ 2 by omega) (by decide),
    Text.fixedNat?_padded hday (by decide), hof, pure]

theorem plainYear?_padded {y : Int} (h0 : 0 ≤ y) (h : y ≤ 9999) (r : List Char) :
    plainYear? (Text.padded 4 y.natAbs ++ r) = some (y, r) := by
  rw [plainYear?, Text.fixedNat?_padded (by omega) (by decide)]
  simp
  omega

theorem signedYear?_yearChars {y : Int} (hlow : -9999 ≤ y) (hhigh : y ≤ 9999) (r : List Char) :
    signedYear? (yearChars y ++ r) = some (y, r) := by
  unfold yearChars
  split
  · rename_i h
    have hneg : -((y.natAbs : Nat) : Int) = y := by omega
    rw [List.cons_append, signedYear?, Text.fixedNat?_padded (by omega) (by decide), Option.map_some,
      hneg]
  · exact signedYear?_of_plain (plainYear?_padded (by omega) hhigh r)

theorem chars_append (d : Date) (r : List Char) : d.chars ++ r =
    yearChars d.year ++ '-' :: (Text.padded 2 d.month ++ '-' :: (Text.padded 2 d.day ++ r)) := by
  simp [chars]

theorem next?_valid {e : Date} (h : d.next? = some e) : e.Valid := by
  unfold next? at h
  split_ifs at h
  · exact (valid_of_of? h).2
  · exact (valid_of_of? h).2
  · exact (valid_of_of? h).2

theorem previous?_valid {e : Date} (h : d.previous? = some e) : e.Valid := by
  unfold previous? at h
  split_ifs at h
  · exact (valid_of_of? h).2
  · exact (valid_of_of? h).2
  · exact (valid_of_of? h).2

theorem valid_of_ofChars? {s : List Char} (h : ofChars? s = some d) : d.Valid := by
  simp only [ofChars?, bind, Option.bind_eq_some_iff, Option.ite_none_right_eq_some,
    Option.some.injEq, Prod.exists] at h
  obtain ⟨y, r, _, e, r', hd, _, rfl⟩ := h
  exact (afterYear?_eq_some hd).2

/-- The text of a day consists of digits and dashes. -/
theorem mem_chars {c : Char} (h : c ∈ d.chars) : Text.isDigit c = true ∨ c = '-' := by
  have hpadded {width n : Nat} (h : c ∈ Text.padded width n) : Text.isDigit c = true :=
    List.all_eq_true.1 (Text.padded_all width n) c h
  unfold chars yearChars at h
  simp only [List.mem_append, List.mem_cons] at h
  obtain h | h | h | h | h := h
  · split at h
    · obtain h | h := List.mem_cons.1 h
      · exact .inr h
      · exact .inl (hpadded h)
    · exact .inl (hpadded h)
  · exact .inr h
  · exact .inl (hpadded h)
  · exact .inr h
  · exact .inl (hpadded h)

theorem chars_not_blank (d : Date) {c : Char} (h : c ∈ d.chars) : Text.isBlank c = false := by
  obtain h | rfl := mem_chars h
  · exact Text.isDigit_not_blank h
  · decide

end Date

namespace DateTime

/-- A day of the calendar and a time of day. -/
structure Valid (t : DateTime) : Prop where
  date : t.date.Valid
  hour : t.hour < 24
  minute : t.minute < 60
  second : t.second < 60

variable {t : DateTime}

theorem chars_not_blank (t : DateTime) {c : Char} (h : c ∈ t.chars) : Text.isBlank c = false := by
  unfold chars timeChars at h
  simp only [List.mem_append, List.mem_cons] at h
  obtain h | rfl | h | rfl | h | rfl | h := h
  · exact t.date.chars_not_blank h
  · decide
  · exact Text.padded_not_blank h
  · decide
  · exact Text.padded_not_blank h
  · decide
  · exact Text.padded_not_blank h

theorem midnight_valid {d : Date} (h : d.Valid) : (midnight d).Valid :=
  ⟨h, Nat.succ_pos 23, Nat.succ_pos 59, Nat.succ_pos 59⟩

theorem valid_of_ofChars? {s : List Char} (h : ofChars? s = some t) : t.Valid := by
  simp only [ofChars?, bind, Option.bind_eq_some_iff, Option.ite_none_right_eq_some,
    Option.some.injEq, Prod.exists] at h
  obtain ⟨y, r, _, d, r', hd, u, _, hh, mm, ss, v, hclock, ⟨hs, _⟩, rfl⟩ := h
  have hin := clock?_eq_some hclock
  exact ⟨(Date.afterYear?_eq_some hd).2, hin.1, hin.2, hs⟩

/-- Less than a day earlier or later it is a valid time again, if there is such a day. -/
theorem valid_of_addMinutes? {u : DateTime} {minutes : Int} (h : t.Valid) (hlow : -1440 < minutes)
    (hhigh : minutes < 1440) (hu : t.addMinutes? minutes = some u) : u.Valid := by
  have hh := h.hour
  have hm := h.minute
  -- the minute of the day stays in range, whichever day it falls on
  have htimed {d : Date} (hd : d.Valid) {k : Int} (h0 : 0 ≤ k) (h1 : k < 1440) :
      Valid ⟨d, (k / 60).toNat, (k % 60).toNat, t.second⟩ :=
    ⟨hd, by simp only; omega, by simp only; omega, h.second⟩
  simp only [addMinutes?] at hu
  push_cast at hu
  split_ifs at hu with h1 h2
  · obtain ⟨d, hd, rfl⟩ := Option.map_eq_some_iff.1 hu
    exact htimed (Date.previous?_valid hd) (by omega) (by omega)
  · obtain ⟨d, hd, rfl⟩ := Option.map_eq_some_iff.1 hu
    exact htimed (Date.next?_valid hd) (by omega) (by omega)
  · obtain rfl := Option.some.inj hu
    exact htimed h.date (by omega) (by omega)

end DateTime

namespace OffsetDateTime

theorem valid_of_toUtc? {t : OffsetDateTime} {u : DateTime} (h : t.Read) (hu : t.toUtc? = some u) :
    u.Valid := by
  have hl := h.low
  have hr := h.high
  exact DateTime.valid_of_addMinutes? ⟨h.valid, h.hour, h.minute, h.second⟩ (by omega) (by omega) hu

end OffsetDateTime

end LedgerFront
