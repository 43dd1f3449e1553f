import LedgerFront.Literal
import LedgerFront.Proofs.Calendar.Spelling
import LedgerFront.Proofs.Number.ReadBack

/-!
# Normal forms

What the normal form of a literal looks like in each type, and that it is its own
normal form: a text that was normalised once is not changed again.

* `Literal.dateTime?_of_spells`, `Literal.date?_eq`: what the texts of dates denote.
* `ValueType.IsNormal`: the normal forms of a type.
* `ValueType.isNormal_of_normalize`: normalising gives a normal form.
* `ValueType.normalize_of_isNormal`: a normal form is its own.
* `ValueType.normalize_stable`: normalising twice is normalising once.
-/

namespace LedgerFront

namespace Text

/-- A character of the text of a number. -/
def IsNumeral (c : Char) : Prop := isDigit c = true ∨ c = '-' ∨ c = '.'

theorem IsNumeral.not_blank {c : Char} (h : IsNumeral c) : isBlank c = false := by
  obtain h | rfl | rfl := h
  · exact isDigit_not_blank h
  · decide
  · decide

/-- The text is not empty, consists of characters of numbers and ends in a digit. -/
structure IsNumber (s : List Char) : Prop where
  numerals : ∀ c ∈ s, IsNumeral c
  last : ∃ a e, s = a ++ [e] ∧ isDigit e = true

theorem IsNumber.append {s t : List Char} (hs : ∀ c ∈ s, IsNumeral c) (ht : IsNumber t) :
    IsNumber (s ++ t) := by
  obtain ⟨hall, a, e, rfl, he⟩ := ht
  refine ⟨fun c hc => ?_, s ++ a, e, by simp, he⟩
  obtain hc | hc := List.mem_append.1 hc
  · exact hs c hc
  · exact hall c hc

theorem isNumber_of_digits {s : List Char} (hne : s ≠ []) (h : ∀ c ∈ s, isDigit c = true) :
    IsNumber s := by
  refine ⟨fun c hc => .inl (h c hc), s.dropLast, s.getLast hne, ?_, h _ (List.getLast_mem hne)⟩
  exact (List.dropLast_concat_getLast hne).symm

theorem isNumber_digits (n : Nat) : IsNumber (digits n) :=
  isNumber_of_digits (digits_ne_nil n) (List.all_eq_true.1 (digits_all n))

theorem isNumber_intChars (i : Int) : IsNumber (intChars i) := by
  unfold intChars
  split
  · exact .append (s := ['-']) (by simp [IsNumeral]) (isNumber_digits _)
  · exact isNumber_digits _

end Text

namespace Binary64

theorem isNumber_positional (n : Nat) (e : Int) : Text.IsNumber (positional (Text.digits n) e) := by
  have hall := List.all_eq_true.1 (Text.digits_all n)
  have hne := Text.digits_ne_nil n
  generalize Text.digits n = ds at hall hne
  unfold positional
  simp only
  split_ifs with h1 h2
  -- zeros behind the digits, the point among them, or the point in front of zeros
  · refine Text.isNumber_of_digits (by simp [hne]) fun c hc => ?_
    obtain hc | hc := List.mem_append.1 hc
    · exact hall c hc
    · rw [List.eq_of_mem_replicate hc]
      decide
  · have hdrop : ds.drop (ds.length - (-e).toNat) ≠ [] := by
      rw [ne_eq, List.drop_eq_nil_iff]
      omega
    have hlast := Text.isNumber_of_digits hdrop fun c hc => hall c (List.mem_of_mem_drop hc)
    have hpoint : Text.IsNumber ('.' :: ds.drop (ds.length - (-e).toNat)) :=
      .append (s := ['.']) (by simp [Text.IsNumeral]) hlast
    exact .append (fun c hc => .inl (hall c (List.mem_of_mem_take hc))) hpoint
  · have hlast := Text.isNumber_of_digits hne hall
    have hzeros : Text.IsNumber (List.replicate ((-e).toNat - ds.length) '0' ++ ds) :=
      .append (fun c hc => .inl (by rw [List.eq_of_mem_replicate hc]; decide)) hlast
    exact .append (s := ['0', '.']) (by simp [Text.IsNumeral, Text.isDigit]) hzeros

theorem isNumber_signed (x : Binary64) {s : List Char} (h : Text.IsNumber s) :
    Text.IsNumber (x.signed s) := by
  unfold signed
  split
  · exact .append (s := ['-']) (by simp [Text.IsNumeral]) h
  · exact h

theorem isNumber_plainChars (x : Binary64) : Text.IsNumber x.plainChars := by
  unfold plainChars
  split
  · exact x.isNumber_signed (Text.isNumber_of_digits (by simp) (by simp [Text.isDigit]))
  · exact x.isNumber_signed (isNumber_positional _ _)

end Binary64

namespace Literal

theorem dateTime?_of_spells {t : DateTime} {s : List Char} (h : t.Spells s) :
    dateTime? s = .ok (some t) := by
  rw [dateTime?, OffsetDateTime.ofChars?_none_of_spells h, DateTime.ofChars?_eq_some_iff.2 h]
  rfl

/-- The text of a day is neither that of an instant nor that of a local time. -/
theorem dateTime?_of_day {s : List Char} {d : Date} (h : Date.ofChars? s = some d) :
    dateTime? s = .ok (some (DateTime.midnight d)) := by
  have hinstant : OffsetDateTime.ofChars? s = none := by
    cases ho : OffsetDateTime.ofChars? s with
    | none => rfl
    | some o => simp [OffsetDateTime.date_none_of_ofChars? ho] at h
  have hlocal : DateTime.ofChars? s = none := by
    cases ht : DateTime.ofChars? s with
    | none => rfl
    | some t => simp [DateTime.date_none_of_spells (DateTime.ofChars?_eq_some_iff.1 ht)] at h
  rw [dateTime?, hinstant, hlocal, h]
  rfl

/-- The day that a text denotes is that of the date and time that it denotes. -/
theorem date?_eq (s : List Char) : date? s = (dateTime? s).map (·.map (·.date)) := by
  unfold date?
  cases hd : Date.ofChars? s with
  | none => rfl
  | some d =>
    rw [dateTime?_of_day hd]
    rfl

end Literal

namespace ValueType

/-- The normal forms of a type. -/
def IsNormal (v : String) : ValueType → Prop
  | string | enum => True
  | integer => ∃ i : Int, (-2 ^ 63 ≤ i ∧ i < 2 ^ 63) ∧ v = Text.intText i
  | decimal => ∃ x : Binary64, v = x.plainText
  | boolean => ∃ b, v = Literal.boolText b
  | date => ∃ d : Date, d.Valid ∧ v = String.ofList d.chars
  | dateTime => ∃ d : DateTime, d.Valid ∧ v = String.ofList d.chars

theorem dateTime?_valid {s : List Char} {d : DateTime} (h : Literal.dateTime? s = .ok (some d)) :
    d.Valid := by
  unfold Literal.dateTime? at h
  split at h
  · rename_i o ho
    split at h
    · rename_i u hu
      obtain rfl : u = d := by simpa using h
      exact OffsetDateTime.valid_of_toUtc? (OffsetDateTime.read_of_ofChars? ho) hu
    · exact absurd h (by simp)
  · rw [Except.ok.injEq, Option.or_eq_some_iff] at h
    obtain h | ⟨_, h⟩ := h
    · exact DateTime.valid_of_ofChars? h
    · obtain ⟨e, he, rfl⟩ := Option.map_eq_some_iff.1 h
      exact DateTime.midnight_valid (Date.valid_of_ofChars? he)

theorem map_eq_ok {α β : Type} {r : Run (Option α)} {f : α → β} {b : β}
    (h : r.map (·.map f) = .ok (some b)) : ∃ a, r = .ok (some a) ∧ b = f a := by
  rcases r with why | _ | a
  · exact absurd h (by simp [Except.map])
  · exact absurd h (by simp [Except.map])
  · exact ⟨a, rfl, by simpa [Except.map] using h.symm⟩

theorem date?_valid {s : List Char} {d : Date} (h : Literal.date? s = .ok (some d)) : d.Valid := by
  rw [Literal.date?_eq] at h
  obtain ⟨u, hu, rfl⟩ := map_eq_ok h
  exact (dateTime?_valid hu).date

/-- **Normalising.** It gives a normal form. -/
theorem isNormal_of_normalize {t : ValueType} {raw v : String} (h : t.normalize raw = .ok (some v)) :
    t.IsNormal v := by
  cases t with
  | string | enum => trivial
  | integer =>
    obtain ⟨i, hi, rfl⟩ := Option.map_eq_some_iff.1 (Except.ok.inj h)
    exact ⟨i, Text.int64?_bounds hi, rfl⟩
  | decimal =>
    obtain ⟨x, _, rfl⟩ := Option.map_eq_some_iff.1 (Except.ok.inj h)
    exact ⟨x, rfl⟩
  | boolean =>
    obtain ⟨b, _, rfl⟩ := Option.map_eq_some_iff.1 (Except.ok.inj h)
    exact ⟨b, rfl⟩
  | date =>
    obtain ⟨d, hd, rfl⟩ := map_eq_ok h
    exact ⟨d, date?_valid hd, rfl⟩
  | dateTime =>
    obtain ⟨d, hd, rfl⟩ := map_eq_ok h
    exact ⟨d, dateTime?_valid hd, rfl⟩

/-- **Stability.** A normal form is its own normal form. -/
theorem normalize_of_isNormal {t : ValueType} {v : String} (h : t.IsNormal v) :
    t.normalize v = .ok (some v) := by
  cases t with
  | string | enum => rfl
  | integer =>
    obtain ⟨i, hi, rfl⟩ := h
    have htrim := Text.trimChars_of_not_blank fun c hc =>
      ((Text.isNumber_intChars i).numerals c hc).not_blank
    simp only [normalize, Text.intText, String.toList_ofList, htrim, Text.int64?_intChars hi,
      Option.map_some]
  | decimal =>
    obtain ⟨x, rfl⟩ := h
    have htrim := Text.trimChars_of_not_blank fun c hc =>
      ((x.isNumber_plainChars).numerals c hc).not_blank
    simp only [normalize, Binary64.plainText, String.toList_ofList, htrim,
      Binary64.ofChars?_plainChars, Option.map_some]
  | boolean =>
    obtain ⟨b, rfl⟩ := h
    cases b <;> rfl
  | date =>
    obtain ⟨d, hd, rfl⟩ := h
    have htrim := Text.trimChars_of_not_blank fun c hc => d.chars_not_blank (c := c) hc
    have hread := Literal.dateTime?_of_day (Date.ofChars?_eq_some_iff.2 (Date.spells_chars hd))
    simp only [normalize, Literal.date?_eq, String.toList_ofList, htrim, hread]
    rfl
  | dateTime =>
    obtain ⟨d, hd, rfl⟩ := h
    have htrim := Text.trimChars_of_not_blank fun c hc => d.chars_not_blank (c := c) hc
    have hread := Literal.dateTime?_of_spells (DateTime.spells_chars hd)
    simp only [normalize, String.toList_ofList, htrim, hread]
    rfl

/-- **Normal forms are stable.** What a text is given is given to itself, as a literal and as the text of
a cell. -/
theorem normalize_stable {t : ValueType} {raw v : String} (h : t.normalize raw = .ok (some v)) :
    t.normalize v = .ok (some v) ∧ t.normalizeJson (.str v) = .ok (some v) := by
  have hself := normalize_of_isNormal (isNormal_of_normalize h)
  refine ⟨hself, ?_⟩
  rw [normalizeJson]
  split
  · rfl
  · exact hself

/-- The first half hour of year 0, which is in the year before in UTC. -/
theorem normalize_stable_before_year_zero :
    dateTime.normalize " 0000-01-01T00:29:59.5+00:30" = .ok (some "-0001-12-31T23:59:59") ∧
    dateTime.normalize "-0001-12-31T23:59:59" = .ok (some "-0001-12-31T23:59:59") ∧
    dateTime.normalizeJson (.str "-0001-12-31T23:59:59") = .ok (some "-0001-12-31T23:59:59") := by
  have h : dateTime.normalize " 0000-01-01T00:29:59.5+00:30" = .ok (some "-0001-12-31T23:59:59") := by
    decide +kernel
  exact ⟨h, normalize_stable h⟩

end ValueType

end LedgerFront
