import LedgerFront.Proofs.Filter.NormalForm
import LedgerFront.Proofs.Number.Printed

/-!
# Numbers among literals

A literal of a numeric type and a number of a row each have a normal form, and each denote a number: an
integer, or the double nearest to what is written. The normal forms are texts, so they decide which of
the numbers are equal only as far as equal numbers have equal texts.

* `ValueType.integerCell_iff`, `ValueType.decimalCell_iff`: when a number has the normal form of a literal.
* `ValueType.CellClash`, `ValueType.LiteralClash`: where equal texts are not equal numbers.
* `ValueType.normalForms_decide`: everywhere else they are.
-/

namespace LedgerFront

namespace JsonNumber

/-- The value of a number. -/
def value : JsonNumber → ℚ
  | int i => i
  | double x => x.value

/-- An integer is within the signed or the unsigned 64-bit range. -/
def Fits : JsonNumber → Prop
  | int i => -2 ^ 63 ≤ i ∧ i < 2 ^ 64
  | double _ => True

end JsonNumber

namespace ValueType

variable {n : JsonNumber}

/-- The number that a literal of a numeric type denotes: an integer, or the nearest double. -/
def literalNumber? (raw : String) : ValueType → Option ℚ
  | integer => (Text.int64? (Text.trimChars raw.toList)).map fun i : Int => (i : ℚ)
  | decimal => (Binary64.ofChars? (Text.trimChars raw.toList)).map Binary64.value
  | _ => none

/-- The number that a cell holds for a numeric type: as it stands, or the nearest double. -/
def cellNumber? (n : JsonNumber) : ValueType → Option ℚ
  | integer => some n.value
  | decimal => n.binary64?.map Binary64.value
  | _ => none

/-- Where equal texts and equal numbers part ways for a cell and a literal: as integers, the text of a
double misleads about the literal; as decimals, the two are zeros of opposite sign. -/
def CellClash (n : JsonNumber) (raw : String) : ValueType → Prop
  | integer => ∃ x i, n = .double x ∧ Text.int64? (Text.trimChars raw.toList) = some i ∧ x.Misleads i
  | decimal => ∃ x y, n.binary64? = some x ∧
      Binary64.ofChars? (Text.trimChars raw.toList) = some y ∧ x.OppositeZeros y
  | _ => False

/-- Where they part ways for two literals: as decimals, the two are zeros of opposite sign. -/
def LiteralClash (a b : String) : ValueType → Prop
  | decimal => ∃ x y, Binary64.ofChars? (Text.trimChars a.toList) = some x ∧
      Binary64.ofChars? (Text.trimChars b.toList) = some y ∧ x.OppositeZeros y
  | _ => False

/-- The cells with the normal form of an integer. An integer has to be that integer, also if it is beyond
the range of the literals and is rounded to a double for its text. -/
theorem integerCell_iff {i : Int} (hi : -2 ^ 63 ≤ i ∧ i < 2 ^ 63) (hn : n.Fits) :
    integer.normalizeNumber n = some (Text.intText i) ↔
      match n with
      | .int j => j = i
      | .double x => x.isIntegral = true ∧ x.plainText = Text.intText i := by
  cases n with
  | int j =>
    simp only [normalizeNumber, JsonNumber.int64?]
    by_cases hj : j < 2 ^ 63
    · rw [if_pos ⟨hn.1, hj⟩]
      simp only [Option.some.injEq]
      exact ⟨Text.intText_injective, congrArg Text.intText⟩
    · -- beyond the literals it is rounded, and its text is that of none of them
      rw [if_neg fun h => hj h.2]
      refine ⟨fun h => ?_, fun h => absurd hi.2 (h ▸ hj)⟩
      obtain ⟨y, hy, htext⟩ := Option.map_eq_some_iff.1 h
      have hround : Binary64.ofInt? j = some y := (Option.filter_eq_some_iff.1 hy).1
      exact absurd (String.ofList_injective htext)
        (Binary64.plainChars_ne_intChars hi (not_lt.1 hj) hround)
  | double x =>
    simp [normalizeNumber, JsonNumber.int64?, JsonNumber.binary64?, Option.filter_some]

/-- The cells with the normal form of a double. -/
theorem decimalCell_iff {y : Binary64} :
    decimal.normalizeNumber n = some y.plainText ↔ n.binary64? = some y := by
  constructor
  · intro h
    obtain ⟨x, hx, htext⟩ := Option.map_eq_some_iff.1 h
    rw [hx, Binary64.plainText_injective htext]
  · intro h
    rw [normalizeNumber, h]
    rfl

/-- Next to an integer literal. -/
theorem integerCell_decides {i : Int} (hi : -2 ^ 63 ≤ i ∧ i < 2 ^ 63) (hn : n.Fits) :
    (integer.normalizeNumber n = some (Text.intText i) ↔ n.value = i) ↔
      ¬ ∃ x, n = .double x ∧ x.Misleads i := by
  rw [integerCell_iff hi hn]
  cases n with
  | int j => simp [JsonNumber.value]
  | double x => simpa [JsonNumber.value] using Binary64.plainText_iff_value_iff (x := x) (i := i)

/-- Next to a decimal literal. -/
theorem decimalCell_decides {y : Binary64} :
    (decimal.normalizeNumber n = some y.plainText ↔ n.binary64?.map Binary64.value = some y.value) ↔
      ¬ ∃ x, n.binary64? = some x ∧ x.OppositeZeros y := by
  rw [decimalCell_iff]
  cases n.binary64? with
  | none => simp
  | some x => simpa using Binary64.eq_iff_value_iff (x := x) (y := y)

/-- **Numbers.** Take two literals of a numeric type, with their normal forms, and a number of a cell. The
cell has the normal form of the first literal exactly when both are the same number, and the two literals
have the same normal form exactly when they are the same number, if and only if they do not clash. No
integer clashes with an integer literal, and of the doubles below `2^53` only the negative zero does. -/
theorem normalForms_decide {t : ValueType} (ht : t = integer ∨ t = decimal) {a b v w : String}
    (ha : t.normalize a = .ok (some v)) (hb : t.normalize b = .ok (some w)) (hn : n.Fits) :
    ((t.normalizeJson (.num n) = .ok (some v) ↔ t.cellNumber? n = t.literalNumber? a) ↔
      ¬ t.CellClash n a) ∧
    ((v = w ↔ t.literalNumber? a = t.literalNumber? b) ↔ ¬ t.LiteralClash a b) ∧
    (t = integer → t.CellClash n a →
      n = .double (.zero true) ∨ ∃ x, n = .double x ∧ 2 ^ 53 ≤ |x.value|) := by
  obtain rfl | rfl := ht
  · obtain ⟨i, hi, rfl⟩ := Option.map_eq_some_iff.1 (Except.ok.inj ha)
    obtain ⟨j, hj, rfl⟩ := Option.map_eq_some_iff.1 (Except.ok.inj hb)
    simp only [normalizeJson, Except.ok.injEq, cellNumber?, literalNumber?, hi, hj, Option.map_some,
      Option.some.injEq, CellClash, LiteralClash, not_false_eq_true, iff_true, true_implies]
    -- the cell, the other literal, and the doubles that clash
    refine ⟨?_, ?_, ?_⟩
    · simpa using integerCell_decides (Text.int64?_bounds hi) hn
    · rw [Int.cast_inj]
      exact ⟨Text.intText_injective, congrArg Text.intText⟩
    · rintro ⟨x, _, rfl, rfl, hx⟩
      by_contra hsmall
      simp only [JsonNumber.double.injEq, exists_eq_left', not_or, not_le] at hsmall
      exact Binary64.not_misleads hsmall.1 hsmall.2 hx
  · obtain ⟨x, hx, rfl⟩ := Option.map_eq_some_iff.1 (Except.ok.inj ha)
    obtain ⟨y, hy, rfl⟩ := Option.map_eq_some_iff.1 (Except.ok.inj hb)
    simp only [normalizeJson, Except.ok.injEq, cellNumber?, literalNumber?, hx, hy, Option.map_some,
      Option.some.injEq, CellClash, LiteralClash]
    refine ⟨?_, ?_, fun h => absurd h (by decide)⟩
    · simpa using decimalCell_decides (n := n) (y := x)
    · rw [show x.plainText = y.plainText ↔ x = y from
        ⟨Binary64.plainText_injective, congrArg Binary64.plainText⟩]
      simpa using Binary64.eq_iff_value_iff (x := x) (y := y)

/-- A literal, another spelling of it, and the double of that number in a cell. -/
theorem normalForms_decide_hundred : ∃ v, decimal.normalize "100" = .ok (some v) ∧
    decimal.normalize " 1.0e2 " = .ok (some v) ∧
    decimal.normalizeJson (.num (.double ⟨false, 100 * 2 ^ 46, -46, by decide⟩)) = .ok (some v) := by
  obtain ⟨v, hv⟩ : ∃ v, decimal.normalize "100" = .ok (some v) := ⟨"100", by decide +kernel⟩
  obtain ⟨w, hw⟩ : ∃ w, decimal.normalize " 1.0e2 " = .ok (some w) := ⟨"100", by decide +kernel⟩
  have hread : Binary64.ofChars? (Text.trimChars "100".toList) =
      some ⟨false, 100 * 2 ^ 46, -46, by decide⟩ := by decide +kernel
  have hspelled : Binary64.ofChars? (Text.trimChars " 1.0e2 ".toList) =
      some ⟨false, 100 * 2 ^ 46, -46, by decide⟩ := by decide +kernel
  obtain ⟨hcell, hliteral, _⟩ := normalForms_decide (n := .double ⟨false, 100 * 2 ^ 46, -46, by decide⟩)
    (.inr rfl) hv hw trivial
  have hsame : v = w := by
    refine (hliteral.2 ?_).2 (by simp only [literalNumber?, hread, hspelled])
    rintro ⟨x, y, hx, _, hzero, _⟩
    rw [← Option.some.inj (hread.symm.trans hx)] at hzero
    exact absurd hzero (by decide)
  refine ⟨v, hv, hsame ▸ hw, (hcell.2 ?_).2 (by simp only [literalNumber?, cellNumber?, hread]; rfl)⟩
  rintro ⟨x, y, hx, _, hzero, _⟩
  rw [← Option.some.inj hx] at hzero
  exact absurd hzero (by decide)

/-- Equal numbers with different normal forms: the negative zero and `2^60` next to integer literals, and
two decimal literals of zero. -/
theorem normalForms_miss :
    (integer.normalize "0" = .ok (some "0") ∧
      integer.normalizeJson (.num (.double (.zero true))) = .ok (some "-0") ∧
      integer.cellNumber? (.double (.zero true)) = integer.literalNumber? "0") ∧
    (integer.normalize "1152921504606846976" = .ok (some "1152921504606846976") ∧
      integer.normalizeJson (.num (.double ⟨false, 2 ^ 52, 8, by decide⟩)) =
        .ok (some "1152921504606847000") ∧
      integer.cellNumber? (.double ⟨false, 2 ^ 52, 8, by decide⟩) =
        integer.literalNumber? "1152921504606846976") ∧
    (decimal.normalize "0" = .ok (some "0") ∧ decimal.normalize "-0" = .ok (some "-0") ∧
      decimal.literalNumber? "0" = decimal.literalNumber? "-0") := by
  decide +kernel

end ValueType

end LedgerFront
