import LedgerFront.Proofs.Number.ReadBack

/-!
# The values of doubles

A double as the rational number that it stands for. The two zeros apart, a double is known by its value;
whole numbers below `2^53` are rounded to themselves, and no whole number is rounded across a power of
two.

* `sameNumber_iff_value`, `eq_iff_value_iff`: equality as numbers is equality of values, and is equality
  unless the two are zeros of opposite sign.
* `isIntegral_iff`: the doubles that are whole numbers.
* `round?_whole_exact`, `round?_whole_binade`: rounding whole numbers.
-/

namespace LedgerFront

namespace Binary64

/-- The absolute value of a double. -/
def magnitude (x : Binary64) : ℚ := x.m * 2 ^ x.q

/-- The value of a double. -/
def value (x : Binary64) : ℚ := if x.negative then -x.magnitude else x.magnitude

variable {x y : Binary64}

theorem magnitude_eq_ratio (x : Binary64) :
    x.magnitude = (scaled x.m x.q : ℚ) / scaled 1 (-x.q) := by
  have h := scaled_ratio x.m 1 (-x.q)
  rw [neg_neg, Nat.cast_one, div_one] at h
  exact h.symm

theorem magnitude_nonneg (x : Binary64) : 0 ≤ x.magnitude := by
  unfold magnitude
  positivity

theorem magnitude_eq_zero : x.magnitude = 0 ↔ x.isZero = true := by
  have hpow : (2 : ℚ) ^ x.q ≠ 0 := by positivity
  simp [magnitude, isZero, hpow]

theorem isZero_iff : x.isZero = true ↔ x = zero x.negative := by
  constructor
  · intro h
    obtain ⟨negative, m, q, hcanonical⟩ := x
    obtain rfl : m = 0 := by simpa [isZero] using h
    obtain rfl : q = -1074 := by omega
    rfl
  · intro h
    rw [h]
    rfl

/-- A quotient that is the absolute value of a double rounds to it. -/
theorem round?_of_magnitude (hx : x.isZero = false) {num den : Nat} (hd : 0 < den)
    (h : (num : ℚ) / den = x.magnitude) : round? x.negative num den = some x := by
  have hm : x.m ≠ 0 := by simpa [isZero] using hx
  rw [← x.round?_self hm]
  refine round?_congr x.negative hd (scaled_pos (by decide) _) ?_
  have hdq : (den : ℚ) ≠ 0 := by positivity
  have hsq : (scaled 1 (-x.q) : ℚ) ≠ 0 := by
    have := scaled_pos Nat.one_pos (-x.q)
    positivity
  rw [magnitude_eq_ratio, div_eq_div_iff hdq hsq] at h
  exact_mod_cast h

/-- A double is known by its sign and its absolute value. -/
theorem magnitude_injective (hsign : x.negative = y.negative) (h : x.magnitude = y.magnitude) :
    x = y := by
  -- a double is what its value rounds to, but zeros round without their sign
  cases hx : x.isZero with
  | true =>
    have hy : y.isZero = true := by rw [← magnitude_eq_zero, ← h, magnitude_eq_zero, hx]
    rw [isZero_iff.1 hx, isZero_iff.1 hy, hsign]
  | false =>
    have hy : y.isZero = false := by
      rw [Bool.eq_false_iff, ne_eq, ← magnitude_eq_zero, ← h, magnitude_eq_zero, hx]
      decide
    have hpos := scaled_pos Nat.one_pos (-y.q)
    have hround := round?_of_magnitude hx hpos (y.magnitude_eq_ratio.symm.trans h.symm)
    rw [hsign, round?_of_magnitude hy hpos y.magnitude_eq_ratio.symm] at hround
    exact (Option.some.inj hround).symm

theorem abs_value (x : Binary64) : |x.value| = x.magnitude := by
  unfold value
  split
  · rw [abs_neg, abs_of_nonneg x.magnitude_nonneg]
  · exact abs_of_nonneg x.magnitude_nonneg

/-- **Equal numbers.** Two doubles are the same number exactly when they have the same value. -/
theorem sameNumber_iff_value : x.sameNumber y = true ↔ x.value = y.value := by
  simp only [sameNumber, Bool.or_eq_true, beq_iff_eq, Bool.and_eq_true]
  constructor
  · rintro (rfl | ⟨hx, hy⟩)
    · rfl
    · rw [← magnitude_eq_zero, ← abs_value, abs_eq_zero] at hx hy
      rw [hx, hy]
  · intro h
    have hmagnitude : x.magnitude = y.magnitude := by rw [← abs_value, h, abs_value]
    by_cases hsign : x.negative = y.negative
    · exact .inl (magnitude_injective hsign hmagnitude)
    · -- of opposite signs, so both are zero
      have hopposite : x.value = -y.value := by
        unfold value
        rw [hmagnitude, Bool.eq_not_of_ne hsign]
        cases y.negative <;> simp
      have hzero : y.magnitude = 0 := by
        rw [← abs_value, abs_eq_zero]
        linarith
      right
      rw [← magnitude_eq_zero, ← magnitude_eq_zero, hmagnitude]
      exact ⟨hzero, hzero⟩

/-- Zeros of opposite sign. -/
def OppositeZeros (x y : Binary64) : Prop :=
  x.isZero = true ∧ y.isZero = true ∧ x.negative ≠ y.negative

instance : Decidable (OppositeZeros x y) := inferInstanceAs (Decidable (_ ∧ _))

/-- **Equal doubles.** Being the same double is being the same number, except for zeros of opposite
sign. -/
theorem eq_iff_value_iff : (x = y ↔ x.value = y.value) ↔ ¬ OppositeZeros x y := by
  rw [← sameNumber_iff_value, sameNumber, Bool.or_eq_true, beq_iff_eq, Bool.and_eq_true, OppositeZeros]
  constructor
  · rintro h ⟨hx, hy, hsign⟩
    exact hsign (congrArg negative (h.2 (.inr ⟨hx, hy⟩)))
  · intro h
    refine ⟨.inl, fun hsame => hsame.elim id fun ⟨hx, hy⟩ => ?_⟩
    have hsign : x.negative = y.negative := not_not.1 fun hsign => h ⟨hx, hy, hsign⟩
    rw [isZero_iff.1 hx, isZero_iff.1 hy, hsign]

theorem isIntegral_iff_magnitude : x.isIntegral = true ↔ ∃ n : ℕ, x.magnitude = n := by
  have hpos := scaled_pos Nat.one_pos (-x.q)
  have hne : (scaled 1 (-x.q) : ℚ) ≠ 0 := by positivity
  rw [isIntegral, beq_iff_eq, magnitude_eq_ratio]
  constructor
  · intro h
    obtain ⟨k, hk⟩ := Nat.dvd_of_mod_eq_zero h
    have hscaled : scaled x.m x.q = scaled 1 (-x.q) * scaled k x.q := by
      rw [scaled_eq x.m, scaled_eq k, ← Nat.mul_assoc, ← hk]
    exact ⟨scaled k x.q, by rw [hscaled, Nat.cast_mul, mul_div_cancel_left₀ _ hne]⟩
  · rintro ⟨n, hn⟩
    have hscaled : scaled x.m x.q = n * scaled 1 (-x.q) := by
      rw [div_eq_iff hne] at hn
      exact_mod_cast hn
    by_cases hq : 0 ≤ x.q
    · have hunit : scaled 1 (-x.q) = 1 := by
        rw [scaled_eq, Int.toNat_of_nonpos (by omega)]
        rfl
      rw [hunit, Nat.mod_one]
    · rw [scaled_eq x.m, Int.toNat_of_nonpos (by omega), pow_zero, Nat.mul_one] at hscaled
      rw [hscaled, Nat.mul_mod_left]

/-- **Whole numbers.** -/
theorem isIntegral_iff : x.isIntegral = true ↔ ∃ i : ℤ, x.value = i := by
  rw [isIntegral_iff_magnitude]
  constructor
  · rintro ⟨n, hn⟩
    by_cases hx : x.negative = true
    · exact ⟨-n, by simp [value, hx, hn]⟩
    · exact ⟨n, by simp [value, hx, hn]⟩
  · rintro ⟨i, hi⟩
    exact ⟨i.natAbs, by rw [← abs_value, hi, Nat.cast_natAbs, Int.cast_abs]⟩

/-- The last place of a whole number. -/
theorem lastPlace_whole {n : Nat} (hn : n ≠ 0) : lastPlace n 1 = (n.log2 : Int) - 52 := by
  have hlog : Int.log 2 ((n : ℚ) / (1 : Nat)) = n.log2 := by
    rw [Nat.cast_one, div_one]
    obtain ⟨h1, h2⟩ := log2_bracket (Nat.pos_of_ne_zero hn)
    exact log_of_bracket (by exact_mod_cast h1) (by exact_mod_cast h2)
  rw [lastPlace_eq (Nat.pos_of_ne_zero hn) Nat.one_pos, hlog]
  omega

theorem ofParts?_eq_some {negative : Bool} {m : Nat} {q : Int}
    (h : ofParts? negative m q = some y) : y.negative = negative ∧ y.m = m ∧ y.q = q := by
  unfold ofParts? at h
  split at h
  · obtain rfl := Option.some.inj h
    exact ⟨rfl, rfl, rfl⟩
  · exact absurd h (by simp)

/-- The sign and the absolute value of a rounded quotient. -/
theorem round?_eq_some {negative : Bool} {num den : Nat} (hn : 0 < num) (hd : 0 < den)
    (h : round? negative num den = some y) : y.negative = negative ∧
      y.magnitude = roundDiv (scaled num (-lastPlace num den)) (scaled den (lastPlace num den)) *
        2 ^ lastPlace num den := by
  have hmax := roundDiv_le (scaled_lt_lastPlace hn hd)
  rw [round?, if_neg (by omega)] at h
  simp only at h
  generalize lastPlace num den = q at h hmax ⊢
  generalize roundDiv (scaled num (-q)) (scaled den q) = m at h hmax ⊢
  split_ifs at h with hm
  · obtain ⟨hsign, rfl, rfl⟩ := ofParts?_eq_some h
    exact ⟨hsign, rfl⟩
  · -- a mantissa that was rounded up to `2^53` is halved
    obtain rfl : m = 2 ^ 53 := by omega
    obtain ⟨hsign, hm, hq⟩ := ofParts?_eq_some h
    refine ⟨hsign, ?_⟩
    rw [magnitude, hm, hq, zpow_add_one₀ two_ne_zero]
    norm_num
    ring

variable {negative : Bool} {n : Nat}

/-- **Exact below `2^53`.** A whole number of at most 53 binary digits is rounded to itself. -/
theorem round?_whole_exact (hn : n < 2 ^ 53) (h : round? negative n 1 = some y) : y.magnitude = n := by
  obtain rfl | hpos := Nat.eq_zero_or_pos n
  · obtain rfl : zero negative = y := by simpa [round?] using h
    simp [magnitude, zero]
  · obtain ⟨_, hy⟩ := round?_eq_some hpos Nat.one_pos h
    have hlog : n.log2 < 53 := (Nat.log2_lt (by omega)).2 hn
    obtain ⟨k, hk⟩ : ∃ k : Nat, lastPlace n 1 = -(k : Int) :=
      ⟨52 - n.log2, by rw [lastPlace_whole (by omega)]; omega⟩
    have hround : roundDiv (scaled n k) (scaled 1 (-k)) = n * 2 ^ k := by
      rw [scaled_eq, scaled_eq, Int.toNat_natCast, Int.toNat_neg_natCast]
      simpa using roundDiv_mul_self (m := n * 2 ^ k) Nat.one_pos
    rw [hy, hk, neg_neg, hround, zpow_neg, zpow_natCast]
    push_cast
    field_simp

/-- **Powers of two.** A whole number stays between the powers of two next to it. -/
theorem round?_whole_binade (hn : n ≠ 0) (h : round? negative n 1 = some y) :
    2 ^ n.log2 ≤ y.magnitude ∧ y.magnitude ≤ 2 ^ (n.log2 + 1) := by
  have hpos := Nat.pos_of_ne_zero hn
  have hplace := lastPlace_whole hn
  obtain ⟨_, hy⟩ := round?_eq_some hpos Nat.one_pos h
  have hmax := roundDiv_le (scaled_lt_lastPlace hpos Nat.one_pos)
  have hmin := le_roundDiv (scaled_pos Nat.one_pos _) (le_scaled_lastPlace hpos Nat.one_pos (by omega))
  generalize roundDiv (scaled n (-lastPlace n 1)) (scaled 1 (lastPlace n 1)) = m at hy hmax hmin
  rw [hy, hplace]
  have hpow (k : Nat) : (2 : ℚ) ^ (52 + k) * 2 ^ ((n.log2 : Int) - 52) = 2 ^ (n.log2 + k) := by
    rw [← zpow_natCast, ← zpow_natCast, ← zpow_add₀ two_ne_zero]
    congr 1
    push_cast
    ring
  constructor
  · calc (2 : ℚ) ^ n.log2 = 2 ^ 52 * 2 ^ ((n.log2 : Int) - 52) := (hpow 0).symm
      _ ≤ m * 2 ^ ((n.log2 : Int) - 52) := by
        gcongr
        exact_mod_cast hmin
  · calc (m : ℚ) * 2 ^ ((n.log2 : Int) - 52) ≤ 2 ^ 53 * 2 ^ ((n.log2 : Int) - 52) := by
          gcongr
          exact_mod_cast hmax
      _ = 2 ^ (n.log2 + 1) := hpow 1

end Binary64

end LedgerFront
