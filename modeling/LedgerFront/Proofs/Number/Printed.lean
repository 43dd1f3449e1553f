import LedgerFront.Proofs.Number.Value

/-!
# What the texts of doubles spell

The positional text of a double spells a decimal that is read as the double. For a whole number this is
a whole number again, the double itself below `2^53`, and possibly another one above: `2^60` is
written as `1152921504606847000`.

* `printed`: the number that the text spells.
* `plainChars_eq_intChars_iff`: when a double and an integer have the same text.
* `printed_eq_value`: whole numbers below `2^53` are spelled exactly.
* `plainChars_ne_intChars`: no integer from `2^63` on has the text of a smaller one once it is rounded.
* `plainText_iff_value_iff`: where equal texts are equal numbers, and where they are not.
-/

namespace LedgerFront

namespace Decimal

/-- The value of a decimal. -/
def value (d : Decimal) : ℚ := d.digits * 10 ^ d.exponent

theorem value_strip (d : Decimal) : d.strip.value = d.value := by
  fun_induction Decimal.strip d with
  | case1 d h ih =>
    obtain ⟨k, hk⟩ := Nat.dvd_of_mod_eq_zero h.2
    rw [ih, value, value, hk, Nat.mul_div_cancel_left k (by decide), zpow_add_one₀ (by norm_num)]
    push_cast
    ring
  | case2 d h => rfl

/-- No zero is left at the end of the digits. -/
theorem strip_mod (d : Decimal) (h : d.strip.digits ≠ 0) : d.strip.digits % 10 ≠ 0 := by
  fun_induction Decimal.strip d with
  | case1 d _ ih => exact ih h
  | case2 d hd => exact fun hmod => hd ⟨h, hmod⟩

end Decimal

namespace Binary64

/-- The positional form has no point exactly on whole numbers, and is then the text of that number. -/
theorem positional_eq_digits_iff {n : Nat} (hn : n % 10 ≠ 0) (e : Int) (k : Nat) :
    positional (Text.digits n) e = Text.digits k ↔ (⟨n, e⟩ : Decimal).value = k := by
  have hne : n ≠ 0 := fun h => hn (by rw [h])
  by_cases he : 0 ≤ e
  · obtain ⟨m, rfl⟩ := Int.eq_ofNat_of_zero_le he
    have hchars : positional (Text.digits n) m = Text.digits (n * 10 ^ m) := by
      rw [positional, if_pos he, Text.digits_mul_pow hne, Int.toNat_natCast]
    rw [hchars, Decimal.value, zpow_natCast]
    constructor
    · intro h
      exact_mod_cast Text.digits_injective h
    · intro h
      congr 1
      exact_mod_cast h
  · -- with a point on one side, and a fraction on the other
    obtain ⟨m, hm⟩ : ∃ m : Nat, e = -((m + 1 : Nat) : Int) := ⟨(-e).toNat - 1, by omega⟩
    refine ⟨fun h => ?_, fun h => ?_⟩
    · have hpoint : '.' ∈ positional (Text.digits n) e := by
        simp only [positional, if_neg he]
        split <;> simp
      rw [h] at hpoint
      exact absurd (List.all_eq_true.1 (Text.digits_all k) _ hpoint) (by decide)
    · have hten : (10 : ℚ) ^ (m + 1) ≠ 0 := by positivity
      rw [Decimal.value, hm, zpow_neg, zpow_natCast, ← div_eq_mul_inv, div_eq_iff hten] at h
      have hnat : n = k * 10 ^ (m + 1) := by exact_mod_cast h
      rw [pow_succ, ← Nat.mul_assoc] at hnat
      exact absurd (by rw [hnat, Nat.mul_mod_left]) hn

/-- The number that the text of a double spells. -/
def printed (x : Binary64) : ℚ :=
  if x.isZero then 0
  else if x.negative then -(x.shortest .up).value else (x.shortest .up).value

variable {x : Binary64}

theorem digits_shortest (tie : Tie) (hx : x.isZero = false) : (x.shortest tie).digits % 10 ≠ 0 := by
  have hm : x.m ≠ 0 := by simpa [isZero] using hx
  -- no digits at all would be read as zero
  refine Decimal.strip_mod _ fun h0 => ?_
  have hread := x.readsBack_shortest tie hm
  rw [readsBack, shortest, h0, ofDecimal?_zero, beq_iff_eq, Option.some.injEq] at hread
  rw [← hread] at hx
  simp [isZero, zero] at hx

/-- A text of digits with the sign of the double, for a number that is not zero. -/
theorem signed_eq_intChars_iff {s : List Char} {c : Char} (hc : s.head? = some c)
    (hdigit : Text.isDigit c = true) {r : ℚ} (hr : 0 < r)
    (hs : ∀ k : ℕ, s = Text.digits k ↔ r = k) {i : Int} :
    x.signed s = Text.intChars i ↔ (if x.negative then -r else r) = i := by
  have hs := hs i.natAbs
  rw [Nat.cast_natAbs, Int.cast_abs] at hs
  unfold signed
  split
  · rw [Text.minus_eq_intChars_iff, hs]
    constructor
    · rintro ⟨hi, rfl⟩
      rw [abs_of_neg (by exact_mod_cast hi), neg_neg]
    · intro h
      have hi : (i : ℚ) < 0 := by linarith
      exact ⟨by exact_mod_cast hi, by rw [abs_of_neg hi, ← h, neg_neg]⟩
  · rw [Text.eq_intChars_iff hc hdigit, hs]
    constructor
    · rintro ⟨hi, rfl⟩
      rw [abs_of_nonneg (by exact_mod_cast hi)]
    · intro h
      have hi : (0 : ℚ) ≤ i := by linarith
      exact ⟨by exact_mod_cast hi, by rw [abs_of_nonneg hi, h]⟩

/-- **Equal texts.** A double has the text of an integer exactly when its text spells the integer and it
is not the negative zero. -/
theorem plainChars_eq_intChars_iff {i : Int} :
    x.plainChars = Text.intChars i ↔ x ≠ zero true ∧ x.printed = i := by
  cases hx : x.isZero with
  | true =>
    obtain ⟨negative, hzero⟩ : ∃ negative, x = zero negative := ⟨_, isZero_iff.1 hx⟩
    have hprinted : x.printed = 0 := if_pos hx
    have hdigits : Text.digits 0 = ['0'] := Text.digits_of_lt (by decide)
    rw [hprinted, hzero]
    cases negative with
    | true =>
      refine ⟨fun h => ?_, fun h => absurd rfl h.1⟩
      obtain ⟨hi, h0⟩ := Text.minus_eq_intChars_iff.1 (show '-' :: ['0'] = Text.intChars i from h)
      have := Text.digits_injective (hdigits.trans h0)
      omega
    | false =>
      have hchars : (zero false).plainChars = ['0'] := rfl
      rw [hchars, Text.eq_intChars_iff rfl (by decide), ← hdigits]
      refine ⟨fun ⟨_, h0⟩ => ⟨by decide, ?_⟩, fun ⟨_, h0⟩ => ?_⟩
      · have := Text.digits_injective h0
        obtain rfl : i = 0 := by omega
        rfl
      · obtain rfl : i = 0 := by exact_mod_cast h0.symm
        exact ⟨le_rfl, rfl⟩
  | false =>
    have hne : x ≠ zero true := by
      rintro rfl
      exact absurd hx (by decide)
    obtain ⟨c, hc, hdigit⟩ := head?_positional (x.shortest .up).digits (x.shortest .up).exponent
    have hmod := digits_shortest .up hx
    have hpos : 0 < (x.shortest .up).value := by
      have : 0 < (x.shortest .up).digits := by omega
      unfold Decimal.value
      positivity
    simp only [plainChars, printed, hx, Bool.false_eq_true, if_false]
    rw [signed_eq_intChars_iff hc hdigit hpos (positional_eq_digits_iff hmod _)]
    exact ⟨fun h => ⟨hne, h⟩, fun h => h.2⟩

/-- Without a fraction a decimal below `2^53` is read as its own value. -/
theorem value_of_readsBack {d : Decimal} (h : x.readsBack d = true) (he : 0 ≤ d.exponent)
    (hx : x.magnitude < 2 ^ 53) : d.value = x.magnitude := by
  obtain ⟨n, e⟩ := d
  obtain ⟨k, rfl⟩ := Int.eq_ofNat_of_zero_le he
  simp only [readsBack, beq_iff_eq] at h
  have hvalue : Decimal.value ⟨n, k⟩ = (n * 10 ^ k : ℕ) := by
    rw [Decimal.value, zpow_natCast]
    push_cast
    rfl
  rw [hvalue]
  by_cases hn : n = 0
  · rw [hn, ofDecimal?_zero] at h
    rw [hn, Nat.zero_mul, ← Option.some.inj h]
    simp [magnitude, zero]
  have hround : round? x.negative (n * 10 ^ k) 1 = some x := by
    unfold ofDecimal? at h
    simp only at h
    split_ifs at h with h0
    · omega
    · simpa using h
  have hne : n * 10 ^ k ≠ 0 := Nat.mul_ne_zero hn (pow_ne_zero k (by decide))
  by_cases hlt : n * 10 ^ k < 2 ^ 53
  · exact (round?_whole_exact hlt hround).symm
  · -- no number from `2^53` on is rounded below it
    have hlog : 53 ≤ (n * 10 ^ k).log2 := (Nat.le_log2 hne).2 (not_lt.1 hlt)
    have hpow : (2 : ℚ) ^ 53 ≤ 2 ^ (n * 10 ^ k).log2 := pow_le_pow_right₀ one_le_two hlog
    exact absurd hx (not_lt.2 (hpow.trans (round?_whole_binade hne hround).1))

theorem exactDecimal_value (x : Binary64) : x.exactDecimal.value = x.magnitude := by
  unfold exactDecimal Decimal.value magnitude
  split
  · rename_i hq
    obtain ⟨k, hk⟩ := Int.eq_ofNat_of_zero_le hq
    simp [scaled_eq, hk]
  · rename_i hq
    obtain ⟨k, hk⟩ : ∃ k : Nat, x.q = -(k : Int) := ⟨(-x.q).toNat, by omega⟩
    have hten : (10 : ℚ) ^ k = 2 ^ k * 5 ^ k := by rw [← mul_pow]; norm_num
    simp only [hk, neg_neg, Int.toNat_natCast, Nat.pow_eq, zpow_neg, zpow_natCast, hten]
    push_cast
    field_simp

theorem exponent_of_onGrid? {tie : Tie} {e : Int} {d : Decimal} (h : x.onGrid? tie e = some d) :
    d.exponent = e := by
  unfold onGrid? at h
  simp only at h
  split at h
  · exact Option.some.inj h ▸ rfl
  · exact Option.some.inj h ▸ rfl
  · exact absurd h (by simp)
  · split at h
    · exact Option.some.inj h ▸ rfl
    · exact Option.some.inj h ▸ rfl
    · split at h <;> exact Option.some.inj h ▸ rfl

/-- A whole number is on the grid of whole numbers. -/
theorem onGrid?_zero (tie : Tie) {n : Nat} (hn : n ≠ 0) (hx : x.magnitude = n) (hlt : n < 2 ^ 53) :
    (x.onGrid? tie 0).isSome := by
  have hzero : x.isZero = false := by
    rw [Bool.eq_false_iff, ne_eq, ← magnitude_eq_zero, hx]
    exact_mod_cast hn
  have hquot : scaled x.m x.q / scaled 1 (-x.q) = n := by
    have hpos := scaled_pos Nat.one_pos (-x.q)
    rw [magnitude_eq_ratio, div_eq_iff (by positivity)] at hx
    rw [show scaled x.m x.q = n * scaled 1 (-x.q) by exact_mod_cast hx, Nat.mul_div_cancel _ hpos]
  have hbelow : x.readsBack ⟨n, 0⟩ = true := by
    have hlen := Text.length_digits_le (hlt.trans (by decide : 2 ^ 53 < 10 ^ 16)) (by decide)
    simp only [readsBack, beq_iff_eq]
    rw [ofDecimal?_eq_round? _ hn (by omega) (by omega)]
    exact round?_of_magnitude hzero Nat.one_pos (by simp [hx])
  simp only [onGrid?, neg_zero, Int.toNat_zero, Nat.pow_eq, pow_zero, Nat.mul_one, hquot, hbelow]
  cases x.readsBack ⟨n + 1, 0⟩ with
  | false => rfl
  | true =>
    simp only
    split
    · rfl
    · rfl
    · split <;> rfl

/-- The first index that a search finds. -/
theorem findSome?_range {α : Type} {f : Nat → Option α} {n : Nat} {a : α}
    (h : (List.range n).findSome? f = some a) : ∃ k, f k = some a ∧ ∀ j < k, f j = none := by
  induction n with
  | zero => simp at h
  | succ n ih =>
    rw [List.range_succ, List.findSome?_append] at h
    cases hn : (List.range n).findSome? f with
    | some b =>
      rw [hn] at h ih
      exact ih h
    | none =>
      rw [hn] at h
      refine ⟨n, by simpa using h, fun j hj => ?_⟩
      exact List.findSome?_eq_none_iff.1 hn j (List.mem_range.2 hj)

theorem scale_pos (hx : 1 ≤ x.magnitude) : 0 < x.scale := by
  have hm : x.m ≠ 0 := by
    rintro h0
    rw [magnitude, h0, Nat.cast_zero, zero_mul] at hx
    linarith
  have hlow : 0 ≤ ((x.m.log2 : Int) + x.q) * 30103 / 100000 := by
    have hlog := log_of_canonical (q := x.q) hm
    rw [← magnitude_eq_ratio] at hlog
    have := (two_zpow_le_iff (k := 0) (by linarith)).1 (by simpa using hx)
    omega
  have hone : ¬ scaled x.m x.q < scaled 1 (-x.q) := by
    have hpos := scaled_pos Nat.one_pos (-x.q)
    rw [magnitude_eq_ratio, le_div_iff₀ (by positivity), one_mul] at hx
    exact not_lt.2 (by exact_mod_cast hx)
  unfold scale
  generalize ((x.m.log2 : Int) + x.q) * 30103 / 100000 = low at hlow
  simp only
  split_ifs with h1 h2
  · -- a whole number is not below `10^0`
    by_contra hle
    obtain rfl : low = 0 := by omega
    exact hone (by simpa using h1)
  · omega
  · omega

/-- **Whole numbers.** Below `2^53` a whole number is spelled by its text. -/
theorem shortest_whole (tie : Tie) {n : Nat} (hn : n ≠ 0) (hx : x.magnitude = n) (hlt : n < 2 ^ 53) :
    (x.shortest tie).value = n := by
  have hbound : x.magnitude < 2 ^ 53 := by
    rw [hx]
    exact_mod_cast hlt
  have hscale : 0 < x.scale := scale_pos (by rw [hx]; exact_mod_cast Nat.pos_of_ne_zero hn)
  rw [shortest, Decimal.value_strip, ← hx]
  cases hs : (List.range 17).findSome? fun (n : Nat) => x.onGrid? tie (x.scale - (n + 1)) with
  | none => exact x.exactDecimal_value
  | some d =>
    obtain ⟨k, hd, hfirst⟩ := findSome?_range hs
    -- the search ends before it comes to a point
    have hexponent : 0 ≤ x.scale - (k + 1) := by
      by_contra hneg
      have hnone := hfirst (x.scale - 1).toNat (by omega)
      rw [show x.scale - ((x.scale - 1).toNat + 1) = 0 by omega] at hnone
      have := x.onGrid?_zero tie hn hx hlt
      rw [hnone] at this
      exact absurd this (by decide)
    rw [← exponent_of_onGrid? hd] at hexponent
    exact value_of_readsBack (readsBack_of_onGrid? hd) hexponent hbound

theorem printed_eq_value (hint : x.isIntegral = true) (hx : |x.value| < 2 ^ 53) :
    x.printed = x.value := by
  obtain ⟨n, hn⟩ := isIntegral_iff_magnitude.1 hint
  rw [abs_value] at hx
  unfold printed value
  split
  · rename_i hzero
    rw [magnitude_eq_zero.2 hzero, neg_zero, ite_self]
  · rename_i hzero
    have hne : n ≠ 0 := by
      rintro rfl
      exact hzero (magnitude_eq_zero.1 (by simpa using hn))
    rw [shortest_whole .up hne hn (by rw [hn] at hx; exact_mod_cast hx), hn]

/-- The double `2^63`. -/
def twoPow63 : Binary64 := ⟨false, 2 ^ 52, 11, by decide⟩

/-- **Beyond 64 bits.** The double nearest to an integer from `2^63` on has the text of no signed 64-bit
integer. -/
theorem plainChars_ne_intChars {i j : Int} (hi : -2 ^ 63 ≤ i ∧ i < 2 ^ 63) (hj : 2 ^ 63 ≤ j)
    (h : ofInt? j = some x) : x.plainChars ≠ Text.intChars i := by
  intro htext
  have hread := x.ofChars?_plainText
  rw [plainText, htext] at hread
  rw [show String.ofList (Text.intChars i) = Text.intText i from rfl, ofChars?_intText hi] at hread
  have hjne : j.natAbs ≠ 0 := by omega
  have hlower : (2 : ℚ) ^ 63 ≤ x.magnitude := by
    have hlog : 63 ≤ j.natAbs.log2 := (Nat.le_log2 hjne).2 (by omega)
    exact (pow_le_pow_right₀ one_le_two hlog).trans (round?_whole_binade hjne h).1
  obtain ⟨hsign, _⟩ := round?_eq_some (Nat.pos_of_ne_zero hjne) Nat.one_pos h
  rw [decide_eq_false (by omega)] at hsign
  have hi0 : i.natAbs ≠ 0 := by
    intro h0
    rw [ofInt?, h0] at hread
    rw [round?_whole_exact (by decide) hread, Nat.cast_zero] at hlower
    exact absurd hlower (by norm_num)
  obtain ⟨hisign, _⟩ := round?_eq_some (Nat.pos_of_ne_zero hi0) Nat.one_pos hread
  have hpos : ¬ i < 0 := of_decide_eq_false (hisign.symm.trans hsign)
  have hupper : x.magnitude ≤ 2 ^ 63 := by
    have hlog : i.natAbs.log2 + 1 ≤ 63 := (Nat.log2_lt hi0).2 (by omega)
    exact (round?_whole_binade hi0 hread).2.trans (pow_le_pow_right₀ one_le_two hlog)
  -- between the two lies one double, whose text is that of a larger integer
  obtain rfl : x = twoPow63 := by
    refine magnitude_injective hsign (le_antisymm ?_ ?_)
    · exact hupper.trans (by norm_num [magnitude, twoPow63])
    · exact le_trans (by norm_num [magnitude, twoPow63]) hlower
  have hinteger := Text.int?_intChars i
  rw [← htext] at hinteger
  have hlarge : Text.int? twoPow63.plainChars = some 9223372036854776000 := by decide +kernel
  have := Option.some.inj (hinteger.symm.trans hlarge)
  omega

/-- The text of a double misleads about an integer: the negative zero about zero, and a whole number whose
text spells another one about either of the two. -/
def Misleads (x : Binary64) (i : Int) : Prop :=
  (x = zero true ∧ i = 0) ∨
    (x.isIntegral = true ∧ x.printed ≠ x.value ∧ (x.value = i ∨ x.printed = i))

/-- **Texts as numbers.** Having the text of an integer is being that integer unless the text
misleads. -/
theorem plainText_iff_value_iff {i : Int} :
    ((x.isIntegral = true ∧ x.plainText = Text.intText i) ↔ x.value = i) ↔ ¬ x.Misleads i := by
  have htext : x.plainText = Text.intText i ↔ x ≠ zero true ∧ x.printed = i := by
    rw [← plainChars_eq_intChars_iff]
    exact String.ofList_inj
  have hint (h : x.value = i) : x.isIntegral = true := isIntegral_iff.2 ⟨i, h⟩
  rw [htext, Misleads]
  by_cases hx : x = zero true
  · -- its text is `-0`, so it misleads about zero alone
    subst hx
    have hvalue : (zero true).value = i ↔ i = 0 := by
      rw [show (zero true).value = 0 by simp [value, magnitude, zero], eq_comm]
      exact Int.cast_eq_zero
    have hprinted : (zero true).printed = (zero true).value := by
      simp [printed, value, magnitude, zero, isZero]
    simp [hvalue, hprinted]
  · simp only [hx, ne_eq, not_false_eq_true, true_and, false_and, false_or]
    by_cases hvalue : x.value = i
    · simp [hint hvalue, hvalue]
    · simp only [hvalue, false_or, iff_false]
      refine not_congr (and_congr_right fun _ => ⟨fun h => ⟨?_, h⟩, fun h => h.2⟩)
      rw [h]
      exact fun h' => hvalue h'.symm

/-- Below `2^53` only the negative zero misleads. -/
theorem not_misleads {i : Int} (hzero : x ≠ zero true) (hx : |x.value| < 2 ^ 53) : ¬ x.Misleads i := by
  rintro (⟨h, _⟩ | ⟨hint, hne, _⟩)
  · exact hzero h
  · exact hne (printed_eq_value hint hx)

end Binary64

end LedgerFront
