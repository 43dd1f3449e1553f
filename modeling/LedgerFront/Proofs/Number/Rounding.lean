import LedgerFront.Number.Binary64
import Mathlib.Algebra.Order.Field.Power
import Mathlib.Data.Int.Log
import Mathlib.Data.Rat.Floor
import Mathlib.Tactic.FieldSimp
import Mathlib.Tactic.GCongr
import Mathlib.Tactic.Positivity
import Mathlib.Tactic.Ring

/-!
# Rounding to doubles

The double nearest to `num / den` depends on the quotient alone, and a quotient
that is a double rounds to itself.

* `lastPlace_eq`: the last place, from the binary logarithm of the quotient.
* `round?_congr`: equal quotients round to the same double.
* `round?_self`: the exact value of a double rounds to it.
* `round?_isSome`: quotients below the largest double round to a double.
-/

namespace LedgerFront.Binary64

theorem scaled_eq (n : Nat) (q : Int) : scaled n q = n * 2 ^ q.toNat := Nat.shiftLeft_eq n q.toNat

/-- A quotient moved by a power of two, one side or the other. -/
theorem scaled_ratio (num den : Nat) (q : Int) :
    (scaled num (-q) : ℚ) / scaled den q = num / den * 2 ^ (-q) := by
  rw [scaled_eq, scaled_eq]
  push_cast
  obtain ⟨k, rfl | rfl⟩ := Int.eq_nat_or_neg q
  · have h1 : (-(k : Int)).toNat = 0 := by omega
    have h2 : (k : Int).toNat = k := by omega
    rw [h1, h2, zpow_neg, zpow_natCast]
    field_simp
  · have h1 : (- -(k : Int)).toNat = k := by omega
    have h2 : (-(k : Int)).toNat = 0 := by omega
    rw [h1, h2, neg_neg, zpow_natCast]
    ring

theorem scaled_pos {n : Nat} (h : 0 < n) (q : Int) : 0 < scaled n q := by
  rw [scaled_eq]
  positivity

/-- A quotient is below a power of two if its two sides say so after being moved. -/
theorem scaled_lt_iff {num den : Nat} (hd : 0 < den) (q : Int) (k : Nat) :
    scaled num (-q) < 2 ^ k * scaled den q ↔ (num : ℚ) / den < 2 ^ (q + k) := by
  have hpos : (0 : ℚ) < scaled den q := by exact_mod_cast scaled_pos hd q
  have hcast : scaled num (-q) < 2 ^ k * scaled den q ↔
      (scaled num (-q) : ℚ) < 2 ^ k * scaled den q := by exact_mod_cast Iff.rfl
  rw [hcast, ← div_lt_iff₀ hpos, scaled_ratio, zpow_neg, ← div_eq_mul_inv,
    div_lt_iff₀ (by positivity), ← zpow_natCast, ← zpow_add₀ two_ne_zero, add_comm]

theorem le_scaled_iff {num den : Nat} (hd : 0 < den) (q : Int) (k : Nat) :
    2 ^ k * scaled den q ≤ scaled num (-q) ↔ (2 : ℚ) ^ (q + k) ≤ num / den := by
  rw [← not_lt, scaled_lt_iff hd, not_lt]

theorem two_zpow_le_iff {r : ℚ} (hr : 0 < r) {k : Int} : (2 : ℚ) ^ k ≤ r ↔ k ≤ Int.log 2 r := by
  have h := Int.zpow_le_iff_le_log (R := ℚ) (b := 2) (by decide) hr (x := k)
  exact_mod_cast h

theorem lt_two_zpow_iff {r : ℚ} (hr : 0 < r) {k : Int} : r < (2 : ℚ) ^ k ↔ Int.log 2 r < k := by
  rw [← not_le, two_zpow_le_iff hr, not_le]

theorem log_of_bracket {r : ℚ} {k : Int} (h1 : (2 : ℚ) ^ k ≤ r) (h2 : r < 2 ^ (k + 1)) :
    Int.log 2 r = k := by
  have hr : 0 < r := lt_of_lt_of_le (by positivity) h1
  have hle := (two_zpow_le_iff hr).1 h1
  have hlt := (lt_two_zpow_iff hr).1 h2
  omega

theorem log2_bracket {n : Nat} (h : 0 < n) : (2 : ℚ) ^ n.log2 ≤ n ∧ (n : ℚ) < 2 ^ (n.log2 + 1) :=
  ⟨by exact_mod_cast Nat.log2_self_le (by omega), by exact_mod_cast Nat.lt_log2_self⟩

/-- **The last place.** It leaves 53 binary digits of the quotient, and is never below the last
place of the smallest double. -/
theorem lastPlace_eq {num den : Nat} (hn : 0 < num) (hd : 0 < den) :
    lastPlace num den = max (Int.log 2 ((num : ℚ) / den) - 52) (-1074) := by
  have hdq : (0 : ℚ) < den := by exact_mod_cast hd
  obtain ⟨n1, n2⟩ := log2_bracket hn
  obtain ⟨d1, d2⟩ := log2_bracket hd
  have htest (q : Int) :
      scaled num (-q) < 0x20000000000000 * scaled den q ↔ (num : ℚ) / den < 2 ^ (q + 53) :=
    scaled_lt_iff hd q 53
  -- the lengths of the two sides leave two binades for the quotient
  have low : (2 : ℚ) ^ ((num.log2 : Int) - den.log2 - 1) ≤ num / den := by
    rw [le_div_iff₀ hdq]
    calc (2 : ℚ) ^ ((num.log2 : Int) - den.log2 - 1) * den
        ≤ 2 ^ ((num.log2 : Int) - den.log2 - 1) * 2 ^ (den.log2 + 1) := by gcongr
      _ = 2 ^ num.log2 := by
        rw [← zpow_natCast, ← zpow_natCast, ← zpow_add₀ two_ne_zero]
        congr 1
        push_cast
        ring
      _ ≤ num := n1
  have high : (num : ℚ) / den < 2 ^ ((num.log2 : Int) - den.log2 + 1) := by
    rw [div_lt_iff₀ hdq]
    calc (num : ℚ) < 2 ^ (num.log2 + 1) := n2
      _ = 2 ^ ((num.log2 : Int) - den.log2 + 1) * 2 ^ den.log2 := by
        rw [← zpow_natCast, ← zpow_natCast, ← zpow_add₀ two_ne_zero]
        congr 1
        push_cast
        ring
      _ ≤ 2 ^ ((num.log2 : Int) - den.log2 + 1) * den := by gcongr
  unfold lastPlace
  simp only [htest, sub_add_cancel]
  congr 1
  split_ifs with h
  · rw [log_of_bracket low (by rwa [sub_add_cancel])]
    ring
  · rw [log_of_bracket (not_lt.1 h) high]
    ring

theorem roundDiv_mul {a b k : Nat} (hk : 0 < k) : roundDiv (a * k) (b * k) = roundDiv a b := by
  unfold roundDiv
  rw [Nat.mul_div_mul_right _ _ hk, Nat.mul_mod_mul_right, ← Nat.mul_assoc]
  have hcompare : compare (2 * (a % b) * k) (b * k) = compare (2 * (a % b)) b := by
    rcases lt_trichotomy (2 * (a % b)) b with h | h | h
    · rw [Nat.compare_eq_lt.2 h, Nat.compare_eq_lt.2 (Nat.mul_lt_mul_of_pos_right h hk)]
    · rw [Nat.compare_eq_eq.2 h, Nat.compare_eq_eq.2 (by rw [h])]
    · rw [Nat.compare_eq_gt.2 h, Nat.compare_eq_gt.2 (Nat.mul_lt_mul_of_pos_right h hk)]
  rw [hcompare]

theorem roundDiv_congr {a b c d : Nat} (hb : 0 < b) (hd : 0 < d) (h : a * d = c * b) :
    roundDiv a b = roundDiv c d := by
  rw [← roundDiv_mul hd, ← roundDiv_mul (a := c) hb, h, Nat.mul_comm b d]

theorem roundDiv_mul_self {m b : Nat} (hb : 0 < b) : roundDiv (m * b) b = m := by
  unfold roundDiv
  rw [Nat.mul_div_cancel m hb, Nat.mul_mod_left, Nat.mul_zero, Nat.compare_eq_lt.2 hb]

/-- **The quotient alone.** Equal quotients round to the same double. -/
theorem round?_congr (negative : Bool) {a b c d : Nat} (hb : 0 < b) (hd : 0 < d)
    (h : a * d = c * b) : round? negative a b = round? negative c d := by
  by_cases ha : a = 0
  · have hc : c = 0 := by
      rw [ha, Nat.zero_mul] at h
      rcases Nat.mul_eq_zero.1 h.symm with h | h
      · exact h
      · omega
    simp [round?, ha, hc]
  · have hc : c ≠ 0 := by
      rintro rfl
      rw [Nat.zero_mul] at h
      rcases Nat.mul_eq_zero.1 h with h | h <;> omega
    -- the same quotient has the same last place
    have hratio : (a : ℚ) / b = c / d := by
      rw [div_eq_div_iff (by positivity) (by positivity)]
      exact_mod_cast h
    have hplace : lastPlace a b = lastPlace c d := by
      rw [lastPlace_eq (by omega) hb, lastPlace_eq (by omega) hd, hratio]
    have hround : roundDiv (scaled a (-lastPlace c d)) (scaled b (lastPlace c d)) =
        roundDiv (scaled c (-lastPlace c d)) (scaled d (lastPlace c d)) := by
      refine roundDiv_congr (scaled_pos hb _) (scaled_pos hd _) ?_
      simp only [scaled_eq]
      calc a * 2 ^ (-lastPlace c d).toNat * (d * 2 ^ (lastPlace c d).toNat)
          = a * d * (2 ^ (-lastPlace c d).toNat * 2 ^ (lastPlace c d).toNat) := by ring
        _ = c * b * (2 ^ (-lastPlace c d).toNat * 2 ^ (lastPlace c d).toNat) := by rw [h]
        _ = _ := by ring
    simp only [round?, ha, hc, if_false, hplace, hround]

theorem log_of_canonical {m : Nat} {q : Int} (hm : m ≠ 0) :
    Int.log 2 ((scaled m q : ℚ) / scaled 1 (-q)) = m.log2 + q := by
  have h := scaled_ratio m 1 (-q)
  rw [neg_neg] at h
  rw [h, Nat.cast_one, div_one]
  obtain ⟨h1, h2⟩ := log2_bracket (Nat.pos_of_ne_zero hm)
  refine log_of_bracket ?_ ?_
  · rw [zpow_add₀ two_ne_zero, zpow_natCast]
    gcongr
  · calc (m : ℚ) * 2 ^ q < 2 ^ (m.log2 + 1) * 2 ^ q := by gcongr
      _ = 2 ^ ((m.log2 : Int) + q + 1) := by
        rw [← zpow_natCast, ← zpow_add₀ two_ne_zero]
        congr 1
        push_cast
        ring

/-- **Exact values.** The value of a double rounds to it. -/
theorem round?_self (x : Binary64) (h : x.m ≠ 0) :
    round? x.negative (scaled x.m x.q) (scaled 1 (-x.q)) = some x := by
  obtain ⟨negative, m, q, hm, hlow, hhigh, hnormal⟩ := x
  simp only at h
  have hpos : 0 < m := Nat.pos_of_ne_zero h
  -- a canonical mantissa has its last place where the double has it
  have hplace : lastPlace (scaled m q) (scaled 1 (-q)) = q := by
    rw [lastPlace_eq (scaled_pos hpos _) (scaled_pos (by decide) _), log_of_canonical h]
    have hupper : m.log2 < 53 := (Nat.log2_lt h).2 hm
    rcases hnormal with hnormal | rfl
    · have : 52 ≤ m.log2 := (Nat.le_log2 h).2 hnormal
      omega
    · omega
  -- and there it is whole
  have hround : roundDiv (scaled (scaled m q) (-q)) (scaled (scaled 1 (-q)) q) = m := by
    have hprod : scaled (scaled m q) (-q) = m * scaled (scaled 1 (-q)) q := by
      simp only [scaled_eq]
      ring
    rw [hprod]
    exact roundDiv_mul_self (scaled_pos (scaled_pos (by decide) _) _)
  have hne : scaled m q ≠ 0 := (scaled_pos hpos q).ne'
  have hcanonical : m < 2 ^ 53 ∧ -1074 ≤ q ∧ q ≤ 971 ∧ (2 ^ 52 ≤ m ∨ q = -1074) :=
    ⟨hm, hlow, hhigh, hnormal⟩
  simp only [round?, hne, if_false, hplace, hround]
  rw [if_pos hm]
  exact dif_pos hcanonical

theorem le_roundDiv {a b k : Nat} (hb : 0 < b) (h : k * b ≤ a) : k ≤ roundDiv a b := by
  have hk : k ≤ a / b := (Nat.le_div_iff_mul_le hb).2 h
  unfold roundDiv
  simp only
  split
  · exact hk
  · omega
  · split <;> omega

theorem roundDiv_le {a b k : Nat} (h : a < k * b) : roundDiv a b ≤ k := by
  have hk : a / b < k := Nat.div_lt_of_lt_mul (by rwa [Nat.mul_comm])
  unfold roundDiv
  simp only
  split
  · omega
  · omega
  · split <;> omega

/-- At the last place a quotient has at most 53 binary digits before the point. -/
theorem scaled_lt_lastPlace {num den : Nat} (hn : 0 < num) (hd : 0 < den) :
    scaled num (-lastPlace num den) < 2 ^ 53 * scaled den (lastPlace num den) := by
  have hr : 0 < (num : ℚ) / den := by positivity
  have hplace := lastPlace_eq hn hd
  exact (scaled_lt_iff hd _ 53).2 ((lt_two_zpow_iff hr).2 (by push_cast; omega))

/-- It has all 53 of them unless the last place is the least one. -/
theorem le_scaled_lastPlace {num den : Nat} (hn : 0 < num) (hd : 0 < den)
    (hq : lastPlace num den ≠ -1074) :
    2 ^ 52 * scaled den (lastPlace num den) ≤ scaled num (-lastPlace num den) := by
  have hr : 0 < (num : ℚ) / den := by positivity
  have hplace := lastPlace_eq hn hd
  exact (le_scaled_iff hd _ 52).2 ((two_zpow_le_iff hr).2 (by push_cast; omega))

/-- **No overflow.** A quotient below the binade of the largest double rounds to a double. -/
theorem round?_isSome (negative : Bool) {num den : Nat} (hd : 0 < den)
    (h : (num : ℚ) / den < 2 ^ (1023 : Int)) : (round? negative num den).isSome := by
  by_cases hn : num = 0
  · simp [round?, hn]
  rw [round?, if_neg hn]
  have hpos := Nat.pos_of_ne_zero hn
  have hr : 0 < (num : ℚ) / den := by positivity
  have hlog := (lt_two_zpow_iff hr).1 h
  have hplace := lastPlace_eq hpos hd
  -- the mantissa has 53 digits, or is rounded up to the next power of two
  have hmax := roundDiv_le (scaled_lt_lastPlace hpos hd)
  have hmin := fun hq => le_roundDiv (scaled_pos hd _) (le_scaled_lastPlace hpos hd hq)
  generalize lastPlace num den = q at hplace hmax hmin ⊢
  simp only [ofParts?]
  generalize roundDiv (scaled num (-q)) (scaled den q) = m at hmax hmin ⊢
  split_ifs with hm h1 h2
  · rfl
  · have hnormal : 2 ^ 52 ≤ m ∨ q = -1074 := (em (q = -1074)).symm.imp hmin id
    exact absurd ⟨hm, by omega, by omega, hnormal⟩ h1
  · rfl
  · -- the mantissa was rounded up to `2^53`
    obtain rfl : m = 2 ^ 53 := by omega
    exact absurd ⟨by decide, by omega, by omega, .inl (by decide)⟩ h2

end LedgerFront.Binary64
