import LedgerFront.Number.Reading
import LedgerFront.Number.Shortest
import LedgerFront.Proofs.Number.Rounding
import LedgerFront.Proofs.Text.Digits

/-!
# Reading doubles back

The shortest text of a double is read as that double, the sign of zero included.

* `ofDecimal?_mul_pow`: zeros at the end of the digits count as powers of ten.
* `readsBack_shortest`: the shortest decimal denotes the double.
* `ofChars?_plainChars`: the positional text is read back.
* `ofChars?_intChars`: the text of an integer is read as the nearest double.
-/

namespace LedgerFront.Binary64

theorem ofDecimal?_zero (negative : Bool) (e : Int) : ofDecimal? negative 0 e = some (zero negative) := by
  simp [ofDecimal?]

/-- Within the bounds on the magnitude a decimal is rounded as a quotient. -/
theorem ofDecimal?_eq_round? (negative : Bool) {n : Nat} {e : Int} (hn : n ≠ 0)
    (hlow : -330 ≤ e + (Text.digits n).length) (hhigh : e + (Text.digits n).length ≤ 310) :
    ofDecimal? negative n e = round? negative (n * 10 ^ e.toNat) (10 ^ (-e).toNat) := by
  unfold ofDecimal?
  rw [if_neg (by omega), if_neg (by omega), Nat.pow_eq, Nat.pow_eq]

/-- **Scaling.** A factor of ten in the digits is one in the exponent. -/
theorem ofDecimal?_mul_pow (negative : Bool) (n k : Nat) (e : Int) :
    ofDecimal? negative (n * 10 ^ k) e = ofDecimal? negative n (e + k) := by
  by_cases hn : n = 0
  · rw [hn, Nat.zero_mul, ofDecimal?_zero, ofDecimal?_zero]
  have hne : n * 10 ^ k ≠ 0 := Nat.mul_ne_zero hn (pow_ne_zero k (by decide))
  have hround : round? negative (n * 10 ^ k * 10 ^ e.toNat) (10 ^ (-e).toNat) =
      round? negative (n * 10 ^ (e + k).toNat) (10 ^ (-(e + k)).toNat) := by
    refine round?_congr negative (by positivity) (by positivity) ?_
    have hexp : k + e.toNat + (-(e + k)).toNat = (e + k).toNat + (-e).toNat := by omega
    calc n * 10 ^ k * 10 ^ e.toNat * 10 ^ (-(e + k)).toNat
        = n * 10 ^ (k + e.toNat + (-(e + k)).toNat) := by rw [pow_add, pow_add]; ring
      _ = n * 10 ^ (e + k).toNat * 10 ^ (-e).toNat := by rw [hexp, pow_add]; ring
  have hlen : e + ((Text.digits (n * 10 ^ k)).length : Int) = e + k + (Text.digits n).length := by
    rw [Text.length_digits_mul_pow hn k]
    push_cast
    ring
  unfold ofDecimal?
  simp only [hn, hne, false_or, hlen, Nat.pow_eq, hround]

theorem ofDecimal?_strip (negative : Bool) (d : Decimal) :
    ofDecimal? negative d.strip.digits d.strip.exponent = ofDecimal? negative d.digits d.exponent := by
  fun_induction Decimal.strip d with
  | case1 d h ih =>
    rw [ih]
    have hten : d.digits = d.digits / 10 * 10 ^ 1 := by omega
    conv_rhs => rw [hten, ofDecimal?_mul_pow]
    rfl
  | case2 d h => rfl

theorem readsBack_of_onGrid? {tie : Tie} {x : Binary64} {e : Int} {d : Decimal}
    (h : x.onGrid? tie e = some d) : x.readsBack d = true := by
  unfold onGrid? at h
  simp only at h
  split at h
  · rename_i hb _
    exact Option.some.inj h ▸ hb
  · rename_i _ ha
    exact Option.some.inj h ▸ ha
  · exact absurd h (by simp)
  · rename_i hb ha
    split at h
    · exact Option.some.inj h ▸ hb
    · exact Option.some.inj h ▸ ha
    · split at h
      · exact Option.some.inj h ▸ hb
      · exact Option.some.inj h ▸ ha

/-- The exact digits of a double lie within the bounds on the magnitude. -/
theorem exactDecimal_magnitude (x : Binary64) (h : x.m ≠ 0) :
    -330 ≤ x.exactDecimal.exponent + (Text.digits x.exactDecimal.digits).length ∧
      x.exactDecimal.exponent + (Text.digits x.exactDecimal.digits).length ≤ 310 := by
  obtain ⟨hm, hlow, hhigh, _⟩ := x.canonical
  unfold exactDecimal
  by_cases hq : 0 ≤ x.q
  · -- a whole number below `2^53 * 2^971`
    rw [if_pos hq]
    have hlt : scaled x.m x.q < 10 ^ 309 := by
      calc scaled x.m x.q = x.m * 2 ^ x.q.toNat := scaled_eq x.m x.q
        _ < 2 ^ 53 * 2 ^ 971 :=
            Nat.mul_lt_mul_of_lt_of_le hm (Nat.pow_le_pow_right (by decide) (by omega)) (by positivity)
        _ < 10 ^ 309 := by decide +kernel
    have := Text.length_digits_le hlt (by decide)
    simp only
    omega
  · rw [if_neg hq]
    obtain ⟨k, hk⟩ : ∃ k : Nat, x.q = -(k : Int) := ⟨(-x.q).toNat, by omega⟩
    have hk1074 : k ≤ 1074 := by omega
    simp only [hk, neg_neg, Int.toNat_natCast, Nat.pow_eq]
    obtain ⟨hupper, hlower⟩ := Text.length_digits (x.m * 5 ^ k)
    have hlen : (Text.digits (x.m * 5 ^ k)).length ≤ 16 + k := by
      refine Text.length_digits_le ?_ (by omega)
      calc x.m * 5 ^ k < 10 ^ 16 * 10 ^ k :=
            Nat.mul_lt_mul_of_lt_of_le (by omega) (Nat.pow_le_pow_left (by decide) k) (by positivity)
        _ = 10 ^ (16 + k) := (pow_add 10 16 k).symm
    refine ⟨?_, by omega⟩
    by_contra hshort
    -- fewer digits than that would put the value below `2^-1074`
    obtain ⟨l, hl⟩ : ∃ l, k = (Text.digits (x.m * 5 ^ k)).length + 331 + l :=
      ⟨k - (Text.digits (x.m * 5 ^ k)).length - 331, by omega⟩
    have hfive : 5 ^ k < 10 ^ (Text.digits (x.m * 5 ^ k)).length :=
      lt_of_le_of_lt (Nat.le_mul_of_pos_left _ (Nat.pos_of_ne_zero h)) hupper
    have hbig : 10 ^ 331 * 5 ^ k < 2 ^ 1074 * 5 ^ k := by
      calc 10 ^ 331 * 5 ^ k < 10 ^ 331 * 10 ^ (Text.digits (x.m * 5 ^ k)).length := by gcongr
        _ = 10 ^ ((Text.digits (x.m * 5 ^ k)).length + 331) := by rw [← pow_add, Nat.add_comm]
        _ ≤ 10 ^ k := Nat.pow_le_pow_right (by decide) (by omega)
        _ = 2 ^ k * 5 ^ k := by rw [← Nat.mul_pow]
        _ ≤ 2 ^ 1074 * 5 ^ k := by gcongr; decide
    have : (10 : Nat) ^ 331 < 2 ^ 1074 := Nat.lt_of_mul_lt_mul_right hbig
    exact absurd this (by decide +kernel)

theorem readsBack_exactDecimal (x : Binary64) (h : x.m ≠ 0) : x.readsBack x.exactDecimal = true := by
  obtain ⟨hlow, hhigh⟩ := x.exactDecimal_magnitude h
  have hpos : 0 < x.m := Nat.pos_of_ne_zero h
  have hdigits : x.exactDecimal.digits ≠ 0 := by
    unfold exactDecimal
    split
    · exact (scaled_pos hpos _).ne'
    · exact (Nat.mul_pos hpos (Nat.pow_pos (by decide))).ne'
  rw [readsBack, ofDecimal?_eq_round? _ hdigits hlow hhigh, beq_iff_eq, ← x.round?_self h]
  refine round?_congr _ (by positivity) (scaled_pos (by decide) _) ?_
  unfold exactDecimal
  simp only [scaled_eq, Nat.pow_eq]
  split
  · rename_i hq
    obtain ⟨k, hk⟩ := Int.eq_ofNat_of_zero_le hq
    simp [hk]
  · rename_i hq
    obtain ⟨k, hk⟩ : ∃ k : Nat, x.q = -(k : Int) := ⟨(-x.q).toNat, by omega⟩
    have hten : (10 : Nat) ^ k = 2 ^ k * 5 ^ k := by rw [← Nat.mul_pow]
    simp only [hk, neg_neg, Int.toNat_natCast, Int.toNat_neg_natCast, pow_zero, mul_one, one_mul, hten]
    ring

/-- **The shortest decimal.** It denotes the double. -/
theorem readsBack_shortest (tie : Tie) (x : Binary64) (h : x.m ≠ 0) :
    x.readsBack (x.shortest tie) = true := by
  unfold shortest
  rw [readsBack, ofDecimal?_strip]
  cases hs : (List.range 17).findSome? fun (n : Nat) => x.onGrid? tie (x.scale - (n + 1)) with
  | none => exact x.readsBack_exactDecimal h
  | some d =>
    obtain ⟨n, _, hd⟩ := List.exists_of_findSome?_eq_some hs
    exact readsBack_of_onGrid? hd

theorem decimal?_whole {s : List Char} (hne : s ≠ []) (hs : s.all Text.isDigit = true) :
    decimal? s = some (Text.digitsValue s, 0) := by
  have hspan : Text.spanDigits s = (s, []) := by
    simpa using Text.spanDigits_append (t := []) hs (by simp)
  simp [decimal?, hspan, hne, exponent?]

theorem decimal?_point {s t : List Char} (hne : s ≠ []) (hs : s.all Text.isDigit = true)
    (ht : t.all Text.isDigit = true) :
    decimal? (s ++ '.' :: t) = some (Text.digitsValue (s ++ t), -(t.length : Int)) := by
  have hspan : Text.spanDigits (s ++ '.' :: t) = (s, '.' :: t) :=
    Text.spanDigits_append hs fun c hc => by
      obtain rfl : '.' = c := by simpa using hc
      rfl
  have hfraction : Text.spanDigits t = (t, []) := by
    simpa using Text.spanDigits_append (t := []) ht (by simp)
  simp [decimal?, hspan, hfraction, hne, exponent?]

theorem all_replicate_zero (k : Nat) : (List.replicate k '0').all Text.isDigit = true := by
  induction k with
  | zero => rfl
  | succ k ih =>
    rw [List.replicate_succ, List.all_cons, ih]
    rfl

/-- The positional form of some digits reads as these digits and this exponent. -/
theorem unsigned?_positional (negative : Bool) (n : Nat) (e : Int) :
    unsigned? negative (positional (Text.digits n) e) = ofDecimal? negative n e := by
  have hall := Text.digits_all n
  have hne := Text.digits_ne_nil n
  have hvalue := Text.digitsValue_digits n
  generalize Text.digits n = ds at hall hne hvalue
  unfold unsigned? positional
  simp only
  split_ifs with h1 h2
  · -- zeros behind the digits
    obtain ⟨k, rfl⟩ := Int.eq_ofNat_of_zero_le h1
    have hzeros := all_replicate_zero k
    rw [Int.toNat_natCast, decimal?_whole (by simp [hne]) (by simp [hall, hzeros]),
      Text.digitsValue_append, Text.digitsValue_zeros, List.length_replicate, hvalue,
      Nat.add_zero, Option.bind_some, ofDecimal?_mul_pow, zero_add]
  · -- the point among the digits
    obtain ⟨k, hk⟩ : ∃ k : Nat, e = -(k : Int) := ⟨(-e).toNat, by omega⟩
    simp only [hk, neg_neg, Int.toNat_natCast] at h2 ⊢
    have hsplit : ds.take (ds.length - k) ++ ds.drop (ds.length - k) = ds := List.take_append_drop ..
    have htake : ds.take (ds.length - k) ≠ [] := by
      rw [ne_eq, List.take_eq_nil_iff]
      rintro (h | h)
      · omega
      · exact hne h
    have hparts := hall
    rw [← hsplit, List.all_append, Bool.and_eq_true] at hparts
    rw [decimal?_point htake hparts.1 hparts.2, hsplit, hvalue, List.length_drop]
    have : ((ds.length - (ds.length - k) : Nat) : Int) = k := by omega
    rw [Option.bind_some, this]
  · -- zeros between the point and the digits
    obtain ⟨k, hk⟩ : ∃ k : Nat, e = -(k : Int) := ⟨(-e).toNat, by omega⟩
    simp only [hk, neg_neg, Int.toNat_natCast] at h2 ⊢
    have hzeros := all_replicate_zero (k - ds.length)
    have hread := decimal?_point (s := ['0']) (t := List.replicate (k - ds.length) '0' ++ ds)
      (by simp) (by decide) (by simp [hall, hzeros])
    have hlen : ((List.replicate (k - ds.length) '0' ++ ds).length : Int) = k := by
      simp
      omega
    have hdigits : Text.digitsValue (['0'] ++ (List.replicate (k - ds.length) '0' ++ ds)) = n := by
      rw [← List.append_assoc, ← List.replicate_one, List.replicate_append_replicate,
        Text.digitsValue_append, Text.digitsValue_zeros, hvalue]
      omega
    rw [hlen, hdigits] at hread
    change ((decimal? (['0'] ++ '.' :: _)).bind _) = _
    rw [hread]
    rfl

theorem head?_positional (n : Nat) (e : Int) :
    ∃ c, (positional (Text.digits n) e).head? = some c ∧ Text.isDigit c = true := by
  have hall := Text.digits_all n
  have hne := Text.digits_ne_nil n
  generalize Text.digits n = ds at hall hne
  cases ds with
  | nil => exact absurd rfl hne
  | cons c ds =>
    have hc : Text.isDigit c = true := by simp at hall; exact hall.1
    unfold positional
    simp only
    split_ifs with h1 h2
    · exact ⟨c, rfl, hc⟩
    · obtain ⟨k, hk⟩ : ∃ k, (c :: ds).length - (-e).toNat = k + 1 :=
        ⟨(c :: ds).length - (-e).toNat - 1, by omega⟩
      exact ⟨c, by rw [hk]; rfl, hc⟩
    · exact ⟨'0', rfl, by decide⟩

/-- A text that starts with a digit is read without a sign. -/
theorem ofChars?_of_head {s : List Char} {c : Char} (h : s.head? = some c)
    (hc : Text.isDigit c = true) : ofChars? s = unsigned? false s := by
  unfold ofChars?
  split
  · obtain rfl : '-' = c := by simpa using h
    simp [Text.isDigit] at hc
  · obtain rfl : '+' = c := by simpa using h
    simp [Text.isDigit] at hc
  · rfl

/-- A sign in front of digits is the sign of the double. -/
theorem ofChars?_signed (x : Binary64) {s : List Char} {c : Char} (h : s.head? = some c)
    (hc : Text.isDigit c = true) : ofChars? (x.signed s) = unsigned? x.negative s := by
  unfold signed
  cases x.negative with
  | true => rfl
  | false => exact ofChars?_of_head h hc

/-- **Reading back.** The positional text of a double is read as that double. -/
theorem ofChars?_plainChars (x : Binary64) : ofChars? x.plainChars = some x := by
  unfold plainChars
  split
  · rename_i h
    have hm : x.m = 0 := by simpa [isZero] using h
    have hzero : zero x.negative = x := by
      obtain ⟨negative, m, q, hcanonical⟩ := x
      simp only at hm
      subst hm
      obtain rfl : q = -1074 := by omega
      rfl
    rw [x.ofChars?_signed rfl (by decide)]
    change ofDecimal? x.negative 0 0 = _
    rw [ofDecimal?_zero, hzero]
  · rename_i h
    have hm : x.m ≠ 0 := by simpa [isZero] using h
    obtain ⟨c, hc, hdigit⟩ := head?_positional (x.shortest .up).digits (x.shortest .up).exponent
    rw [x.ofChars?_signed hc hdigit, unsigned?_positional]
    simpa [readsBack] using readsBack_shortest .up x hm

theorem ofChars?_plainText (x : Binary64) : ofChars? x.plainText.toList = some x := by
  rw [plainText, String.toList_ofList, ofChars?_plainChars]

theorem plainText_injective {x y : Binary64} (h : x.plainText = y.plainText) : x = y := by
  have hread := x.ofChars?_plainText
  rw [h, y.ofChars?_plainText] at hread
  exact (Option.some.inj hread).symm

/-- **Integers.** The text of an integer is read as the double nearest to it. -/
theorem ofChars?_intChars {i : Int} (h : i.natAbs < 10 ^ 300) :
    ofChars? (Text.intChars i) = ofInt? i := by
  have hread (negative : Bool) : unsigned? negative (Text.digits i.natAbs) =
      ofDecimal? negative i.natAbs 0 := by
    simp [unsigned?, decimal?_whole (Text.digits_ne_nil _) (Text.digits_all _), Text.digitsValue_digits]
  have hhead : ∃ c, (Text.digits i.natAbs).head? = some c ∧ Text.isDigit c = true := by
    have := head?_positional i.natAbs 0
    simpa [positional] using this
  obtain ⟨c, hc, hdigit⟩ := hhead
  have hround (negative : Bool) (hz : i ≠ 0) : ofDecimal? negative i.natAbs 0 =
      round? negative i.natAbs 1 := by
    have hlen := Text.length_digits_le h (by decide)
    rw [ofDecimal?_eq_round? negative (by omega) (by omega) (by omega)]
    simp
  unfold Text.intChars ofInt?
  by_cases hi : i < 0
  · rw [if_pos hi, decide_eq_true hi]
    exact (hread true).trans (hround true (by omega))
  · rw [if_neg hi, decide_eq_false hi, ofChars?_of_head hc hdigit, hread]
    by_cases hz : i = 0
    · rw [hz]
      rfl
    · exact hround false hz

theorem ofChars?_intText {i : Int} (h : -2 ^ 63 ≤ i ∧ i < 2 ^ 63) :
    ofChars? (Text.intText i).toList = ofInt? i := by
  rw [Text.intText, String.toList_ofList]
  refine ofChars?_intChars ?_
  have hlt : i.natAbs < 2 ^ 64 := by omega
  exact hlt.trans (by decide +kernel)

theorem ofInt?_isSome {i : Int} (h : -2 ^ 63 ≤ i ∧ i < 2 ^ 63) : (ofInt? i).isSome := by
  refine round?_isSome _ Nat.one_pos ?_
  have hlt : i.natAbs < 2 ^ 64 := by omega
  calc (i.natAbs : ℚ) / (1 : Nat) < 2 ^ 64 := by
        rw [Nat.cast_one, div_one]
        exact_mod_cast hlt
    _ ≤ (2 : ℚ) ^ (1023 : Int) := by
        rw [← zpow_natCast]
        exact zpow_le_zpow_right₀ one_le_two (by norm_num)

/-- Two integers that are the same number once they are rounded to doubles. -/
def SameInt (i j : Int) : Prop :=
  ∃ x y, ofInt? i = some x ∧ ofInt? j = some y ∧ x.sameNumber y = true

theorem plainText_of_isZero {x : Binary64} (h : x.isZero = true) :
    x.plainText = if x.negative then "-0" else "0" := by
  unfold plainText plainChars signed
  rw [if_pos h]
  cases x.negative <;> rfl

end LedgerFront.Binary64
