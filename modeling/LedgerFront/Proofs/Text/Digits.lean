import LedgerFront.Text.Digits
import Mathlib.Tactic.IntervalCases
import Mathlib.Tactic.Ring

/-!
# Digits and the numbers they denote

The decimal digits of a number denote that number, and every run of digits is
read as one.

* `digitsValue_digits`: the digits of a number are read back.
* `length_digits`: how many digits a number has.
* `digitsValue_injective`: runs of one length are known by their numbers.
* `nat?_eq_some`: which texts are read as numbers.
* `int?_intChars`: the text of an integer is read back.
-/

namespace LedgerFront.Text

theorem isDigit_digitChar {n : Nat} (h : n < 10) : isDigit (digitChar n) = true := by
  interval_cases n <;> decide

theorem digitValue_digitChar {n : Nat} (h : n < 10) : digitValue (digitChar n) = n := by
  interval_cases n <;> decide

theorem digits_of_lt {n : Nat} (h : n < 10) : digits n = [digitChar n] := by
  rw [digits, if_pos h]

theorem digits_of_le {n : Nat} (h : 10 ≤ n) : digits n = digits (n / 10) ++ [digitChar (n % 10)] := by
  rw [digits, if_neg (by omega)]

theorem digits_ne_nil (n : Nat) : digits n ≠ [] := by
  by_cases h : n < 10
  · simp [digits_of_lt h]
  · simp [digits_of_le (by omega : 10 ≤ n)]

theorem digits_all (n : Nat) : (digits n).all isDigit = true := by
  induction n using Nat.strong_induction_on with
  | _ n ih =>
    by_cases h : n < 10
    · simp [digits_of_lt h, isDigit_digitChar h]
    · rw [digits_of_le (by omega), List.all_append, ih (n / 10) (by omega)]
      simp [isDigit_digitChar (Nat.mod_lt n (by decide : 0 < 10))]

theorem foldl_digitsValue (s : List Char) (n : Nat) :
    s.foldl (fun n c => 10 * n + digitValue c) n = n * 10 ^ s.length + digitsValue s := by
  induction s generalizing n with
  | nil => simp [digitsValue]
  | cons c s ih =>
    have hvalue : digitsValue (c :: s) = digitValue c * 10 ^ s.length + digitsValue s := by
      unfold digitsValue
      rw [List.foldl_cons, Nat.mul_zero, Nat.zero_add]
      exact ih _
    rw [List.foldl_cons, ih, hvalue, List.length_cons, pow_succ]
    ring

theorem digitsValue_append (s t : List Char) :
    digitsValue (s ++ t) = digitsValue s * 10 ^ t.length + digitsValue t := by
  rw [digitsValue, List.foldl_append]
  exact foldl_digitsValue t _

theorem digitsValue_cons (c : Char) (s : List Char) :
    digitsValue (c :: s) = digitValue c * 10 ^ s.length + digitsValue s := by
  rw [← List.singleton_append, digitsValue_append]
  simp [digitsValue]

theorem digitValue_le {c : Char} (h : isDigit c = true) : digitValue c ≤ 9 := by
  simp only [isDigit, Bool.and_eq_true, decide_eq_true_eq] at h
  unfold digitValue
  omega

theorem digitValue_injective {c d : Char} (hc : isDigit c = true) (hd : isDigit d = true)
    (h : digitValue c = digitValue d) : c = d := by
  simp only [isDigit, Bool.and_eq_true, decide_eq_true_eq] at hc hd
  unfold digitValue at h
  exact Char.toNat_inj.1 (by omega)

theorem digitsValue_lt {s : List Char} (h : s.all isDigit = true) :
    digitsValue s < 10 ^ s.length := by
  induction s with
  | nil => simp [digitsValue]
  | cons c s ih =>
    simp only [List.all_cons, Bool.and_eq_true] at h
    have hc := digitValue_le h.1
    have hs := ih h.2
    calc digitsValue (c :: s) = digitValue c * 10 ^ s.length + digitsValue s := digitsValue_cons c s
      _ < digitValue c * 10 ^ s.length + 10 ^ s.length := by omega
      _ = (digitValue c + 1) * 10 ^ s.length := by ring
      _ ≤ 10 * 10 ^ s.length := Nat.mul_le_mul_right _ (by omega)
      _ = 10 ^ (c :: s).length := by rw [List.length_cons, pow_succ, Nat.mul_comm]

/-- Runs of digits of one length that denote the same number are the same. -/
theorem digitsValue_injective {s t : List Char} (hs : s.all isDigit = true)
    (ht : t.all isDigit = true) (hlen : s.length = t.length)
    (h : digitsValue s = digitsValue t) : s = t := by
  induction s generalizing t with
  | nil => exact (List.length_eq_zero_iff.1 hlen.symm).symm
  | cons c s ih =>
    cases t with
    | nil => simp at hlen
    | cons d t =>
      simp only [List.all_cons, Bool.and_eq_true] at hs ht
      have hrest : s.length = t.length := by simpa using hlen
      have hslt := digitsValue_lt hs.2
      have htlt := digitsValue_lt ht.2
      rw [digitsValue_cons, digitsValue_cons, hrest] at h
      rw [hrest] at hslt
      -- the first digits are the quotients by the power of ten
      have hpos : 0 < 10 ^ t.length := Nat.pow_pos (by decide)
      have hquot := congrArg (· / 10 ^ t.length) h
      simp only [Nat.mul_comm _ (10 ^ t.length), Nat.mul_add_div hpos,
        Nat.div_eq_of_lt hslt, Nat.div_eq_of_lt htlt, Nat.add_zero] at hquot
      obtain rfl := digitValue_injective hs.1 ht.1 hquot
      rw [ih hs.2 ht.2 hrest (by omega)]

theorem digitsValue_zeros (k : Nat) : digitsValue (List.replicate k '0') = 0 := by
  induction k with
  | zero => rfl
  | succ k ih =>
    rw [List.replicate_succ', digitsValue_append, ih]
    rfl

/-- The digits of a number denote it. -/
theorem digitsValue_digits (n : Nat) : digitsValue (digits n) = n := by
  induction n using Nat.strong_induction_on with
  | _ n ih =>
    by_cases h : n < 10
    · simp [digits_of_lt h, digitsValue, digitValue_digitChar h]
    · rw [digits_of_le (by omega), digitsValue_append, ih (n / 10) (by omega)]
      have hmod := digitValue_digitChar (Nat.mod_lt n (by decide : 0 < 10))
      simp only [List.length_singleton, pow_one, digitsValue, List.foldl_cons, List.foldl_nil, hmod]
      omega

theorem digits_injective {m n : Nat} (h : digits m = digits n) : m = n := by
  rw [← digitsValue_digits m, h, digitsValue_digits]

theorem digits_mul_ten {n : Nat} (h : n ≠ 0) : digits (n * 10) = digits n ++ ['0'] := by
  rw [digits_of_le (by omega), Nat.mul_div_cancel n (by decide), Nat.mul_mod_left]
  rfl

/-- A power of ten puts zeros behind the digits. -/
theorem digits_mul_pow {n : Nat} (h : n ≠ 0) (k : Nat) :
    digits (n * 10 ^ k) = digits n ++ List.replicate k '0' := by
  induction k with
  | zero => simp
  | succ k ih =>
    have hne : n * 10 ^ k ≠ 0 := Nat.mul_ne_zero h (pow_ne_zero k (by decide))
    rw [pow_succ, ← Nat.mul_assoc, digits_mul_ten hne, ih, List.append_assoc, List.replicate_succ']

theorem length_digits_mul_pow {n : Nat} (h : n ≠ 0) (k : Nat) :
    (digits (n * 10 ^ k)).length = (digits n).length + k := by
  rw [digits_mul_pow h, List.length_append, List.length_replicate]

/-- The number of digits brackets the number between powers of ten. -/
theorem length_digits (n : Nat) :
    n < 10 ^ (digits n).length ∧ (n ≠ 0 → 10 ^ ((digits n).length - 1) ≤ n) := by
  induction n using Nat.strong_induction_on with
  | _ n ih =>
    by_cases h : n < 10
    · rw [digits_of_lt h]
      exact ⟨by simpa using h, fun h0 => by simp; omega⟩
    · -- one digit more than the quotient by ten
      obtain ⟨hlt, hle⟩ := ih (n / 10) (by omega)
      have hle := hle (by omega)
      have hpos : 0 < (digits (n / 10)).length := List.length_pos_iff.2 (digits_ne_nil _)
      rw [digits_of_le (by omega), List.length_append, List.length_singleton, Nat.add_sub_cancel]
      refine ⟨?_, fun _ => ?_⟩
      · rw [pow_succ]
        omega
      · obtain ⟨k, hk⟩ : ∃ k, (digits (n / 10)).length = k + 1 :=
          ⟨_, (Nat.succ_pred_eq_of_pos hpos).symm⟩
        rw [hk, Nat.add_sub_cancel] at hle
        rw [hk, pow_succ]
        omega

theorem length_digits_le {n k : Nat} (h : n < 10 ^ k) (hk : k ≠ 0) : (digits n).length ≤ k := by
  by_cases h0 : n = 0
  · rw [h0, digits_of_lt (by decide)]
    simp
    omega
  · have hle := (length_digits n).2 h0
    have hlt : 10 ^ ((digits n).length - 1) < 10 ^ k := lt_of_le_of_lt hle h
    have := (Nat.pow_lt_pow_iff_right (by decide : 1 < 10)).1 hlt
    omega

theorem spanDigits_append {s t : List Char} (hs : s.all isDigit = true)
    (ht : ∀ c, t.head? = some c → isDigit c = false) : spanDigits (s ++ t) = (s, t) := by
  unfold spanDigits
  have hall : ∀ c ∈ s, isDigit c = true := List.all_eq_true.1 hs
  rw [List.takeWhile_append_of_pos hall, List.dropWhile_append_of_pos hall]
  cases t with
  | nil => simp
  | cons c t => simp [ht c rfl]

theorem nat?_digits (n : Nat) : nat? (digits n) = some n := by
  have hall := digits_all n
  have hvalue := digitsValue_digits n
  have hne := digits_ne_nil n
  cases hd : digits n with
  | nil => exact absurd hd hne
  | cons c s =>
    rw [hd] at hall hvalue
    have hc : c ≠ '+' := by
      rintro rfl
      simp [isDigit] at hall
    unfold nat?
    split
    · rename_i r heq
      exact absurd (List.cons.inj heq).1 hc
    · simp only [hall, hvalue]
      simp

/-- What is read as a number: digits, with a plus sign in front or without. -/
theorem nat?_eq_some {s : List Char} {n : Nat} : nat? s = some n ↔
    ∃ ds, (s = ds ∨ s = '+' :: ds) ∧ ds ≠ [] ∧ ds.all isDigit = true ∧ digitsValue ds = n := by
  -- digits do not start with a sign
  have hsign : ∀ r, ('+' :: r).all isDigit = false := fun r => by simp [isDigit]
  unfold nat?
  split
  · rename_i r
    simp only [Option.ite_none_right_eq_some, Option.some.injEq, List.cons.injEq, true_and]
    constructor
    · rintro ⟨⟨hne, hall⟩, rfl⟩
      exact ⟨r, .inr rfl, hne, hall, rfl⟩
    · rintro ⟨ds, rfl | rfl, hne, hall, rfl⟩
      · simp [hsign] at hall
      · exact ⟨⟨hne, hall⟩, rfl⟩
  · rename_i hplus
    simp only [Option.ite_none_right_eq_some, Option.some.injEq]
    constructor
    · rintro ⟨⟨hne, hall⟩, rfl⟩
      exact ⟨s, .inl rfl, hne, hall, rfl⟩
    · rintro ⟨ds, rfl | rfl, hne, hall, rfl⟩
      · exact ⟨⟨hne, hall⟩, rfl⟩
      · exact absurd rfl (hplus ds)

theorem natBelow?_eq_some {high n : Nat} {s : List Char} :
    natBelow? high s = some n ↔ nat? s = some n ∧ n < high := by
  simp only [natBelow?, Option.bind_eq_some_iff, Option.ite_none_right_eq_some, Option.some.injEq]
  constructor
  · rintro ⟨_, hread, hlt, rfl⟩
    exact ⟨hread, hlt⟩
  · rintro ⟨hread, hlt⟩
    exact ⟨n, hread, hlt, rfl⟩

/-- The text of an integer is read back. -/
theorem int?_intChars (i : Int) : int? (intChars i) = some i := by
  unfold intChars
  by_cases h : i < 0
  · rw [if_pos h]
    simp only [int?, digits_all, digitsValue_digits, digits_ne_nil, ne_eq, not_false_eq_true,
      and_self, if_true, Option.some.injEq]
    omega
  · rw [if_neg h]
    unfold int?
    split
    · -- digits have no sign
      rename_i r hr
      have hall := digits_all i.natAbs
      rw [hr] at hall
      simp [isDigit] at hall
    · rw [nat?_digits]
      simp
      omega

/-- A text behind a minus sign is that of an integer below zero. -/
theorem minus_eq_intChars_iff {s : List Char} {i : Int} :
    '-' :: s = intChars i ↔ i < 0 ∧ s = digits i.natAbs := by
  unfold intChars
  split
  · rename_i h
    simp [h]
  · rename_i h
    refine ⟨fun hs => ?_, fun hs => absurd hs.1 h⟩
    have hall := digits_all i.natAbs
    rw [← hs, List.all_cons] at hall
    exact absurd hall (by simp [isDigit])

/-- A text that starts with a digit is that of an integer from zero on. -/
theorem eq_intChars_iff {s : List Char} {c : Char} (h : s.head? = some c) (hc : isDigit c = true)
    {i : Int} : s = intChars i ↔ 0 ≤ i ∧ s = digits i.natAbs := by
  unfold intChars
  split
  · rename_i hi
    refine ⟨fun hs => ?_, fun hs => by omega⟩
    obtain rfl : '-' = c := by simpa [hs] using h
    exact absurd hc (by decide)
  · rename_i hi
    simp [not_lt.1 hi]

theorem int64?_intChars {i : Int} (h : -2 ^ 63 ≤ i ∧ i < 2 ^ 63) : int64? (intChars i) = some i := by
  simp only [int64?, intWithin?, int?_intChars, Option.bind_some]
  exact if_pos h

theorem intText_injective {i j : Int} (h : intText i = intText j) : i = j := by
  have hchars : intChars i = intChars j := String.ofList_injective h
  have := int?_intChars i
  rw [hchars, int?_intChars] at this
  exact (Option.some.inj this).symm

theorem intWithin?_bounds {low high i : Int} {s : List Char} (h : intWithin? low high s = some i) :
    low ≤ i ∧ i < high := by
  simp only [intWithin?, Option.bind_eq_some_iff, Option.ite_none_right_eq_some, Option.some.injEq] at h
  obtain ⟨j, _, hj, rfl⟩ := h
  exact hj

theorem int64?_bounds {s : List Char} {i : Int} (h : int64? s = some i) :
    -2 ^ 63 ≤ i ∧ i < 2 ^ 63 := intWithin?_bounds h

end LedgerFront.Text
