import LedgerFront.Proofs.Text.Utf8
import LedgerFront.Text.Base64
import Mathlib.Data.List.Basic

/-!
# Base64 there and back

Each sequence of bytes has exactly one written form: whole groups, padding in the last group only, and
no bits in it that belong to no byte.

* `value?_eq_some_iff`: the letter of a value.
* `group?_eq_some`: the bytes of one group.
* `decode?_eq_some_iff`: what is decoded is the written form of the bytes.
-/

namespace LedgerFront.Text.Base64

/-! ## Letters -/

theorem toNat_letter {n : Nat} (h : n < 64) :
    (letter n).toNat = if n < 26 then 65 + n else if n < 52 then 71 + n else if n < 62 then n - 4
      else if n = 62 then 43 else 47 := by
  unfold letter
  split_ifs
  · exact UInt8.toNat_ofNat_of_lt' (show 65 + n < 256 by omega)
  · exact UInt8.toNat_ofNat_of_lt' (show 71 + n < 256 by omega)
  · exact UInt8.toNat_ofNat_of_lt' (show n - 4 < 256 by omega)
  · rfl
  · rfl

theorem letter_visible (n : Nat) : 43 ≤ (letter n).toNat ∧ (letter n).toNat ≤ 122 := by
  by_cases h : n < 64
  · rw [toNat_letter h]
    split_ifs
    all_goals omega
  · have hlast : letter n = 47 := by
      rw [letter, if_neg (by omega), if_neg (by omega), if_neg (by omega), if_neg (by omega)]
    simp [hlast]

theorem value?_letter : ∀ n < 64, value? (letter n) = some n := by decide

/-- The padding is no letter. -/
theorem value?_pad : value? 61 = none := rfl

/-- **The letter of a value.** -/
theorem value?_eq_some_iff {b : UInt8} {n : Nat} : value? b = some n ↔ n < 64 ∧ b = letter n := by
  constructor
  · intro h
    unfold value? at h
    dsimp only at h
    have hn : n < 64 := by
      split_ifs at h
      all_goals
        have := Option.some.inj h
        omega
    refine ⟨hn, ?_⟩
    rw [← UInt8.toNat_inj, toNat_letter hn]
    split_ifs at h
    all_goals
      have := Option.some.inj h
      split_ifs
      all_goals omega
  · rintro ⟨hn, rfl⟩
    exact value?_letter n hn

theorem toUInt8_eq {n : Nat} {b : UInt8} (h : n = b.toNat) : n.toUInt8 = b := by
  subst h
  exact UInt8.ofNat_toNat

/-! ## Groups -/

theorem group?_encode_three (last : Bool) (x y z : UInt8) {a b c d : UInt8}
    (h : encode [x, y, z] = [a, b, c, d]) : group? last a b c d = some [x, y, z] := by
  have hx := x.toNat_lt
  have hy := y.toNat_lt
  have hz := z.toNat_lt
  obtain ⟨n, hn⟩ : ∃ n, n = x.toNat * 65536 + y.toNat * 256 + z.toNat := ⟨_, rfl⟩
  simp only [encode, ← hn, List.cons.injEq, and_true] at h
  obtain ⟨rfl, rfl, rfl, rfl⟩ := h
  have hbits : n / 262144 * 262144 + n / 4096 % 64 * 4096 + n / 64 % 64 * 64 + n % 64 = n := by omega
  unfold group?
  rw [value?_letter _ (by omega), value?_letter _ (by omega), value?_letter _ (by omega),
    value?_letter _ (by omega)]
  simp only [hbits, Option.some.injEq, List.cons.injEq, and_true]
  refine ⟨toUInt8_eq ?_, toUInt8_eq ?_, toUInt8_eq ?_⟩
  all_goals omega

theorem group?_encode_two (x y : UInt8) {a b c d : UInt8} (h : encode [x, y] = [a, b, c, d]) :
    group? true a b c d = some [x, y] := by
  have hx := x.toNat_lt
  have hy := y.toNat_lt
  obtain ⟨n, hn⟩ : ∃ n, n = x.toNat * 256 + y.toNat := ⟨_, rfl⟩
  simp only [encode, ← hn, List.cons.injEq, and_true] at h
  obtain ⟨rfl, rfl, rfl, rfl⟩ := h
  have hbits : n / 1024 * 4096 + n / 16 % 64 * 64 + n % 16 * 4 = 4 * n := by omega
  unfold group?
  rw [value?_letter _ (by omega), value?_letter _ (by omega), value?_letter _ (by omega), value?_pad]
  simp only [hbits]
  rw [if_pos (by simp)]
  simp only [Option.some.injEq, List.cons.injEq, and_true]
  refine ⟨toUInt8_eq ?_, toUInt8_eq ?_⟩
  all_goals omega

theorem group?_encode_one (x : UInt8) {a b c d : UInt8} (h : encode [x] = [a, b, c, d]) :
    group? true a b c d = some [x] := by
  obtain ⟨n, hn⟩ : ∃ n, n = x.toNat := ⟨_, rfl⟩
  have hx := x.toNat_lt
  simp only [encode, ← hn, List.cons.injEq, and_true] at h
  obtain ⟨rfl, rfl, rfl, rfl⟩ := h
  have hbits : n / 4 * 64 + n % 4 * 16 = 16 * n := by omega
  unfold group?
  rw [value?_letter _ (by omega), value?_letter _ (by omega), value?_pad]
  simp only [hbits]
  rw [if_pos (by simp)]
  simp only [Option.some.injEq, List.cons.injEq, and_true]
  exact toUInt8_eq (by omega)

/-- **The bytes of one group** are those that it is the written form of. -/
theorem group?_eq_some {last : Bool} {a b c d : UInt8} {g : List UInt8}
    (h : group? last a b c d = some g) :
    encode g = [a, b, c, d] ∧ (g.length = 3 ∨ last = true) := by
  unfold group? at h
  split at h
  · rename_i p q r s hp hq hr hs
    obtain ⟨hp, rfl⟩ := value?_eq_some_iff.1 hp
    obtain ⟨hq, rfl⟩ := value?_eq_some_iff.1 hq
    obtain ⟨hr, rfl⟩ := value?_eq_some_iff.1 hr
    obtain ⟨hs, rfl⟩ := value?_eq_some_iff.1 hs
    obtain rfl := Option.some.inj h
    refine ⟨?_, .inl rfl⟩
    simp only [encode, List.cons.injEq, and_true]
    rw [Utf8.toNat_toUInt8 (by omega), Utf8.toNat_toUInt8 (by omega), Utf8.toNat_toUInt8 (by omega)]
    refine ⟨congrArg letter ?_, congrArg letter ?_, congrArg letter ?_, congrArg letter ?_⟩
    all_goals omega
  · rename_i p q r hp hq hr _
    obtain ⟨hp, rfl⟩ := value?_eq_some_iff.1 hp
    obtain ⟨hq, rfl⟩ := value?_eq_some_iff.1 hq
    obtain ⟨hr, rfl⟩ := value?_eq_some_iff.1 hr
    dsimp only at h
    split at h
    · rename_i hlast
      obtain ⟨hlast, rfl, hbits⟩ := hlast
      obtain rfl := Option.some.inj h
      refine ⟨?_, .inr hlast⟩
      simp only [encode, List.cons.injEq, and_true]
      rw [Utf8.toNat_toUInt8 (by omega), Utf8.toNat_toUInt8 (by omega)]
      refine ⟨congrArg letter ?_, congrArg letter ?_, congrArg letter ?_⟩
      all_goals omega
    · simp at h
  · rename_i p q hp hq _ _
    obtain ⟨hp, rfl⟩ := value?_eq_some_iff.1 hp
    obtain ⟨hq, rfl⟩ := value?_eq_some_iff.1 hq
    dsimp only at h
    split at h
    · rename_i hlast
      obtain ⟨hlast, rfl, rfl, hbits⟩ := hlast
      obtain rfl := Option.some.inj h
      refine ⟨?_, .inr hlast⟩
      simp only [encode, List.cons.injEq, and_true]
      rw [Utf8.toNat_toUInt8 (by omega)]
      refine ⟨congrArg letter ?_, congrArg letter ?_⟩
      all_goals omega
    · simp at h
  · simp at h

/-! ## Whole texts -/

theorem encode_append {g : List UInt8} (h : g.length = 3) (s : List UInt8) :
    encode (g ++ s) = encode g ++ encode s := by
  obtain ⟨x, y, z, rfl⟩ := List.length_eq_three.1 h
  rfl

theorem encode_eq_nil {s : List UInt8} (h : encode s = []) : s = [] := by
  unfold encode at h
  split at h
  · rfl
  all_goals simp at h

theorem decode?_group {a b c d : UInt8} {r g t : List UInt8} (hg : group? r.isEmpty a b c d = some g)
    (ht : decode? r = some t) : decode? (a :: b :: c :: d :: r) = some (g ++ t) := by
  rw [decode?, hg, ht]

theorem decode?_encode (s : List UInt8) : decode? (encode s) = some s := by
  induction s using encode.induct with
  | case1 => rfl
  | case2 a =>
    obtain ⟨p, q, u, v, hgroup⟩ : ∃ p q u v, encode [a] = [p, q, u, v] := ⟨_, _, _, _, rfl⟩
    rw [hgroup]
    exact decode?_group (r := []) (group?_encode_one a hgroup) rfl
  | case3 a b =>
    obtain ⟨p, q, u, v, hgroup⟩ : ∃ p q u v, encode [a, b] = [p, q, u, v] := ⟨_, _, _, _, rfl⟩
    rw [hgroup]
    exact decode?_group (r := []) (group?_encode_two a b hgroup) rfl
  | case4 a b c r ih =>
    obtain ⟨p, q, u, v, hgroup⟩ : ∃ p q u v, encode [a, b, c] = [p, q, u, v] := ⟨_, _, _, _, rfl⟩
    have hall : encode (a :: b :: c :: r) = encode [a, b, c] ++ encode r :=
      encode_append (g := [a, b, c]) rfl r
    rw [hall, hgroup]
    exact decode?_group (group?_encode_three _ a b c hgroup) ih

theorem eq_encode_of_decode? {s t : List UInt8} (h : decode? s = some t) : s = encode t := by
  fun_induction decode? s generalizing t with
  | case1 =>
    obtain rfl := Option.some.inj h
    rfl
  | case2 a b c d r g u hu hg ih =>
    obtain rfl := Option.some.inj h
    obtain ⟨hgroup, hlen | hlast⟩ := group?_eq_some hg
    · rw [encode_append hlen, hgroup, ← ih hu]
      rfl
    · -- nothing follows a group that is filled up
      obtain rfl := List.isEmpty_iff.1 hlast
      rw [encode_eq_nil (ih hu).symm, List.append_nil, hgroup]
  | case3 => simp at h
  | case4 => simp at h

/-- **What is decoded** is the written form of the bytes. -/
theorem decode?_eq_some_iff {s t : List UInt8} : decode? s = some t ↔ s = encode t := by
  constructor
  · exact eq_encode_of_decode?
  · rintro rfl
    exact decode?_encode t

theorem encode_injective {s t : List UInt8} (h : encode s = encode t) : s = t :=
  Option.some.inj ((decode?_encode s).symm.trans (h ▸ decode?_encode t))

/-- The written form has letters, digits and three marks only, all of them visible. -/
theorem encode_visible (s : List UInt8) : ∀ b ∈ encode s, 43 ≤ b.toNat ∧ b.toNat ≤ 122 := by
  have hpad : 43 ≤ (61 : UInt8).toNat ∧ (61 : UInt8).toNat ≤ 122 := by decide
  fun_induction encode s with
  | case1 => simp
  | case2 a n => simpa using ⟨letter_visible _, letter_visible _⟩
  | case3 a b n => simpa using ⟨letter_visible _, letter_visible _, letter_visible _⟩
  | case4 a b c r n ih =>
    simpa using ⟨letter_visible _, letter_visible _, letter_visible _, letter_visible _, ih⟩

end LedgerFront.Text.Base64
