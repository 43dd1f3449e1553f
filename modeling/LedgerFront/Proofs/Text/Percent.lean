import LedgerFront.Text.Percent
import LedgerFront.Proofs.Text.Utf8

/-!
# Percent encoding read back

Bytes are read back from their percent encoding if the percent sign is escaped itself, whatever else is.

* `Percent.decode_triple`, `Percent.decode_cons_ne`: one byte.
* `Percent.decode_encode`: all of them.
* `Percent.mem_encode`: the bytes of an encoding.
* `Percent.decode_map_lowerByte`: the letter case of an encoding.
-/

namespace LedgerFront.Text.Percent

variable {escaped : UInt8 → Bool} {a b : UInt8} {s : List UInt8}

theorem hexValue?_hexDigit : ∀ n < 16, hexValue? (hexDigit n) = some n := by decide

theorem hexDigit_ascii : ∀ n < 16, 48 ≤ (hexDigit n).toNat ∧ (hexDigit n).toNat ≤ 70 := by decide

theorem decode_cons_ne (h : a ≠ 37) (r : List UInt8) : decode (a :: r) = a :: decode r := by
  match r with
  | [] | [_] => rfl
  | b :: c :: r => rw [decode, if_neg h]

/-- A triple is its byte. -/
theorem decode_triple (b : UInt8) (r : List UInt8) : decode (triple b ++ r) = b :: decode r := by
  have hb : b.toNat < 256 := b.toNat_lt
  have hhigh : hexValue? (hexDigit (b.toNat / 16)) = some (b.toNat / 16) :=
    hexValue?_hexDigit _ (by omega)
  have hlow : hexValue? (hexDigit (b.toNat % 16)) = some (b.toNat % 16) := hexValue?_hexDigit _ (by omega)
  have hvalue : (16 * (b.toNat / 16) + b.toNat % 16).toUInt8 = b := by
    rw [Nat.div_add_mod]
    simp
  rw [triple, List.cons_append, List.cons_append, List.cons_append, List.nil_append, decode, if_pos rfl,
    hhigh, hlow]
  dsimp only
  rw [hvalue]

/-- **The bytes are read back** if the percent sign is escaped. -/
theorem decode_encode (h : escaped 37 = true) (s : List UInt8) : decode (encode escaped s) = s := by
  induction s with
  | nil => rfl
  | cons b s ih =>
    have hcons : encode escaped (b :: s) = (if escaped b then triple b else [b]) ++ encode escaped s :=
      List.flatMap_cons
    rw [hcons]
    by_cases hb : escaped b = true
    · rw [if_pos hb, decode_triple, ih]
    · have hne : b ≠ 37 := fun h37 => hb (h37 ▸ h)
      rw [if_neg hb, List.singleton_append, decode_cons_ne hne, ih]

/-- **The bytes of an encoding** are those that are not escaped, percent signs and digits. -/
theorem mem_encode (h : b ∈ encode escaped s) :
    (b ∈ s ∧ escaped b = false) ∨ b.toNat = 37 ∨ (48 ≤ b.toNat ∧ b.toNat ≤ 70) := by
  obtain ⟨a, ha, hb⟩ := List.mem_flatMap.1 h
  have hlt : a.toNat < 256 := a.toNat_lt
  split at hb
  · simp only [triple, List.mem_cons, List.not_mem_nil, or_false] at hb
    rcases hb with rfl | rfl | rfl
    · exact .inr (.inl rfl)
    · exact .inr (.inr (hexDigit_ascii _ (by omega)))
    · exact .inr (.inr (hexDigit_ascii _ (by omega)))
  · rename_i hkept
    obtain rfl := List.mem_singleton.1 hb
    exact .inl ⟨ha, by simpa using hkept⟩

/-! ## Letter case -/

/-- The byte of a small letter in the place of a capital one. -/
def lowerByte (b : UInt8) : UInt8 := if 65 ≤ b.toNat ∧ b.toNat ≤ 90 then (b.toNat + 32).toUInt8 else b

theorem toNat_lowerByte (b : UInt8) :
    (lowerByte b).toNat = if 65 ≤ b.toNat ∧ b.toNat ≤ 90 then b.toNat + 32 else b.toNat := by
  unfold lowerByte
  split
  · exact Utf8.toNat_toUInt8 (by omega)
  · rfl

theorem lowerByte_lowerByte (b : UInt8) : lowerByte (lowerByte b) = lowerByte b := by
  rw [← UInt8.toNat_inj, toNat_lowerByte, toNat_lowerByte]
  split_ifs <;> omega

/-- Only a byte itself becomes one that is no letter. -/
theorem lowerByte_eq_iff (hupper : ¬ (65 ≤ a.toNat ∧ a.toNat ≤ 90))
    (hlower : ¬ (97 ≤ a.toNat ∧ a.toNat ≤ 122)) : lowerByte b = a ↔ b = a := by
  rw [← UInt8.toNat_inj, ← UInt8.toNat_inj, toNat_lowerByte]
  split <;> omega

theorem lowerByte_eq_percent : lowerByte b = 37 ↔ b = 37 := lowerByte_eq_iff (by decide) (by decide)

theorem lowerByte_eq_dot : lowerByte b = 46 ↔ b = 46 := lowerByte_eq_iff (by decide) (by decide)

theorem hexValue?_lowerByte (b : UInt8) : hexValue? (lowerByte b) = hexValue? b := by
  unfold hexValue?
  rw [toNat_lowerByte]
  dsimp only
  split_ifs <;> first | omega | rfl

/-- **The letter case of the digits** does not matter. -/
theorem decode_map_lowerByte (s : List UInt8) :
    (decode (s.map lowerByte)).map lowerByte = (decode s).map lowerByte := by
  fun_induction decode s with
  | case1 => rfl
  | case2 a => simp [decode, lowerByte_lowerByte]
  | case3 a b => simp [decode, lowerByte_lowerByte]
  | case4 b c r high low hb hc ih =>
    have hlower : decode ((37 :: b :: c :: r).map lowerByte) =
        (16 * high + low).toUInt8 :: decode (r.map lowerByte) := by
      rw [List.map_cons, List.map_cons, List.map_cons, decode, if_pos (lowerByte_eq_percent.2 rfl),
        hexValue?_lowerByte, hexValue?_lowerByte, hb, hc]
    rw [hlower, List.map_cons, List.map_cons, ih]
  | case5 b c r hno ih =>
    have hlower : decode ((37 :: b :: c :: r).map lowerByte) =
        lowerByte 37 :: decode ((b :: c :: r).map lowerByte) := by
      rw [List.map_cons, List.map_cons, List.map_cons, decode, if_pos (lowerByte_eq_percent.2 rfl),
        hexValue?_lowerByte, hexValue?_lowerByte]
      split
      · rename_i high low hb hc
        exact absurd hc (hno high low hb)
      · rfl
    rw [hlower, List.map_cons, ih, lowerByte_lowerByte, List.map_cons]
  | case6 a b c r hne ih =>
    have hne' : lowerByte a ≠ 37 := fun h => hne (lowerByte_eq_percent.1 h)
    rw [List.map_cons, decode_cons_ne hne', List.map_cons, ih, lowerByte_lowerByte, List.map_cons]

/-! ## Bytes of which none is escaped -/

theorem encode_of_free (h : ∀ b ∈ s, escaped b = false) : encode escaped s = s := by
  induction s with
  | nil => rfl
  | cons b s ih =>
    have hb : escaped b = false := h b (by simp)
    have hs := ih fun x hx => h x (by simp [hx])
    show (if escaped b then triple b else [b]) ++ encode escaped s = b :: s
    rw [hb, hs]
    rfl

end LedgerFront.Text.Percent
