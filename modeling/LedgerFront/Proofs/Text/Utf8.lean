import LedgerFront.Proofs.Refusal
import LedgerFront.Text.Utf8
import Mathlib.Data.List.Basic

/-!
# UTF-8 there and back

The bytes of a text are well-formed, and a well-formed sequence of bytes is that of one text only: the
bits of a character are spread over its bytes in one way, since overlong forms and surrogates are no
characters.

* `next_encodeChar`: reading finds the character whose bytes come first.
* `eq_encodeChar_of_next`: a character that is found has these bytes.
* `decode?_eq_some_iff`: the text of some bytes is the one that has them.
* `encode_ofBytes`: bytes below 128 are the characters with these codes.
-/

namespace LedgerFront.Text.Utf8

theorem toNat_ofNat {n : Nat} (h : n.isValidChar) : (Char.ofNat n).toNat = n := by
  rw [Char.ofNat, dif_pos h]
  rfl

/-- The codes of characters leave out the surrogates. -/
theorem code_cases (c : Char) : c.toNat < 0xD800 ∨ (0xDFFF < c.toNat ∧ c.toNat < 0x110000) := c.valid

theorem toNat_toUInt8 {n : Nat} (h : n < 256) : n.toUInt8.toNat = n := UInt8.toNat_ofNat_of_lt' h

theorem eq_toUInt8_iff {b : UInt8} {n : Nat} (h : n < 256) : b = n.toUInt8 ↔ b.toNat = n := by
  rw [← UInt8.toNat_inj, toNat_toUInt8 h]

/-! ## One character -/

/-- A byte that carries six bits of a longer sequence. -/
def IsTail (b : UInt8) : Prop := 0x80 ≤ b.toNat ∧ b.toNat ≤ 0xBF

/-- The bits so far, and those that one more byte carries. -/
def addBits (v : Nat) (b : UInt8) : Nat := 64 * v + (b.toNat - 0x80)

theorem isTail_bits {n : Nat} (h : n < 64) : IsTail (0x80 + n).toUInt8 := by
  unfold IsTail
  rw [toNat_toUInt8 (by omega)]
  omega

theorem addBits_bits {n : Nat} (v : Nat) (h : n < 64) : addBits v (0x80 + n).toUInt8 = 64 * v + n := by
  unfold addBits
  rw [toNat_toUInt8 (by omega)]
  omega

/-- **The last bytes of a sequence** are read as far as they carry bits. -/
theorem tail_eq_some_iff {k v : Nat} {s r : List UInt8} {c : Char} :
    tail k v s = (some c, r) ↔
      ∃ w, s = w ++ r ∧ w.length = k ∧ (∀ b ∈ w, IsTail b) ∧ c = Char.ofNat (w.foldl addBits v) := by
  induction k generalizing v s with
  | zero =>
    simp only [tail, Prod.mk.injEq, Option.some.injEq, List.length_eq_zero_iff]
    constructor
    · rintro ⟨rfl, rfl⟩
      exact ⟨[], rfl, rfl, by simp, rfl⟩
    · rintro ⟨w, rfl, rfl, -, rfl⟩
      exact ⟨rfl, rfl⟩
  | succ k ih =>
    cases s with
    | nil =>
      simp only [tail, Prod.mk.injEq, reduceCtorEq, false_and, false_iff]
      rintro ⟨w, hw, hlen, -⟩
      obtain ⟨rfl, -⟩ := List.append_eq_nil_iff.1 hw.symm
      simp at hlen
    | cons b s =>
      simp only [tail]
      split
      · rename_i hb
        have hb : IsTail b := hb
        have hbits : 64 * v + (b.toNat - 0x80) = addBits v b := rfl
        rw [hbits, ih]
        constructor
        · rintro ⟨w, rfl, rfl, hw, rfl⟩
          exact ⟨b :: w, rfl, rfl, by simpa using ⟨hb, hw⟩, by rw [List.foldl_cons]⟩
        · rintro ⟨w, hs, hlen, hw, rfl⟩
          obtain ⟨d, w, rfl⟩ := List.exists_cons_of_length_eq_add_one hlen
          obtain ⟨rfl, rfl⟩ := List.cons_eq_cons.1 hs
          exact ⟨w, rfl, by simpa using hlen, fun x hx => hw x (by simp [hx]),
            by rw [List.foldl_cons]⟩
      · rename_i hb
        simp only [Prod.mk.injEq, reduceCtorEq, false_and, false_iff]
        rintro ⟨w, hs, hlen, hw, -⟩
        obtain ⟨d, w, rfl⟩ := List.exists_cons_of_length_eq_add_one hlen
        obtain ⟨rfl, -⟩ := List.cons_eq_cons.1 hs
        exact hb (hw b (by simp))

/-- What a first byte says of the second one, and of the number that is spread over the sequence. -/
theorem lead_cases {b : Nat} {l : Lead} (h : Lead.of? b = some l) :
    0x80 ≤ l.low ∧ l.high ≤ 0xBF ∧
    ((l.more = 0 ∧ b = 0xC0 + l.bits ∧ 2 ≤ l.bits ∧ l.bits < 32) ∨
      (l.more = 1 ∧ b = 0xE0 + l.bits ∧ l.bits < 16 ∧ (l.bits = 0 → 0xA0 ≤ l.low) ∧
        (l.bits = 0xD → l.high ≤ 0x9F)) ∨
      (l.more = 2 ∧ b = 0xF0 + l.bits ∧ l.bits < 5 ∧ (l.bits = 0 → 0x90 ≤ l.low) ∧
        (l.bits = 4 → l.high ≤ 0x8F))) := by
  unfold Lead.of? at h
  split_ifs at h
  all_goals
    obtain rfl := Option.some.inj h
    dsimp only
    omega

/-- The bytes of the character with a code. -/
theorem encodeChar_ofNat {n : Nat} (h : n.isValidChar) :
    encodeChar (Char.ofNat n) =
      if n < 0x80 then [n.toUInt8]
      else if n < 0x800 then [(0xC0 + n / 64).toUInt8, (0x80 + n % 64).toUInt8]
      else if n < 0x10000 then
        [(0xE0 + n / 4096).toUInt8, (0x80 + n / 64 % 64).toUInt8, (0x80 + n % 64).toUInt8]
      else
        [(0xF0 + n / 262144).toUInt8, (0x80 + n / 4096 % 64).toUInt8, (0x80 + n / 64 % 64).toUInt8,
          (0x80 + n % 64).toUInt8] := by
  simp only [encodeChar, toNat_ofNat h]

/-- A sequence of more than one byte. -/
theorem eq_encodeChar_of_lead {b d : UInt8} {t r : List UInt8} {l : Lead} {c : Char}
    (hl : Lead.of? b.toNat = some l) (hd : l.low ≤ d.toNat ∧ d.toNat ≤ l.high)
    (h : tail l.more (64 * l.bits + (d.toNat - 0x80)) t = (some c, r)) :
    b :: d :: t = encodeChar c ++ r := by
  obtain ⟨hlow, hhigh, hkind⟩ := lead_cases hl
  obtain ⟨w, rfl, hlen, hw, rfl⟩ := tail_eq_some_iff.1 h
  have htail : ∀ x ∈ w, 0x80 ≤ x.toNat ∧ x.toNat ≤ 0xBF := hw
  obtain ⟨n, hn⟩ : ∃ n, w.foldl addBits (64 * l.bits + (d.toNat - 0x80)) = n := ⟨_, rfl⟩
  rw [hn]
  obtain ⟨hmore, hlead, hbits⟩ | ⟨hmore, hlead, hbits⟩ | ⟨hmore, hlead, hbits⟩ := hkind
  · obtain rfl := List.length_eq_zero_iff.1 (hlen.trans hmore)
    rw [List.foldl_nil] at hn
    rw [encodeChar_ofNat (.inl (by omega)), if_neg (by omega), if_pos (by omega)]
    simp only [List.nil_append, List.cons_append, List.cons.injEq, and_true]
    rw [eq_toUInt8_iff (by omega), eq_toUInt8_iff (by omega)]
    omega
  · obtain ⟨x, rfl⟩ := List.length_eq_one_iff.1 (hlen.trans hmore)
    have hx := htail x (by simp)
    simp only [List.foldl_cons, List.foldl_nil] at hn
    unfold addBits at hn
    have hvalid : n.isValidChar := by
      unfold Nat.isValidChar
      omega
    rw [encodeChar_ofNat hvalid, if_neg (by omega), if_neg (by omega), if_pos (by omega)]
    simp only [List.nil_append, List.cons_append, List.cons.injEq, and_true]
    rw [eq_toUInt8_iff (by omega), eq_toUInt8_iff (by omega), eq_toUInt8_iff (by omega)]
    omega
  · obtain ⟨x, y, rfl⟩ := List.length_eq_two.1 (hlen.trans hmore)
    have hx := htail x (by simp)
    have hy := htail y (by simp)
    simp only [List.foldl_cons, List.foldl_nil] at hn
    unfold addBits at hn
    have hvalid : n.isValidChar := by
      unfold Nat.isValidChar
      omega
    rw [encodeChar_ofNat hvalid, if_neg (by omega), if_neg (by omega), if_neg (by omega)]
    simp only [List.nil_append, List.cons_append, List.cons.injEq, and_true]
    rw [eq_toUInt8_iff (by omega), eq_toUInt8_iff (by omega), eq_toUInt8_iff (by omega),
      eq_toUInt8_iff (by omega)]
    omega

/-- **A character that is found** has the bytes that were read for it. -/
theorem eq_encodeChar_of_next {b : UInt8} {s r : List UInt8} {c : Char}
    (h : next b s = (some c, r)) : b :: s = encodeChar c ++ r := by
  unfold next at h
  split at h
  · -- one byte is the code itself
    rename_i hb
    obtain ⟨hc, rfl⟩ := Prod.mk.inj h
    obtain rfl := Option.some.inj hc
    rw [encodeChar_ofNat (.inl (by omega)), if_pos hb, ← (eq_toUInt8_iff (b := b) (by omega)).2 rfl]
    rfl
  · split at h
    · rename_i hl
      split at h
      · rename_i hd
        exact eq_encodeChar_of_lead hl hd h
      · simp at h
    · simp at h

theorem foldl_addBits (w : List Nat) (hw : ∀ k ∈ w, k < 64) (v : Nat) :
    (w.map fun k => (0x80 + k).toUInt8).foldl addBits v = w.foldl (fun v k => 64 * v + k) v := by
  induction w generalizing v with
  | nil => rfl
  | cons k w ih =>
    rw [List.map_cons, List.foldl_cons, List.foldl_cons, addBits_bits v (hw k (by simp))]
    exact ih (fun x hx => hw x (by simp [hx])) _

/-- A sequence whose first byte announces the others is read as one character. -/
theorem next_of_lead {lead d n : Nat} {l : Lead} {w : List Nat} {r : List UInt8}
    (hl : Lead.of? lead = some l) (hd : d < 64) (hrange : l.low ≤ 0x80 + d ∧ 0x80 + d ≤ l.high)
    (hlen : w.length = l.more) (hw : ∀ k ∈ w, k < 64)
    (hn : w.foldl (fun v k => 64 * v + k) (64 * l.bits + d) = n) :
    next lead.toUInt8 ((0x80 + d).toUInt8 :: (w.map (fun k => (0x80 + k).toUInt8) ++ r)) =
      (some (Char.ofNat n), r) := by
  obtain ⟨-, -, hkind⟩ := lead_cases hl
  have hlead : lead.toUInt8.toNat = lead := toNat_toUInt8 (by omega)
  have hsecond : (0x80 + d).toUInt8.toNat = 0x80 + d := toNat_toUInt8 (by omega)
  unfold next
  rw [hlead, hl, if_neg (by omega)]
  dsimp only
  rw [hsecond, if_pos hrange, Nat.add_sub_cancel_left]
  refine tail_eq_some_iff.2 ⟨_, rfl, by simpa using hlen, ?_, by rw [foldl_addBits w hw, hn]⟩
  intro b hb
  obtain ⟨k, hk, rfl⟩ := List.mem_map.1 hb
  exact isTail_bits (hw k hk)

/-- The first byte of three: the second one leaves out overlong forms and surrogates. -/
theorem lead_of_three {k d : Nat} (hk : k < 16) (hd : d < 64) (hlow : k = 0 → 0x20 ≤ d)
    (hhigh : k = 0xD → d < 0x20) : ∃ l, Lead.of? (0xE0 + k) = some l ∧ l.more = 1 ∧ l.bits = k ∧
      l.low ≤ 0x80 + d ∧ 0x80 + d ≤ l.high := by
  by_cases h0 : k = 0
  · subst h0
    exact ⟨_, rfl, rfl, rfl, by have := hlow rfl; dsimp only; omega⟩
  by_cases hD : k = 0xD
  · subst hD
    exact ⟨_, rfl, rfl, rfl, by have := hhigh rfl; dsimp only; omega⟩
  · refine ⟨⟨k, 0x80, 0xBF, 1⟩, ?_, rfl, rfl, by dsimp only; omega⟩
    rw [Lead.of?, if_neg (by omega), if_neg (by omega), if_neg (by omega), if_pos (by omega),
      Nat.add_sub_cancel_left]

/-- The first byte of four: the second one leaves out overlong forms and all above U+10FFFF. -/
theorem lead_of_four {k d : Nat} (hk : k < 5) (hd : d < 64) (hlow : k = 0 → 0x10 ≤ d)
    (hhigh : k = 4 → d < 0x10) : ∃ l, Lead.of? (0xF0 + k) = some l ∧ l.more = 2 ∧ l.bits = k ∧
      l.low ≤ 0x80 + d ∧ 0x80 + d ≤ l.high := by
  by_cases h0 : k = 0
  · subst h0
    exact ⟨_, rfl, rfl, rfl, by have := hlow rfl; dsimp only; omega⟩
  by_cases h4 : k = 4
  · subst h4
    exact ⟨_, rfl, rfl, rfl, by have := hhigh rfl; dsimp only; omega⟩
  · refine ⟨⟨k, 0x80, 0xBF, 2⟩, ?_, rfl, rfl, by dsimp only; omega⟩
    rw [Lead.of?, if_neg (by omega), if_neg (by omega), if_neg (by omega), if_neg (by omega),
      if_neg (by omega), if_pos (by omega), Nat.add_sub_cancel_left]

/-- **Reading finds the character** whose bytes come first. -/
theorem next_encodeChar (c : Char) (r : List UInt8) :
    ∃ b w, encodeChar c = b :: w ∧ next b (w ++ r) = (some c, r) := by
  have hcode := code_cases c
  have hc : Char.ofNat c.toNat = c := Char.ofNat_toNat c
  generalize c.toNat = n at hcode hc
  subst hc
  rw [encodeChar_ofNat hcode]
  split_ifs with h1 h2 h3
  · refine ⟨_, [], rfl, ?_⟩
    have hb : n.toUInt8.toNat = n := toNat_toUInt8 (by omega)
    unfold next
    rw [hb, if_pos h1]
    rfl
  · have hl : Lead.of? (0xC0 + n / 64) = some ⟨n / 64, 0x80, 0xBF, 0⟩ := by
      rw [Lead.of?, if_pos (by omega), Nat.add_sub_cancel_left]
    exact ⟨_, _, rfl, next_of_lead (w := []) hl (by omega) (by dsimp only; omega) rfl (by simp)
      (by simp only [List.foldl_nil]; omega)⟩
  · obtain ⟨l, hl, hmore, hbits, hrange⟩ := lead_of_three (k := n / 4096) (d := n / 64 % 64)
      (by omega) (by omega) (by omega) (by omega)
    exact ⟨_, _, rfl, next_of_lead (w := [n % 64]) hl (by omega) hrange hmore.symm
      (by simp; omega) (by simp only [List.foldl_cons, List.foldl_nil]; omega)⟩
  · obtain ⟨l, hl, hmore, hbits, hrange⟩ := lead_of_four (k := n / 262144) (d := n / 4096 % 64)
      (by omega) (by omega) (by omega) (by omega)
    exact ⟨_, _, rfl, next_of_lead (w := [n / 64 % 64, n % 64]) hl (by omega) hrange hmore.symm
      (by simp; omega) (by simp only [List.foldl_cons, List.foldl_nil]; omega)⟩

/-! ## Texts -/

theorem encode_cons (c : Char) (s : List Char) : encode (c :: s) = encodeChar c ++ encode s := rfl

@[simp] theorem encode_append (s t : List Char) : encode (s ++ t) = encode s ++ encode t :=
  List.flatMap_append

theorem decodeAll_encode (s : List Char) : decodeAll (encode s) = s.map some := by
  induction s with
  | nil => rw [encode, List.flatMap_nil, decodeAll, List.map_nil]
  | cons c s ih =>
    obtain ⟨b, w, hbytes, hnext⟩ := next_encodeChar c (encode s)
    rw [encode_cons, hbytes, List.cons_append, decodeAll, hnext, ih, List.map_cons]

theorem eq_encode_of_decodeAll {s : List UInt8} {t : List Char} (h : decodeAll s = t.map some) :
    s = encode t := by
  induction t generalizing s with
  | nil =>
    cases s with
    | nil => rfl
    | cons b s => simp [decodeAll] at h
  | cons c t ih =>
    cases s with
    | nil => simp [decodeAll] at h
    | cons b s =>
      rw [decodeAll, List.map_cons, List.cons.injEq] at h
      obtain ⟨hfound, hrest⟩ := h
      have hbytes : b :: s = encodeChar c ++ (next b s).2 := eq_encodeChar_of_next (Prod.ext hfound rfl)
      rw [hbytes, encode_cons, ← ih hrest]

theorem mapM_id_eq_some {l : List (Option Char)} {t : List Char} :
    l.mapM id = some t ↔ l = t.map some :=
  mapM_eq_some_map (by simp)

/-- **The text of some bytes** is the one that has these bytes. -/
theorem decode?_eq_some_iff {s : List UInt8} {t : List Char} : decode? s = some t ↔ s = encode t := by
  rw [decode?, mapM_id_eq_some]
  constructor
  · exact eq_encode_of_decodeAll
  · rintro rfl
    exact decodeAll_encode t

theorem encode_injective {s t : List Char} (h : encode s = encode t) : s = t :=
  Option.some.inj ((decode?_eq_some_iff.2 rfl).symm.trans (decode?_eq_some_iff.2 h))

@[simp] theorem toString?_ofString (s : String) : toString? (ofString s) = some s := by
  rw [toString?, ofString, decode?_eq_some_iff.2 rfl, Option.map_some, String.ofList_toList]

/-! ## Characters of one byte -/

/-- The characters with these codes. -/
def ofBytes (bytes : List UInt8) : List Char := bytes.map fun b => Char.ofNat b.toNat

theorem ofBytes_injective : Function.Injective ofBytes := by
  refine List.map_injective_iff.2 fun a b h => ?_
  have hcodes := congrArg Char.toNat h
  have ha := a.toNat_lt
  have hb := b.toNat_lt
  rw [toNat_ofNat (.inl (by omega)), toNat_ofNat (.inl (by omega))] at hcodes
  exact UInt8.toNat_inj.1 hcodes

theorem encode_ofBytes {bytes : List UInt8} (h : ∀ b ∈ bytes, b.toNat < 0x80) :
    encode (ofBytes bytes) = bytes := by
  induction bytes with
  | nil => rfl
  | cons b bytes ih =>
    have hb : b.toNat < 0x80 := h b (by simp)
    have hrest := ih fun x hx => h x (by simp [hx])
    have hone : encodeChar (Char.ofNat b.toNat) = [b] := by
      rw [encodeChar_ofNat (.inl (by omega)), if_pos hb, ← (eq_toUInt8_iff (b := b) (by omega)).2 rfl]
    show encodeChar (Char.ofNat b.toNat) ++ encode (ofBytes bytes) = b :: bytes
    rw [hone, hrest]
    rfl

end LedgerFront.Text.Utf8
