import LedgerFront.Proofs.Text.Letter
import LedgerFront.Proofs.Text.Utf8
import LedgerFront.Text.Offset
import Mathlib.Data.List.Infix

/-!
# Bytes and characters

The first byte of a character looks unlike all others, so the bytes of a word
stand in the bytes of a text only where the word stands in the text. Lower case
keeps the number of bytes of each character, so a place in a lower-case copy is
the same place in the text.

* `isBoundary_iff`: the numbers that name places.
* `slice_eq_ok_iff`: what a slice is, and which ones can be taken.
* `find?_eq_some_iff`, `find?_eq_none_iff`: words among the bytes are words of the text.
* `size_map_toLower`: the size of a lower-case copy.
-/

namespace LedgerFront.Text.Utf8

theorem size_nil : size [] = 0 := rfl

theorem size_cons (c : Char) (s : List Char) : size (c :: s) = (encodeChar c).length + size s := by
  simp [size, encode_cons]

theorem size_append (s t : List Char) : size (s ++ t) = size s + size t := by
  simp [size]

/-! ## Places -/

theorem isContinuation_iff {b : UInt8} : isContinuation b = true ↔ 0x80 ≤ b.toNat ∧ b.toNat < 0xC0 := by
  simp [isContinuation]

/-- **The bytes of a character**: only the first one is no continuation. -/
theorem exists_encodeChar (c : Char) : ∃ b w, encodeChar c = b :: w ∧ isContinuation b = false ∧
    ∀ x ∈ w, isContinuation x = true := by
  have hcode := code_cases c
  have hlead : ∀ {n}, n < 256 → (n < 0x80 ∨ 0xC0 ≤ n) → isContinuation n.toUInt8 = false := by
    intro n hn h
    rw [← Bool.not_eq_true, isContinuation_iff, toNat_toUInt8 hn]
    omega
  have htail : ∀ {n}, n < 64 → isContinuation (0x80 + n).toUInt8 = true := by
    intro n hn
    rw [isContinuation_iff, toNat_toUInt8 (by omega)]
    omega
  unfold encodeChar
  dsimp only
  split_ifs with h1 h2 h3
  · exact ⟨_, [], rfl, hlead (by omega) (by omega), by simp⟩
  · refine ⟨_, _, rfl, hlead (by omega) (by omega), ?_⟩
    simp only [List.mem_singleton, forall_eq]
    exact htail (by omega)
  · refine ⟨_, _, rfl, hlead (by omega) (by omega), ?_⟩
    simp only [List.mem_cons, List.not_mem_nil, or_false, forall_eq_or_imp, forall_eq]
    exact ⟨htail (by omega), htail (by omega)⟩
  · refine ⟨_, _, rfl, hlead (by omega) (by omega), ?_⟩
    simp only [List.mem_cons, List.not_mem_nil, or_false, forall_eq_or_imp, forall_eq]
    exact ⟨htail (by omega), htail (by omega), htail (by omega)⟩

theorem encodeChar_pos (c : Char) : 0 < (encodeChar c).length := by
  obtain ⟨b, w, h, -⟩ := exists_encodeChar c
  simp [h]

theorem isBoundary_append {l r : List UInt8} {i : Nat} (hi : l.length ≤ i) :
    isBoundary (l ++ r) i = isBoundary r (i - l.length) := by
  unfold isBoundary
  rw [List.getElem?_append_right hi, List.length_append]
  cases r[i - l.length]? with
  | some b => rfl
  | none =>
    rw [Bool.eq_iff_iff, beq_iff_eq, beq_iff_eq]
    omega

/-- No place lies inside a character. -/
theorem isBoundary_inside {x : UInt8} {w r : List UInt8} (hw : ∀ y ∈ w, isContinuation y = true)
    {k : Nat} (hk : k < w.length) : isBoundary (x :: w ++ r) (k + 1) = false := by
  have hbyte : (x :: w ++ r)[k + 1]? = some w[k] := by
    rw [List.cons_append, List.getElem?_cons_succ, List.getElem?_append_left hk,
      List.getElem?_eq_getElem hk]
  unfold isBoundary
  rw [hbyte]
  simp [hw w[k] (List.getElem_mem hk)]

theorem isBoundary_size (a b : List Char) : isBoundary (encode (a ++ b)) (size a) = true := by
  unfold size
  rw [encode_append, isBoundary_append (le_refl _), Nat.sub_self]
  cases b with
  | nil => rfl
  | cons c b =>
    obtain ⟨x, w, hc, hx, -⟩ := exists_encodeChar c
    simp [isBoundary, encode_cons, hc, hx]

/-- **Places.** The numbers that name a place are the sizes of the texts in front of one. -/
theorem isBoundary_iff {s : List Char} {i : Nat} :
    isBoundary (encode s) i = true ↔ ∃ a b, s = a ++ b ∧ size a = i := by
  constructor
  · intro h
    induction s generalizing i with
    | nil =>
      have hi := le_length_of_isBoundary h
      simp only [encode, List.flatMap_nil, List.length_nil, Nat.le_zero] at hi
      exact ⟨[], [], rfl, hi.symm⟩
    | cons c s ih =>
      obtain ⟨x, w, hc, -, hw⟩ := exists_encodeChar c
      rw [encode_cons, hc] at h
      rcases Nat.eq_zero_or_pos i with rfl | hpos
      · exact ⟨[], c :: s, rfl, rfl⟩
      obtain ⟨k, rfl⟩ : ∃ k, i = k + 1 := ⟨i - 1, by omega⟩
      rcases Nat.lt_or_ge k w.length with hk | hk
      · rw [isBoundary_inside hw hk] at h
        cases h
      · -- behind the first character the places are those of the rest
        rw [isBoundary_append (by simpa using hk)] at h
        obtain ⟨a, b, rfl, hsize⟩ := ih h
        refine ⟨c :: a, b, rfl, ?_⟩
        rw [size_cons, hsize, hc, List.length_cons]
        omega
  · rintro ⟨a, b, rfl, rfl⟩
    exact isBoundary_size a b

/-- **Slices.** A slice can be taken from one place to a later one, and holds what stands between. -/
theorem slice_eq_ok_iff {s p : List Char} {i j : Nat} :
    slice s i j = .ok p ↔ ∃ a b, s = a ++ p ++ b ∧ size a = i ∧ size (a ++ p) = j := by
  unfold slice
  constructor
  · intro h
    split at h
    · rename_i hb
      obtain ⟨hij, hi, hj⟩ := hb
      split at h
      · rename_i piece hpiece
        cases h
        obtain ⟨a, r, rfl, rfl⟩ := isBoundary_iff.1 hi
        obtain ⟨t, b, hs, hsize⟩ := isBoundary_iff.1 hj
        have hbytes := decode?_eq_some_iff.1 hpiece
        -- `t` is all in front of the second place: `a`, and then the piece
        have hfront : (encode (a ++ r)).take j = encode t := by
          rw [hs, encode_append]
          exact List.take_left' hsize
        have hparts : encode t = encode a ++ encode p := by
          have htake : (encode t).take (size a) = encode a := by
            rw [← hfront, List.take_take, Nat.min_eq_left hij, encode_append]
            exact List.take_left
          rw [← hbytes, hfront, ← htake, List.take_append_drop]
        obtain rfl : t = a ++ p := encode_injective (by rw [hparts, encode_append])
        exact ⟨a, b, hs, rfl, hsize⟩
      · cases h
    · cases h
  · rintro ⟨a, b, rfl, rfl, rfl⟩
    have hle : size a ≤ size (a ++ p) := by rw [size_append]; omega
    have hstart : isBoundary (encode (a ++ p ++ b)) (size a) = true := by
      rw [List.append_assoc]
      exact isBoundary_size a (p ++ b)
    have htake : (encode (a ++ p ++ b)).take (size (a ++ p)) = encode a ++ encode p := by
      rw [encode_append, ← encode_append a p]
      exact List.take_left
    rw [if_pos ⟨hle, hstart, isBoundary_size (a ++ p) b⟩, htake]
    have hdrop : (encode a ++ encode p).drop (size a) = encode p := List.drop_left
    rw [hdrop, decode?_eq_some_iff.2 rfl]

/-! ## Words -/

theorem indexOf?_eq_some_iff {w bytes : List UInt8} {i : Nat} :
    indexOf? w bytes = some i ↔ w <+: bytes.drop i ∧ ∀ j < i, ¬ w <+: bytes.drop j := by
  induction bytes generalizing i with
  | nil =>
    cases w with
    | nil =>
      simp only [indexOf?, List.isEmpty_nil, if_true, Option.some.injEq, List.nil_prefix, not_true_eq_false]
      constructor
      · rintro rfl
        simp
      · rintro ⟨-, h⟩
        exact (Nat.eq_zero_of_not_pos fun hi => h 0 hi).symm
    | cons x w => simp [indexOf?]
  | cons b bytes ih =>
    unfold indexOf?
    split
    · rename_i hp
      rw [List.isPrefixOf_iff_prefix] at hp
      simp only [Option.some.injEq]
      constructor
      · rintro rfl
        exact ⟨hp, by simp⟩
      · rintro ⟨-, h⟩
        exact (Nat.eq_zero_of_not_pos fun hi => h 0 hi hp).symm
    · rename_i hp
      rw [List.isPrefixOf_iff_prefix] at hp
      simp only [Option.map_eq_some_iff, ih]
      constructor
      · rintro ⟨k, ⟨hk, hfirst⟩, rfl⟩
        refine ⟨hk, ?_⟩
        intro j hj
        cases j with
        | zero => exact hp
        | succ j => exact hfirst j (by omega)
      · rintro ⟨hi, hfirst⟩
        cases i with
        | zero => exact absurd hi hp
        | succ i => exact ⟨i, ⟨hi, fun j hj => hfirst (j + 1) (by omega)⟩, rfl⟩

theorem indexOf?_eq_none_iff {w bytes : List UInt8} :
    indexOf? w bytes = none ↔ ∀ i, ¬ w <+: bytes.drop i := by
  constructor
  · intro h i
    induction bytes generalizing i with
    | nil => cases w <;> simp_all [indexOf?]
    | cons b bytes ih =>
      unfold indexOf? at h
      split at h
      · cases h
      · rename_i hp
        cases i with
        | zero => rwa [List.isPrefixOf_iff_prefix] at hp
        | succ i => exact ih (Option.map_eq_none_iff.1 h) i
  · intro h
    cases hi : indexOf? w bytes with
    | none => rfl
    | some i => exact absurd (indexOf?_eq_some_iff.1 hi).1 (h i)

/-- The first character can be told from the bytes. -/
theorem encodeChar_append_inj {c d : Char} {r t : List UInt8}
    (h : encodeChar c ++ r = encodeChar d ++ t) : c = d ∧ r = t := by
  obtain ⟨b, w, hc, hnext⟩ := next_encodeChar c r
  obtain ⟨b', w', hd, hnext'⟩ := next_encodeChar d t
  rw [hc, hd, List.cons_append, List.cons_append, List.cons.injEq] at h
  obtain ⟨rfl, hrest⟩ := h
  rw [hrest, hnext'] at hnext
  simpa [eq_comm] using hnext

theorem encode_prefix_iff {w s : List Char} : encode w <+: encode s ↔ w <+: s := by
  constructor
  · intro h
    induction w generalizing s with
    | nil => exact List.nil_prefix
    | cons c w ih =>
      obtain ⟨r, hr⟩ := h
      rw [encode_cons, List.append_assoc] at hr
      cases s with
      | nil =>
        have hlen := congrArg List.length hr
        have hpos := encodeChar_pos c
        simp only [encode, List.flatMap_nil, List.length_append, List.length_nil] at hlen
        omega
      | cons d s =>
        obtain ⟨rfl, hrest⟩ := encodeChar_append_inj hr
        exact List.cons_prefix_cons.2 ⟨rfl, ih ⟨r, hrest⟩⟩
  · rintro ⟨r, rfl⟩
    exact ⟨encode r, (encode_append w r).symm⟩

/-- **Words among the bytes.** They start where a character does. -/
theorem encode_prefix_drop_iff {w s : List Char} (hw : w ≠ []) {i : Nat} :
    encode w <+: (encode s).drop i ↔ ∃ a, a ++ w <+: s ∧ size a = i := by
  constructor
  · intro h
    -- the first byte of the word is no continuation, so a character starts at `i`
    have hplace : isBoundary (encode s) i = true := by
      obtain ⟨c, w, rfl⟩ := List.exists_cons_of_ne_nil hw
      obtain ⟨x, u, hc, hx, -⟩ := exists_encodeChar c
      obtain ⟨r, hr⟩ := h
      rw [encode_cons, hc] at hr
      have hbyte : (encode s)[i]? = some x := by
        rw [← Nat.add_zero i, ← List.getElem?_drop, ← hr]
        rfl
      simp [isBoundary, hbyte, hx]
    obtain ⟨a, b, rfl, rfl⟩ := isBoundary_iff.1 hplace
    have hdrop : (encode (a ++ b)).drop (size a) = encode b := by
      rw [encode_append]
      exact List.drop_left
    rw [hdrop, encode_prefix_iff] at h
    exact ⟨a, (List.prefix_append_right_inj a).2 h, rfl⟩
  · rintro ⟨a, ⟨r, rfl⟩, rfl⟩
    have hdrop : (encode (a ++ w ++ r)).drop (size a) = encode w ++ encode r := by
      rw [List.append_assoc, encode_append, encode_append]
      exact List.drop_left
    rw [hdrop]
    exact List.prefix_append _ _

/-- In front of one text, the shorter part has the smaller size. -/
theorem size_lt_iff {a b s : List Char} (ha : a <+: s) (hb : b <+: s) :
    size a < size b ↔ a.length < b.length := by
  have hmono : ∀ {a b : List Char}, a <+: b → a.length < b.length → size a < size b := by
    rintro a _ ⟨t, rfl⟩ hlt
    cases t with
    | nil => simp at hlt
    | cons c t =>
      have hpos := encodeChar_pos c
      rw [size_append, size_cons]
      omega
  constructor
  · intro h
    rcases Nat.lt_trichotomy a.length b.length with hlt | heq | hgt
    · exact hlt
    · have hab := (List.prefix_of_prefix_length_le ha hb heq.le).eq_of_length heq
      rw [hab] at h
      omega
    · have := hmono (List.prefix_of_prefix_length_le hb ha hgt.le) hgt
      omega
  · intro h
    exact hmono (List.prefix_of_prefix_length_le ha hb h.le) h

/-- **The first place of a word.** -/
theorem find?_eq_some_iff {w s : List Char} (hw : w ≠ []) {i : Nat} :
    find? w s = some i ↔ ∃ a, a ++ w <+: s ∧ size a = i ∧ ∀ b, b ++ w <+: s → a.length ≤ b.length := by
  unfold find?
  rw [indexOf?_eq_some_iff, encode_prefix_drop_iff hw]
  constructor
  · rintro ⟨⟨a, ha, rfl⟩, hfirst⟩
    refine ⟨a, ha, rfl, ?_⟩
    intro b hb
    by_contra hlt
    have hsize := (size_lt_iff ((List.prefix_append b w).trans hb) ((List.prefix_append a w).trans ha)).2
      (by omega)
    exact hfirst (size b) hsize ((encode_prefix_drop_iff hw).2 ⟨b, hb, rfl⟩)
  · rintro ⟨a, ha, rfl, hfirst⟩
    refine ⟨⟨a, ha, rfl⟩, ?_⟩
    intro j hj h
    obtain ⟨b, hb, rfl⟩ := (encode_prefix_drop_iff hw).1 h
    have hlen := (size_lt_iff ((List.prefix_append b w).trans hb) ((List.prefix_append a w).trans ha)).1 hj
    have := hfirst b hb
    omega

theorem find?_eq_none_iff {w s : List Char} (hw : w ≠ []) :
    find? w s = none ↔ ∀ a, ¬ a ++ w <+: s := by
  unfold find?
  rw [indexOf?_eq_none_iff]
  simp only [encode_prefix_drop_iff hw]
  constructor
  · intro h a ha
    exact h (size a) ⟨a, ha, rfl⟩
  · rintro h i ⟨a, ha, -⟩
    exact h a ha

/-! ## Lower case -/

theorem length_encodeChar_toLower (c : Char) : (encodeChar c.toLower).length = (encodeChar c).length := by
  unfold encodeChar
  rw [toNat_toLower]
  dsimp only
  split_ifs <;> first | rfl | omega

/-- **A lower-case copy** has the size of the text. -/
theorem size_map_toLower (s : List Char) : size (s.map Char.toLower) = size s := by
  induction s with
  | nil => rfl
  | cons c s ih => rw [List.map_cons, size_cons, size_cons, ih, length_encodeChar_toLower]

end LedgerFront.Text.Utf8
