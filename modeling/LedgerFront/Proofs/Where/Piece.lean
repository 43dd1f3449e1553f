import LedgerFront.Proofs.Text.Cut
import LedgerFront.Where

/-!
# What a piece of an expression spells

A piece is a name and a literal around its first equals sign. Blanks around each
do not count, and something else has to be left of both. A literal that starts
and ends with a quote is a text between quotes, unless these are one and the
same.

* `Malformed`: pieces that are refused.
* `Spells`: the term that any other piece stands for.
* `term?_eq_some_iff`, `term?_eq_none_iff`: pieces are read so.
-/

namespace LedgerFront.Where

open Text

/-- The parts of a piece in front of its first equals sign and behind it. -/
def Halves (piece a b : List Char) : Prop := piece = a ++ '=' :: b ∧ '=' ∉ a

/-- A piece without an equals sign, or with only blanks on one side of the first one. -/
def Malformed (piece : List Char) : Prop :=
  '=' ∉ piece ∨ ∃ a b, Halves piece a b ∧ (trimChars a = [] ∨ trimChars b = [])

/-- The text starts and ends with a quote, and these are two. -/
def InQuotes (s : List Char) : Prop := s.head? = some '\'' ∧ s.getLast? = some '\'' ∧ 2 ≤ s.length

instance (s : List Char) : Decidable (InQuotes s) := inferInstanceAs (Decidable (_ ∧ _ ∧ _))

/-- The text without the quotes that it stands in. -/
def unquoted (s : List Char) : List Char := if InQuotes s then s.tail.dropLast else s

/-- **What a piece spells**: a name and a literal around its first equals sign, without the blanks
around each, the literal without its quotes. -/
def Spells (piece : List Char) (t : Term) : Prop :=
  ∃ a b, Halves piece a b ∧ trimChars a ≠ [] ∧ trimChars b ≠ [] ∧
    t.name.toList = trimChars a ∧ t.literal.toList = unquoted (trimChars b) ∧
    (t.quoted = true ↔ InQuotes (trimChars b))

theorem unquote?_eq_some {s v : List Char} : unquote? s = some v ↔ s = '\'' :: (v ++ ['\'']) := by
  unfold unquote?
  split
  · rename_i r
    constructor
    · intro h
      split at h
      · rename_i hlast
        obtain ⟨u, rfl⟩ := List.getLast?_eq_some_iff.1 hlast
        rw [List.dropLast_concat, Option.some.injEq] at h
        rw [h]
      · exact absurd h (by simp)
    · intro h
      obtain ⟨-, rfl⟩ := List.cons_eq_cons.1 h
      simp
  · rename_i hno
    constructor
    · simp
    · rintro rfl
      exact absurd rfl (hno _)

theorem inQuotes_iff {s : List Char} : InQuotes s ↔ ∃ v, s = '\'' :: (v ++ ['\'']) := by
  constructor
  · rintro ⟨hhead, hlast, hlen⟩
    cases s with
    | nil => simp at hhead
    | cons c r =>
      obtain rfl : c = '\'' := by simpa using hhead
      rcases List.eq_nil_or_concat r with rfl | ⟨v, d, rfl⟩
      · simp at hlen
      · obtain rfl : d = '\'' := by simpa [List.getLast?_cons] using hlast
        exact ⟨v, by rw [List.concat_eq_append]⟩
  · rintro ⟨v, rfl⟩
    refine ⟨rfl, ?_, ?_⟩
    · simp [List.getLast?_cons]
    · simp

/-- A text in quotes is the text without them, and a quote at each end. -/
theorem eq_of_inQuotes {s : List Char} (h : InQuotes s) : s = '\'' :: (unquoted s ++ ['\'']) := by
  rw [unquoted, if_pos h]
  obtain ⟨v, rfl⟩ := inQuotes_iff.1 h
  rw [List.tail_cons, List.dropLast_concat]

theorem unquote?_of_inQuotes {s : List Char} (h : InQuotes s) : unquote? s = some (unquoted s) :=
  unquote?_eq_some.2 (eq_of_inQuotes h)

theorem unquote?_of_not_inQuotes {s : List Char} (h : ¬ InQuotes s) : unquote? s = none := by
  rw [Option.eq_none_iff_forall_ne_some]
  intro v hv
  exact h (inQuotes_iff.2 ⟨v, unquote?_eq_some.1 hv⟩)

/-- The parts around the first equals sign decide what is read. -/
theorem term?_of_halves {piece a b : List Char} (h : Halves piece a b) :
    term? piece = if trimChars a = [] ∨ trimChars b = [] then none
      else some ⟨String.ofList (trimChars a), String.ofList (unquoted (trimChars b)),
        decide (InQuotes (trimChars b))⟩ := by
  have hsplit : splitFirst? '=' piece = some (a, b) := splitFirst?_eq_some_iff.2 h
  unfold term?
  simp only [hsplit, bind, Option.bind_some, Bool.or_eq_true, List.isEmpty_iff]
  split
  · rfl
  · by_cases hq : InQuotes (trimChars b)
    · simp [unquote?_of_inQuotes hq, hq]
    · simp [unquote?_of_not_inQuotes hq, hq, unquoted]

theorem halves_unique {piece a b a' b' : List Char} (h : Halves piece a b) (h' : Halves piece a' b') :
    a = a' ∧ b = b' := by
  have hsplit := (splitFirst?_eq_some_iff.2 h).symm.trans (splitFirst?_eq_some_iff.2 h')
  simpa using hsplit

theorem halves_or (piece : List Char) : '=' ∉ piece ∨ ∃ a b, Halves piece a b := by
  cases h : splitFirst? '=' piece with
  | none => exact .inl (splitFirst?_eq_none_iff.1 h)
  | some p => exact .inr ⟨p.1, p.2, splitFirst?_eq_some_iff.1 h⟩

/-- **Terms.** A piece is read as the term that it spells. -/
theorem term?_eq_some_iff {piece : List Char} {t : Term} : term? piece = some t ↔ Spells piece t := by
  rcases halves_or piece with hno | ⟨a, b, h⟩
  · have hnone : term? piece = none := by
      unfold term?
      rw [splitFirst?_eq_none_iff.2 hno]
      rfl
    rw [hnone]
    constructor
    · intro h
      cases h
    · rintro ⟨a, b, ⟨rfl, -⟩, -⟩
      exact absurd (by simp) hno
  · rw [term?_of_halves h]
    constructor
    · intro ht
      split at ht
      · cases ht
      · rename_i hne
        rw [not_or] at hne
        cases ht
        exact ⟨a, b, h, hne.1, hne.2, by simp, by simp, by simp⟩
    · rintro ⟨a', b', h', ha, hb, hname, hliteral, hquoted⟩
      obtain ⟨rfl, rfl⟩ := halves_unique h h'
      rw [if_neg (not_or.2 ⟨ha, hb⟩), ← hname, ← hliteral]
      have hq : decide (InQuotes (trimChars b)) = t.quoted := by
        rw [Bool.eq_iff_iff, decide_eq_true_iff, hquoted]
      simp [hq]

/-- A piece that is malformed is not read. -/
theorem term?_eq_none_iff {piece : List Char} : term? piece = none ↔ Malformed piece := by
  unfold Malformed
  rcases halves_or piece with hno | ⟨a, b, h⟩
  · refine iff_of_true ?_ (.inl hno)
    unfold term?
    rw [splitFirst?_eq_none_iff.2 hno]
    rfl
  · have hmem : '=' ∈ piece := by
      rw [h.1]
      simp
    rw [term?_of_halves h, or_iff_right (not_not.2 hmem)]
    constructor
    · intro hnone
      refine ⟨a, b, h, ?_⟩
      by_contra hne
      rw [if_neg hne] at hnone
      cases hnone
    · rintro ⟨a', b', h', hblank⟩
      obtain ⟨rfl, rfl⟩ := halves_unique h h'
      rw [if_pos hblank]

end LedgerFront.Where
