import LedgerFront.Text.Blank
import Mathlib.Data.List.TakeWhile

/-!
# Trimming

A text is trimmed to the part between its first and its last character that is
not blank.

* `isInfix_trimChars`: the trimmed text stands in the text.
* `trimChars_of_ends`: a text without blanks at its ends is not changed.
* `trimChars_cons`, `trimChars_concat`: a blank at an end does not matter.
* `exists_blanks`: a text is its trimmed part with blanks around it.
-/

namespace LedgerFront.Text

theorem isPrefix_trimEnd (s : List Char) : trimEnd s <+: s := by
  unfold trimEnd
  have h := List.dropWhile_suffix isBlank (l := s.reverse)
  simpa using List.reverse_prefix.2 h

theorem isInfix_trimChars (s : List Char) : trimChars s <:+: s :=
  (isPrefix_trimEnd _).isInfix.trans (List.dropWhile_suffix isBlank).isInfix

theorem trimEnd_concat {b : Char} (h : isBlank b = true) (s : List Char) :
    trimEnd (s ++ [b]) = trimEnd s := by
  simp [trimEnd, h]

theorem trimEnd_of_last {c : Char} (h : isBlank c = false) (s : List Char) :
    trimEnd (s ++ [c]) = s ++ [c] := by
  simp [trimEnd, h]

theorem trimChars_cons {b : Char} (h : isBlank b = true) (s : List Char) :
    trimChars (b :: s) = trimChars s := by
  simp [trimChars, trimStart, h]

theorem trimChars_concat {b : Char} (h : isBlank b = true) (s : List Char) :
    trimChars (s ++ [b]) = trimChars s := by
  unfold trimChars trimStart
  rw [List.dropWhile_append]
  split
  · rename_i he
    rw [List.isEmpty_iff.1 he]
    simp [h]
  · exact trimEnd_concat h _

theorem trimStart_of_head {c : Char} (h : isBlank c = false) (s : List Char) :
    trimStart (c :: s) = c :: s := by
  simp [trimStart, h]

/-- A text without blanks at its ends is not changed. -/
theorem trimChars_of_ends {s : List Char} (hhead : ∀ c, s.head? = some c → isBlank c = false)
    (hlast : ∀ c, s.getLast? = some c → isBlank c = false) : trimChars s = s := by
  cases s with
  | nil => rfl
  | cons c s =>
    unfold trimChars
    rw [trimStart_of_head (hhead c rfl)]
    obtain ⟨t, d, hd⟩ : ∃ t d, c :: s = t ++ [d] :=
      ⟨_, _, (List.dropLast_concat_getLast (List.cons_ne_nil c s)).symm⟩
    rw [hd]
    exact trimEnd_of_last (hlast d (by simp [hd])) t

theorem trimChars_of_not_blank {s : List Char} (h : ∀ c ∈ s, isBlank c = false) : trimChars s = s :=
  trimChars_of_ends (fun c hc => h c (List.mem_of_mem_head? hc))
    fun c hc => h c (List.mem_of_getLast? hc)

/-- A text that starts with a character that is not blank still does after trimming. -/
theorem trimChars_of_head {c : Char} (h : isBlank c = false) (s : List Char) :
    ∃ t, trimChars (c :: s) = c :: t ∧ t <+: s := by
  unfold trimChars
  rw [trimStart_of_head h]
  obtain ⟨u, hu⟩ := isPrefix_trimEnd (c :: s)
  cases ht : trimEnd (c :: s) with
  | nil =>
    -- the first character is kept, so the text does not get empty
    exfalso
    have hnil : (s.reverse ++ [c]).dropWhile isBlank = [] := by simpa [trimEnd] using ht
    rw [List.dropWhile_append] at hnil
    split at hnil
    · simp [h] at hnil
    · simp at hnil
  | cons d t =>
    rw [ht] at hu
    obtain ⟨rfl, rfl⟩ := List.cons_eq_cons.1 hu
    exact ⟨t, rfl, List.prefix_append t u⟩

theorem trimChars_blanks_append {l : List Char} (h : ∀ b ∈ l, isBlank b = true) (s : List Char) :
    trimChars (l ++ s) = trimChars s := by
  induction l with
  | nil => rfl
  | cons b l ih =>
    rw [List.cons_append, trimChars_cons (h b (by simp))]
    exact ih fun x hx => h x (by simp [hx])

theorem trimChars_append_blanks {r : List Char} (h : ∀ b ∈ r, isBlank b = true) (s : List Char) :
    trimChars (s ++ r) = trimChars s := by
  induction r generalizing s with
  | nil => rw [List.append_nil]
  | cons b r ih =>
    rw [List.append_cons, ih (fun x hx => h x (by simp [hx])), trimChars_concat (h b (by simp))]

/-- **A text is its trimmed part** with blanks around it. -/
theorem exists_blanks (s : List Char) : ∃ l r, s = l ++ trimChars s ++ r ∧
    (∀ b ∈ l, isBlank b = true) ∧ ∀ b ∈ r, isBlank b = true := by
  have hblank (t : List Char) : ∀ b ∈ t.takeWhile isBlank, isBlank b = true :=
    fun b hb => List.mem_takeWhile_imp hb
  refine ⟨s.takeWhile isBlank, ((trimStart s).reverse.takeWhile isBlank).reverse, ?_, hblank s, ?_⟩
  · have hend : trimStart s = trimChars s ++ ((trimStart s).reverse.takeWhile isBlank).reverse := by
      rw [trimChars, trimEnd, ← List.reverse_append, List.takeWhile_append_dropWhile,
        List.reverse_reverse]
    rw [List.append_assoc, ← hend, trimStart, List.takeWhile_append_dropWhile]
  · intro b hb
    exact hblank _ b (List.mem_reverse.1 hb)

theorem length_trimChars_le (s : List Char) : (trimChars s).length ≤ s.length :=
  (isInfix_trimChars s).length_le

end LedgerFront.Text
