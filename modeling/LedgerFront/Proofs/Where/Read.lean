import LedgerFront.Proofs.Text.Letter
import LedgerFront.Proofs.Where.Fold
import LedgerFront.Proofs.Where.Piece

/-!
# Which terms a folded expression is read as

Under a readable name every alternative without a separator is read as the term
that it was written as.

* `ReadableName`: names that stand unchanged in front of an expression.
* `separated_partChars`: where a part of an expression is torn apart.
* `parse?_fold_readable`: what is read under a readable name.
-/

namespace LedgerFront.Where

open Text

theorem toLower_eq_space {c : Char} (h : c.toLower = ' ') : c = ' ' :=
  (toLower_eq_iff (by decide) (by decide)).1 h

theorem matches_iff {sep m : List Char} : Matches sameLetter sep m ↔ m.map Char.toLower = sep := by
  have heq : Matches sameLetter sep m ↔ List.Forall₂ (· = ·) sep (m.map Char.toLower) := by
    rw [List.forall₂_map_right_iff]
    simp only [Matches, sameLetter, beq_iff_eq]
  rw [heq, List.forall₂_eq_eq_eq, eq_comm]

/-- An instance of the separator has a space at each end. -/
theorem matches_shape {m : List Char} (h : Matches sameLetter separator m) :
    ∃ o r, m = [' ', o, r, ' '] := by
  unfold Matches separator at h
  simp only [List.forall₂_cons_left_iff, List.forall₂_nil_left_iff, sameLetter, beq_iff_eq] at h
  obtain ⟨a, _, ha, ⟨o, _, _, ⟨r, _, _, ⟨b, _, hb, rfl, rfl⟩, rfl⟩, rfl⟩, rfl⟩ := h
  rw [toLower_eq_space ha.symm, toLower_eq_space hb.symm]
  exact ⟨o, r, rfl⟩

theorem not_separated_of_length {s : List Char} (h : s.length < 4) : ¬ Separated s := by
  rintro ⟨m, hm, hin⟩
  obtain ⟨o, r, rfl⟩ := matches_shape hm
  have := hin.length_le
  simp at this
  omega

/-- A text without spaces does not hold the separator, also behind a space. -/
theorem not_separated_of_space {s : List Char} (h : ' ' ∉ s) : ¬ Separated (' ' :: s) := by
  rintro ⟨m, hm, hin⟩
  obtain ⟨o, r, rfl⟩ := matches_shape hm
  obtain hp | hin := List.infix_cons_iff.1 hin
  · obtain ⟨-, hp⟩ := List.cons_prefix_cons.1 hp
    exact h (hp.subset (by simp))
  · exact h (hin.subset (by simp))

/-- A text without blanks, quotes and equals signs, of which there is at least one character. -/
def IsWord (v : List Char) : Prop :=
  v ≠ [] ∧ ∀ c ∈ v, isBlank c = false ∧ c ≠ '=' ∧ c ≠ '\''

/-- A name that stands unchanged in front of an expression. -/
structure ReadableName (name : List Char) : Prop where
  ne : name ≠ []
  trimmed : trimChars name = name
  noEquals : '=' ∉ name
  whole : ¬ Separated (name ++ [' '])

instance (name : List Char) : Decidable (ReadableName name) :=
  decidable_of_iff (name ≠ [] ∧ trimChars name = name ∧ '=' ∉ name ∧ ¬ Separated (name ++ [' ']))
    ⟨fun ⟨h1, h2, h3, h4⟩ => ⟨h1, h2, h3, h4⟩, fun h => ⟨h.ne, h.trimmed, h.noEquals, h.whole⟩⟩

/-- A part of an expression is read as the term that it was written as. -/
theorem term?_partChars {name : List Char} {t : ValueType} {v : List Char} (hn : ReadableName name)
    (hv : t.isBare = true → IsWord v) :
    term? (partChars name t v) = some ⟨String.ofList name, String.ofList v, !t.isBare⟩ := by
  have hsplit : splitFirst? '=' (partChars name t v) =
      some (name ++ [' '], ' ' :: literalChars t v) := by
    rw [partChars_eq, splitFirst?_append (by simpa using hn.noEquals)]
  have hname : trimChars (name ++ [' ']) = name := by
    rw [trimChars_concat (by decide), hn.trimmed]
  have hliteral : trimChars (' ' :: literalChars t v) = literalChars t v := by
    rw [trimChars_cons (by decide)]
    unfold literalChars
    cases ht : t.isBare with
    | true => exact trimChars_of_not_blank fun c hc => ((hv ht).2 c hc).1
    | false =>
      refine trimChars_of_ends (fun c hc => ?_) fun c hc => ?_
      · obtain rfl : '\'' = c := by simpa using hc
        decide
      · obtain rfl : '\'' = c := by
          simpa [List.getLast?_cons, List.getLast?_concat] using hc
        decide
  unfold term?
  simp only [hsplit, bind, Option.bind_some, hname, hliteral]
  unfold literalChars
  cases ht : t.isBare with
  | true =>
    have hquote : unquote? v = none := by
      rw [Option.eq_none_iff_forall_ne_some]
      intro u hu
      have := unquote?_eq_some.1 hu
      exact ((hv ht).2 '\'' (by simp [this])).2.2 rfl
    simp [hn.ne, (hv ht).1, hquote]
  | false =>
    have hquote : unquote? ('\'' :: (v ++ ['\''])) = some v := unquote?_eq_some.2 rfl
    simp [hn.ne, hquote]

/-- A part holds the separator where its name or its text between quotes does. -/
theorem separated_partChars {name : List Char} {t : ValueType} {v : List Char}
    (hv : t.isBare = true → IsWord v) : Separated (partChars name t v) ↔
      Separated (name ++ [' ']) ∨ t.isBare = false ∧ Separated v := by
  unfold Separated
  -- the equals sign and the quotes are in no separator
  rw [partChars_eq, occurs_append_inert inert_equals]
  refine or_congr Iff.rfl ?_
  unfold literalChars
  cases ht : t.isBare with
  | true =>
    have hspace : ' ' ∉ v := fun h => absurd ((hv ht).2 ' ' h).1 (by decide)
    simpa using not_separated_of_space hspace
  | false =>
    have hquote : (' ' :: '\'' :: (v ++ ['\''])) = [' '] ++ '\'' :: (v ++ '\'' :: []) := rfl
    simp only [Bool.false_eq_true, if_false, true_and]
    rw [hquote, occurs_append_inert inert_quote, occurs_append_inert inert_quote]
    have h1 : ¬ Separated [' '] := not_separated_of_length (by decide)
    have h0 : ¬ Separated [] := not_separated_of_length (by decide)
    simp only [h1, h0, or_false, false_or]

/-- **Readable names.** Alternatives without separators are read as they were written. -/
theorem parse?_fold_readable {name e : String} {t : ValueType} {values : List String}
    (hne : values ≠ []) (hn : ReadableName name.toList) (hs : ∀ v ∈ values, Sealed t v)
    (hw : ∀ v ∈ values, t.isBare = true → IsWord v.toList)
    (hwhole : t.isBare = false → ∀ v ∈ values, ¬ Separated v.toList)
    (h : fold name t values = .ok e) :
    parse? e = some (values.map fun v => ⟨name, v, !t.isBare⟩) := by
  rw [parse?_fold hne hs h]
  -- every part is one piece
  have hpieces : (values.flatMap fun v =>
      cutAt sameLetter separator (partChars name.toList t v.toList)) =
        values.map fun v => partChars name.toList t v.toList := by
    rw [List.map_eq_flatMap]
    refine List.flatMap_congr fun v hv => cutAt_of_not_occurs separator_ne_nil ?_
    intro hsep
    obtain hsep | ⟨ht, hsep⟩ := (separated_partChars (hw v hv)).1 hsep
    · exact hn.whole hsep
    · exact hwhole ht v hv hsep
  rw [hpieces, mapM_eq_some, List.forall₂_map_left_iff, List.forall₂_map_right_iff, List.forall₂_same]
  intro v hv
  have hterm := term?_partChars hn (hw v hv)
  simpa only [String.ofList_toList] using hterm

end LedgerFront.Where
