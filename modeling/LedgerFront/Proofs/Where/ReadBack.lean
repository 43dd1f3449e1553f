import LedgerFront.Proofs.Filter.Faithful

/-!
# Which folded expressions are read back

Under the name of a column without blanks and equals signs, alternatives that are
normal forms are read back as they were folded exactly when none of them holds the
separator. A number or a truth value never does.

* `separated_iff`: the separator stands in a text when it stands in its lower-case form.
* `readableName_of_solid`: names that stand unchanged in front of an expression.
* `parse?_fold_iff`: the expressions that are read back.
-/

namespace LedgerFront.Where

open Text

/-- The separator stands in a text in some letter case when it stands in the lower-case form. -/
theorem separated_iff {v : String} :
    Separated v.toList ↔ " or ".toList <:+: (lower v).toList := by
  have hlower : (lower v).toList = v.toList.map Char.toLower := by simp [lower]
  rw [hlower]
  constructor
  · rintro ⟨m, hm, hin⟩
    rw [show " or ".toList = separator from rfl, ← matches_iff.1 hm]
    exact hin.map Char.toLower
  · rintro ⟨a, b, h⟩
    obtain ⟨am, b', hv, ham, _⟩ := List.map_eq_append_iff.1 h.symm
    obtain ⟨a', m, rfl, _, hm⟩ := List.map_eq_append_iff.1 ham
    exact ⟨m, matches_iff.2 hm, a', b', hv.symm⟩

/-- A text without blanks does not hold the separator. -/
theorem not_separated_of_not_blank {s : List Char} (h : ∀ c ∈ s, isBlank c = false) :
    ¬ Separated s := by
  have hspace : ' ' ∉ s := fun hc => absurd (h ' ' hc) (by decide)
  exact fun hsep => not_separated_of_space hspace (hsep.of_infix (List.suffix_cons ' ' s).isInfix)

/-- A name without blanks and equals signs is readable. -/
theorem readableName_of_solid {name : List Char} (hne : name ≠ [])
    (h : ∀ c ∈ name, isBlank c = false ∧ c ≠ '=') : ReadableName name := by
  have hblank : ∀ c ∈ name, isBlank c = false := fun c hc => (h c hc).1
  refine ⟨hne, trimChars_of_not_blank hblank, fun hc => (h '=' hc).2 rfl, ?_⟩
  rintro ⟨m, hm, hin⟩
  obtain ⟨o, r, rfl⟩ := matches_shape hm
  -- the space behind the name can only be the last one of the separator
  obtain hsuffix | hin := List.infix_concat_iff.1 hin
  · obtain ⟨a, ha⟩ := hsuffix
    have hconcat : a ++ [' ', o, r] ++ [' '] = name ++ [' '] := by simpa using ha
    have hname := List.append_cancel_right hconcat
    exact absurd (hblank ' ' (by simp [← hname])) (by decide)
  · exact not_separated_of_not_blank hblank ⟨_, hm, hin⟩

/-- **Reading back.** Normal forms of one column are read back as they were folded when and only when
none of them holds the separator, in whatever letter case. -/
theorem parse?_fold_iff {c : Column} {values : List String} {e : String} (hne : c.name ≠ "")
    (hsolid : ∀ ch ∈ c.name.toList, isBlank ch = false ∧ ch ≠ '=') (hvalues : values ≠ [])
    (hnormal : ∀ v ∈ values, ∃ raw, c.valueType.normalize raw = .ok (some v))
    (h : fold c.name c.valueType values = .ok e) :
    parse? e = some (values.map fun v => ⟨c.name, v, !c.valueType.isBare⟩) ↔
      ∀ v ∈ values, ¬ " or ".toList <:+: (lower v).toList := by
  have hword : ∀ v ∈ values, c.valueType.isBare = true → IsWord v.toList ∧ Sealed c.valueType v := by
    intro v hv hbare
    obtain ⟨raw, hraw⟩ := hnormal v hv
    exact ValueType.isWord_of_isNormal (ValueType.isNormal_of_normalize hraw) hbare
  simp only [← separated_iff]
  constructor
  · intro hparse v hv
    cases hbare : c.valueType.isBare with
    | true => exact not_separated_of_not_blank fun ch hch => (((hword v hv hbare).1).2 ch hch).1
    | false => exact literal_not_separated hparse (List.mem_map_of_mem hv) (by simp [hbare])
  · intro hwhole
    exact parse?_fold_readable hvalues (readableName_of_solid (by simpa using hne) hsolid)
      (fun v hv hbare => (hword v hv hbare).2 hbare) (fun v hv hbare => (hword v hv hbare).1)
      (fun _ v hv => hwhole v hv) h

/-- A text that holds the separator in upper case is folded, and not read back. -/
theorem parse?_fold_torn :
    fold "Kind" .string ["Screws", "Bits OR pieces"] =
      .ok "Kind = 'Screws' or Kind = 'Bits OR pieces'" ∧
    parse? "Kind = 'Screws' or Kind = 'Bits OR pieces'" ≠
      some [⟨"Kind", "Screws", true⟩, ⟨"Kind", "Bits OR pieces", true⟩] := by
  have hfold : fold "Kind" .string ["Screws", "Bits OR pieces"] =
      .ok "Kind = 'Screws' or Kind = 'Bits OR pieces'" := by decide +kernel
  refine ⟨hfold, fun hparse => ?_⟩
  -- a test of this list; over all characters it would not be decided
  have hsolid : "Kind".toList.all fun ch => decide (isBlank ch = false ∧ ch ≠ '=') := by
    decide +kernel
  have hwhole := (parse?_fold_iff (c := ⟨"Kind", .property, .string⟩) (by decide)
    (fun ch hch => of_decide_eq_true (List.all_eq_true.1 hsolid ch hch)) (by decide)
    (fun v _ => ⟨v, rfl⟩) hfold).1 hparse
  exact hwhole "Bits OR pieces" (by simp) (by decide +kernel)

end LedgerFront.Where
