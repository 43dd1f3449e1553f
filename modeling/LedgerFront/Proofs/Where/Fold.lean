import LedgerFront.Proofs.Refusal
import LedgerFront.Proofs.Text.Blank
import LedgerFront.Proofs.Text.Cut
import LedgerFront.Where

/-!
# Reading a folded expression

Alternatives of one column are folded into an expression of one part each. The
expression is cut at its separators and nowhere else, so it is read part by part.

* `fold_eq_ok`, `fold_eq_error`: when alternatives can be folded, into what, and what else is
  refused.
* `parse?_fold`: the expression is read by the pieces of its parts.
-/

namespace LedgerFront.Where

open Text

/-- The separator stands in the text, in some letter case. -/
abbrev Separated (s : List Char) : Prop := Occurs sameLetter separator s

theorem separator_ne_nil : separator ≠ [] := by decide

theorem separator_matches : Matches sameLetter separator separator := by
  unfold Matches
  rw [List.forall₂_same]
  simp [separator, sameLetter]

theorem inert_quote : Inert sameLetter separator '\'' := by
  simp [Inert, separator, sameLetter]

theorem inert_equals : Inert sameLetter separator '=' := by
  simp [Inert, separator, sameLetter]

/-- A literal as it stands in an expression. -/
def literalChars (t : ValueType) (v : List Char) : List Char :=
  if t.isBare then v else '\'' :: (v ++ ['\''])

/-- One part of a folded expression. -/
def partChars (name : List Char) (t : ValueType) (v : List Char) : List Char :=
  name ++ ' ' :: '=' :: ' ' :: literalChars t v

/-- A part up to its equals sign and from there on. -/
theorem partChars_eq (name : List Char) (t : ValueType) (v : List Char) :
    partChars name t v = (name ++ [' ']) ++ '=' :: (' ' :: literalChars t v) := by
  simp [partChars]

/-- The alternative can stand between quotes, where the type has them. -/
def Embeds (t : ValueType) (v : String) : Prop := t.isBare = false → '\'' ∉ v.toList

theorem part_eq_ok {name v p : String} {t : ValueType} :
    part name t v = .ok p ↔ Embeds t v ∧ p.toList = partChars name.toList t v.toList := by
  unfold part literal? Embeds partChars literalChars
  cases t.isBare with
  | true => simp [← String.toList_inj, eq_comm]
  | false =>
    by_cases hq : '\'' ∈ v.toList
    · simp [hq]
    · simp [hq, ← String.toList_inj, eq_comm]

theorem mapM_part_eq_ok {name : String} {t : ValueType} {values parts : List String} :
    values.mapM (part name t) = .ok parts ↔ (∀ v ∈ values, Embeds t v) ∧
      parts.map String.toList = values.map fun v => partChars name.toList t v.toList := by
  induction values generalizing parts with
  | nil => simp [pure, Except.pure, eq_comm]
  | cons v values ih =>
    rw [List.mapM_cons, List.forall_mem_cons, List.map_cons]
    constructor
    · intro h
      cases hv : part name t v with
      | error e => simp [hv, bind, Except.bind] at h
      | ok p =>
        cases hvs : values.mapM (part name t) with
        | error e => simp [hv, hvs, bind, Except.bind] at h
        | ok ps =>
          obtain rfl : p :: ps = parts := by simpa [hv, hvs, bind, Except.bind, pure, Except.pure] using h
          obtain ⟨he, hp⟩ := part_eq_ok.1 hv
          obtain ⟨hes, hps⟩ := ih.1 hvs
          exact ⟨⟨he, hes⟩, by rw [List.map_cons, hp, hps]⟩
    · rintro ⟨⟨he, hes⟩, hparts⟩
      cases parts with
      | nil => simp at hparts
      | cons p ps =>
        obtain ⟨hp, hps⟩ := List.cons_eq_cons.1 hparts
        rw [part_eq_ok.2 ⟨he, hp⟩, ih.2 ⟨hes, hps⟩]
        rfl

/-- **Folding.** It goes through when all alternatives can be embedded, and joins their parts. -/
theorem fold_eq_ok {name e : String} {t : ValueType} {values : List String} :
    fold name t values = .ok e ↔ (∀ v ∈ values, Embeds t v) ∧
      e.toList = separator.intercalate (values.map fun v => partChars name.toList t v.toList) := by
  unfold fold
  constructor
  · intro h
    cases hp : values.mapM (part name t) with
    | error v => simp [hp, bind, Except.bind] at h
    | ok parts =>
      obtain rfl : " or ".intercalate parts = e := by
        simpa [hp, bind, Except.bind, pure, Except.pure] using h
      obtain ⟨he, hparts⟩ := mapM_part_eq_ok.1 hp
      exact ⟨he, by rw [String.toList_intercalate, hparts]; rfl⟩
  · rintro ⟨he, hchars⟩
    have hp : values.mapM (part name t) =
        .ok (values.map fun v => String.ofList (partChars name.toList t v.toList)) :=
      mapM_part_eq_ok.2 ⟨he, by simp⟩
    rw [hp]
    refine congrArg Except.ok (String.toList_inj.1 ?_)
    rw [String.toList_intercalate, hchars, List.map_map]
    simp [Function.comp_def, separator]

theorem part_eq_error {name v w : String} {t : ValueType} :
    part name t v = .error w ↔ v = w ∧ ¬ Embeds t v := by
  unfold part literal? Embeds
  cases t.isBare with
  | true => simp
  | false => by_cases hq : '\'' ∈ v.toList <;> simp [hq]

theorem exists_part_eq_ok {name v : String} {t : ValueType} :
    (∃ p, part name t v = .ok p) ↔ Embeds t v := by
  simp only [part_eq_ok]
  constructor
  · rintro ⟨_, he, _⟩
    exact he
  · intro he
    exact ⟨.ofList (partChars name.toList t v.toList), he, by simp⟩

/-- Folding is refused for the first alternative that cannot be embedded. -/
theorem fold_eq_error {name v : String} {t : ValueType} {values : List String} :
    fold name t values = .error v ↔ ∃ before after, values = before ++ v :: after ∧
      (∀ w ∈ before, Embeds t w) ∧ ¬ Embeds t v := by
  have hparts : fold name t values = .error v ↔ values.mapM (part name t) = .error v :=
    bind_eq_error.trans (or_iff_left (by simp [pure, Except.pure]))
  simp only [hparts, mapM_eq_error, exists_part_eq_ok, part_eq_error]
  constructor
  · rintro ⟨before, _, after, hl, hbefore, rfl, hv⟩
    exact ⟨before, after, hl, hbefore, hv⟩
  · rintro ⟨before, after, hl, hbefore, hv⟩
    exact ⟨before, v, after, hl, hbefore, rfl, hv⟩

/-- The text of an alternative ends in a character that no part of a separator matches. -/
def Sealed (t : ValueType) (v : String) : Prop :=
  t.isBare = true → ∃ a e, v.toList = a ++ [e] ∧ Inert sameLetter separator e

theorem partChars_sealed {t : ValueType} {v : String} (h : Sealed t v) (name : List Char) :
    ∃ a e, partChars name t v.toList = a ++ [e] ∧ Inert sameLetter separator e := by
  unfold partChars literalChars
  cases ht : t.isBare with
  | true =>
    obtain ⟨a, e, hv, he⟩ := h ht
    exact ⟨name ++ ' ' :: '=' :: ' ' :: a, e, by simp [hv], he⟩
  | false => exact ⟨name ++ ' ' :: '=' :: ' ' :: '\'' :: v.toList, '\'', by simp, inert_quote⟩

/-- **Part by part.** A folded expression is cut into the pieces of its parts. -/
theorem parse?_fold {name e : String} {t : ValueType} {values : List String} (hne : values ≠ [])
    (hs : ∀ v ∈ values, Sealed t v) (h : fold name t values = .ok e) :
    parse? e = (values.flatMap fun v =>
      cutAt sameLetter separator (partChars name.toList t v.toList)).mapM term? := by
  obtain ⟨_, hchars⟩ := fold_eq_ok.1 h
  unfold parse?
  rw [hchars, cutAt_intercalate separator_ne_nil separator_matches (by simpa using hne),
    List.flatMap_map]
  intro p hp
  obtain ⟨v, hv, rfl⟩ := List.mem_map.1 hp
  exact partChars_sealed (hs v hv) _

end LedgerFront.Where
