import LedgerFront.Proofs.Calendar.Ends
import LedgerFront.Proofs.Filter.Compile
import LedgerFront.Proofs.Filter.NormalForm

/-!
# Which texts stop the program

The only run without an answer is that of an instant without a UTC form, which a
literal or a cell of a date or date-time column can spell. Everything else is
given a normal form or refused.

* `ValueType.normalize_stops`, `ValueType.normalizeJson_stops`: one text, one cell.
* `compile_apply_stops`: the filters and rows that stop compilation and the
  check of the rows, which are the ones that reach such a text.
-/

namespace LedgerFront

open Compiling

namespace ValueType

/-- The text spells an instant past the end of the calendar where the type asks for a date. -/
def Escapes (t : ValueType) (raw : String) : Prop :=
  (t = date ∨ t = dateTime) ∧
    ∃ o, OffsetDateTime.ofChars? (Text.trimChars raw.toList) = some o ∧ o.PastEnd

theorem dateTime?_stops {s : List Char} :
    (Literal.dateTime? s).Stops ↔ ∃ o, OffsetDateTime.ofChars? s = some o ∧ o.PastEnd := by
  unfold Literal.dateTime?
  cases ho : OffsetDateTime.ofChars? s with
  | none => simp [Run.Stops]
  | some o =>
    have hread := OffsetDateTime.read_of_ofChars? ho
    cases hu : o.toUtc? with
    | none => simpa [Run.Stops, hu] using (OffsetDateTime.toUtc?_eq_none hread).1 hu
    | some utc =>
      have hin : ¬ o.PastEnd := fun hp => by simp [(OffsetDateTime.toUtc?_eq_none hread).2 hp] at hu
      simpa [Run.Stops, hu] using hin

theorem date?_stops {s : List Char} :
    (Literal.date? s).Stops ↔ ∃ o, OffsetDateTime.ofChars? s = some o ∧ o.PastEnd := by
  rw [Literal.date?_eq]
  exact Run.stops_map.trans dateTime?_stops

/-- **One text.** It is given a normal form or refused unless it escapes the calendar. -/
theorem normalize_stops {t : ValueType} {raw : String} :
    (t.normalize raw).Stops ↔ t.Escapes raw := by
  cases t with
  | date => exact Run.stops_map.trans (date?_stops.trans (by simp [Escapes]))
  | dateTime => exact Run.stops_map.trans (dateTime?_stops.trans (by simp [Escapes]))
  | string | enum | integer | decimal | boolean => simp [normalize, Run.Stops, Escapes]

/-- A cell whose text escapes the calendar. -/
def EscapesJson (t : ValueType) (v : Json) : Prop := ∃ raw, v = .str raw ∧ t.Escapes raw

theorem Escapes.not_text {t : ValueType} {raw : String} (h : t.Escapes raw) : t.isText = false := by
  obtain ⟨rfl | rfl, _⟩ := h <;> rfl

/-- **One cell.** It has a normal form or none unless its text escapes the calendar. -/
theorem normalizeJson_stops {t : ValueType} {v : Json} :
    (t.normalizeJson v).Stops ↔ t.EscapesJson v := by
  cases v with
  | str s =>
    by_cases ht : t.isText = true
    · -- a text column takes its cells as they are
      have hin : ¬ t.Escapes s := fun h => by simp [h.not_text] at ht
      simpa [normalizeJson, ht, EscapesJson, Run.Stops] using hin
    · simpa [normalizeJson, ht, EscapesJson] using normalize_stops
  | null | bool _ | num _ | arr _ | obj _ => simp [normalizeJson, EscapesJson, Run.Stops]

end ValueType

theorem isOneOf_stops {t : ValueType} {vs : List String} {cell : Option Json} :
    (Row.isOneOf t vs cell).Stops ↔ ∃ v, cell = some v ∧ t.EscapesJson v := by
  cases cell with
  | none => simp [Row.isOneOf, Run.Stops]
  | some v =>
    simp only [Option.some.injEq, exists_eq_left', ← ValueType.normalizeJson_stops]
    unfold Row.isOneOf
    rcases hv : t.normalizeJson v with why | _ | w <;>
      simp [hv, Run.Stops, bind, Except.bind, pure, Except.pure]

theorem RowPredicate.accepts_stops {p : RowPredicate} {row : Json} :
    (p.accepts row).Stops ↔ ∃ m v, row = .obj m ∧ Row.publicColumn? p.property m = some v ∧
      p.valueType.EscapesJson v := by
  cases row with
  | obj m => simpa [RowPredicate.accepts] using isOneOf_stops
  | null | bool _ | num _ | str _ | arr _ => simp [RowPredicate.accepts, Run.Stops]

/-- The rows are checked against the predicates in their order, each row until one fails. -/
theorem CompiledQuery.apply_stops {q : CompiledQuery} {rows : List Json} :
    (q.apply rows).Stops ↔ ∃ row ∈ rows, ∃ before p after, q.rows = before ++ p :: after ∧
      (∀ b ∈ before, b.accepts row = .ok true) ∧ (p.accepts row).Stops := by
  unfold CompiledQuery.apply
  split
  · rename_i h
    rw [List.isEmpty_iff] at h
    simp [h, Run.Stops]
  · simp only [Run.filter_stops, Run.all_stops]

/-- **Stopping.** A text, a cell, a filter and a set of rows stop the program exactly when they lead
to an instant past the end of the calendar: a filter when the parameters before go through and so do
the literals before, a row when the predicates before accept it. What a text is given is a normal form,
which is not changed again. -/
theorem compile_apply_stops (t : ValueType) (raw : String) (cell : Json) (s : CompilerSettings)
    (e : Entity) (p : Params) (q : CompiledQuery) (rows : List Json) :
    ((t.normalize raw).Stops ↔ t.Escapes raw) ∧
    (∀ v, t.normalize raw = .ok (some v) → t.IsNormal v ∧ t.normalize v = .ok (some v)) ∧
    ((t.normalizeJson cell).Stops ↔ t.EscapesJson cell) ∧
    (Run.Stops (p.compile s e).run ↔
      ∃ before k value after, p.plain s = before ++ (k, value) :: after ∧
        (∀ kv ∈ before, ∃ c, Gives (parameterCondition s e kv.1 kv.2) c) ∧
        ∃ c, e.resolve? k = some c ∧ ∃ pre x post, literals value = pre ++ x :: post ∧
          (∀ y ∈ pre, ∃ n, c.valueType.normalize y = .ok (some n)) ∧ c.valueType.Escapes x) ∧
    ((q.apply rows).Stops ↔
      ∃ row ∈ rows, ∃ before p after, q.rows = before ++ p :: after ∧
        (∀ b ∈ before, b.accepts row = .ok true) ∧
        ∃ m v, row = .obj m ∧ Row.publicColumn? p.property m = some v ∧
          p.valueType.EscapesJson v) := by
  refine ⟨ValueType.normalize_stops, ?_, ValueType.normalizeJson_stops, ?_, ?_⟩
  · intro v h
    have hv := ValueType.isNormal_of_normalize h
    exact ⟨hv, ValueType.normalize_of_isNormal hv⟩
  · simp only [Params.compile_stops, alternatives_stops, ValueType.normalize_stops]
  · simp only [CompiledQuery.apply_stops, RowPredicate.accepts_stops]

/-- **The last day west of Greenwich.** A well-formed literal that has neither a normal form nor a
refusal. -/
theorem last_day_west_stops :
    ¬ ∀ (t : ValueType) (raw : String), ∃ r, t.normalize raw = .ok r := by
  intro h
  obtain ⟨r, hr⟩ := h .dateTime "9999-12-31T23:59:59-01:00"
  have hs : (ValueType.dateTime.normalize "9999-12-31T23:59:59-01:00").Stops := by
    rw [ValueType.normalize_stops]
    exact ⟨.inr rfl, ⟨⟨Date.last, 23, 59, 59⟩, 0, -60⟩, rfl, by decide⟩
  rw [hr] at hs
  exact Run.not_stops_ok hs

end LedgerFront
