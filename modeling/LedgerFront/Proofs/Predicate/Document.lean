import LedgerFront.Predicate
import LedgerFront.Proofs.Json.Decode
import LedgerFront.Proofs.Json.Place

/-!
# The documents of predicates

A predicate has many documents: objects in any order of their keys and with unknown ones, arrays, and
names of choices that come as keys.

* `PropertyMatch.Describes`: the fields of a match, one by one.
* `Predicate.Document`: the documents of a predicate.
* `Predicate.decode?_eq_some_iff`: a value is decoded as the predicate whose document it is.
* `Predicate.document_encode`: what a predicate is encoded as is one of its documents.
-/

namespace LedgerFront

variable {j : Json} {fields : Members} {isUnit : Json → Bool} {name : String}

namespace Json

/-- The name of a choice, by itself or as the only key of an object. -/
def Chooses (isUnit : Json → Bool) (name : String) (j : Json) : Prop :=
  j = .str name ∨ ∃ v, isUnit v = true ∧ j = .obj [(name, v)]

theorem choice?_eq_some : j.choice? isUnit = some name ↔ j.Chooses isUnit name := by
  unfold choice?
  split
  · simp [Chooses]
  · rename_i k v
    simp only [Chooses, reduceCtorEq, false_or, obj.injEq, List.cons.injEq, Prod.mk.injEq, and_true]
    constructor
    · intro h
      obtain ⟨hv, rfl⟩ : isUnit v = true ∧ k = name := by simpa using h
      exact ⟨v, hv, rfl, rfl⟩
    · rintro ⟨w, hw, rfl, rfl⟩
      rw [if_pos hw]
  · rename_i hstr hobj
    constructor
    · simp
    · rintro (rfl | ⟨v, -, rfl⟩)
      · exact absurd rfl (hstr name)
      · exact absurd rfl (hobj name v)

theorem fields?_eq_some {names : List String} : j.fields? names = some fields ↔
    j = .obj fields ∨ ∃ a, j = .arr a ∧ a.length ≤ names.length ∧ fields = names.zip a := by
  cases j <;> simp [fields?, eq_comm]

end Json

theorem FieldKind.ofName?_eq_some {k : FieldKind} : FieldKind.ofName? name = some k ↔ name = k.name := by
  constructor
  · intro h
    unfold FieldKind.ofName? at h
    split at h
    · cases h; rfl
    · cases h; rfl
    · cases h
  · rintro rfl
    cases k <;> rfl

theorem ValueType.ofName?_eq_some {t : ValueType} : ValueType.ofName? name = some t ↔ name = t.name := by
  constructor
  · intro h
    have hname := List.find?_some h
    exact (beq_iff_eq.1 hname).symm
  · rintro rfl
    cases t <;> decide

/-! ## Matches -/

namespace PropertyMatch

variable {m : PropertyMatch}

/-- The fields of the match, one by one. -/
structure Describes (isUnit : Json → Bool) (fields : Members) (m : PropertyMatch) : Prop where
  property : fields.lookup "property" = some (.str m.property)
  kind : ∃ v, fields.lookup "kind" = some v ∧ v.Chooses isUnit m.kind.name
  valueType : ∃ v, fields.lookup "value_type" = some v ∧ v.Chooses isUnit m.valueType.name
  values : fields.lookup "values" = some (.arr (m.values.map .str))

theorem ofFields?_eq_some : ofFields? isUnit fields = some m ↔ m.Describes isUnit fields := by
  unfold ofFields?
  simp only [Option.bind_eq_bind, Option.bind_eq_some_iff, Fields.required_eq_some, Json.str?_eq_some,
    Json.choice?_eq_some, Json.strings?_eq_some, FieldKind.ofName?_eq_some, ValueType.ofName?_eq_some,
    Option.pure_def, Option.some.injEq]
  constructor
  · rintro ⟨property, ⟨_, hproperty, rfl⟩, kind, ⟨w, hkind, _, hk, rfl⟩, valueType,
      ⟨x, hvalueType, _, ht, rfl⟩, values, ⟨_, hvalues, rfl⟩, rfl⟩
    exact ⟨hproperty, ⟨w, hkind, hk⟩, ⟨x, hvalueType, ht⟩, hvalues⟩
  · rintro ⟨hproperty, ⟨w, hkind, hk⟩, ⟨x, hvalueType, ht⟩, hvalues⟩
    exact ⟨m.property, ⟨_, hproperty, rfl⟩, m.kind, ⟨w, hkind, _, hk, rfl⟩, m.valueType,
      ⟨x, hvalueType, _, ht, rfl⟩, m.values, ⟨_, hvalues, rfl⟩, rfl⟩

/-- The documents of a match by itself. -/
inductive Document : Json → PropertyMatch → Prop where
  | object {fields : Members} {m : PropertyMatch} (h : m.Describes Json.isNull fields) :
      Document (.obj fields) m
  | array {a : List Json} {m : PropertyMatch} (hlength : a.length ≤ fieldNames.length)
      (h : m.Describes Json.isNull (fieldNames.zip a)) : Document (.arr a) m

theorem decode?_eq_some_iff : decode? j = some m ↔ Document j m := by
  unfold decode?
  rw [Option.bind_eq_some_iff]
  simp only [Json.fields?_eq_some, ofFields?_eq_some]
  constructor
  · rintro ⟨fields, rfl | ⟨a, rfl, hlength, rfl⟩, h⟩
    · exact .object h
    · exact .array hlength h
  · rintro (h | ⟨hlength, h⟩)
    · exact ⟨_, .inl rfl, h⟩
    · exact ⟨_, .inr ⟨_, rfl, hlength, rfl⟩, h⟩

end PropertyMatch

/-! ## Predicates -/

namespace Predicate

variable {p : Predicate}

/-- **The documents of a predicate.** -/
inductive Document : Json → Predicate → Prop where
  | matchObject {fields : Members} {m : PropertyMatch} (htype : fields.lookup "type" = some (.str "match"))
      (h : m.Describes Json.isEmpty fields) : Document (.obj fields) (.oneOf m)
  | matchArray {a : List Json} {m : PropertyMatch} (hlength : a.length ≤ PropertyMatch.fieldNames.length)
      (h : m.Describes Json.isEmpty (PropertyMatch.fieldNames.zip a)) :
      Document (.arr (.str "match" :: a)) (.oneOf m)
  | rawObject {fields : Members} {e : String} (htype : fields.lookup "type" = some (.str "rawWhere"))
      (h : fields.lookup "expression" = some (.str e)) : Document (.obj fields) (.raw e)
  | rawArray (e : String) : Document (.arr [.str "rawWhere", .str e]) (.raw e)

theorem ofType?_match {content : Json} : ofType? "match" content = some p ↔
    ∃ m fields, p = .oneOf m ∧ content.fields? PropertyMatch.fieldNames = some fields ∧
      m.Describes Json.isEmpty fields := by
  simp only [ofType?, Option.map_eq_some_iff, Option.bind_eq_some_iff, PropertyMatch.ofFields?_eq_some]
  constructor
  · rintro ⟨m, ⟨fields, hfields, h⟩, rfl⟩
    exact ⟨m, fields, rfl, hfields, h⟩
  · rintro ⟨m, fields, rfl, hfields, h⟩
    exact ⟨m, ⟨fields, hfields, h⟩, rfl⟩

theorem ofType?_raw {content : Json} : ofType? "rawWhere" content = some p ↔
    ∃ e fields, p = .raw e ∧ content.fields? ["expression"] = some fields ∧
      fields.lookup "expression" = some (.str e) := by
  simp only [ofType?, Option.bind_eq_some_iff, Option.map_eq_some_iff, Fields.required_eq_some,
    Json.str?_eq_some]
  constructor
  · rintro ⟨fields, hfields, e, ⟨_, h, rfl⟩, rfl⟩
    exact ⟨e, fields, rfl, hfields, h⟩
  · rintro ⟨e, fields, rfl, hfields, h⟩
    exact ⟨fields, hfields, e, ⟨_, h, rfl⟩, rfl⟩

/-- There are two types of predicates. -/
theorem type_of_ofType? {type : String} {content : Json} (h : ofType? type content = some p) :
    type = "match" ∨ type = "rawWhere" := by
  unfold ofType? at h
  split at h
  · exact .inl rfl
  · exact .inr rfl
  · simp at h

theorem decode?_obj : decode? (.obj fields) = some p ↔
    ∃ type, fields.lookup "type" = some (.str type) ∧ ofType? type (.obj fields) = some p := by
  simp only [decode?, Option.bind_eq_some_iff, Fields.required_eq_some, Json.str?_eq_some]
  constructor
  · rintro ⟨type, ⟨_, hlookup, rfl⟩, h⟩
    exact ⟨type, hlookup, h⟩
  · rintro ⟨type, hlookup, h⟩
    exact ⟨type, ⟨_, hlookup, rfl⟩, h⟩

/-- The fields of an expression in an array are the expression. -/
theorem fields?_expression {a : List Json} {e : String} :
    (∃ fields, (Json.arr a).fields? ["expression"] = some fields ∧
      fields.lookup "expression" = some (.str e)) ↔ a = [.str e] := by
  constructor
  · rintro ⟨fields, hfields, he⟩
    rcases Json.fields?_eq_some.1 hfields with hobj | ⟨b, hb, hlength, rfl⟩
    · simp at hobj
    · obtain rfl := Json.arr.inj hb
      match a, hlength, he with
      | [v], _, he => simpa using he
  · rintro rfl
    exact ⟨[("expression", .str e)], rfl, rfl⟩

/-- **A value is decoded as the predicate whose document it is.** -/
theorem decode?_eq_some_iff : decode? j = some p ↔ Document j p := by
  constructor
  · intro h
    have hdecode := h
    unfold decode? at h
    split at h
    · rename_i fields
      obtain ⟨type, htype, hcontent⟩ := decode?_obj.1 hdecode
      rcases type_of_ofType? hcontent with rfl | rfl
      · obtain ⟨m, f, rfl, hf, hm⟩ := ofType?_match.1 hcontent
        obtain rfl : fields = f := Option.some.inj hf
        exact .matchObject htype hm
      · obtain ⟨e, f, rfl, hf, he⟩ := ofType?_raw.1 hcontent
        obtain rfl : fields = f := Option.some.inj hf
        exact .rawObject htype he
    · rename_i type a
      rcases type_of_ofType? h with rfl | rfl
      · obtain ⟨m, f, rfl, hf, hm⟩ := ofType?_match.1 h
        obtain ⟨hlength, rfl⟩ : a.length ≤ PropertyMatch.fieldNames.length ∧
            f = PropertyMatch.fieldNames.zip a := by simpa using Json.fields?_eq_some.1 hf
        exact .matchArray hlength hm
      · obtain ⟨e, f, rfl, hf, he⟩ := ofType?_raw.1 h
        obtain rfl : a = [.str e] := fields?_expression.1 ⟨f, hf, he⟩
        exact .rawArray e
    · simp at h
  · intro h
    cases h with
    | matchObject htype h =>
      exact decode?_obj.2 ⟨"match", htype, ofType?_match.2 ⟨_, _, rfl, rfl, h⟩⟩
    | matchArray hlength h =>
      exact ofType?_match.2 ⟨_, _, rfl, Json.fields?_eq_some.2 (.inr ⟨_, rfl, hlength, rfl⟩), h⟩
    | rawObject htype h =>
      exact decode?_obj.2 ⟨"rawWhere", htype, ofType?_raw.2 ⟨_, _, rfl, rfl, h⟩⟩
    | rawArray e =>
      obtain ⟨f, hf, he⟩ := fields?_expression.2 (rfl : [Json.str e] = [Json.str e])
      exact ofType?_raw.2 ⟨e, f, rfl, hf, he⟩

/-- **What a predicate is encoded as is one of its documents.** -/
theorem document_encode (p : Predicate) : Document p.encode p := by
  -- in an object with new keys each one is found
  have hlookup : ∀ (key : String) (m : Members), Members.find? key m = m.lookup key := fun _ _ => rfl
  cases p with
  | oneOf m =>
    refine .matchObject ?_ ⟨?_, ⟨.str m.kind.name, ?_, .inl rfl⟩, ⟨.str m.valueType.name, ?_, .inl rfl⟩, ?_⟩
    all_goals
      rw [← hlookup]
      simp [PropertyMatch.members, Members.ofList]
  | raw e =>
    refine .rawObject ?_ ?_
    all_goals
      rw [← hlookup]
      simp [Members.ofList]

end Predicate

end LedgerFront
