import LedgerFront.Proofs.Predicate.Document

/-!
# Matches without alternatives

A match has an alternative when it is made and keeps it, but the decoders do not look whether there is
one in a document.

* `PropertyMatch.Made`, `Predicate.Made`: what can be made when certain documents are read.
* `Predicate.ListsNoValue`: the documents that do harm.
* `Predicate.made_values_ne_nil_iff`: without them, and only then, each match has an alternative.
-/

namespace LedgerFront

mutual

/-- The matches that can be made when the documents of `read` are read; a copy is the same match. -/
inductive PropertyMatch.Made (read : Json → Prop) : PropertyMatch → Prop where
  | ofValue (property : String) (kind : FieldKind) (valueType : ValueType) (value : String) :
      PropertyMatch.Made read (.ofValue property kind valueType value)
  | ofValues {property : String} {kind : FieldKind} {valueType : ValueType} {values : List String}
      {m : PropertyMatch} (h : PropertyMatch.ofValues? property kind valueType values = some m) :
      PropertyMatch.Made read m
  | or {m : PropertyMatch} (h : PropertyMatch.Made read m) (value : String) :
      PropertyMatch.Made read (m.or value)
  | assign {m : PropertyMatch} (h : PropertyMatch.Made read m) (property : String) (kind : FieldKind)
      (valueType : ValueType) : PropertyMatch.Made read { m with property, kind, valueType }
  | decode {j : Json} {m : PropertyMatch} (hj : read j) (h : PropertyMatch.decode? j = some m) :
      PropertyMatch.Made read m
  | ofPredicate {p : Predicate} {m : PropertyMatch} (h : Predicate.Made read p)
      (hm : p.match? = some m) : PropertyMatch.Made read m

/-- The predicates that can be made when the documents of `read` are read. -/
inductive Predicate.Made (read : Json → Prop) : Predicate → Prop where
  | oneOf {m : PropertyMatch} (h : PropertyMatch.Made read m) : Predicate.Made read (.oneOf m)
  | raw (expression : String) : Predicate.Made read (.raw expression)
  | decode {j : Json} {p : Predicate} (hj : read j) (h : Predicate.decode? j = some p) :
      Predicate.Made read p

end

/-! ## The list in a document -/

/-- What a record holds under a name, or in an array at its place. -/
def Json.part? (name : String) (place : Nat) : Json → Option Json
  | obj m => m.lookup name
  | arr a => a[place]?
  | _ => none

theorem PropertyMatch.lookup_values {a : List Json} (h : a.length ≤ fieldNames.length) :
    (fieldNames.zip a).lookup "values" = a[3]? := by
  match a, h with
  | [], _ => rfl
  | [_], _ => rfl
  | [_, _], _ => rfl
  | [_, _, _], _ => rfl
  | [_, _, _, _], _ => rfl

theorem PropertyMatch.Document.values {j : Json} {m : PropertyMatch} (h : Document j m) :
    j.part? "values" 3 = some (.arr (m.values.map .str)) := by
  cases h with
  | object h => exact h.values
  | array hlength h => exact (lookup_values hlength).symm.trans h.values

/-- The alternatives of a match are those in its document. -/
theorem Predicate.Document.values {j : Json} {m : PropertyMatch} (h : Document j (.oneOf m)) :
    j.part? "values" 4 = some (.arr (m.values.map .str)) := by
  cases h with
  | matchObject htype h => exact h.values
  | matchArray hlength h => exact (PropertyMatch.lookup_values hlength).symm.trans h.values

/-- The document of a match, with its type or without, whose list of values is empty. -/
def Predicate.ListsNoValue (j : Json) : Prop :=
  ((∃ m, Predicate.Document j (.oneOf m)) ∧ j.part? "values" 4 = some (.arr [])) ∨
    (∃ m, PropertyMatch.Document j m) ∧ j.part? "values" 3 = some (.arr [])

/-! ## What can be made -/

variable {read : Json → Prop} {j : Json} {m : PropertyMatch}

theorem Predicate.match?_eq_some {p : Predicate} : p.match? = some m ↔ p = .oneOf m := by
  cases p <;> simp [Predicate.match?]

theorem values_ne_nil_of_list {n : Nat} (h : j.part? "values" n = some (.arr (m.values.map .str)))
    (hlist : j.part? "values" n ≠ some (.arr [])) : m.values ≠ [] := by
  intro hnone
  rw [hnone] at h
  exact hlist h

theorem PropertyMatch.values_or_ne_nil (m : PropertyMatch) (value : String) : (m.or value).values ≠ [] :=
  List.concat_ne_nil value m.values

theorem PropertyMatch.values_ofValues?_ne_nil {property : String} {kind : FieldKind} {valueType : ValueType}
    {values : List String} (h : ofValues? property kind valueType values = some m) : m.values ≠ [] := by
  unfold ofValues? at h
  split at h
  · simp at h
  · rename_i hvalues
    obtain rfl := Option.some.inj h
    simpa using hvalues

mutual

/-- A match that is made without a harmful document has an alternative. -/
theorem PropertyMatch.Made.values_ne_nil (hread : ∀ j, read j → ¬ Predicate.ListsNoValue j) :
    ∀ {m : PropertyMatch}, PropertyMatch.Made read m → m.values ≠ []
  | _, .ofValue _ _ _ value => List.cons_ne_nil value []
  | _, .ofValues h => PropertyMatch.values_ofValues?_ne_nil h
  | _, .or h value => PropertyMatch.values_or_ne_nil _ value
  | _, .assign h _ _ _ => by
    -- the list is the one field that cannot be assigned
    have hm := PropertyMatch.Made.values_ne_nil hread h
    exact hm
  | _, .decode hj h => by
    have hdocument := PropertyMatch.decode?_eq_some_iff.1 h
    exact values_ne_nil_of_list hdocument.values fun hlist =>
      hread _ hj (.inr ⟨⟨_, hdocument⟩, hlist⟩)
  | _, .ofPredicate h hm => Predicate.Made.values_ne_nil hread h hm

/-- A predicate that is made without a harmful document has an alternative if it is a match. -/
theorem Predicate.Made.values_ne_nil (hread : ∀ j, read j → ¬ Predicate.ListsNoValue j) :
    ∀ {p : Predicate}, Predicate.Made read p → ∀ {m : PropertyMatch}, p.match? = some m → m.values ≠ []
  | _, .oneOf h, _, hm => by
    obtain rfl := Option.some.inj hm
    exact PropertyMatch.Made.values_ne_nil hread h
  | _, .raw _, _, hm => by simp [Predicate.match?] at hm
  | _, .decode hj h, _, hm => by
    obtain rfl := Predicate.match?_eq_some.1 hm
    have hdocument := Predicate.decode?_eq_some_iff.1 h
    exact values_ne_nil_of_list hdocument.values fun hlist =>
      hread _ hj (.inl ⟨⟨_, hdocument⟩, hlist⟩)

end

/-- A harmful document is read as a match without alternatives. -/
theorem Predicate.exists_made_of_listsNoValue (hj : read j) (h : Predicate.ListsNoValue j) :
    ∃ m, Predicate.Made read (.oneOf m) ∧ m.values = [] := by
  rcases h with ⟨⟨m, hdocument⟩, hlist⟩ | ⟨⟨m, hdocument⟩, hlist⟩
  · have hvalues : m.values = [] := by
      simpa using hdocument.values.symm.trans hlist
    exact ⟨m, .decode hj (Predicate.decode?_eq_some_iff.2 hdocument), hvalues⟩
  · have hvalues : m.values = [] := by
      simpa using hdocument.values.symm.trans hlist
    exact ⟨m, .oneOf (.decode hj (PropertyMatch.decode?_eq_some_iff.2 hdocument)), hvalues⟩

/-- **Each match has an alternative** exactly when no document is read whose list of values is empty,
whatever else is made in whatever way. -/
theorem Predicate.made_values_ne_nil_iff (read : Json → Prop) :
    (∀ p, Predicate.Made read p → ∀ m, p.match? = some m → m.values ≠ []) ↔
      ∀ j, read j → ¬ Predicate.ListsNoValue j := by
  constructor
  · intro hmade j hj h
    obtain ⟨m, hm, hvalues⟩ := Predicate.exists_made_of_listsNoValue hj h
    exact hmade (.oneOf m) hm m rfl hvalues
  · intro hread p hp m hm
    exact hp.values_ne_nil hread hm

/-- A document with an empty list is read as a match that `ofValues?` refuses to make. -/
theorem Predicate.made_without_values :
    let j : Json := .obj [("kind", .str "property"), ("property", .str "Amount"), ("type", .str "match"),
      ("value_type", .str "decimal"), ("values", .arr [])]
    let m : PropertyMatch := ⟨"Amount", .property, .decimal, []⟩
    Predicate.decode? j = some (.oneOf m) ∧
      PropertyMatch.ofValues? m.property m.kind m.valueType m.values = none ∧
      ¬ ∀ p, Predicate.Made (fun _ => True) p → ∀ m', p.match? = some m' → m'.values ≠ [] := by
  intro j m
  have hdecode : Predicate.decode? j = some (.oneOf m) := by decide +kernel
  exact ⟨hdecode, rfl, fun h => h (.oneOf m) (.decode trivial hdecode) m rfl rfl⟩

end LedgerFront
