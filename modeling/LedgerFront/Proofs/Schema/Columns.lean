import LedgerFront.Proofs.Schema.Index

/-!
# The columns of an entity

An entity is made by definitions of properties and fields in any order, which may define a name again in
another letter case. Every definition gives a field, that of a property being its name with an underscore
in front; only those of properties give a property. A filter key addresses the last field or the last
property with its name, by whether it starts with an underscore.

* `Definition.property?`, `Definition.backingField`: the columns that one definition gives.
* `Entity.properties_ofDefinitions`, `Entity.fields_ofDefinitions`: the two tables of an entity.
* `Entity.resolve?_ofDefinitions`: what a key addresses, and the properties by name.
-/

namespace LedgerFront

namespace Definition

/-- The property that a definition gives, if it is one of a property. -/
def property? (d : Definition) : Option Column :=
  match d.kind with
  | .property => some ⟨d.name, .property, d.valueType⟩
  | .field => none

/-- The field that a definition gives: the one behind a property, or the field itself, whose name gets
an underscore in front unless it has one. -/
def backingField (d : Definition) : Column :=
  match d.kind with
  | .property => ⟨fieldName d.name, .field, d.valueType⟩
  | .field => ⟨if Entity.isFieldName d.name then d.name else fieldName d.name, .field, d.valueType⟩

end Definition

namespace Entity

theorem ofDefinitions_concat (name : String) (ds : List Definition) (d : Definition) :
    ofDefinitions name (ds ++ [d]) = (ofDefinitions name ds).define d := by
  simp [ofDefinitions]

/-- **The properties of an entity** are those that its definitions give. -/
theorem properties_ofDefinitions (name : String) (ds : List Definition) :
    (ofDefinitions name ds).properties =
      Index.putAll Column.name (ds.filterMap Definition.property?) .empty := by
  induction ds using List.reverseRecOn with
  | nil => rfl
  | append_singleton ds d ih =>
    rw [ofDefinitions_concat, List.filterMap_append]
    cases hkind : d.kind with
    | property =>
      have hone : [d].filterMap Definition.property? = [⟨d.name, .property, d.valueType⟩] := by
        simp [Definition.property?, hkind]
      rw [hone, Index.putAll_concat, ← ih]
      simp [define, property, hkind]
    | field =>
      have hnone : [d].filterMap Definition.property? = [] := by
        simp [Definition.property?, hkind]
      rw [hnone, List.append_nil, ← ih]
      simp [define, field, hkind]

/-- **The fields of an entity** are those that its definitions give. -/
theorem fields_ofDefinitions (name : String) (ds : List Definition) :
    (ofDefinitions name ds).fields =
      Index.putAll Column.name (ds.map Definition.backingField) .empty := by
  induction ds using List.reverseRecOn with
  | nil => rfl
  | append_singleton ds d ih =>
    rw [ofDefinitions_concat, List.map_append, List.map_singleton, Index.putAll_concat, ← ih]
    cases hkind : d.kind with
    | property => simp [define, property, Definition.backingField, hkind]
    | field => simp [define, field, Definition.backingField, hkind]

/-- A key addresses a field or a property in every letter case alike. -/
theorem isFieldName_lower (key : String) : isFieldName (Text.lower key) = isFieldName key := by
  unfold isFieldName Text.lower
  rw [String.toList_ofList]
  cases key.toList with
  | nil => rfl
  | cons c r =>
    have hmark : c.toLower = '_' ↔ c = '_' := Text.toLower_eq_iff (by decide) (by decide)
    simp [hmark, beq_eq_decide]

theorem resolve?_lower (e : Entity) (key : String) : e.resolve? (Text.lower key) = e.resolve? key := by
  unfold resolve? Index.get?
  rw [isFieldName_lower, Text.lower_lower]

/-- Keys that differ in letter case only address the same column. -/
theorem resolve?_congr (e : Entity) {key key' : String} (h : Text.lower key' = Text.lower key) :
    e.resolve? key' = e.resolve? key := by
  rw [← resolve?_lower e key', h, resolve?_lower]

theorem perm_propertiesByName (e : Entity) : e.propertiesByName.Perm e.properties.values :=
  List.mergeSort_perm _ _

/-- **What a key addresses.** A key with an underscore at its start addresses the last field with its
name, every other key the last property with its name, in any letter case. The properties by name are
these last properties, each once, in strictly ascending order. -/
theorem resolve?_ofDefinitions (name : String) (ds : List Definition) :
    (∀ key, (ofDefinitions name ds).resolve? key =
      if isFieldName key then lastNamed Column.name key (ds.map Definition.backingField)
      else lastNamed Column.name key (ds.filterMap Definition.property?)) ∧
    (∀ key, (ofDefinitions name ds).resolve? (Text.lower key) = (ofDefinitions name ds).resolve? key) ∧
    (∀ c, c ∈ (ofDefinitions name ds).propertiesByName ↔
      lastNamed Column.name c.name (ds.filterMap Definition.property?) = some c) ∧
    ((ofDefinitions name ds).propertiesByName.map fun c => Text.lower c.name).Nodup ∧
    (ofDefinitions name ds).propertiesByName.Pairwise fun a b => a.name < b.name := by
  have hkeyed : (ofDefinitions name ds).properties.Keyed Column.name := by
    rw [properties_ofDefinitions]
    exact (Index.keyed_empty _).putAll _
  have hlast : ∀ key, (ofDefinitions name ds).properties.get? key =
      lastNamed Column.name key (ds.filterMap Definition.property?) := by
    intro key
    rw [properties_ofDefinitions, Index.get?_putAll]
    exact Option.or_none
  have hfield : ∀ key, (ofDefinitions name ds).fields.get? key =
      lastNamed Column.name key (ds.map Definition.backingField) := by
    intro key
    rw [fields_ofDefinitions, Index.get?_putAll]
    exact Option.or_none
  have hperm := perm_propertiesByName (ofDefinitions name ds)
  refine ⟨fun key => ?_, resolve?_lower _, fun c => ?_, ?_, pairwise_mergeSort_names hkeyed.nodup_names⟩
  · rw [resolve?, hfield, hlast]
  · rw [hperm.mem_iff, ← hlast, hkeyed.get?_eq_some]
    simp
  · exact (hperm.map _).nodup_iff.2 hkeyed.nodup

/-- A property is defined again in another letter case, and a field takes the place of the one behind it. -/
example : let ds : List Definition := [⟨.property, "Account", .string⟩, ⟨.field, "ACCOUNT", .integer⟩,
      ⟨.property, "Name", .string⟩, ⟨.property, "account", .decimal⟩, ⟨.field, "_name", .boolean⟩]
    let e := ofDefinitions "Debtor" ds
    e.resolve? "Account" = some ⟨"account", .property, .decimal⟩ ∧
      e.resolve? "_Account" = some ⟨"_account", .field, .decimal⟩ ∧
      e.resolve? "_NAME" = some ⟨"_name", .field, .boolean⟩ := by
  decide +kernel

end Entity

end LedgerFront
