import LedgerFront.Pairs
import LedgerFront.Predicate

/-!
# Entity schemas

An entity type has public properties and internal fields. A property also has a
backing field, its name with an underscore in front. Names are looked up without
regard to ASCII letter case, a later definition replacing an earlier one.

* `Entity.resolve?`: the column that a filter key addresses.
* `Registry.get?`: the entity of a type name.
-/

namespace LedgerFront

/-- Values under names that differ in more than letter case. -/
structure Index (α : Type) where
  entries : List (String × α)

namespace Index

variable {α : Type}

/-- Nothing under any name. -/
def empty : Index α := ⟨[]⟩

/-- The value under a name, replaced or new. -/
def put (name : String) (value : α) (index : Index α) : Index α :=
  ⟨Pairs.put (Text.lower name) value index.entries⟩

/-- The value under a name in any letter case. -/
def get? (name : String) (index : Index α) : Option α := index.entries.lookup (Text.lower name)

/-- All values. -/
def values (index : Index α) : List α := index.entries.map (·.2)

end Index

/-- A column that filters can address. A field's name starts with an underscore. -/
structure Column where
  name : String
  kind : FieldKind
  valueType : ValueType
deriving DecidableEq, Repr

/-- A name without an underscore at its start. -/
def bareName (name : String) : String :=
  match name.toList with
  | '_' :: r => String.ofList r
  | _ => name

/-- A name with an underscore in front. -/
def fieldName (name : String) : String := "_" ++ name

/-- The public name of the column. -/
def Column.publicName (c : Column) : String := bareName c.name

/-- A definition of a public property or of an internal field. -/
structure Definition where
  kind : FieldKind
  name : String
  valueType : ValueType
deriving DecidableEq, Repr

/-- The columns of one entity type. -/
structure Entity where
  name : String
  properties : Index Column
  fields : Index Column

namespace Entity

/-- An entity without columns. -/
def empty (name : String) : Entity := ⟨name, .empty, .empty⟩

/-- A name that starts with an underscore addresses a field. -/
def isFieldName (name : String) : Bool := name.toList.head? == some '_'

/-- A public property together with its backing field. -/
def property (name : String) (valueType : ValueType) (e : Entity) : Entity :=
  { e with
    properties := e.properties.put name ⟨name, .property, valueType⟩
    fields := e.fields.put (fieldName name) ⟨fieldName name, .field, valueType⟩ }

/-- An internal field; the underscore may be left out of its name. -/
def field (name : String) (valueType : ValueType) (e : Entity) : Entity :=
  let name := if isFieldName name then name else fieldName name
  { e with fields := e.fields.put name ⟨name, .field, valueType⟩ }

/-- The entity with one more definition. -/
def define (e : Entity) (d : Definition) : Entity :=
  match d.kind with
  | .property => e.property d.name d.valueType
  | .field => e.field d.name d.valueType

/-- The entity of these definitions. -/
def ofDefinitions (name : String) (ds : List Definition) : Entity := ds.foldl define (empty name)

/-- The column that a filter key addresses. -/
def resolve? (e : Entity) (key : String) : Option Column :=
  if isFieldName key then e.fields.get? key else e.properties.get? key

/-- The public properties by name. -/
def propertiesByName (e : Entity) : List Column :=
  e.properties.values.mergeSort fun a b => !decide (b.name < a.name)

end Entity

/-- The known entity types. -/
structure Registry where
  entities : Index Entity

namespace Registry

/-- No entity types. -/
def empty : Registry := ⟨.empty⟩

/-- One more entity, in the place of one with the same name. -/
def register (r : Registry) (e : Entity) : Registry := ⟨r.entities.put e.name e⟩

/-- The entity of a type name. -/
def get? (r : Registry) (name : String) : Option Entity := r.entities.get? name

/-- The names of the entities in order. -/
def names (r : Registry) : List String :=
  (r.entities.values.map (·.name)).mergeSort fun a b => !decide (b < a)

/-- The number of entities. -/
def size (r : Registry) : Nat := r.entities.entries.length

end Registry

end LedgerFront
