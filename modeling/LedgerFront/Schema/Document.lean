import LedgerFront.Schema.Basic
import LedgerFront.Toml.Decode
import LedgerFront.Toml.Parser

/-!
# Schema documents

A schema document is a TOML text with an array of tables `entity`; each has a
name, a table of properties and a table of fields, which map names to type names.
Loading registers the entities in order and stops at the first bad one; those
before it stay registered.
-/

namespace LedgerFront

/-- An entity as a document gives it, with type names. -/
structure EntityText where
  name : String
  properties : List (String × String)
  fields : List (String × String)
deriving DecidableEq, Repr

/-- Why a schema document cannot be loaded. -/
inductive SchemaError where
  | unreadable
  | malformed
  | unknownType (entity typeName : String)
  | noColumns (entity : String)
deriving DecidableEq, Repr

namespace SchemaError

/-- The text of the error. -/
def message : SchemaError → String
  | unreadable => "Failed to read schema file"
  | malformed => "Failed to parse schema"
  | unknownType entity typeName => "Entity '" ++ entity ++ "': Unknown value type: " ++ typeName
  | noColumns entity => "Entity '" ++ entity ++ "' has no properties"

end SchemaError

namespace EntityText

/-- The entity that a TOML value describes. -/
def decode? (t : Toml) : Option EntityText := do
  let fields ← t.fields? ["name", "properties", "fields"]
  let name ← (fields.lookup "name").bind Toml.str?
  let properties ← Fields.optional fields "properties" [] Toml.stringEntries?
  let columns ← Fields.optional fields "fields" [] Toml.stringEntries?
  pure ⟨name, properties, columns⟩

/-- The definitions of one kind, unless a type name is unknown. -/
def definitions (entity : String) (kind : FieldKind) (columns : List (String × String)) :
    Except SchemaError (List Definition) :=
  columns.mapM fun c =>
    match ValueType.parse? c.2 with
    | some t => .ok ⟨kind, c.1, t⟩
    | none => .error (.unknownType entity c.2)

/-- The entity that a text describes. -/
def entity (e : EntityText) : Except SchemaError Entity :=
  if e.properties.isEmpty && e.fields.isEmpty then .error (.noColumns e.name)
  else do
    let properties ← definitions e.name .property e.properties
    let fields ← definitions e.name .field e.fields
    pure (.ofDefinitions e.name (properties ++ fields))

end EntityText

namespace Registry

/-- Registers entities in order up to the first bad one. -/
def extend (r : Registry) : List EntityText → Registry × Option SchemaError
  | [] => (r, none)
  | e :: es =>
    match e.entity with
    | .ok entity => extend (r.register entity) es
    | .error error => (r, some error)

/-- The entities of a document. -/
def entitiesOf? (document : String) : Option (List EntityText) := do
  let root ← Toml.parse? document
  Fields.optional root "entity" [] fun v => v.items?.bind (·.mapM EntityText.decode?)

/-- Loads a document; the number of its entities, or why it cannot be loaded. -/
def load (r : Registry) (document : String) : Registry × Except SchemaError Nat :=
  match entitiesOf? document with
  | none => (r, .error .malformed)
  | some es =>
    match r.extend es with
    | (r, none) => (r, .ok es.length)
    | (r, some error) => (r, .error error)

/-- Loads a file that holds a document, or is missing. -/
def loadFile (r : Registry) : Option String → Registry × Except SchemaError Nat
  | some document => r.load document
  | none => (r, .error .unreadable)

end Registry

end LedgerFront
