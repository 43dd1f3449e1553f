import LedgerFront.Json.Decode
import LedgerFront.Literal

/-!
# Predicates of a remote query

A predicate is a match of one column against alternatives in normal form, or a
raw expression of the remote query language. `Predicate.encode` writes it as a
JSON value and `Predicate.decode?` reads it; a match by itself is read by
`PropertyMatch.decode?`.
-/

namespace LedgerFront

/-- A public property, or an internal field, addressed with an underscore in front. -/
inductive FieldKind where
  | property
  | field
deriving DecidableEq, Repr

/-- The name of the kind in an encoded predicate. -/
def FieldKind.name : FieldKind → String
  | property => "property"
  | field => "field"

/-- The kind with exactly this name. -/
def FieldKind.ofName? : String → Option FieldKind
  | "property" => some .property
  | "field" => some .field
  | _ => none

/-- A column and the alternatives of which its value has to be one. -/
structure PropertyMatch where
  property : String
  kind : FieldKind
  valueType : ValueType
  values : List String
deriving DecidableEq, Repr

namespace PropertyMatch

/-- The match with one alternative. -/
def ofValue (property : String) (kind : FieldKind) (valueType : ValueType) (value : String) :
    PropertyMatch :=
  ⟨property, kind, valueType, [value]⟩

/-- The match with these alternatives, of which there has to be one. -/
def ofValues? (property : String) (kind : FieldKind) (valueType : ValueType)
    (values : List String) : Option PropertyMatch :=
  if values.isEmpty then none else some ⟨property, kind, valueType, values⟩

/-- One more alternative at the end. -/
def or (m : PropertyMatch) (value : String) : PropertyMatch :=
  { m with values := m.values ++ [value] }

/-- More than one alternative. -/
def isDisjunction (m : PropertyMatch) : Bool := 1 < m.values.length

/-- The fields of the match in their order. -/
def fieldNames : List String := ["property", "kind", "value_type", "values"]

/-- The members of the encoded match. -/
def members (m : PropertyMatch) : List (String × Json) :=
  [("property", .str m.property), ("kind", .str m.kind.name), ("value_type", .str m.valueType.name),
    ("values", .arr (m.values.map .str))]

/-- The match as a value. -/
def encode (m : PropertyMatch) : Json := .ofPairs m.members

/-- The match with these fields; `isUnit` says what may stand under the name of a choice. -/
def ofFields? (isUnit : Json → Bool) (fields : Members) : Option PropertyMatch := do
  let property ← Fields.required fields "property" Json.str?
  let kind ← Fields.required fields "kind" fun v => (v.choice? isUnit).bind FieldKind.ofName?
  let valueType ← Fields.required fields "value_type" fun v =>
    (v.choice? isUnit).bind ValueType.ofName?
  let values ← Fields.required fields "values" Json.strings?
  pure ⟨property, kind, valueType, values⟩

/-- The match that a value encodes. -/
def decode? (j : Json) : Option PropertyMatch :=
  (j.fields? fieldNames).bind (ofFields? Json.isNull)

end PropertyMatch

/-- One condition of a query. -/
inductive Predicate where
  | oneOf (m : PropertyMatch)
  | raw (expression : String)
deriving DecidableEq, Repr

namespace Predicate

/-- The structured match, if it is one. -/
def match? : Predicate → Option PropertyMatch
  | oneOf m => some m
  | raw _ => none

/-- The predicate as a value, told apart by its `type`. -/
def encode : Predicate → Json
  | oneOf m => .ofPairs (("type", .str "match") :: m.members)
  | raw e => .ofPairs [("type", .str "rawWhere"), ("expression", .str e)]

/-- The predicate of a given type with the fields in `content`. -/
def ofType? (type : String) (content : Json) : Option Predicate :=
  match type with
  | "match" =>
    ((content.fields? PropertyMatch.fieldNames).bind (PropertyMatch.ofFields? Json.isEmpty)).map oneOf
  | "rawWhere" =>
    (content.fields? ["expression"]).bind fun f =>
      (Fields.required f "expression" Json.str?).map raw
  | _ => none

/-- The predicate that a value encodes. In an array the type comes first. -/
def decode? : Json → Option Predicate
  | .obj m => (Fields.required m "type" Json.str?).bind fun t => ofType? t (.obj m)
  | .arr (.str t :: r) => ofType? t (.arr r)
  | _ => none

end Predicate

end LedgerFront
