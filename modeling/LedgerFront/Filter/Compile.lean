import LedgerFront.Filter.Params
import LedgerFront.Schema.Basic
import LedgerFront.Where

/-!
# Compiling a filter

Each parameter of a filter names a column and lists alternatives with ` OR `
between them. The remote side takes a limited number of alternatives for one
column; a longer list is folded into a raw expression, checked on the returned
rows, or refused, as the settings say. The parameter under the raw key is itself
an expression and is passed on as it is.

* `Params.compile`: the predicates for the remote side and those for the rows.
* `CompiledQuery.apply`: the rows that satisfy the latter.
-/

namespace LedgerFront

/-- What happens to more alternatives than the remote side takes. -/
inductive Overflow where
  | serverFold
  | clientFilter
  | reject
deriving DecidableEq, Repr

/-- The name of the strategy in a configuration. -/
def Overflow.name : Overflow → String
  | serverFold => "server_fold"
  | clientFilter => "client_filter"
  | reject => "reject"

/-- The strategy with a name. -/
def Overflow.ofName? : String → Option Overflow
  | "server_fold" => some .serverFold
  | "client_filter" => some .clientFilter
  | "reject" => some .reject
  | _ => none

/-- How filters are compiled. -/
structure CompilerSettings where
  orLimit : Nat
  overflow : Overflow
  rawKey : String
deriving DecidableEq, Repr

/-- The most alternatives that one remote predicate can have. -/
def maxAlternatives : Nat := 40

namespace CompilerSettings

/-- The settings where a configuration says nothing. -/
def default : CompilerSettings := ⟨maxAlternatives, .serverFold, "query"⟩

/-- The limit that applies: at least one, at most what the remote side takes. -/
def limit (s : CompilerSettings) : Nat := max 1 (min s.orLimit maxAlternatives)

end CompilerSettings

/-- Why a filter is refused. -/
inductive FilterError where
  | unknownProperty (entity property : String)
  | emptyValue (property : String)
  | invalidValue (property : String) (valueType : ValueType) (value : String)
  | unsafeValue (property value : String)
  | tooManyAlternatives (property : String) (count limit : Nat)
deriving DecidableEq, Repr

/-- The text of the error. -/
def FilterError.message : FilterError → String
  | unknownProperty entity property =>
    "Invalid filter: unknown property '" ++ property ++ "' on " ++ entity
  | emptyValue property => "Invalid filter: no value given for '" ++ property ++ "'"
  | invalidValue property valueType value =>
    "Invalid filter: " ++ valueType.invalidMessage value ++ " for '" ++ property ++ "'"
  | unsafeValue property value =>
    "Invalid filter: value '" ++ value ++ "' for '" ++ property ++
      "' cannot be embedded in a server-side expression"
  | tooManyAlternatives property count limit =>
    "The maximum number of OR's in a filter is " ++ Text.natText limit ++ ", '" ++ property ++
      "' has " ++ Text.natText count

/-- A predicate that is checked on the returned rows. -/
structure RowPredicate where
  property : String
  valueType : ValueType
  values : List String
deriving DecidableEq, Repr

/-- Rows that are no objects, lack the property or have another kind of value never match. -/
def RowPredicate.accepts (p : RowPredicate) : Json → Run Bool
  | .obj row => Row.isOneOf p.valueType p.values (Row.publicColumn? p.property row)
  | _ => .ok false

/-- A filter in two parts. -/
structure CompiledQuery where
  server : List Predicate
  rows : List RowPredicate
deriving DecidableEq, Repr

/-- The rows that satisfy every row predicate, in order. -/
def CompiledQuery.apply (q : CompiledQuery) (rows : List Json) : Run (List Json) :=
  if q.rows.isEmpty then .ok rows else Run.filter (fun row => Run.all (·.accepts row) q.rows) rows

/-- The predicate that one parameter becomes. -/
inductive Condition where
  | server (p : Predicate)
  | row (p : RowPredicate)
deriving DecidableEq, Repr

/-- The predicate for the remote side. -/
def Condition.server? : Condition → Option Predicate
  | server p => some p
  | row _ => none

/-- The predicate for the rows. -/
def Condition.row? : Condition → Option RowPredicate
  | server _ => none
  | row p => some p

/-- Compiling refuses a filter with an error, or stops the program. -/
abbrev Compiling := ExceptT FilterError Run

/-- The literals in a value; empty pieces are passed over. -/
def literals (value : String) : List String := (Text.pieces " OR " value).filter (!·.isEmpty)

/-- The normal form of one literal. -/
def alternative (c : Column) (literal : String) : Compiling String := do
  match ← c.valueType.normalize literal with
  | some v => pure v
  | none => throw (.invalidValue c.name c.valueType literal)

/-- The normal forms of the literals in a value, of which there has to be one. -/
def alternatives (c : Column) (value : String) : Compiling (List String) := do
  let values ← (literals value).mapM (alternative c)
  if values.isEmpty then throw (.emptyValue c.name) else pure values

/-- A text put into an ascending list, unless it is there. -/
def insertSorted (s : String) : List String → List String
  | [] => [s]
  | t :: r => if s = t then t :: r else if s < t then s :: t :: r else t :: insertSorted s r

/-- The texts in ascending order, each once. -/
def sortedSet (texts : List String) : List String :=
  texts.foldl (fun set s => insertSorted s set) []

/-- What a column with these alternatives becomes. -/
def Column.condition (s : CompilerSettings) (c : Column) (values : List String) :
    Except FilterError Condition :=
  if values.length ≤ s.limit then .ok (.server (.oneOf ⟨c.name, c.kind, c.valueType, values⟩))
  else
    match s.overflow with
    | .serverFold =>
      match Where.fold c.name c.valueType values with
      | .ok e => .ok (.server (.raw e))
      | .error v => .error (.unsafeValue c.name v)
    | .clientFilter => .ok (.row ⟨c.publicName, c.valueType, sortedSet values⟩)
    | .reject => .error (.tooManyAlternatives c.name values.length s.limit)

/-- What one parameter becomes. -/
def parameterCondition (s : CompilerSettings) (e : Entity) (key value : String) :
    Compiling Condition := do
  match e.resolve? key with
  | none => throw (.unknownProperty e.name key)
  | some c => do
    let values ← alternatives c value
    match c.condition s values with
    | .ok condition => pure condition
    | .error error => throw error

/-- The predicate for the parameter under the raw key, unless that is blank. -/
def Params.rawPredicates (p : Params) (s : CompilerSettings) : List Predicate :=
  match p.get? s.rawKey with
  | some e => if Text.isBlankText e then [] else [.raw e]
  | none => []

/-- The predicates of a filter. Every parameter is checked before anything is returned. -/
def Params.compile (s : CompilerSettings) (e : Entity) (p : Params) : Compiling CompiledQuery := do
  let conditions ← (p.pairs.filter (·.1 != s.rawKey)).mapM fun pair =>
    parameterCondition s e pair.1 pair.2
  pure ⟨p.rawPredicates s ++ conditions.filterMap Condition.server?,
    conditions.filterMap Condition.row?⟩

end LedgerFront
