import LedgerFront.Number.Binary64
import LedgerFront.Pairs

/-!
# TOML documents as tables

A document is a list of statements: headers and key-value pairs. `Toml.ofStatements?`
builds the table they describe. A key is defined once: values and inline tables
are never extended, a header may name a table only if nothing defined it before,
and dotted keys extend only tables that have no header of their own.
-/

namespace LedgerFront

/-- A float, which unlike a JSON number need not be finite. -/
inductive TomlFloat where
  | finite (x : Binary64)
  | infinite (negative : Bool)
  | nan
deriving DecidableEq

/-- A value of a document. Dates and times are kept as text. -/
inductive Toml where
  | str (s : String)
  | int (i : Int)
  | float (x : TomlFloat)
  | bool (b : Bool)
  | time (text : String)
  | arr (items : List Toml)
  | table (entries : List (String × Toml))

namespace Toml

/-- A line of a document. -/
inductive Statement where
  | header (path : List String)
  | arrayHeader (path : List String)
  | pair (path : List String) (value : Toml)

/-- A table under construction. -/
inductive Node where
  | leaf (value : Toml)
  | table (implicit dotted : Bool) (entries : List (String × Node))
  | tables (elements : List (List (String × Node)))

/-- Changes the last of the elements. -/
def changeLast (change : List (String × Node) → Option (List (String × Node))) :
    List (List (String × Node)) → Option (List (List (String × Node)))
  | [] => none
  | [e] => (change e).map ([·])
  | e :: f :: r => (changeLast change (f :: r)).map (e :: ·)

/-- Changes the table at the end of a path, creating the tables on the way. A dotted path does not
enter tables that have a header. -/
def changeAt (dotted : Bool) (change : List (String × Node) → Option (List (String × Node))) :
    List String → List (String × Node) → Option (List (String × Node))
  | [], entries => change entries
  | key :: path, entries =>
    match entries.lookup key with
    | none =>
      (changeAt dotted change path []).map fun inner =>
        Pairs.put key (.table true dotted inner) entries
    | some (.table implicit wasDotted inner) =>
      if dotted && !implicit then none
      else (changeAt dotted change path inner).map fun inner =>
        Pairs.put key (.table implicit wasDotted inner) entries
    | some (.tables elements) =>
      if dotted then none
      else (changeLast (changeAt dotted change path) elements).map fun elements =>
        Pairs.put key (.tables elements) entries
    | some (.leaf _) => none

/-- Gives the table under a key its header. -/
def defineTable (key : String) (entries : List (String × Node)) : Option (List (String × Node)) :=
  match entries.lookup key with
  | none => some (Pairs.put key (.table false false []) entries)
  | some (.table true false inner) => some (Pairs.put key (.table false false inner) entries)
  | _ => none

/-- Starts a new element of the array of tables under a key. -/
def defineElement (key : String) (entries : List (String × Node)) : Option (List (String × Node)) :=
  match entries.lookup key with
  | none => some (Pairs.put key (.tables [[]]) entries)
  | some (.tables elements) => some (Pairs.put key (.tables (elements ++ [[]])) entries)
  | _ => none

/-- Puts a value under a key that is not defined yet. -/
def defineValue (key : String) (value : Toml) (entries : List (String × Node)) :
    Option (List (String × Node)) :=
  match entries.lookup key with
  | none => some (Pairs.put key (.leaf value) entries)
  | some _ => none

/-- A path without its last key, and that key. -/
def splitPath? (path : List String) : Option (List String × String) :=
  path.getLast?.map fun key => (path.dropLast, key)

/-- The root table and the path of the current header. -/
structure Builder where
  root : List (String × Node)
  current : List String

/-- What one statement adds. -/
def Builder.add? (b : Builder) : Statement → Option Builder
  | .header path => do
    let (front, key) ← splitPath? path
    let root ← changeAt false (defineTable key) front b.root
    pure ⟨root, path⟩
  | .arrayHeader path => do
    let (front, key) ← splitPath? path
    let root ← changeAt false (defineElement key) front b.root
    pure ⟨root, path⟩
  | .pair path value => do
    let (front, key) ← splitPath? path
    let root ← changeAt false (changeAt true (defineValue key value) front) b.current b.root
    pure { b with root := root }

mutual

/-- The finished value of a node. -/
def ofNode : Node → Toml
  | .leaf v => v
  | .table _ _ entries => .table (ofEntries entries)
  | .tables elements => .arr (ofElements elements)

/-- The finished entries. -/
def ofEntries : List (String × Node) → List (String × Toml)
  | [] => []
  | (k, n) :: r => (k, ofNode n) :: ofEntries r

/-- The finished elements. -/
def ofElements : List (List (String × Node)) → List Toml
  | [] => []
  | e :: r => .table (ofEntries e) :: ofElements r

end

/-- The root table of a document. -/
def ofStatements? (statements : List Statement) : Option (List (String × Toml)) :=
  (statements.foldlM Builder.add? ⟨[], []⟩).map fun b => ofEntries b.root

/-- The table of these pairs, none of which is defined twice. -/
def ofPairs? (pairs : List (List String × Toml)) : Option (List (String × Toml)) :=
  ofStatements? (pairs.map fun p => .pair p.1 p.2)

end Toml

end LedgerFront
