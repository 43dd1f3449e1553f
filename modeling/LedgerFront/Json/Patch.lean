import LedgerFront.Json.Decode
import LedgerFront.Json.Pointer

/-!
# JSON Patch

A patch document is a list of operations that are carried out one after the other
on a value, all or none.

* `Patch.decode?`: the patch that a value describes.
* `Patch.apply`: the patched value, or the first operation that fails and why.
-/

namespace LedgerFront

/-- One operation. -/
inductive PatchOp where
  | add (path : Pointer) (value : Json)
  | remove (path : Pointer)
  | replace (path : Pointer) (value : Json)
  | move (source path : Pointer)
  | copy (source path : Pointer)
  | test (path : Pointer) (value : Json)
deriving DecidableEq

/-- A patch document. -/
abbrev Patch := List PatchOp

/-- Why an operation fails. -/
inductive PatchFailure where
  | invalidPath
  | invalidSource
  | mismatch
  | insideItself
deriving DecidableEq, Repr

/-- The text of the failure. -/
def PatchFailure.message : PatchFailure → String
  | invalidPath => "path is invalid"
  | invalidSource => "\"from\" path is invalid"
  | mismatch => "value did not match"
  | insideItself => "cannot move the value inside itself"

namespace PatchOp

/-- The place that an operation is about. -/
def path : PatchOp → Pointer
  | add p _ | remove p | replace p _ | move _ p | copy _ p | test p _ => p

/-- An operation that changes its place. -/
def isWrite : PatchOp → Bool
  | test _ _ => false
  | _ => true

/-- The fields of an operation in their order. -/
def fieldNames : String → List String
  | "add" | "replace" | "test" => ["path", "value"]
  | "remove" => ["path"]
  | "move" | "copy" => ["from", "path"]
  | _ => []

/-- A pointer field. -/
def pointer? (fields : Members) (name : String) : Option Pointer :=
  Fields.required fields name fun j => j.str?.bind Pointer.parse?

/-- The operation of a given name with the fields in `content`. -/
def ofName? (name : String) (content : Json) : Option PatchOp := do
  let f ← content.fields? (fieldNames name)
  match name with
  | "add" => do pure (.add (← pointer? f "path") (← Members.find? "value" f))
  | "remove" => do pure (.remove (← pointer? f "path"))
  | "replace" => do pure (.replace (← pointer? f "path") (← Members.find? "value" f))
  | "move" => do pure (.move (← pointer? f "from") (← pointer? f "path"))
  | "copy" => do pure (.copy (← pointer? f "from") (← pointer? f "path"))
  | "test" => do pure (.test (← pointer? f "path") (← Members.find? "value" f))
  | _ => none

/-- The operation that a value describes. In an array the name comes first. -/
def decode? : Json → Option PatchOp
  | .obj m => (Fields.required m "op" Json.str?).bind fun name => ofName? name (.obj m)
  | .arr (.str name :: r) => ofName? name (.arr r)
  | _ => none

end PatchOp

namespace Patch

/-- Puts a value at a place: under a key, or into an array in front of an index or at its end. -/
def insertAt (value : Json) (token : String) : Json → Option Json
  | .obj m => some (.obj (Members.insert token value m))
  | .arr a =>
    if token = "-" then some (.arr (a ++ [value]))
    else (Pointer.index? token (a.length + 1)).map fun i => .arr (a.insertIdx i value)
  | _ => none

/-- A container without what stands under a token. -/
def removeAt (token : String) : Json → Option Json
  | .obj m => (Members.find? token m).map fun _ => .obj (Members.erase token m)
  | .arr a => (Pointer.index? token a.length).map fun i => .arr (a.eraseIdx i)
  | _ => none

/-- The value with something put at a place; the empty path stands for the whole value. -/
def add? (path : Pointer) (value j : Json) : Option Json :=
  match path.split? with
  | none => some value
  | some (above, token) => Pointer.update? (insertAt value token) above j

/-- The value without what stands at a place, which cannot be the whole value. -/
def remove? (path : Pointer) (j : Json) : Option Json :=
  path.split?.bind fun (above, token) => Pointer.update? (removeAt token) above j

/-- Success, or a failure in its absence. -/
def orFail {α : Type} (failure : PatchFailure) : Option α → Except PatchFailure α
  | some a => .ok a
  | none => .error failure

/-- The value after one operation. -/
def step (j : Json) : PatchOp → Except PatchFailure Json
  | .add path value => orFail .invalidPath (add? path value j)
  | .remove path => orFail .invalidPath (remove? path j)
  | .replace path value => orFail .invalidPath (Pointer.update? (fun _ => some value) path j)
  | .move source path => do
    if path.isInside source then throw .insideItself
    let rest ← orFail .invalidSource (remove? source j)
    let value ← orFail .invalidSource (Pointer.get? source j)
    orFail .invalidPath (add? path value rest)
  | .copy source path => do
    let value ← orFail .invalidSource (Pointer.get? source j)
    orFail .invalidPath (add? path value j)
  | .test path value => do
    let found ← orFail .invalidPath (Pointer.get? path j)
    if found.sameValue value then pure j else throw .mismatch

/-- The value after the operations, the first of which has the number `n`. -/
def applyFrom (n : Nat) : Patch → Json → Except (Nat × PatchOp × PatchFailure) Json
  | [], j => .ok j
  | op :: ops, j =>
    match step j op with
    | .ok j => applyFrom (n + 1) ops j
    | .error e => .error (n, op, e)

/-- The patched value, or the number of the operation that fails, the operation and the reason. -/
def apply (p : Patch) (j : Json) : Except (Nat × PatchOp × PatchFailure) Json := applyFrom 0 p j

/-- The text for an operation that fails. -/
def failureMessage (e : Nat × PatchOp × PatchFailure) : String :=
  "operation '/" ++ Text.natText e.1 ++ "' failed at path '" ++ e.2.1.path.text ++ "': " ++
    e.2.2.message

/-- The patch that a value describes. -/
def decode? (j : Json) : Option Patch := j.items?.bind (·.mapM PatchOp.decode?)

end Patch

end LedgerFront
