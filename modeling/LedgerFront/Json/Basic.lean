import LedgerFront.Number.Shortest

/-!
# JSON values

Integers of at most 64 bits are kept apart from doubles: `7` and `7.0` are
different values. Objects list their members by ascending key, each key once.

* `Json.sameValue`: equality of values; the doubles `0.0` and `-0.0` count as
  equal, all else is structural.
* `Members.insert`, `Members.find?`, `Members.erase`: the object as a map.
-/

namespace LedgerFront

/-- A number: an integer within the signed or unsigned 64-bit range, or a double. -/
inductive JsonNumber where
  | int (i : Int)
  | double (d : Binary64)
deriving DecidableEq

/-- A JSON value. -/
inductive Json where
  | null
  | bool (b : Bool)
  | num (n : JsonNumber)
  | str (s : String)
  | arr (items : List Json)
  | obj (members : List (String × Json))

/-- The members of an object, by ascending key. -/
abbrev Members := List (String × Json)

namespace JsonNumber

/-- The number as a signed 64-bit integer, if it is an integer of that range. -/
def int64? : JsonNumber → Option Int
  | int i => if -0x8000000000000000 ≤ i ∧ i < 0x8000000000000000 then some i else none
  | double _ => none

/-- The double nearest to the number. -/
def binary64? : JsonNumber → Option Binary64
  | int i => Binary64.ofInt? i
  | double d => some d

/-- The text of the number in a document. -/
def text : JsonNumber → String
  | int i => Text.intText i
  | double d => d.jsonText

/-- Equal values: an integer never equals a double. -/
def sameValue : JsonNumber → JsonNumber → Bool
  | int i, int j => i == j
  | double x, double y => x.sameNumber y
  | _, _ => false

end JsonNumber

namespace Json

mutual

/-- Structural equality is decidable. -/
def decEq : (a b : Json) → Decidable (a = b)
  | null, null => .isTrue rfl
  | bool a, bool b => if h : a = b then .isTrue (by rw [h]) else .isFalse (by simp [h])
  | num a, num b => if h : a = b then .isTrue (by rw [h]) else .isFalse (by simp [h])
  | str a, str b => if h : a = b then .isTrue (by rw [h]) else .isFalse (by simp [h])
  | arr a, arr b =>
    match decEqItems a b with
    | .isTrue h => .isTrue (by rw [h])
    | .isFalse h => .isFalse (by simp [h])
  | obj a, obj b =>
    match decEqMembers a b with
    | .isTrue h => .isTrue (by rw [h])
    | .isFalse h => .isFalse (by simp [h])
  | null, bool _ | null, num _ | null, str _ | null, arr _ | null, obj _
  | bool _, null | bool _, num _ | bool _, str _ | bool _, arr _ | bool _, obj _
  | num _, null | num _, bool _ | num _, str _ | num _, arr _ | num _, obj _
  | str _, null | str _, bool _ | str _, num _ | str _, arr _ | str _, obj _
  | arr _, null | arr _, bool _ | arr _, num _ | arr _, str _ | arr _, obj _
  | obj _, null | obj _, bool _ | obj _, num _ | obj _, str _ | obj _, arr _ =>
    .isFalse (by simp)

/-- Structural equality of item lists is decidable. -/
def decEqItems : (a b : List Json) → Decidable (a = b)
  | [], [] => .isTrue rfl
  | [], _ :: _ | _ :: _, [] => .isFalse (by simp)
  | x :: a, y :: b =>
    match decEq x y, decEqItems a b with
    | .isTrue h, .isTrue k => .isTrue (by rw [h, k])
    | .isFalse h, _ | _, .isFalse h => .isFalse (by simp [h])

/-- Structural equality of member lists is decidable. -/
def decEqMembers : (a b : List (String × Json)) → Decidable (a = b)
  | [], [] => .isTrue rfl
  | [], _ :: _ | _ :: _, [] => .isFalse (by simp)
  | (k, x) :: a, (l, y) :: b =>
    if hk : k = l then
      match decEq x y, decEqMembers a b with
      | .isTrue h, .isTrue t => .isTrue (by rw [hk, h, t])
      | .isFalse h, _ | _, .isFalse h => .isFalse (by simp [h])
    else .isFalse (by simp [hk])

end

instance : DecidableEq Json := decEq

mutual

/-- Equality of values: the two zero doubles are equal. -/
def sameValue : Json → Json → Bool
  | null, null => true
  | bool a, bool b => a == b
  | num a, num b => a.sameValue b
  | str a, str b => a == b
  | arr a, arr b => sameItems a b
  | obj a, obj b => sameMembers a b
  | _, _ => false

/-- Equal items in the same order. -/
def sameItems : List Json → List Json → Bool
  | [], [] => true
  | x :: a, y :: b => sameValue x y && sameItems a b
  | _, _ => false

/-- The same keys with equal values. -/
def sameMembers : List (String × Json) → List (String × Json) → Bool
  | [], [] => true
  | (k, x) :: a, (l, y) :: b => k == l && sameValue x y && sameMembers a b
  | _, _ => false

end

end Json

namespace Members

/-- The value under a key. -/
def find? (key : String) (members : Members) : Option Json :=
  List.lookup key members

/-- The object with a value put under a key, in the place of the old one if there is one. -/
def insert (key : String) (value : Json) : Members → Members
  | [] => [(key, value)]
  | (k, v) :: r =>
    if key = k then (key, value) :: r
    else if key < k then (key, value) :: (k, v) :: r
    else (k, v) :: insert key value r

/-- The object without a key. -/
def erase (key : String) (members : Members) : Members := members.filter (·.1 != key)

/-- The object of these pairs; of equal keys the last one counts. -/
def ofList (pairs : List (String × Json)) : Members :=
  pairs.foldl (fun m p => insert p.1 p.2 m) []

end Members

namespace Json

/-- The members of an object. -/
def members? : Json → Option Members
  | obj m => some m
  | _ => none

/-- The member of an object under a key. -/
def get? (j : Json) (key : String) : Option Json := j.members?.bind (Members.find? key)

/-- The text of a string. -/
def str? : Json → Option String
  | str s => some s
  | _ => none

/-- The items of an array. -/
def items? : Json → Option (List Json)
  | arr a => some a
  | _ => none

/-- An object from pairs in any order. -/
def ofPairs (pairs : List (String × Json)) : Json := obj (Members.ofList pairs)

/-- An integer as a value. -/
def ofInt (i : Int) : Json := num (.int i)

/-- A natural number as a value. -/
def ofNat (n : Nat) : Json := num (.int n)

/-- A text, or null. -/
def ofString? : Option String → Json
  | some s => str s
  | none => null

mutual

/-- How many containers stand inside each other at most. -/
def depth : Json → Nat
  | arr a => depthItems a + 1
  | obj m => depthMembers m + 1
  | _ => 0

/-- The greatest depth of the items. -/
def depthItems : List Json → Nat
  | [] => 0
  | x :: a => max (depth x) (depthItems a)

/-- The greatest depth of the members. -/
def depthMembers : List (String × Json) → Nat
  | [] => 0
  | (_, x) :: m => max (depth x) (depthMembers m)

end

end Json

end LedgerFront
