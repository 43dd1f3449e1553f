import LedgerFront.Json.Basic

/-!
# When values count as equal

Values count as equal when they are the same once every zero has lost its sign, so this is an
equivalence.

* `Json.unsigned`: a value without negative zeros.
* `Json.sameValue_iff`: equal values by it.
-/

namespace LedgerFront

/-- The same number, zero without its sign. -/
def Binary64.unsigned (x : Binary64) : Binary64 := if x.isZero then zero false else x

theorem Binary64.sameNumber_iff {x y : Binary64} :
    x.sameNumber y = true ↔ x.unsigned = y.unsigned := by
  unfold sameNumber unsigned
  by_cases hx : x.isZero = true <;> by_cases hy : y.isZero = true
  · simp [hx, hy]
  · have hne : x ≠ y := fun h => hy (h ▸ hx)
    have hne' : zero false ≠ y := fun h => hy (h ▸ rfl)
    simp [hx, hy, hne, hne']
  · have hne : x ≠ y := fun h => hx (h ▸ hy)
    have hne' : x ≠ zero false := fun h => hx (h ▸ rfl)
    simp [hx, hy, hne, hne']
  · simp [hx, hy]

/-- The same number, zero without its sign. -/
def JsonNumber.unsigned : JsonNumber → JsonNumber
  | int i => int i
  | double d => double d.unsigned

theorem JsonNumber.sameValue_iff {a b : JsonNumber} :
    a.sameValue b = true ↔ a.unsigned = b.unsigned := by
  cases a <;> cases b <;> simp [sameValue, unsigned, Binary64.sameNumber_iff]

namespace Json

mutual

/-- The same value, all zeros without their signs. -/
def unsigned : Json → Json
  | null => null
  | bool b => bool b
  | num n => num n.unsigned
  | str s => str s
  | arr items => arr (unsignedItems items)
  | obj members => obj (unsignedMembers members)

/-- The items, all zeros without their signs. -/
def unsignedItems : List Json → List Json
  | [] => []
  | x :: items => unsigned x :: unsignedItems items

/-- The members, all zeros without their signs. -/
def unsignedMembers : List (String × Json) → List (String × Json)
  | [] => []
  | (k, x) :: members => (k, unsigned x) :: unsignedMembers members

end

mutual

/-- **Equal values** are the same but for the signs of zeros. -/
theorem sameValue_iff : (a b : Json) → (a.sameValue b = true ↔ a.unsigned = b.unsigned)
  | null, b => by cases b <;> simp [sameValue, unsigned]
  | bool _, b => by cases b <;> simp [sameValue, unsigned]
  | num _, b => by cases b <;> simp [sameValue, unsigned, JsonNumber.sameValue_iff]
  | str _, b => by cases b <;> simp [sameValue, unsigned]
  | arr items, b => by
    cases b with
    | arr items' => simpa [sameValue, unsigned] using sameItems_iff items items'
    | _ => simp [sameValue, unsigned]
  | obj members, b => by
    cases b with
    | obj members' => simpa [sameValue, unsigned] using sameMembers_iff members members'
    | _ => simp [sameValue, unsigned]

theorem sameItems_iff :
    (a b : List Json) → (sameItems a b = true ↔ unsignedItems a = unsignedItems b)
  | [], b => by cases b <;> simp [sameItems, unsignedItems]
  | x :: items, b => by
    cases b with
    | nil => simp [sameItems, unsignedItems]
    | cons y items' =>
      simp [sameItems, unsignedItems, sameValue_iff x y, sameItems_iff items items']

theorem sameMembers_iff : (a b : List (String × Json)) →
    (sameMembers a b = true ↔ unsignedMembers a = unsignedMembers b)
  | [], b => by cases b <;> simp [sameMembers, unsignedMembers]
  | (k, x) :: members, b => by
    cases b with
    | nil => simp [sameMembers, unsignedMembers]
    | cons p members' =>
      obtain ⟨l, y⟩ := p
      simp [sameMembers, unsignedMembers, sameValue_iff x y, sameMembers_iff members members', and_assoc]

end

@[simp] theorem unsigned_ofNat (n : Nat) : (ofNat n).unsigned = ofNat n := by
  simp [ofNat, unsigned, JsonNumber.unsigned]

/-- Only an integer has the value of an integer. -/
theorem unsigned_eq_ofNat {a : Json} {n : Nat} : a.unsigned = ofNat n ↔ a = ofNat n := by
  constructor
  · intro h
    cases a with
    | num k => cases k <;> simp_all [ofNat, unsigned, JsonNumber.unsigned]
    | _ => simp [ofNat, unsigned] at h
  · rintro rfl
    exact unsigned_ofNat n

theorem ofNat_injective : Function.Injective ofNat := by
  intro a b h
  have hint : (a : Int) = b := by simpa [ofNat] using h
  exact Int.ofNat.inj hint

end Json

end LedgerFront
