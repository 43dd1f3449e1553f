/-!
# Letter case

Names of entities, columns and header schemes are compared without regard to
ASCII letter case. Every other character, also an accented letter, only equals
itself.
-/

namespace LedgerFront.Text

/-- ASCII letters become lower case, other characters stay. -/
def lower (s : String) : String := String.ofList (s.toList.map Char.toLower)

/-- Equal up to ASCII letter case. -/
def sameName (a b : String) : Bool := lower a == lower b

@[simp] theorem sameName_iff {a b : String} : sameName a b = true ↔ lower a = lower b := by
  simp [sameName]

theorem sameName_refl (a : String) : sameName a a = true := by simp

end LedgerFront.Text
