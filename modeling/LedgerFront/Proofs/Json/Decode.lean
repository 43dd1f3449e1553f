import LedgerFront.Json.Decode
import LedgerFront.Proofs.Refusal

/-!
# Decoded fields

Which values the fields of a record and the texts and numbers in them are decoded from.

* `Fields.required_eq_some`, `Fields.optional_eq_some`: a field that has to be there, and one that may be
  left out.
* `Json.str?_eq_some`, `Json.strings?_eq_some`, `Json.int32?_eq_some`: texts and numbers.
-/

namespace LedgerFront

variable {j : Json}

namespace Fields

variable {V α : Type} {fields : Fields V} {name : String} {decode : V → Option α} {default a : α}

theorem required_eq_some :
    required fields name decode = some a ↔ ∃ v, fields.lookup name = some v ∧ decode v = some a :=
  Option.bind_eq_some_iff

theorem optional_eq_some : optional fields name default decode = some a ↔
    (fields.lookup name = none ∧ a = default) ∨ ∃ v, fields.lookup name = some v ∧ decode v = some a := by
  unfold optional
  cases fields.lookup name <;> simp [eq_comm]

end Fields

namespace Json

theorem str?_eq_some {s : String} : j.str? = some s ↔ j = .str s := by
  cases j <;> simp [str?]

theorem mapM_str?_eq_some {a : List Json} {l : List String} :
    a.mapM str? = some l ↔ a = l.map Json.str :=
  mapM_eq_some_map str?_eq_some

theorem strings?_eq_some {l : List String} : j.strings? = some l ↔ j = .arr (l.map Json.str) := by
  cases j <;> simp [strings?, items?, mapM_str?_eq_some]

theorem int32?_eq_some {i : Int} :
    j.int32? = some i ↔ j = .ofInt i ∧ -0x80000000 ≤ i ∧ i < 0x80000000 := by
  unfold int32? intWithin? ofInt
  split
  · rename_i k
    constructor
    · intro h
      obtain ⟨hrange, h⟩ := Option.ite_none_right_eq_some.1 h
      obtain rfl := Option.some.inj h
      exact ⟨rfl, hrange⟩
    · rintro ⟨h, hrange⟩
      obtain rfl : k = i := by simpa using h
      exact if_pos hrange
  · rename_i hne
    exact iff_of_false (by simp) fun h => hne i h.1

end Json

end LedgerFront
