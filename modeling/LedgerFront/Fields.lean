/-!
# Fields of a record

A record that is read from some format comes as its fields by name. A field that
has to be there is required; one that may be left out has a default.
-/

namespace LedgerFront

/-- Values by name. -/
abbrev Fields (V : Type) := List (String × V)

namespace Fields

variable {V α : Type}

/-- The field under a name, which has to be there. -/
def required (fields : Fields V) (name : String) (decode : V → Option α) : Option α :=
  (fields.lookup name).bind decode

/-- The field under a name, or a default where there is none. -/
def optional (fields : Fields V) (name : String) (default : α) (decode : V → Option α) :
    Option α :=
  match fields.lookup name with
  | some v => decode v
  | none => some default

end Fields

end LedgerFront
