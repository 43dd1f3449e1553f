/-!
# Cutting a text at a separator

`cutAt same sep s` cuts `s` at the leftmost non-overlapping places where `sep`
stands, characters being compared by `same`. There is always at least one piece,
and no piece holds the separator.
-/

namespace LedgerFront.Text

/-- What follows `sep` at the start of the text, if it stands there. -/
def after? (same : Char → Char → Bool) : List Char → List Char → Option (List Char)
  | [], s => some s
  | _ :: _, [] => none
  | c :: sep, d :: s => if same c d then after? same sep s else none

/-- Puts a character in front of the first piece. -/
def pushHead (c : Char) : List (List Char) → List (List Char)
  | [] => [[c]]
  | p :: ps => (c :: p) :: ps

/-- The pieces of the text after `skip` characters of a separator are passed over. -/
def cutFrom (same : Char → Char → Bool) (sep : List Char) : Nat → List Char → List (List Char)
  | _, [] => [[]]
  | skip + 1, _ :: s => cutFrom same sep skip s
  | 0, c :: s =>
    if (after? same sep (c :: s)).isSome then [] :: cutFrom same sep (sep.length - 1) s
    else pushHead c (cutFrom same sep 0 s)

/-- The pieces between the separators, which is not empty. -/
def cutAt (same : Char → Char → Bool) (sep s : List Char) : List (List Char) :=
  cutFrom same sep 0 s

/-- The pieces of a text between exact occurrences of a separator. -/
def pieces (sep s : String) : List String :=
  (cutAt (· == ·) sep.toList s.toList).map String.ofList

/-- The parts before and after the first `mark`. -/
def splitFirst? (mark : Char) : List Char → Option (List Char × List Char)
  | [] => none
  | c :: s => if c = mark then some ([], s) else (splitFirst? mark s).map fun p => (c :: p.1, p.2)

theorem cutFrom_ne_nil (same : Char → Char → Bool) (sep : List Char) (k : Nat) (s : List Char) :
    cutFrom same sep k s ≠ [] := by
  fun_induction cutFrom same sep k s with
  | case1 => simp
  | case2 _ _ _ ih => exact ih
  | case3 => simp
  | case4 c s h ih =>
    cases hq : cutFrom same sep 0 s with
    | nil => exact absurd hq ih
    | cons p ps => simp [pushHead]

end LedgerFront.Text
