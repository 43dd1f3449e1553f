import LedgerFront.Text.Offset
import LedgerFront.Where

/-!
# Scanning an expression

The terms of an expression are found in rounds from left to right. The end of a
piece is looked for in a lower-case copy of the expression; the piece itself is
sliced from the expression, at the place that was found in the copy.

* `Where.Scanner.round`: one piece.
* `Where.scan`: all of them.
-/

namespace LedgerFront.Where

open Text.Utf8

/-- How far a scan has come: the place where the next piece starts, and the terms of the pieces in
front of it. -/
structure Scanner where
  start : Nat
  terms : List Term
deriving DecidableEq

/-- What a round comes to: the scan is over, or it goes on behind a separator. -/
inductive Scanner.Round where
  | over (terms : Option (List Term))
  | on (scanner : Scanner)
deriving DecidableEq

/-- Where the piece that starts here ends: in front of the next separator of the lower-case copy, or
at the end of the expression. -/
def pieceEnd (e : List Char) (start : Nat) : Except BadSlice Nat := do
  let lowered := e.map Char.toLower
  let rest ← slice lowered start (size lowered)
  match find? separator rest with
  | some i => pure (start + i)
  | none => pure (size e)

/-- One round. A slice that cannot be taken stops the program. -/
def Scanner.round (e : List Char) (s : Scanner) : Except BadSlice Scanner.Round := do
  let stop ← pieceEnd e s.start
  let piece ← slice e s.start stop
  match term? piece with
  | none => pure (.over none)
  | some term =>
    let terms := s.terms ++ [term]
    if stop = size e then pure (.over (some terms))
    else pure (.on ⟨stop + size separator, terms⟩)

theorem size_separator : size separator = 4 := by decide

/-- A scan that goes on does so further behind, and has not been behind the end. -/
theorem Scanner.lt_of_round {e : List Char} {s t : Scanner} (h : s.round e = .ok (.on t)) :
    s.start < t.start ∧ s.start ≤ size e := by
  unfold round at h
  cases hstop : pieceEnd e s.start with
  | error b => simp [hstop, bind, Except.bind] at h
  | ok stop =>
    cases hpiece : slice e s.start stop with
    | error b => simp [hstop, hpiece, bind, Except.bind] at h
    | ok piece =>
      have hbounds := bounds_of_slice hpiece
      simp only [hstop, hpiece, bind, Except.bind] at h
      split at h
      · cases h
      · split at h
        · cases h
        · cases h
          dsimp only
          rw [size_separator]
          omega

/-- The rounds from here on. There is a last one, since each starts further behind. -/
def Scanner.run (e : List Char) (s : Scanner) : Except BadSlice (Option (List Term)) :=
  match _h : s.round e with
  | .error b => .error b
  | .ok (.over terms) => .ok terms
  | .ok (.on t) => t.run e
termination_by size e + 1 - s.start
decreasing_by
  have := Scanner.lt_of_round _h
  omega

theorem Scanner.run_over {e : List Char} {s : Scanner} {terms : Option (List Term)}
    (h : s.round e = .ok (.over terms)) : s.run e = .ok terms := by
  rw [run]
  split <;> simp_all

/-- A scan that goes on comes to what it comes to from there. -/
theorem Scanner.run_on {e : List Char} {s t : Scanner} (h : s.round e = .ok (.on t)) :
    s.run e = t.run e := by
  rw [run]
  split <;> simp_all

/-- The terms of an expression. -/
def scan (expression : String) : Except BadSlice (Option (List Term)) :=
  Scanner.run expression.toList ⟨0, []⟩

end LedgerFront.Where
