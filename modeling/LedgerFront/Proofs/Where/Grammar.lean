import LedgerFront.Proofs.Refusal
import LedgerFront.Proofs.Text.Offset
import LedgerFront.Proofs.Where.Read
import LedgerFront.Where.Scan

/-!
# The grammar of raw expressions

An expression is cut at its separators, always at the leftmost one that is left,
and every piece spells a term or is malformed. The scanner, which finds the
separators in a lower-case copy and counts in bytes, reads just this.

* `Cut`: the pieces of an expression.
* `Scanner.round_whole`, `Scanner.round_first`: one round.
* `Scanner.run_of_cut`: all rounds from any piece on.
* `scan_meets_grammar`: the whole scan.
-/

namespace LedgerFront.Where

open Text Text.Utf8

/-! ## Pieces -/

/-- The separator in some letter case. -/
def IsSeparator (m : List Char) : Prop := m.map Char.toLower = separator

/-- **The pieces of an expression.** -/
abbrev Cut (s : List Char) (pieces : List (List Char)) : Prop := Cuts IsSeparator s pieces

theorem isSeparator_iff (m : List Char) : IsSeparator m ↔ Matches sameLetter separator m := matches_iff.symm

theorem cut_iff {s : List Char} {pieces : List (List Char)} :
    Cut s pieces ↔ pieces = cutAt sameLetter separator s := cuts_iff separator_ne_nil isSeparator_iff

theorem parse?_of_cut {e : String} {pieces : List (List Char)} (h : Cut e.toList pieces) :
    parse? e = pieces.mapM term? := by
  rw [parse?, ← cut_iff.1 h]

/-! ## Rounds -/

/-- Separators of the text are those of its lower-case copy, at the same places. -/
theorem standsBehind_iff_lowered {s x : List Char} :
    x ++ separator <+: s.map Char.toLower ↔ ∃ a, a.map Char.toLower = x ∧ StandsBehind IsSeparator a s := by
  constructor
  · rintro ⟨r, hr⟩
    obtain ⟨am, r', rfl, ham, -⟩ := List.map_eq_append_iff.1 hr.symm
    obtain ⟨a, m, rfl, ha, hm⟩ := List.map_eq_append_iff.1 ham
    exact ⟨a, ha, m, hm, List.prefix_append _ r'⟩
  · rintro ⟨a, rfl, m, hm, r, rfl⟩
    refine ⟨r.map Char.toLower, ?_⟩
    rw [List.map_append, List.map_append, hm]

theorem find?_lowered_eq_none {s : List Char} (hno : ∀ a, ¬ StandsBehind IsSeparator a s) :
    find? separator (s.map Char.toLower) = none := by
  rw [find?_eq_none_iff separator_ne_nil]
  intro x hx
  obtain ⟨a, -, ha⟩ := standsBehind_iff_lowered.1 hx
  exact hno a ha

/-- The place of the leftmost separator, found in the lower-case copy, is its place in the text. -/
theorem find?_lowered_eq_some {p m r : List Char} (hm : IsSeparator m)
    (hleft : ∀ a, StandsBehind IsSeparator a (p ++ m ++ r) → p.length ≤ a.length) :
    find? separator ((p ++ m ++ r).map Char.toLower) = some (size p) := by
  rw [find?_eq_some_iff separator_ne_nil]
  refine ⟨p.map Char.toLower, ?_, size_map_toLower p, ?_⟩
  · exact standsBehind_iff_lowered.2 ⟨p, rfl, m, hm, List.prefix_append _ r⟩
  · intro x hx
    obtain ⟨a, rfl, ha⟩ := standsBehind_iff_lowered.1 hx
    rw [List.length_map, List.length_map]
    exact hleft a ha

theorem pieceEnd_eq (front rest : List Char) : pieceEnd (front ++ rest) (size front) =
    .ok (match find? separator (rest.map Char.toLower) with
      | some i => size front + i
      | none => size (front ++ rest)) := by
  have hslice : slice ((front ++ rest).map Char.toLower) (size front)
      (size ((front ++ rest).map Char.toLower)) = .ok (rest.map Char.toLower) := by
    rw [slice_eq_ok_iff]
    refine ⟨front.map Char.toLower, [], ?_, size_map_toLower front, ?_⟩
    · rw [List.map_append, List.append_nil]
    · rw [List.map_append]
  unfold pieceEnd
  simp only [hslice, bind, Except.bind]
  cases find? separator (rest.map Char.toLower) <;> rfl

/-- A round on the piece `p`, which ends where the scanner finds it to. -/
theorem Scanner.round_of_pieceEnd {front p r : List Char} (terms : List Term)
    (hend : pieceEnd (front ++ p ++ r) (size front) = .ok (size (front ++ p))) :
    Scanner.round (front ++ p ++ r) ⟨size front, terms⟩ = .ok (match term? p with
      | none => .over none
      | some t =>
        if r = [] then .over (some (terms ++ [t]))
        else .on ⟨size (front ++ p) + size separator, terms ++ [t]⟩) := by
  have hslice : slice (front ++ p ++ r) (size front) (size (front ++ p)) = .ok p :=
    slice_eq_ok_iff.2 ⟨front, r, rfl, rfl, rfl⟩
  have hlast : size (front ++ p) = size (front ++ p ++ r) ↔ r = [] := by
    rw [size_append (front ++ p) r]
    cases r with
    | nil => simp [size_nil]
    | cons c r =>
      have hpos := encodeChar_pos c
      rw [size_cons]
      refine iff_of_false ?_ (List.cons_ne_nil c r)
      omega
  unfold Scanner.round
  simp only [hend, hslice, bind, Except.bind, hlast]
  cases term? p with
  | none => rfl
  | some t =>
    dsimp only
    split <;> rfl

/-- **The last round** reads the piece that no separator follows. -/
theorem Scanner.round_whole (front : List Char) (terms : List Term) {s : List Char}
    (hno : ∀ a, ¬ StandsBehind IsSeparator a s) :
    Scanner.round (front ++ s) ⟨size front, terms⟩ =
      .ok (.over ((term? s).map fun t => terms ++ [t])) := by
  have hend : pieceEnd (front ++ s ++ []) (size front) = .ok (size (front ++ s)) := by
    rw [List.append_nil, pieceEnd_eq, find?_lowered_eq_none hno]
  have hround := round_of_pieceEnd terms hend
  rw [List.append_nil] at hround
  rw [hround]
  cases term? s <;> rfl

/-- **Any other round** reads the piece in front of a separator and goes on behind it. -/
theorem Scanner.round_first (front : List Char) (terms : List Term) {p m r : List Char}
    (hm : IsSeparator m)
    (hleft : ∀ a, StandsBehind IsSeparator a (p ++ m ++ r) → p.length ≤ a.length) :
    Scanner.round (front ++ (p ++ m ++ r)) ⟨size front, terms⟩ = .ok (match term? p with
      | none => .over none
      | some t => .on ⟨size (front ++ p ++ m), terms ++ [t]⟩) := by
  have hassoc : front ++ (p ++ m ++ r) = front ++ p ++ (m ++ r) := by simp
  have hend : pieceEnd (front ++ p ++ (m ++ r)) (size front) = .ok (size (front ++ p)) := by
    rw [← hassoc, pieceEnd_eq, find?_lowered_eq_some hm hleft, size_append front p]
  have hne : m ++ r ≠ [] := by
    intro h
    obtain ⟨rfl, -⟩ := List.append_eq_nil_iff.1 h
    exact separator_ne_nil hm.symm
  have hsize : size (front ++ p) + size separator = size (front ++ p ++ m) := by
    rw [size_append (front ++ p) m, ← hm, size_map_toLower]
  rw [hassoc, round_of_pieceEnd terms hend]
  simp only [if_neg hne, hsize]

-- two of the eleven characters in front of the second piece have two bytes
example : Scanner.round "É = 'ß' oR b=7".toList ⟨0, []⟩ = .ok (.on ⟨13, [⟨"É", "ß", true⟩]⟩) := by
  decide +kernel

/-- **All rounds.** From any piece on, the scanner reads that piece and those behind it; no slice is
refused. -/
theorem Scanner.run_of_cut {s : List Char} {pieces : List (List Char)} (h : Cut s pieces)
    (front : List Char) (terms : List Term) :
    Scanner.run (front ++ s) ⟨size front, terms⟩ =
      .ok ((pieces.mapM term?).map fun ts => terms ++ ts) := by
  -- by the pieces; `front` is the part of the expression that has been read
  induction h generalizing front terms with
  | @whole s hno =>
    rw [run_over (round_whole front terms hno), List.mapM_cons]
    cases term? s <;> rfl
  | @first p m r pieces hm hleft _ ih =>
    have hround := round_first front terms hm hleft
    rw [List.mapM_cons]
    cases hterm : term? p with
    | none =>
      rw [hterm] at hround
      rw [run_over hround]
      rfl
    | some t =>
      rw [hterm] at hround
      have hrest := ih (front ++ p ++ m) (terms ++ [t])
      have hassoc : front ++ (p ++ m ++ r) = front ++ p ++ m ++ r := by simp
      rw [run_on hround, hassoc, hrest]
      cases pieces.mapM term? <;> simp

/-- **The scanner meets the grammar.** Every expression has its pieces, in one way. The scan of it ends
without a slice that is out of range or inside a character and gives the terms of the expression: none
if a piece is malformed, otherwise one for each piece, in order. -/
theorem scan_meets_grammar (e : String) : ∃ pieces,
    (∀ ps, Cut e.toList ps ↔ ps = pieces) ∧ scan e = .ok (parse? e) ∧
    (parse? e = none ↔ ∃ p ∈ pieces, Malformed p) ∧
    ∀ terms, parse? e = some terms ↔ List.Forall₂ Spells pieces terms := by
  obtain ⟨pieces, hcut⟩ : ∃ pieces, Cut e.toList pieces := ⟨_, cut_iff.2 rfl⟩
  have hparse := parse?_of_cut hcut
  refine ⟨pieces, ?_, ?_, ?_, ?_⟩
  · intro ps
    rw [cut_iff, ← cut_iff.1 hcut]
  · have hrun := Scanner.run_of_cut hcut [] []
    rw [scan, hparse]
    simpa [size_nil] using hrun
  · rw [hparse, mapM_eq_none]
    simp only [term?_eq_none_iff]
  · intro terms
    rw [hparse, mapM_eq_some]
    simp only [term?_eq_some_iff]

end LedgerFront.Where
