import Mathlib.Data.List.Forall2
import Mathlib.Data.List.Induction
import LedgerFront.Proofs.Memory.ByNumber
import LedgerFront.Proofs.Memory.Marks
import LedgerFront.Proofs.Memory.Tables

/-!
# Updated tables

An update puts each of its rows in the place of the first row with the same number, one after the other
in the table that it is about. A row that is put in has the number of the one that it replaces, so the
places that the numbers name are the same ones throughout, and the check made before the first row holds
to the end.

* `Memory.SameKey`: rows with the same number, or both without one.
* `Memory.place?`: where a row belongs.
* `Memory.getElem?_updated`: the rows after an update.
* `Memory.find?_updated`: what stands under a number of the request.
* `Memory.update_keeps_keys`: an update from outside.
-/

namespace LedgerFront.Memory

variable {row row' : Json} {rows table table' : List Json} {i : Nat}

/-- Rows with equal numbers, or both without one. -/
def SameKey (a b : Json) : Prop := sameRow a b = true ∨ (rowId? a = none ∧ rowId? b = none)

theorem sameKey_iff {a b : Json} : SameKey a b ↔ mark? a = mark? b := by
  unfold SameKey
  rw [sameRow_iff]
  unfold mark?
  cases rowId? a with
  | none => cases rowId? b <;> simp
  | some x =>
    cases rowId? b with
    | none => simp
    | some y => simp [eq_comm]

theorem sameRow_congr {a b : Json} (h : mark? a = mark? b) (row : Json) :
    sameRow a row = sameRow b row := by
  rw [Bool.eq_iff_iff, sameRow_iff, sameRow_iff, h]

/-- The place of the first row with the number of `row`. -/
def place? (row : Json) (table : List Json) : Option Nat := table.findIdx? (sameRow · row)

/-- The numbers of a table decide where rows belong. -/
theorem place?_congr (h : table.map mark? = table'.map mark?) : place? row table = place? row table' := by
  unfold place?
  induction table generalizing table' with
  | nil =>
    obtain rfl := List.map_eq_nil_iff.1 h.symm
    rfl
  | cons t table ih =>
    cases table' with
    | nil => simp at h
    | cons t' table' =>
      rw [List.map_cons, List.map_cons, List.cons.injEq] at h
      rw [List.findIdx?_cons, List.findIdx?_cons, sameRow_congr h.1 row, ih h.2]

/-- Rows with the same number belong to the same place. -/
theorem place?_of_sameRow (h : sameRow row row' = true) : place? row table = place? row' table := by
  obtain ⟨mark, hrow, hrow'⟩ := sameRow_iff.1 h
  have hsame : (fun t => sameRow t row) = fun t => sameRow t row' := by
    funext t
    rw [Bool.eq_iff_iff, sameRow_iff, sameRow_iff, hrow, hrow']
  unfold place?
  rw [hsame]

theorem place?_eq_some (h : place? row table = some i) :
    ∃ t, table[i]? = some t ∧ sameRow t row = true := by
  obtain ⟨hlt, hsame, -⟩ := List.findIdx?_eq_some_iff_getElem.1 h
  exact ⟨table[i], List.getElem?_eq_getElem hlt, hsame⟩

theorem find?_eq_getElem?_of_place? (h : place? row table = some i) :
    table.find? (sameRow · row) = table[i]? := by
  obtain ⟨hlt, hsame, hbefore⟩ := List.findIdx?_eq_some_iff_getElem.1 h
  rw [List.getElem?_eq_getElem hlt, List.find?_eq_some_iff_getElem]
  exact ⟨hsame, i, hlt, rfl, fun j hj => by simpa using hbefore j hj⟩

/-- Only rows with the same number belong to the same place. -/
theorem sameRow_of_place? (h : place? row table = some i) (h' : place? row' table = some i) :
    sameRow row' row = true := by
  obtain ⟨t, ht, hrow⟩ := place?_eq_some h
  obtain ⟨t', ht', hrow'⟩ := place?_eq_some h'
  obtain rfl := Option.some.inj (ht.symm.trans ht')
  obtain ⟨mark, hmark, hrow⟩ := sameRow_iff.1 hrow
  obtain ⟨mark', hmark', hrow'⟩ := sameRow_iff.1 hrow'
  obtain rfl := Option.some.inj (hmark.symm.trans hmark')
  exact sameRow_iff.2 ⟨mark, hrow', hrow⟩

/-! ## One row -/

/-- The row is put in its place, and nothing else changes. -/
theorem getElem?_replaceFirst (row : Json) (table : List Json) (i : Nat) :
    (replaceFirst row table)[i]? = if place? row table = some i then some row else table[i]? := by
  unfold place?
  induction table generalizing i with
  | nil => simp [replaceFirst]
  | cons t table ih =>
    unfold replaceFirst
    rw [List.findIdx?_cons]
    split
    · cases i with
      | zero => simp
      | succ i => simp
    · cases i with
      | zero => simp
      | succ i => simp [ih]

/-! ## All rows of an update -/

/-- The table after all rows of an update. -/
def updated (rows table : List Json) : List Json := rows.foldl (fun t row => replaceFirst row t) table

theorem updated_concat (rows : List Json) (row : Json) (table : List Json) :
    updated (rows ++ [row]) table = replaceFirst row (updated rows table) := by
  unfold updated
  rw [List.foldl_append, List.foldl_cons, List.foldl_nil]

theorem map_mark?_updated (rows table : List Json) :
    (updated rows table).map mark? = table.map mark? := map_mark?_update rows table

theorem length_updated (rows table : List Json) : (updated rows table).length = table.length := by
  have h := congrArg List.length (map_mark?_updated rows table)
  rwa [List.length_map, List.length_map] at h

theorem forall₂_sameKey_updated (rows table : List Json) :
    List.Forall₂ SameKey table (updated rows table) := by
  have hmarks : List.Forall₂ (fun a b => mark? a = mark? b) table (updated rows table) := by
    rw [← List.forall₂_map_left_iff (f := mark?) (R := fun m b => m = mark? b),
      ← List.forall₂_map_right_iff (f := mark?), List.forall₂_eq_eq_eq, map_mark?_updated]
  exact hmarks.imp fun _ _ h => sameKey_iff.2 h

/-- **The rows after an update**: at each place the last row of the update that belongs there, else the
row from before. The places are those in the table from before, since the numbers stay. -/
theorem getElem?_updated (rows table : List Json) (i : Nat) :
    (updated rows table)[i]? = (rows.findRev? fun row => place? row table == some i).or table[i]? := by
  rw [List.findRev?_eq_find?_reverse]
  -- by induction at the end, where the row comes that counts; its place is looked up in a table that the
  -- rows before it have changed already, but not the numbers in it
  induction rows using List.reverseRecOn with
  | nil => rfl
  | append_singleton rows row ih =>
    have hplace : place? row (updated rows table) = place? row table :=
      place?_congr (map_mark?_updated rows table)
    rw [updated_concat, getElem?_replaceFirst, hplace, ih, List.reverse_concat, List.find?_cons]
    by_cases h : place? row table = some i
    · simp [h]
    · simp [h, beq_eq_false_iff_ne.2 h]

theorem isSome_findRev? (hrow : row ∈ rows) (hplace : place? row table = some i) :
    (rows.findRev? (sameRow · row)).isSome := by
  rw [List.findRev?_eq_find?_reverse, List.find?_isSome]
  exact ⟨row, List.mem_reverse.2 hrow, sameRow_of_place? hplace hplace⟩

/-- **Under a number of the request** stands the last row that came with it. -/
theorem find?_updated (hrow : row ∈ rows) (hplace : place? row table = some i) :
    (updated rows table).find? (sameRow · row) = rows.findRev? (sameRow · row) := by
  have hfirst : place? row (updated rows table) = some i :=
    (place?_congr (map_mark?_updated rows table)).trans hplace
  have hlast : (rows.findRev? fun r => place? r table == some i) = rows.findRev? (sameRow · row) := by
    rw [List.findRev?_eq_find?_reverse, List.findRev?_eq_find?_reverse]
    congr 1
    funext r
    rw [Bool.eq_iff_iff, beq_iff_eq]
    constructor
    · exact fun h => sameRow_of_place? hplace h
    · exact fun h => (place?_of_sameRow h).trans hplace
  rw [find?_eq_getElem?_of_place? hfirst, getElem?_updated, hlast,
    Option.or_of_isSome (isSome_findRev? hrow hplace)]

/-! ## From outside -/

/-- What an update with these rows makes of a table. -/
structure Updated (rows old new : List Json) : Prop where
  /-- The table keeps its length. -/
  length_eq : new.length = old.length
  /-- At every position the number is as before, if there is one. -/
  keys : List.Forall₂ SameKey old new
  /-- Under each number of the update the first row of the table is the last one of the update. -/
  written : ∀ row ∈ rows, ∃ last,
    rows.findRev? (sameRow · row) = some last ∧ new.find? (sameRow · row) = some last
  /-- Every position that is not the first one with a number of the update keeps its row. -/
  others : ∀ i, (∀ row ∈ rows, place? row old ≠ some i) → new[i]? = old[i]?

theorem exists_place? {old : List Json} (h : covers old rows = true) (hrow : row ∈ rows) :
    ∃ i, place? row old = some i := by
  obtain ⟨t, ht, hsame⟩ := covers_iff.1 h row hrow
  unfold place?
  rw [← Option.isSome_iff_exists, List.findIdx?_isSome, List.any_eq_true]
  exact ⟨t, ht, hsame⟩

/-- **Rows whose numbers are all there** are put in their places. -/
theorem updated_of_covers {old : List Json} (h : covers old rows = true) :
    Updated rows old (updated rows old) := by
  refine ⟨length_updated rows old, forall₂_sameKey_updated rows old, fun row hrow => ?_, fun i hi => ?_⟩
  · obtain ⟨i, hplace⟩ := exists_place? h hrow
    obtain ⟨last, hlast⟩ := Option.isSome_iff_exists.1 (isSome_findRev? hrow hplace)
    exact ⟨last, hlast, (find?_updated hrow hplace).trans hlast⟩
  · have hnone : (rows.findRev? fun row => place? row old == some i) = none := by
      rw [List.findRev?_eq_find?_reverse, List.find?_eq_none]
      exact fun row hrow => by simpa using hi row (List.mem_reverse.1 hrow)
    rw [getElem?_updated, hnone, Option.none_or]

/-- **An update keeps the numbers.** In a session that is logged in it succeeds exactly when the table is
there and has a row with the number of each row of the update. Then it returns these rows and leaves an
updated table, and nothing else changes; else nothing changes at all. -/
theorem update_keeps_keys {m : Memory} {session : Nat} (hin : m.isLoggedIn session = true)
    (company : Int) (entity : String) (rows : List Json) :
    ∃ outcome m', m.answer session (.update company entity rows) = .ok (.ok outcome, m') ∧
      (outcome.status = .success ↔ ∃ old, m.table? (.of company entity) = some old ∧
        ∀ row ∈ rows, ∃ t ∈ old, sameRow t row = true) ∧
      (outcome.status ≠ .success → m' = m) ∧
      (outcome.status = .success → ∃ old new,
        m.table? (.of company entity) = some old ∧ m'.table? (.of company entity) = some new ∧
          m' = m.putTable (.of company entity) new ∧ outcome.rows = rows ∧ Updated rows old new) := by
  have hanswer : m.answer session (.update company entity rows) =
      .ok (.ok (m.update (.of company entity) rows).1, (m.update (.of company entity) rows).2) :=
    if_pos hin
  refine ⟨_, _, hanswer, ?_⟩
  unfold update
  cases htable : m.table? (.of company entity) with
  | none => simp [recordNotFound]
  | some old =>
    dsimp only
    split
    · rename_i hcovers
      refine ⟨iff_of_true rfl ⟨old, rfl, covers_iff.1 hcovers⟩, fun h => absurd rfl h, fun _ => ?_⟩
      exact ⟨old, updated rows old, rfl, by simp [updated], rfl, rfl, updated_of_covers hcovers⟩
    · rename_i hcovers
      have hstatus : recordNotFound ≠ .success := by simp [recordNotFound]
      refine ⟨iff_of_false hstatus ?_, fun _ => rfl, fun h => absurd h hstatus⟩
      rintro ⟨_, hold, hrows⟩
      obtain rfl := Option.some.inj hold
      exact hcovers (covers_iff.2 hrows)

/-- Two rows of the table and two rows of the update have the same number. -/
theorem update_keeps_keys_repeated :
    let row (id : Nat) (city : String) : Json := .obj [("City", .str city), ("RowId", .ofNat id)]
    let old := [.null, row 1 "Oslo", row 2 "Paris", row 1 "Rome"]
    let rows := [row 1 "Bergen", row 2 "Lyon", row 1 "Turin"]
    let m : Memory := { empty with tables := [((1, "debtor"), old)], sessions := [true] }
    ∃ outcome m', m.answer 0 (.update 1 "Debtor" rows) = .ok (.ok outcome, m') ∧
      outcome.status = .success ∧ outcome.rows = rows ∧ ∃ new,
        m'.table? (1, "debtor") = some new ∧ Updated rows old new ∧
          new = [.null, row 1 "Turin", row 2 "Lyon", row 1 "Rome"] := by
  intro row old rows m
  have hin : m.isLoggedIn 0 = true := by decide
  obtain ⟨outcome, m', hanswer, hsuccess, -, hupdated⟩ := update_keeps_keys hin 1 "Debtor" rows
  have hstatus : outcome.status = .success :=
    hsuccess.2 ⟨old, by decide +kernel, covers_iff.1 (by decide +kernel)⟩
  obtain ⟨old', new, hold, hnew, -, hrows, hkeeps⟩ := hupdated hstatus
  have hold' : m.table? (.of 1 "Debtor") = some old := by decide +kernel
  obtain rfl := Option.some.inj (hold'.symm.trans hold)
  have hkey : TableKey.of 1 "Debtor" = (1, "debtor") := by decide +kernel
  have hlist : new = [.null, row 1 "Turin", row 2 "Lyon", row 1 "Rome"] := by
    have hrun : (m.update (.of 1 "Debtor") rows).2.table? (.of 1 "Debtor") =
        some [.null, row 1 "Turin", row 2 "Lyon", row 1 "Rome"] := by decide +kernel
    obtain ⟨-, rfl⟩ := Prod.mk.inj (Except.ok.inj hanswer)
    exact Option.some.inj (hnew.symm.trans hrun)
  exact ⟨outcome, m', hanswer, hstatus, hrows, new, hkey ▸ hnew, hkeeps, hlist⟩

end LedgerFront.Memory
