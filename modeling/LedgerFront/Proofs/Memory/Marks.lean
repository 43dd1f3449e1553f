import Mathlib.Data.List.Nodup
import Mathlib.Data.List.ReduceOption
import LedgerFront.Proofs.Json.Place
import LedgerFront.Proofs.Json.SameValue
import LedgerFront.Remote.Memory.Session

/-!
# The numbers of the rows of a table

What the numbers in a table are after rows are put at its end, replaced or removed.

* `Memory.Distinct`: no two rows have the same number.
* `Memory.marks`: the numbers of the rows.
* `Memory.marks_numberAll`: the numbers of rows as they are stored.
* `Memory.map_mark?_update`: the numbers after rows are replaced.
* `Memory.distinct_append_iff`: rows put at the end of a table leave it distinct when they fit.
-/

namespace LedgerFront.Memory

variable {rows table : List Json} {last : Nat}

/-- No two rows have the same number. -/
def Distinct (rows : List Json) : Prop := rows.Pairwise fun a b => sameRow a b = false

/-- The number of a row, up to the sign of zero. -/
def mark? (row : Json) : Option Json := (rowId? row).map Json.unsigned

/-- The numbers of the rows that have one. -/
def marks (rows : List Json) : List Json := rows.filterMap mark?

@[simp] theorem marks_append (rows rows' : List Json) :
    marks (rows ++ rows') = marks rows ++ marks rows' :=
  List.filterMap_append

theorem sameRow_iff {a b : Json} :
    sameRow a b = true ↔ ∃ mark, mark? a = some mark ∧ mark? b = some mark := by
  unfold sameRow mark?
  cases rowId? a with
  | none => simp
  | some x => cases rowId? b with
    | none => simp
    | some y => simp [Json.sameValue_iff, eq_comm (a := y.unsigned)]

theorem distinct_iff : Distinct rows ↔ (marks rows).Nodup := by
  unfold Distinct marks List.Nodup
  rw [List.pairwise_filterMap]
  refine List.Pairwise.iff fun a b => ?_
  rw [← Bool.not_eq_true, sameRow_iff]
  constructor
  · rintro h x hx y hy rfl
    exact h ⟨x, hx, hy⟩
  · rintro h ⟨x, hx, hy⟩
    exact h x hx x hy rfl

theorem mark_eq_ofNat {row : Json} {n : Nat} :
    mark? row = some (.ofNat n) ↔ rowId? row = some (.ofNat n) := by
  unfold mark?
  simp [Json.unsigned_eq_ofNat]

/-- An object without a number. -/
def lacksNumber (row : Json) : Bool := row.members?.isSome && (rowId? row).isNone

theorem number_of_lacks (last : Nat) {row : Json} (h : lacksNumber row = true) :
    mark? row = none ∧ mark? (number last row).1 = some (.ofNat (last + 1)) ∧
      (number last row).2 = last + 1 := by
  obtain ⟨hobj, hnone⟩ := Bool.and_eq_true_iff.1 h
  cases row with
  | obj members =>
    have hfind : Members.find? Row.idKey members = none := Option.isNone_iff_eq_none.1 hnone
    have hnumber : number last (.obj members) =
        (.obj (Members.insert Row.idKey (.ofNat (last + 1)) members), last + 1) := by
      simp only [number, hfind]
    rw [hnumber, mark_eq_ofNat]
    refine ⟨?_, ?_, rfl⟩
    · simpa [mark?] using hnone
    · simp [rowId?, Json.get?, Json.members?]
  | _ => simp [Json.members?] at hobj

theorem number_of_not_lacks {row : Json} (h : lacksNumber row = false) :
    number last row = (row, last) := by
  cases row with
  | obj members =>
    simp only [number]
    split
    · rfl
    · rename_i hfind
      simp [lacksNumber, rowId?, Json.get?, Json.members?, hfind] at h
  | _ => rfl

theorem numberAll_cons (last : Nat) (row : Json) (rows : List Json) :
    numberAll last (row :: rows) =
      ((number last row).1 :: (numberAll (number last row).2 rows).1,
        (numberAll (number last row).2 rows).2) := rfl

theorem numberAll_last (last : Nat) (rows : List Json) :
    (numberAll last rows).2 = last + rows.countP lacksNumber := by
  induction rows generalizing last with
  | nil => rfl
  | cons row rows ih =>
    rw [numberAll_cons, List.countP_cons]
    dsimp only
    rw [ih]
    cases hrow : lacksNumber row with
    | true =>
      rw [(number_of_lacks last hrow).2.2, if_pos rfl]
      omega
    | false =>
      rw [number_of_not_lacks hrow]
      rfl

/-- The numbers of the rows as they are stored: the ones that they came with and the next ones. -/
theorem marks_numberAll (last : Nat) (rows : List Json) :
    (marks (numberAll last rows).1).Perm
      (marks rows ++ (List.range' (last + 1) (rows.countP lacksNumber)).map .ofNat) := by
  induction rows generalizing last with
  | nil => exact .refl _
  | cons row rows ih =>
    rw [numberAll_cons, List.countP_cons]
    unfold marks at ih ⊢
    cases hrow : lacksNumber row with
    | true =>
      obtain ⟨hmark, hmark', hlast⟩ := number_of_lacks last hrow
      rw [if_pos rfl, List.range'_succ, List.filterMap_cons_none hmark,
        List.filterMap_cons_some hmark', hlast]
      exact ((ih (last + 1)).cons _).trans List.perm_middle.symm
    | false =>
      rw [number_of_not_lacks hrow]
      cases hmark : mark? row with
      | none =>
        rw [List.filterMap_cons_none hmark, List.filterMap_cons_none hmark]
        exact ih last
      | some mark =>
        rw [List.filterMap_cons_some hmark, List.filterMap_cons_some hmark]
        exact (ih last).cons mark

/-! ## Rows that fit -/

/-- New rows stay out of the way: the numbers that they come with differ from each other and from those
in the table, and the next numbers, as many as rows come without one, are in neither. -/
structure FitsTable (last : Nat) (table rows : List Json) : Prop where
  distinct : Distinct rows
  fresh : ∀ old ∈ table, ∀ row ∈ rows, sameRow old row = false
  free : ∀ n, last < n → n ≤ last + rows.countP lacksNumber →
    ∀ row ∈ table ++ rows, rowId? row ≠ some (.ofNat n)

theorem mem_marks {mark : Json} : mark ∈ marks rows ↔ ∃ row ∈ rows, mark? row = some mark :=
  List.mem_filterMap

/-- **Rows put at the end of a table** whose rows are identified. -/
theorem distinct_append_iff (hd : Distinct table) :
    Distinct (table ++ (numberAll last rows).1) ↔ FitsTable last table rows := by
  have hnext : ∀ mark, mark ∈ (List.range' (last + 1) (rows.countP lacksNumber)).map Json.ofNat ↔
      ∃ n, last < n ∧ n ≤ last + rows.countP lacksNumber ∧ mark = .ofNat n := by
    intro mark
    simp only [List.mem_map, List.mem_range'_1]
    exact ⟨fun ⟨n, ⟨h, h'⟩, hn⟩ => ⟨n, by omega, by omega, hn.symm⟩,
      fun ⟨n, h, h', hn⟩ => ⟨n, ⟨by omega, by omega⟩, hn.symm⟩⟩
  have hperm := (marks_numberAll last rows).append_left (marks table)
  rw [distinct_iff, marks_append, hperm.nodup_iff, List.nodup_append, List.nodup_append]
  constructor
  · rintro ⟨-, ⟨hrows, -, hnumbered⟩, htable⟩
    refine ⟨distinct_iff.2 hrows, fun old hold row hrow => ?_, fun n hlast hle row hrow hid => ?_⟩
    · rw [← Bool.not_eq_true, sameRow_iff]
      rintro ⟨mark, hmark, hmark'⟩
      exact htable mark (mem_marks.2 ⟨old, hold, hmark⟩) mark
        (List.mem_append_left _ (mem_marks.2 ⟨row, hrow, hmark'⟩)) rfl
    · have hmem := (hnext (.ofNat n)).2 ⟨n, hlast, hle, rfl⟩
      obtain hrow | hrow := List.mem_append.1 hrow
      · exact htable _ (mem_marks.2 ⟨row, hrow, mark_eq_ofNat.2 hid⟩) _
          (List.mem_append_right _ hmem) rfl
      · exact hnumbered _ (mem_marks.2 ⟨row, hrow, mark_eq_ofNat.2 hid⟩) _ hmem rfl
  · rintro ⟨hrows, hfresh, hfree⟩
    refine ⟨distinct_iff.1 hd, ⟨distinct_iff.1 hrows, ?_, ?_⟩, ?_⟩
    · exact (List.nodup_range' 1).map Json.ofNat_injective
    · rintro mark hmark _ hmark' rfl
      obtain ⟨row, hrow, hrowmark⟩ := mem_marks.1 hmark
      obtain ⟨n, hlast, hle, rfl⟩ := (hnext mark).1 hmark'
      exact hfree n hlast hle row (List.mem_append_right _ hrow) (mark_eq_ofNat.1 hrowmark)
    · rintro mark hmark _ hmark' rfl
      obtain ⟨old, hold, holdmark⟩ := mem_marks.1 hmark
      obtain hmark' | hmark' := List.mem_append.1 hmark'
      · obtain ⟨row, hrow, hrowmark⟩ := mem_marks.1 hmark'
        have hne := hfresh old hold row hrow
        exact absurd (sameRow_iff.2 ⟨mark, holdmark, hrowmark⟩) (by simp [hne])
      · obtain ⟨n, hlast, hle, rfl⟩ := (hnext mark).1 hmark'
        exact hfree n hlast hle old (List.mem_append_left _ hold) (mark_eq_ofNat.1 holdmark)

/-! ## Rows replaced and removed -/

/-- **One row changes no number.** -/
theorem map_mark?_replaceFirst (row : Json) (table : List Json) :
    (replaceFirst row table).map mark? = table.map mark? := by
  induction table with
  | nil => rfl
  | cons old table ih =>
    unfold replaceFirst
    split
    · rename_i hsame
      obtain ⟨mark, hold, hrow⟩ := sameRow_iff.1 hsame
      rw [List.map_cons, List.map_cons, hold, hrow]
    · rw [List.map_cons, List.map_cons, ih]

/-- **An update changes no number**, at any position. -/
theorem map_mark?_update (rows table : List Json) :
    (rows.foldl (fun t row => replaceFirst row t) table).map mark? = table.map mark? := by
  induction rows generalizing table with
  | nil => rfl
  | cons row rows ih => exact (ih _).trans (map_mark?_replaceFirst row table)

theorem marks_eq_reduceOption (rows : List Json) : marks rows = (rows.map mark?).reduceOption := by
  unfold marks List.reduceOption
  rw [List.filterMap_map, Function.id_comp]

theorem marks_update (rows table : List Json) :
    marks (rows.foldl (fun t row => replaceFirst row t) table) = marks table := by
  rw [marks_eq_reduceOption, marks_eq_reduceOption, map_mark?_update]

theorem marks_filter (keep : Json → Bool) (rows : List Json) :
    (marks (rows.filter keep)).Sublist (marks rows) :=
  List.filter_sublist.filterMap mark?

/-- Rows without numbers have no marks. -/
theorem marks_of_unnumbered (h : ∀ row ∈ rows, rowId? row = none) : marks rows = [] := by
  unfold marks
  rw [List.filterMap_eq_nil_iff]
  exact fun row hrow => by simp [mark?, h row hrow]

end LedgerFront.Memory
