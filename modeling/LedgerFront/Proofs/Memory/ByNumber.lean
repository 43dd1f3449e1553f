import Mathlib.Data.List.Pairwise
import LedgerFront.Proofs.Memory.Marks

/-!
# Rows found again by their numbers

Rows that were selected from a table are replaced and removed by number. Where no
two rows have the same number, these are the selected rows themselves, each in its
own place.

* `Memory.filter_not_sameRow`: removing selected rows.
* `Memory.replaced_update`: putting others in their places.
-/

namespace LedgerFront.Memory

variable {table rows rows' : List Json} {a b c : Json} {related : Json → Json → Prop}

theorem sameRow_comm (a b : Json) : sameRow a b = sameRow b a := by
  rw [Bool.eq_iff_iff, sameRow_iff, sameRow_iff]
  exact exists_congr fun mark => and_comm

theorem sameRow_trans (h : sameRow a b = true) (h' : sameRow b c = true) : sameRow a c = true := by
  obtain ⟨mark, ha, hb⟩ := sameRow_iff.1 h
  obtain ⟨mark', hb', hc⟩ := sameRow_iff.1 h'
  obtain rfl := Option.some.inj (hb.symm.trans hb')
  exact sameRow_iff.2 ⟨mark, ha, hc⟩

/-- Rows of one table with the same number are the same row. -/
theorem Distinct.eq_of_sameRow (hd : Distinct table) (ha : a ∈ table) (hb : b ∈ table)
    (h : sameRow a b = true) : a = b := by
  by_contra hne
  have hsymm : Std.Symm fun a b : Json => sameRow a b = false := ⟨fun a b h => sameRow_comm b a ▸ h⟩
  have hdiffer := List.Pairwise.forall hd ha hb hne
  simp [h] at hdiffer

/-- A row that has the number of another one has a number. -/
theorem sameRow_self (h : sameRow a b = true) : sameRow b b = true :=
  sameRow_trans (sameRow_comm a b ▸ h) h

theorem covers_iff : covers table rows = true ↔ ∀ row ∈ rows, ∃ old ∈ table, sameRow old row = true := by
  simp only [covers, List.all_eq_true, List.any_eq_true]

/-- **Removing rows by number** removes them and no others. -/
theorem filter_not_sameRow (hd : Distinct table) (hrows : rows ⊆ table) (hc : covers table rows = true) :
    (table.filter fun old => !rows.any (sameRow old)) = table.filter fun old => decide (old ∉ rows) := by
  refine List.filter_congr fun old hold => ?_
  have hany : rows.any (sameRow old) = true ↔ old ∈ rows := by
    rw [List.any_eq_true]
    constructor
    · rintro ⟨row, hrow, hsame⟩
      exact hd.eq_of_sameRow hold (hrows hrow) hsame ▸ hrow
    · intro hmem
      obtain ⟨_, -, hsame⟩ := covers_iff.1 hc old hmem
      exact ⟨old, hmem, sameRow_self hsame⟩
  by_cases hmem : old ∈ rows
  · simp [hany.2 hmem, hmem]
  · simp [Bool.eq_false_iff.2 fun h => hmem (hany.1 h), hmem]

/-! ## Replacing rows -/

/-- In the second table stands a row that is related to it in the place of each of these rows, and every
other row as it is in the first table. -/
def Replaced (related : Json → Json → Prop) (rows table table' : List Json) : Prop :=
  List.Forall₂ (fun old new => (old ∈ rows → related old new) ∧ (old ∉ rows → new = old)) table table'

/-- Rows with other numbers do not touch the first row of a table. -/
theorem update_cons (h : ∀ row ∈ rows, sameRow a row = false) (table : List Json) :
    rows.foldl (fun t row => replaceFirst row t) (a :: table) =
      a :: rows.foldl (fun t row => replaceFirst row t) table := by
  induction rows generalizing table with
  | nil => rfl
  | cons row rows ih =>
    have hrow : replaceFirst row (a :: table) = a :: replaceFirst row table := by
      rw [replaceFirst, if_neg (by simp [h row (by simp)])]
    rw [List.foldl_cons, List.foldl_cons, hrow, ih fun r hr => h r (by simp [hr])]

/-- The rows that selected rows become, each with the number of its row. -/
def Renewed (related : Json → Json → Prop) (rows rows' : List Json) : Prop :=
  List.Forall₂ (fun row row' => related row row' ∧ sameRow row row' = true) rows rows'

/-- Rows that keep their numbers, where all of these are in a table. -/
theorem renewed_of_covers (h : List.Forall₂ related rows rows')
    (hkeep : ∀ row ∈ rows, ∀ row', related row row' → rowId? row' = rowId? row)
    (hc : covers table rows' = true) : Renewed related rows rows' := by
  induction h with
  | nil => exact .nil
  | @cons row row' rows rows' hrow _ ih =>
    rw [List.forall_mem_cons] at hkeep
    rw [covers_iff, List.forall_mem_cons] at hc
    obtain ⟨⟨_, -, hsame⟩, hc⟩ := hc
    have hself : sameRow row row' = sameRow row' row' := by
      unfold sameRow
      rw [hkeep.1 row' hrow]
    exact .cons ⟨hrow, hself.trans (sameRow_self hsame)⟩ (ih hkeep.2 (covers_iff.2 hc))

theorem Renewed.not_sameRow (h : Renewed related rows rows') (ha : ∀ row ∈ rows, sameRow a row = false) :
    ∀ row' ∈ rows', sameRow a row' = false := by
  induction h with
  | nil => simp
  | cons hrow _ ih =>
    rw [List.forall_mem_cons] at ha ⊢
    refine ⟨Bool.eq_false_iff.2 fun hsame => ?_, ih ha.2⟩
    exact absurd (sameRow_trans hsame (sameRow_comm _ _ ▸ hrow.2)) (by simp [ha.1])

/-- The selected rows are replaced one by one, from the first row of the table to the last. -/
theorem update_filter {p : Json → Bool} (hd : Distinct table)
    (h : Renewed related (table.filter p) rows') :
    List.Forall₂ (fun old new => (p old = true → related old new) ∧ (p old = false → new = old)) table
      (rows'.foldl (fun t row => replaceFirst row t) table) := by
  induction table generalizing rows' with
  | nil =>
    obtain rfl := List.forall₂_nil_left_iff.1 h
    exact .nil
  | cons old table ih =>
    obtain ⟨hold, hd⟩ := List.pairwise_cons.1 hd
    have hothers : ∀ row ∈ table.filter p, sameRow old row = false :=
      fun row hrow => hold row (List.mem_filter.1 hrow).1
    cases hp : p old with
    | true =>
      rw [List.filter_cons_of_pos hp] at h
      obtain _ | ⟨⟨hrelated, hsame⟩, hrest⟩ := h
      rename_i new rows'
      have hnew : ∀ row' ∈ rows', sameRow new row' = false :=
        Renewed.not_sameRow hrest fun row hrow => Bool.eq_false_iff.2 fun hsame' =>
          absurd (sameRow_trans hsame hsame') (by simp [hothers row hrow])
      rw [List.foldl_cons, replaceFirst, if_pos hsame, update_cons hnew]
      exact .cons ⟨fun _ => hrelated, fun h => absurd (hp.symm.trans h) (by simp)⟩ (ih hd hrest)
    | false =>
      rw [List.filter_cons_of_neg (by simp [hp])] at h
      rw [update_cons (h.not_sameRow hothers)]
      exact .cons ⟨fun h => absurd (hp.symm.trans h) (by simp), fun _ => rfl⟩ (ih hd h)

/-- **Replacing rows by number** puts each of them in the place of its row, and touches no others. -/
theorem replaced_update {p : Json → Bool} (hd : Distinct table)
    (h : Renewed related (table.filter p) rows') :
    Replaced related (table.filter p) table (rows'.foldl (fun t row => replaceFirst row t) table) := by
  have hmem := (List.forall₂_and_left (p := (· ∈ table)) table _).2 ⟨fun _ h => h, update_filter hd h⟩
  refine hmem.imp fun old new ⟨hold, hselected, hother⟩ => ⟨fun hin => ?_, fun hout => ?_⟩
  · exact hselected (List.mem_filter.1 hin).2
  · exact hother (Bool.eq_false_iff.2 fun hp => hout (List.mem_filter.2 ⟨hold, hp⟩))

end LedgerFront.Memory
