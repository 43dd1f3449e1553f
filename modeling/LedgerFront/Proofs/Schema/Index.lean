import LedgerFront.Proofs.Pairs
import LedgerFront.Proofs.Text.Letter
import LedgerFront.Schema.Basic
import Mathlib.Data.List.Sort

/-!
# Values under their names

The columns of an entity and the entities of a registry are put into an index under their own names, one
after the other. A name in any letter case finds the last value of that name, and the values in the index,
sorted by name, stand in strictly ascending order.

* `Index.get?_putAll`: what a name finds.
* `Index.Keyed`: every value stands under its own name, `Keyed.put` keeps this.
* `Index.Keyed.get?_eq_some`: a name finds exactly the values in the index that have it.
-/

namespace LedgerFront

/-- The last item with a name, in any letter case. -/
def lastNamed {α : Type} (nameOf : α → String) (name : String) (l : List α) : Option α :=
  (l.filter fun a => Text.sameName (nameOf a) name).getLast?

namespace Index

variable {α : Type} {nameOf : α → String} {index : Index α} {name : String} {a : α}

/-- Values put one after the other under their own names. -/
def putAll (nameOf : α → String) (l : List α) (index : Index α) : Index α :=
  l.foldl (fun i a => i.put (nameOf a) a) index

theorem putAll_concat (nameOf : α → String) (l : List α) (a : α) (index : Index α) :
    putAll nameOf (l ++ [a]) index = (putAll nameOf l index).put (nameOf a) a := by
  simp [putAll]

/-- The values are pairs put under their lower-case names. -/
theorem entries_putAll (nameOf : α → String) (l : List α) (index : Index α) :
    (putAll nameOf l index).entries =
      Pairs.putAll (l.map fun a => (Text.lower (nameOf a), a)) index.entries := by
  induction l using List.reverseRecOn with
  | nil => rfl
  | append_singleton l a ih =>
    rw [putAll_concat, List.map_append, List.map_singleton, Pairs.putAll_concat, ← ih, Index.put]

/-- **The last value of a name counts.** -/
theorem get?_putAll (nameOf : α → String) (l : List α) (index : Index α) (name : String) :
    (putAll nameOf l index).get? name = (lastNamed nameOf name l).or (index.get? name) := by
  have hlast : Pairs.latest? (Text.lower name) (l.map fun a => (Text.lower (nameOf a), a)) =
      lastNamed nameOf name l := by
    unfold Pairs.latest? lastNamed
    rw [List.filter_map, List.getLast?_map, Option.map_map]
    simp [Function.comp_def, Text.sameName]
  rw [get?, entries_putAll, Pairs.lookup_putAll, hlast]
  rfl

/-! ## Every value under its own name -/

/-- Every value stands under its own name, and no two values have the same name. -/
structure Keyed (nameOf : α → String) (index : Index α) : Prop where
  named : ∀ p ∈ index.entries, p.1 = Text.lower (nameOf p.2)
  distinct : (index.entries.map (·.1)).Nodup

theorem keyed_empty (nameOf : α → String) : Keyed nameOf empty := ⟨by simp [empty], by simp [empty]⟩

theorem Keyed.put (h : index.Keyed nameOf) (a : α) : (index.put (nameOf a) a).Keyed nameOf where
  named p hp := by
    obtain rfl | hp := Pairs.mem_put hp
    · rfl
    · exact h.named p hp
  distinct := Pairs.nodup_put _ _ h.distinct

theorem Keyed.putAll (h : index.Keyed nameOf) (l : List α) : (putAll nameOf l index).Keyed nameOf := by
  induction l using List.reverseRecOn with
  | nil => exact h
  | append_singleton l a ih =>
    rw [putAll_concat]
    exact ih.put a

/-- A name finds the value in the index that has it. -/
theorem Keyed.get?_eq_some (h : index.Keyed nameOf) :
    index.get? name = some a ↔ a ∈ index.values ∧ Text.lower (nameOf a) = Text.lower name := by
  have hmem : a ∈ index.values ↔ ∃ k, (k, a) ∈ index.entries := by simp [values]
  rw [hmem]
  constructor
  · intro hget
    have hp := Pairs.mem_of_lookup hget
    exact ⟨⟨_, hp⟩, (h.named _ hp).symm⟩
  · rintro ⟨⟨k, hp⟩, hname⟩
    obtain rfl : k = Text.lower (nameOf a) := h.named _ hp
    exact Pairs.lookup_of_mem h.distinct (hname ▸ hp)

/-- No two values have names that differ in letter case only. -/
theorem Keyed.nodup (h : index.Keyed nameOf) :
    (index.values.map fun a => Text.lower (nameOf a)).Nodup := by
  have hkeys : (index.values.map fun a => Text.lower (nameOf a)) = index.entries.map (·.1) := by
    rw [values, List.map_map]
    exact List.map_congr_left fun p hp => (h.named p hp).symm
  rw [hkeys]
  exact h.distinct

theorem Keyed.nodup_names (h : index.Keyed nameOf) : (index.values.map nameOf).Nodup := by
  refine List.Nodup.of_map Text.lower ?_
  rw [List.map_map]
  exact h.nodup

end Index

/-- **Sorting by names** that are all different puts them in strictly ascending order. -/
theorem pairwise_mergeSort_names {α : Type} {nameOf : α → String} {l : List α}
    (h : (l.map nameOf).Nodup) :
    (l.mergeSort fun a b => !decide (nameOf b < nameOf a)).Pairwise fun a b => nameOf a < nameOf b := by
  have hsorted : (l.mergeSort fun a b => !decide (nameOf b < nameOf a)).Pairwise
      fun a b => !decide (nameOf b < nameOf a) := by
    refine List.pairwise_mergeSort (fun a b c hab hbc => ?_) (fun a b => ?_) l
    · simp only [Bool.not_eq_true', decide_eq_false_iff_not] at hab hbc ⊢
      exact not_lt.2 ((not_lt.1 hab).trans (not_lt.1 hbc))
    · simp only [Bool.or_eq_true, Bool.not_eq_true', decide_eq_false_iff_not, not_lt]
      exact le_total _ _
  have hdistinct : (l.mergeSort fun a b => !decide (nameOf b < nameOf a)).Pairwise
      fun a b => nameOf a ≠ nameOf b :=
    List.pairwise_map.1 (((List.mergeSort_perm l _).map nameOf).nodup_iff.2 h)
  refine (hsorted.and hdistinct).imp fun ⟨hle, hne⟩ => ?_
  simp only [Bool.not_eq_true', decide_eq_false_iff_not, not_lt] at hle
  exact lt_of_le_of_ne hle hne

end LedgerFront
