import LedgerFront.Pairs
import Mathlib.Data.List.Induction
import Mathlib.Data.List.Nodup

/-!
# Pairs put one after the other

What a look-up finds after a pair is put or erased, and that keys stay distinct.

Tables of names and the parameters of a filter are made by putting pairs under their keys, one after the
other. What stands under a key in the end is the last value that was put there, and the keys stand in the
order in which they first appeared.

* `Pairs.lookup_put`, `Pairs.lookup_erase`, `Pairs.nodup_put`: one pair.
* `Pairs.lookup_putAll`: what is found under a key.
* `Pairs.nodup_putAll`, `Pairs.mem_putAll`, `Pairs.ordered_putAll`: the pairs that there are, and their order.
* `Pairs.putAll_filter`: some keys left out.
-/

namespace LedgerFront.Pairs

/-! ## One pair -/

section

variable {κ α : Type} [BEq κ] [LawfulBEq κ]

theorem mem_of_lookup {k : κ} {v : α} {l : List (κ × α)} (h : l.lookup k = some v) : (k, v) ∈ l := by
  obtain ⟨l₁, l₂, rfl, -⟩ := List.lookup_eq_some_iff.1 h
  simp

theorem mem_keys_of_lookup {k : κ} {v : α} {l : List (κ × α)} (h : l.lookup k = some v) :
    k ∈ l.map (·.1) :=
  List.mem_map_of_mem (f := (·.1)) (mem_of_lookup h)

variable [DecidableEq κ]

theorem lookup_cons_ite (k j : κ) (w : α) (l : List (κ × α)) :
    ((j, w) :: l).lookup k = if k = j then some w else l.lookup k := by
  rw [List.lookup_cons]
  by_cases h : k = j
  · simp [h]
  · rw [if_neg h, beq_eq_false_iff_ne.2 h]

@[simp] theorem lookup_put (k k' : κ) (v : α) (l : List (κ × α)) :
    (put k v l).lookup k' = if k' = k then some v else l.lookup k' := by
  induction l with
  | nil => simp [put, lookup_cons_ite]
  | cons p l ih =>
    obtain ⟨j, w⟩ := p
    by_cases hj : j = k
    · subst hj
      by_cases h : k' = j <;> simp [put, lookup_cons_ite, h]
    · simp only [put, hj, if_false, lookup_cons_ite, ih]
      by_cases h : k' = j
      · rw [if_pos h, if_pos h, if_neg (h ▸ hj)]
      · rw [if_neg h, if_neg h]

@[simp] theorem lookup_erase (k k' : κ) (l : List (κ × α)) :
    (erase k l).lookup k' = if k' = k then none else l.lookup k' := by
  induction l with
  | nil => simp [erase]
  | cons p l ih =>
    obtain ⟨j, w⟩ := p
    have herase : erase k ((j, w) :: l) = if j = k then erase k l else (j, w) :: erase k l := by
      by_cases hj : j = k <;> simp [erase, hj]
    rw [herase, lookup_cons_ite]
    by_cases hj : j = k
    · subst hj
      rw [if_pos rfl, ih]
      by_cases h : k' = j <;> simp [h]
    · rw [if_neg hj, lookup_cons_ite, ih]
      by_cases h : k' = j
      · rw [if_pos h, if_pos h, if_neg (h ▸ hj)]
      · rw [if_neg h, if_neg h]

/-- Under distinct keys every pair is found. -/
theorem lookup_of_mem {k : κ} {v : α} {l : List (κ × α)} (hl : (l.map (·.1)).Nodup)
    (h : (k, v) ∈ l) : l.lookup k = some v := by
  induction l with
  | nil => simp at h
  | cons p l ih =>
    obtain ⟨j, w⟩ := p
    rw [List.map_cons, List.nodup_cons] at hl
    rw [lookup_cons_ite]
    rcases List.mem_cons.1 h with hp | hm
    · obtain ⟨rfl, rfl⟩ := Prod.mk.inj hp
      rw [if_pos rfl]
    · have hne : k ≠ j := fun hkj => hl.1 (hkj ▸ List.mem_map_of_mem (f := (·.1)) hm)
      rw [if_neg hne, ih hl.2 hm]

theorem put_of_lookup {k : κ} {v : α} {l : List (κ × α)} (h : l.lookup k = some v) :
    put k v l = l := by
  induction l with
  | nil => simp at h
  | cons p l ih =>
    obtain ⟨j, u⟩ := p
    rw [lookup_cons_ite] at h
    by_cases hj : j = k
    · subst hj
      rw [if_pos rfl] at h
      obtain rfl := Option.some.inj h
      simp [put]
    · rw [if_neg (Ne.symm hj)] at h
      simp [put, hj, ih h]

end

section

variable {κ α : Type} [DecidableEq κ]

theorem put_put (k : κ) (v w : α) (l : List (κ × α)) : put k v (put k w l) = put k v l := by
  induction l with
  | nil => simp [put]
  | cons p l ih =>
    obtain ⟨j, u⟩ := p
    by_cases hj : j = k
    · simp [put, hj]
    · simp [put, hj, ih]

theorem erase_put (k : κ) (w : α) (l : List (κ × α)) : erase k (put k w l) = erase k l := by
  induction l with
  | nil => simp [put, erase]
  | cons p l ih =>
    obtain ⟨j, u⟩ := p
    unfold erase at ih ⊢
    by_cases hj : j = k
    · simp [put, hj]
    · simpa [put, hj] using ih

theorem mem_put {k : κ} {v : α} {p : κ × α} {l : List (κ × α)} (h : p ∈ put k v l) :
    p = (k, v) ∨ p ∈ l := by
  induction l with
  | nil => simpa [put] using h
  | cons q l ih =>
    obtain ⟨j, w⟩ := q
    by_cases hj : j = k
    · simp only [put, hj, if_true, List.mem_cons] at h ⊢
      tauto
    · simp only [put, hj, if_false, List.mem_cons] at h ⊢
      rcases h with h | h
      · exact Or.inr (Or.inl h)
      · rcases ih h with h | h
        · exact Or.inl h
        · exact Or.inr (Or.inr h)

theorem mem_keys_put {k k' : κ} {v : α} {l : List (κ × α)} (h : k' ∈ (put k v l).map (·.1)) :
    k' = k ∨ k' ∈ l.map (·.1) := by
  obtain ⟨p, hp, rfl⟩ := List.mem_map.1 h
  rcases mem_put hp with rfl | hp
  · exact Or.inl rfl
  · exact Or.inr (List.mem_map_of_mem (f := (·.1)) hp)

theorem nodup_put (k : κ) (v : α) {l : List (κ × α)} (h : (l.map (·.1)).Nodup) :
    ((put k v l).map (·.1)).Nodup := by
  induction l with
  | nil => simp [put]
  | cons p l ih =>
    obtain ⟨j, w⟩ := p
    rw [List.map_cons, List.nodup_cons] at h
    by_cases hj : j = k
    · subst hj
      simp only [put, if_true, List.map_cons, List.nodup_cons]
      exact h
    · simp only [put, hj, if_false, List.map_cons, List.nodup_cons]
      refine ⟨fun hm => ?_, ih h.2⟩
      rcases mem_keys_put hm with hk | hk
      · exact hj hk
      · exact h.1 hk

theorem keys_erase_sublist (k : κ) (l : List (κ × α)) :
    ((erase k l).map (·.1)).Sublist (l.map (·.1)) :=
  List.filter_sublist.map _

end

/-! ## Pairs put one after the other -/

variable {κ α : Type} [DecidableEq κ] {k : κ} {v : α} {l t : List (κ × α)}

/-- The pairs with others put under their keys, one after the other. -/
def putAll (l t : List (κ × α)) : List (κ × α) := l.foldl (fun t p => put p.1 p.2 t) t

/-- The last value under a key. -/
def latest? (k : κ) (l : List (κ × α)) : Option α := ((l.filter (·.1 == k)).getLast?).map (·.2)

theorem putAll_concat (l t : List (κ × α)) (p : κ × α) :
    putAll (l ++ [p]) t = put p.1 p.2 (putAll l t) := by
  simp [putAll]

theorem latest?_concat (k : κ) (l : List (κ × α)) (p : κ × α) :
    latest? k (l ++ [p]) = if k = p.1 then some p.2 else latest? k l := by
  unfold latest?
  rw [List.filter_append]
  by_cases h : k = p.1
  · simp [h]
  · simp [h, Ne.symm h]

/-- **The last value counts.** Under a key stands the last value that was put there, else what stood there
before. -/
theorem lookup_putAll (k : κ) (l t : List (κ × α)) :
    (putAll l t).lookup k = (latest? k l).or (t.lookup k) := by
  induction l using List.reverseRecOn with
  | nil => rfl
  | append_singleton l p ih =>
    rw [putAll_concat, latest?_concat, lookup_put, ih]
    split <;> rfl

theorem nodup_putAll (l : List (κ × α)) (ht : (t.map (·.1)).Nodup) :
    ((putAll l t).map (·.1)).Nodup := by
  induction l using List.reverseRecOn with
  | nil => exact ht
  | append_singleton l p ih =>
    rw [putAll_concat]
    exact nodup_put p.1 p.2 ih

/-- The pairs that there are when nothing stood there before. -/
theorem mem_putAll : (k, v) ∈ putAll l [] ↔ latest? k l = some v := by
  have hlookup : (putAll l []).lookup k = latest? k l := by
    simp [lookup_putAll]
  rw [← hlookup]
  exact ⟨lookup_of_mem (nodup_putAll l List.nodup_nil), mem_of_lookup⟩

/-! ## The order of the keys -/

/-- A key keeps its place; a new one goes to the end. -/
theorem keys_put (k : κ) (v : α) (l : List (κ × α)) :
    (put k v l).map (·.1) = if k ∈ l.map (·.1) then l.map (·.1) else l.map (·.1) ++ [k] := by
  induction l with
  | nil => rfl
  | cons q l ih =>
    obtain ⟨j, w⟩ := q
    by_cases hj : j = k
    · simp [put, hj]
    · have hk : k ∈ ((j, w) :: l).map (·.1) ↔ k ∈ l.map (·.1) := by
        simp [Ne.symm hj]
      simp only [put, hj, if_false, List.map_cons, ih, ← hk]
      split <;> rfl

theorem latest?_isSome : (latest? k l).isSome ↔ k ∈ l.map (·.1) := by
  unfold latest?
  rw [Option.isSome_map, List.getLast?_isSome, Ne, List.filter_eq_nil_iff]
  simp

theorem mem_keys_putAll : k ∈ (putAll l []).map (·.1) ↔ k ∈ l.map (·.1) := by
  have hkeys : k ∈ (putAll l []).map (·.1) ↔ ∃ v, (k, v) ∈ putAll l [] := by simp
  rw [hkeys, ← latest?_isSome, Option.isSome_iff_exists]
  exact exists_congr fun v => mem_putAll

/-- **First come, first.** The keys stand in the order in which they first appeared. -/
theorem ordered_putAll (l : List (κ × α)) : ((putAll l []).map (·.1)).Pairwise fun a b =>
    (l.map (·.1)).idxOf a < (l.map (·.1)).idxOf b := by
  induction l using List.reverseRecOn with
  | nil => exact .nil
  | append_singleton l p ih =>
    -- keys that were there before are found where they were
    have hfound : ∀ a ∈ (putAll l []).map (·.1),
        ((l ++ [p]).map (·.1)).idxOf a = (l.map (·.1)).idxOf a := by
      intro a ha
      rw [List.map_append, List.idxOf_append_of_mem (mem_keys_putAll.1 ha)]
    have hbefore : ((putAll l []).map (·.1)).Pairwise fun a b =>
        ((l ++ [p]).map (·.1)).idxOf a < ((l ++ [p]).map (·.1)).idxOf b :=
      ih.imp_of_mem fun ha hb h => by rwa [hfound _ ha, hfound _ hb]
    rw [putAll_concat, keys_put]
    split
    · exact hbefore
    · rename_i hnew
      refine List.pairwise_append.2 ⟨hbefore, List.pairwise_singleton _ _, fun a ha b hb => ?_⟩
      obtain rfl := List.mem_singleton.1 hb
      have hlast : ((l ++ [p]).map (·.1)).idxOf p.1 = (l.map (·.1)).length := by
        rw [List.map_append, List.idxOf_append_of_notMem (mt mem_keys_putAll.2 hnew)]
        simp
      rw [hfound a ha, hlast]
      exact List.idxOf_lt_length_of_mem (mem_keys_putAll.1 ha)

/-! ## Pairs with chosen keys -/

theorem filter_put (chosen : κ → Bool) (k : κ) (v : α) (l : List (κ × α)) :
    (put k v l).filter (fun p => chosen p.1) =
      if chosen k then put k v (l.filter fun p => chosen p.1)
      else l.filter fun p => chosen p.1 := by
  induction l with
  | nil => cases hk : chosen k <;> simp [put, hk]
  | cons q l ih =>
    obtain ⟨j, w⟩ := q
    by_cases hj : j = k
    · subst hj
      cases hk : chosen j <;> simp [put, hk]
    · rw [put, if_neg hj, List.filter_cons, List.filter_cons, ih]
      cases hk : chosen k <;> cases hchosen : chosen j <;> simp [put, hj]

/-- It is the same to leave out keys before the pairs are put and after. -/
theorem putAll_filter (chosen : κ → Bool) (l : List (κ × α)) :
    putAll (l.filter fun p => chosen p.1) [] = (putAll l []).filter fun p => chosen p.1 := by
  induction l using List.reverseRecOn with
  | nil => rfl
  | append_singleton l p ih =>
    rw [putAll_concat, filter_put, ← ih, List.filter_append]
    cases hp : chosen p.1 with
    | true => simp [hp, putAll_concat]
    | false => simp [hp]

theorem put_of_new (v : α) (h : k ∉ l.map (·.1)) : put k v l = l ++ [(k, v)] := by
  induction l with
  | nil => rfl
  | cons q l ih =>
    rw [List.map_cons, List.mem_cons, not_or] at h
    rw [put, if_neg (Ne.symm h.1), ih h.2, List.cons_append]

/-- Pairs whose keys are all different stay as they are. -/
theorem putAll_of_nodup (h : (l.map (·.1)).Nodup) : putAll l [] = l := by
  induction l using List.reverseRecOn with
  | nil => rfl
  | append_singleton l p ih =>
    rw [List.map_append, List.nodup_append] at h
    obtain ⟨hl, -, hnew⟩ := h
    have hp : p.1 ∉ l.map (·.1) := fun hmem => hnew p.1 hmem p.1 (by simp) rfl
    rw [putAll_concat, ih hl, put_of_new p.2 hp]

end LedgerFront.Pairs
