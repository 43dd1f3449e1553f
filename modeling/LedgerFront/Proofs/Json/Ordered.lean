import LedgerFront.Proofs.Json.Place
import Mathlib.Data.List.Induction
import Mathlib.Data.List.Perm.Basic
import Mathlib.Data.List.Sort
import Mathlib.Data.String.Basic

/-!
# Members in order

An object lists its members by ascending key, each key once. It is then the same object as any other one
with the same values under the same keys, however the two were put together.

* `Members.Ordered`: the members as an object lists them.
* `Members.ofList_of_ordered`: members in order are what they make.
* `Members.Ordered.ext`: an object is known by what is found in it.
* `Members.Ordered.insert_erase`: a member taken out and put back.
-/

namespace LedgerFront

namespace Members

variable {k k' : String} {v : Json} {m m' : Members}

/-- Each key once, and in order. -/
def Ordered (m : Members) : Prop := m.Pairwise (·.1 < ·.1)

theorem mem_insert {p : String × Json} (h : p ∈ insert k v m) : p = (k, v) ∨ p ∈ m := by
  induction m with
  | nil => simpa [insert] using h
  | cons q m ih =>
    obtain ⟨j, w⟩ := q
    unfold insert at h
    split at h
    · rcases List.mem_cons.1 h with hp | hp
      · exact .inl hp
      · exact .inr (List.mem_cons_of_mem _ hp)
    · split at h
      · exact List.mem_cons.1 h
      · rcases List.mem_cons.1 h with hp | hp
        · exact .inr (hp ▸ List.mem_cons_self ..)
        · exact (ih hp).imp id (List.mem_cons_of_mem _)

theorem Ordered.insert (h : m.Ordered) (k : String) (v : Json) : (m.insert k v).Ordered := by
  induction m with
  | nil => exact List.pairwise_singleton ..
  | cons p m ih =>
    obtain ⟨j, w⟩ := p
    obtain ⟨hj, hm⟩ := List.pairwise_cons.1 h
    unfold Members.insert
    split
    · rename_i hkj
      exact List.pairwise_cons.2 ⟨hkj ▸ hj, hm⟩
    · split
      · rename_i hlt
        refine List.pairwise_cons.2 ⟨fun q hq => ?_, h⟩
        rcases List.mem_cons.1 hq with rfl | hq
        · exact hlt
        · exact lt_trans hlt (hj q hq)
      · rename_i hne hle
        have hjk : j < k := lt_of_le_of_ne (not_lt.1 hle) (Ne.symm hne)
        refine List.pairwise_cons.2 ⟨fun q hq => ?_, ih hm⟩
        rcases mem_insert hq with rfl | hq
        · exact hjk
        · exact hj q hq

theorem ordered_ofList (pairs : List (String × Json)) : (ofList pairs).Ordered :=
  List.foldlRecOn pairs _ List.Pairwise.nil fun _ h p _ => h.insert p.1 p.2

/-- An object has no members but those that it is made of. -/
theorem mem_of_mem_ofList {p : String × Json} {pairs : List (String × Json)} (h : p ∈ ofList pairs) :
    p ∈ pairs := by
  refine List.foldlRecOn (motive := fun m => ∀ q ∈ m, q ∈ pairs) pairs _ ?_ ?_ p h
  · exact fun q hq => absurd hq List.not_mem_nil
  · intro m hm a ha q hq
    rcases mem_insert hq with rfl | hq
    · exact ha
    · exact hm q hq

/-- A member behind all others is put at the end. -/
theorem insert_of_forall_lt (h : ∀ p ∈ m, p.1 < k) : insert k v m = m ++ [(k, v)] := by
  induction m with
  | nil => rfl
  | cons p m ih =>
    obtain ⟨j, w⟩ := p
    have hlt : j < k := h (j, w) (by simp)
    have hrest : insert k v m = m ++ [(k, v)] := ih fun p hp => h p (by simp [hp])
    rw [insert, if_neg hlt.ne', if_neg hlt.asymm, hrest]
    rfl

/-- **Members in order are what they make.** -/
theorem ofList_of_ordered (h : m.Ordered) : ofList m = m := by
  induction m using List.reverseRecOn with
  | nil => rfl
  | append_singleton m p ih =>
    obtain ⟨hm, -, hp⟩ := List.pairwise_append.1 h
    have hfold : ofList (m ++ [p]) = (ofList m).insert p.1 p.2 := by simp [ofList]
    rw [hfold, ih hm, insert_of_forall_lt fun q hq => hp q hq p (List.mem_singleton_self p)]

/-! ## What is found -/

theorem Ordered.erase (h : m.Ordered) (k : String) : (m.erase k).Ordered := List.Pairwise.filter _ h

theorem Ordered.nodup (h : m.Ordered) : m.Nodup := h.imp fun hlt heq => (heq ▸ hlt).ne rfl

theorem Ordered.mem_iff (h : m.Ordered) : (k, v) ∈ m ↔ m.find? k = some v := by
  induction m with
  | nil => simp [find?]
  | cons p m ih =>
    obtain ⟨j, w⟩ := p
    obtain ⟨hj, hm⟩ := List.pairwise_cons.1 h
    rw [List.mem_cons, Prod.mk.injEq, find?_cons, ih hm]
    by_cases hk : k = j
    · have hfree : find? k m ≠ some v := fun hv => (hj _ ((ih hm).2 hv)).ne hk.symm
      simp [hk, hk ▸ hfree, eq_comm]
    · simp [hk]

/-- **An object is known by what is found in it.** -/
theorem Ordered.ext (h : m.Ordered) (h' : m'.Ordered) (hfind : ∀ k, m.find? k = m'.find? k) : m = m' := by
  have hperm : m.Perm m' := by
    rw [List.perm_ext_iff_of_nodup h.nodup h'.nodup]
    intro p
    rw [h.mem_iff, h'.mem_iff, hfind]
  exact hperm.eq_of_pairwise (fun a b _ _ hab hba => absurd hab hba.asymm) h h'

/-- A member put in the place where it stands. -/
theorem Ordered.insert_of_find? (h : m.Ordered) (hk : m.find? k = some v) : m.insert k v = m := by
  refine (h.insert k v).ext h fun j => ?_
  rw [find?_insert]
  split
  · rename_i hj
    rw [hj, hk]
  · rfl

/-- **A member taken out and put back.** -/
theorem Ordered.insert_erase (h : m.Ordered) (k : String) (v : Json) : (m.erase k).insert k v = m.insert k v := by
  refine ((h.erase k).insert k v).ext (h.insert k v) fun j => ?_
  rw [find?_insert, find?_insert, find?_erase]
  split <;> rfl

/-- A new member taken out again. -/
theorem Ordered.erase_insert (h : m.Ordered) (hk : m.find? k = none) (v : Json) :
    (m.insert k v).erase k = m := by
  refine ((h.insert k v).erase k).ext h fun j => ?_
  rw [find?_erase, find?_insert]
  split
  · rename_i hj
    rw [hj, hk]
  · rfl

theorem find?_foldl_insert (pairs : List (String × Json)) (m : Members) :
    find? k (pairs.foldl (fun m p => insert p.1 p.2 m) m) = (find? k (ofList pairs)).or (find? k m) := by
  unfold ofList
  induction pairs using List.reverseRecOn with
  | nil => rfl
  | append_singleton pairs p ih =>
    simp only [List.foldl_append, List.foldl_cons, List.foldl_nil, find?_insert, ih]
    split <;> simp

/-- A member in front of others with other keys. -/
theorem Ordered.ofList_cons (h : m.Ordered) (hk : m.find? k = none) : ofList ((k, v) :: m) = m.insert k v := by
  refine (ordered_ofList _).ext (h.insert k v) fun j => ?_
  have hfind : (ofList ((k, v) :: m)).find? j = ((ofList m).find? j).or (find? j [(k, v)]) :=
    find?_foldl_insert m [(k, v)]
  rw [hfind, ofList_of_ordered h, find?_insert, find?_cons]
  split
  · rename_i hj
    rw [hj, hk, Option.none_or]
  · simp [find?]

end Members

end LedgerFront
