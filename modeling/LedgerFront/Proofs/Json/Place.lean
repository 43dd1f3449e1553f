import LedgerFront.Json.Patch
import LedgerFront.Proofs.Pairs
import Mathlib.Data.List.Basic

/-!
# Changes at a place of a value

A place is named by the tokens on the way to it. A change at a place leaves alone
whatever an object holds under another key than the first token.

* `Json.under`: what an object holds under a key.
* `Patch.under_add?`, `Patch.under_remove?`: what is added or removed elsewhere
  does not matter.
* `Pointer.get?_add?`, `Pointer.get?_remove?`: what then stands at the place.
-/

namespace LedgerFront

namespace Members

variable {k k' : String} {v : Json} {m : Members}

theorem find?_cons (j : String) (w : Json) :
    find? k ((j, w) :: m) = if k = j then some w else find? k m :=
  Pairs.lookup_cons_ite k j w m

@[simp] theorem find?_insert : find? k' (insert k v m) = if k' = k then some v else find? k' m := by
  induction m with
  | nil => rw [insert, find?_cons]
  | cons p m ih =>
    obtain ⟨j, w⟩ := p
    unfold insert
    by_cases hj : k = j
    · subst hj
      rw [if_pos rfl]
      simp only [find?_cons]
      split <;> rfl
    rw [if_neg hj]
    split
    · simp only [find?_cons]
    · simp only [find?_cons, ih]
      by_cases h : k' = j
      · rw [if_pos h, if_pos h, if_neg (h ▸ Ne.symm hj)]
      · rw [if_neg h, if_neg h]

@[simp] theorem find?_erase : find? k' (erase k m) = if k' = k then none else find? k' m := by
  have herase : erase k m = Pairs.erase k m := List.filter_congr fun p _ => by rw [Bool.eq_iff_iff]; simp
  rw [herase]
  exact Pairs.lookup_erase k k' m

end Members

/-- What an object holds under a key; other values hold nothing there, not even an absence. -/
def Json.under (key : String) (j : Json) : Option (Option Json) :=
  j.members?.map (Members.find? key)

@[simp] theorem Json.under_obj (key : String) (m : Members) :
    (Json.obj m).under key = some (m.find? key) := rfl

@[simp] theorem Json.under_arr (key : String) (a : List Json) : (Json.arr a).under key = none := rfl

theorem Json.under_eq_some {key : String} {j : Json} {o : Option Json} :
    j.under key = some o ↔ ∃ m, j = .obj m ∧ Members.find? key m = o := by
  cases j with
  | obj m => simp
  | null | bool _ | num _ | str _ | arr _ => simp [under, members?]

namespace Pointer

variable {key : String} {path : Pointer} {j j' : Json} {change : Json → Option Json}

theorem split?_nil : split? [] = none := rfl

theorem split?_concat (above : Pointer) (token : String) :
    split? (above ++ [token]) = some (above, token) := by
  simp [split?]

theorem update?_cons_eq_some {token : String} {rest : Pointer} :
    update? change (token :: rest) j = some j' ↔
      (∃ m v w, j = .obj m ∧ Members.find? token m = some v ∧ update? change rest v = some w ∧
        j' = .obj (Members.insert token w m)) ∨
      (∃ a i v w, j = .arr a ∧ index? token a.length = some i ∧ a[i]? = some v ∧
        update? change rest v = some w ∧ j' = .arr (a.set i w)) := by
  cases j with
  | obj m =>
    simp only [update?, bind, pure, Option.bind_eq_some_iff, Option.some.injEq, Json.obj.injEq,
      reduceCtorEq, false_and, exists_const, exists_false, or_false, exists_and_left,
      exists_eq_left']
    simp only [eq_comm]
  | arr a =>
    simp only [update?, bind, pure, Option.bind_eq_some_iff, Option.some.injEq, Json.arr.injEq,
      reduceCtorEq, false_and, exists_const, exists_false, false_or, exists_and_left,
      exists_eq_left']
    simp only [eq_comm]
  | null | bool _ | num _ | str _ => simp [update?]

/-- A change below another key. -/
theorem under_update? (hne : path ≠ []) (hkey : path.head? ≠ some key)
    (h : update? change path j = some j') : j'.under key = j.under key := by
  cases path with
  | nil => exact absurd rfl hne
  | cons token rest =>
    have hkey : key ≠ token := fun he => hkey (by simp [he])
    obtain ⟨m, v, w, rfl, -, -, rfl⟩ | ⟨a, i, v, w, rfl, -, -, -, rfl⟩ := update?_cons_eq_some.1 h
    · simp [hkey]
    · rfl

end Pointer

namespace Patch

variable {key token : String} {path : Pointer} {value j j' : Json}

theorem under_insertAt (hkey : token ≠ key) (h : insertAt value token j = some j') :
    j'.under key = j.under key := by
  cases j with
  | obj m =>
    obtain rfl : Json.obj (Members.insert token value m) = j' := by simpa [insertAt] using h
    simp [Ne.symm hkey]
  | arr a =>
    -- whatever happens to the items, an array stays an array
    obtain ⟨b, rfl⟩ : ∃ b, j' = .arr b := by
      simp only [insertAt] at h
      split at h
      · exact ⟨_, (Option.some.inj h).symm⟩
      · obtain ⟨i, -, rfl⟩ := Option.map_eq_some_iff.1 h
        exact ⟨_, rfl⟩
    rfl
  | null | bool _ | num _ | str _ => simp [insertAt] at h

theorem under_removeAt (hkey : token ≠ key) (h : removeAt token j = some j') :
    j'.under key = j.under key := by
  cases j with
  | obj m =>
    obtain ⟨v, -, rfl⟩ := Option.map_eq_some_iff.1 h
    simp [Ne.symm hkey]
  | arr a =>
    obtain ⟨i, -, rfl⟩ := Option.map_eq_some_iff.1 h
    rfl
  | null | bool _ | num _ | str _ => simp [removeAt] at h

/-- The last token of a place decides only where the place is a member of the value itself. -/
theorem under_changeAt (change : String → Json → Option Json) {above : Pointer}
    (hchange : ∀ {j j'}, token ≠ key → change token j = some j' → j'.under key = j.under key)
    (hkey : (above ++ [token]).head? ≠ some key)
    (h : Pointer.update? (change token) above j = some j') : j'.under key = j.under key := by
  cases above with
  | nil => exact hchange (by simpa using hkey) h
  | cons a above => exact Pointer.under_update? (by simp) (by simpa using hkey) h

/-- Adding below another key. -/
theorem under_add? (hne : path ≠ []) (hkey : path.head? ≠ some key)
    (h : add? path value j = some j') : j'.under key = j.under key := by
  obtain ⟨above, token, rfl⟩ := (List.eq_nil_or_concat' path).resolve_left hne
  rw [add?, Pointer.split?_concat] at h
  exact under_changeAt (insertAt value) under_insertAt hkey h

/-- Removing below another key; the whole value is never removed. -/
theorem under_remove? (hkey : path.head? ≠ some key) (h : remove? path j = some j') :
    j'.under key = j.under key := by
  obtain rfl | ⟨above, token, rfl⟩ := List.eq_nil_or_concat' path
  · simp [remove?, Pointer.split?_nil] at h
  · rw [remove?, Pointer.split?_concat] at h
    exact under_changeAt removeAt under_removeAt hkey h

end Patch

/-! ## What stands at the place afterwards -/

namespace Pointer

variable {path : Pointer} {token : String} {v w j : Json}

@[simp] theorem get?_nil (j : Json) : get? [] j = some j := by simp [get?]

@[simp] theorem get?_cons_obj (token : String) (rest : Pointer) (m : Members) :
    get? (token :: rest) (.obj m) = (Members.find? token m).bind (get? rest) := by simp [get?]

theorem get?_append (p q : Pointer) (j : Json) : get? (p ++ q) j = (get? p j).bind (get? q) := by
  induction p generalizing j with
  | nil => simp
  | cons token p ih =>
    have hrest : get? (p ++ q) = fun v => (get? p v).bind (get? q) := funext ih
    cases j with
    | obj m => simp only [List.cons_append, get?_cons_obj, hrest, Option.bind_assoc]
    | arr a => simp only [List.cons_append, get?, hrest, Option.bind_assoc]
    | null | bool _ | num _ | str _ => simp [get?]

/-- What is below a key depends on what is under it only. -/
theorem get?_of_under {key : String} {m : Members} {j : Json} (rest : Pointer)
    (h : j.under key = (Json.obj m).under key) :
    get? (key :: rest) j = get? (key :: rest) (.obj m) := by
  obtain ⟨m', rfl, hm⟩ := Json.under_eq_some.1 h
  rw [get?_cons_obj, get?_cons_obj, hm]

/-- What stands at a place can be changed there. -/
theorem exists_update? (change : Json → Option Json) (hv : get? path j = some v)
    (hw : change v = some w) : ∃ j', update? change path j = some j' ∧ get? path j' = some w := by
  induction path generalizing j with
  | nil =>
    obtain rfl : j = v := by simpa using hv
    exact ⟨w, hw, get?_nil w⟩
  | cons token rest ih =>
    cases j with
    | obj m =>
      obtain ⟨u, hu, hrest⟩ := Option.bind_eq_some_iff.1 ((get?_cons_obj ..).symm.trans hv)
      obtain ⟨u', hu', hw'⟩ := ih hrest
      exact ⟨_, update?_cons_eq_some.2 (.inl ⟨m, u, u', rfl, hu, hu', rfl⟩), by simp [hw']⟩
    | arr a =>
      simp only [get?, Option.bind_eq_some_iff] at hv
      obtain ⟨u, ⟨i, hi, hu⟩, hrest⟩ := hv
      obtain ⟨u', hu', hw'⟩ := ih hrest
      refine ⟨_, update?_cons_eq_some.2 (.inr ⟨a, i, u, u', rfl, hi, hu, hu', rfl⟩), ?_⟩
      have hlt : i < a.length := (List.getElem?_eq_some_iff.1 hu).1
      simp [get?, hi, hlt, hw']
    | null | bool _ | num _ | str _ => simp [get?] at hv

/-- An index of a list is one of a longer list. -/
theorem index?_mono {n n' i : Nat} (h : index? token n = some i) (hn : n ≤ n') :
    index? token n' = some i := by
  simp only [index?] at h ⊢
  split at h
  · simp at h
  · rename_i hdigits
    rw [if_neg hdigits]
    simp only [Option.ite_none_right_eq_some, Option.some.injEq] at h ⊢
    exact ⟨Nat.lt_of_lt_of_le h.1 hn, h.2⟩

theorem index?_dash (n : Nat) : index? "-" n = none := by simp [index?, Text.isDigit]

end Pointer

namespace Patch

open Pointer

variable {path : Pointer} {token : String} {value v j : Json}

theorem exists_insertAt (value : Json) (h : get? [token] j = some v) :
    ∃ j', insertAt value token j = some j' ∧ get? [token] j' = some value := by
  cases j with
  | obj m => exact ⟨_, rfl, by simp⟩
  | arr a =>
    simp only [get?, Option.bind_eq_some_iff] at h
    obtain ⟨u, ⟨i, hi, hu⟩, -⟩ := h
    have hlt : i < a.length := (List.getElem?_eq_some_iff.1 hu).1
    have hdash : token ≠ "-" := by
      rintro rfl
      simp [index?_dash] at hi
    have hi' := index?_mono hi (Nat.le_succ a.length)
    have hlen : (a.insertIdx i value).length = a.length + 1 :=
      List.length_insertIdx_of_le_length (Nat.le_of_lt hlt) value
    have hself : (a.insertIdx i value)[i]? = some value := by
      rw [List.getElem?_insertIdx_self, if_pos (Nat.le_of_lt hlt)]
    refine ⟨.arr (a.insertIdx i value), by simp [insertAt, hdash, hi'], ?_⟩
    simp only [get?, hlen, hi', Option.bind_some, hself]
  | null | bool _ | num _ | str _ => simp [get?] at h

/-- Something can be added wherever something stands, and then stands there. -/
theorem exists_add? (value : Json) (h : get? path j = some v) :
    ∃ j', add? path value j = some j' ∧ get? path j' = some value := by
  obtain rfl | ⟨above, token, rfl⟩ := List.eq_nil_or_concat' path
  · exact ⟨value, rfl, get?_nil value⟩
  · rw [get?_append] at h
    obtain ⟨c, hc, htoken⟩ := Option.bind_eq_some_iff.1 h
    obtain ⟨c', hc', hvalue⟩ := exists_insertAt value htoken
    obtain ⟨j', hj', habove⟩ := exists_update? _ hc hc'
    refine ⟨j', by rw [add?, split?_concat]; exact hj', ?_⟩
    rw [get?_append, habove]
    exact hvalue

theorem remove?_single {m : Members} (h : Members.find? token m = some v) :
    remove? [token] (.obj m) = some (.obj (Members.erase token m)) :=
  congrArg (Option.map fun _ => Json.obj (Members.erase token m)) h

/-- Removing below a member of an object. -/
theorem remove?_cons {rest : Pointer} {m : Members} {w : Json} (hne : rest ≠ [])
    (hv : Members.find? token m = some v) (hw : remove? rest v = some w) :
    remove? (token :: rest) (.obj m) = some (.obj (Members.insert token w m)) := by
  obtain ⟨above, last, rfl⟩ := (List.eq_nil_or_concat' rest).resolve_left hne
  have hcons : Pointer.split? (token :: (above ++ [last])) = some (token :: above, last) :=
    split?_concat (token :: above) last
  rw [remove?, split?_concat] at hw
  rw [remove?, hcons, Option.bind_some]
  exact update?_cons_eq_some.2 (.inl ⟨m, v, w, rfl, hv, hw, rfl⟩)

end Patch

end LedgerFront
