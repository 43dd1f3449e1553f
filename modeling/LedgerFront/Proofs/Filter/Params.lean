import LedgerFront.Filter.Params
import LedgerFront.Proofs.Pairs

/-!
# The parameters of a query string

The pairs of a query string are put under their keys one after the other, except those with an excluded
name. To exclude names is therefore to remove them from all parameters.

* `Params.pairs_parseQuery`: the parameters as pairs put one after the other.
* `Params.get?_parseQuery`: the value of a key.
-/

namespace LedgerFront.Params

variable {query key : String} {excluded : List String}

theorem pairs_ofPairs (l : List (String × String)) : (ofPairs l).pairs = Pairs.putAll l [] := rfl

theorem isExcluded_eq_false : isExcluded excluded key = false ↔
    ∀ x ∈ excluded, Text.lower x ≠ Text.lower key := by
  simp [isExcluded, Text.sameName]

@[simp] theorem isExcluded_nil (key : String) : isExcluded [] key = false := rfl

@[simp] theorem isExcluded_singleton (name key : String) :
    isExcluded [name] key = Text.sameName key name := by
  simp [isExcluded, Text.sameName, eq_comm]

/-- **Excluded names** are removed from all the parameters there are. -/
theorem pairs_parseQuery (query : String) (excluded : List String) :
    (parseQuery query excluded).pairs =
      (Pairs.putAll (Text.Form.decode query) []).filter fun p => !isExcluded excluded p.1 := by
  rw [parseQuery, pairs_ofPairs]
  exact Pairs.putAll_filter (fun k => !isExcluded excluded k) _

theorem pairs_parseQuery_nil (query : String) :
    (parseQuery query []).pairs = Pairs.putAll (Text.Form.decode query) [] := by
  simp [pairs_parseQuery]

/-- Keys that are all different are the parameters in the order in which they are given. -/
theorem pairs_parseQuery_of_nodup (h : ((Text.Form.decode query).map (·.1)).Nodup) :
    (parseQuery query []).pairs = Text.Form.decode query := by
  rw [pairs_parseQuery_nil, Pairs.putAll_of_nodup h]

theorem nodup_parseQuery (query : String) (excluded : List String) :
    ((parseQuery query excluded).pairs.map (·.1)).Nodup := by
  rw [pairs_parseQuery]
  exact (List.filter_sublist.map _).nodup (Pairs.nodup_putAll _ List.nodup_nil)

theorem mem_keys_parseQuery : key ∈ (parseQuery query excluded).pairs.map (·.1) ↔
    key ∈ (Text.Form.decode query).map (·.1) ∧ isExcluded excluded key = false := by
  rw [← Pairs.mem_keys_putAll (l := Text.Form.decode query), pairs_parseQuery, List.mem_map,
    List.mem_map]
  constructor
  · rintro ⟨p, hp, rfl⟩
    obtain ⟨hp, hkept⟩ := List.mem_filter.1 hp
    exact ⟨⟨p, hp, rfl⟩, by simpa using hkept⟩
  · rintro ⟨⟨p, hp, rfl⟩, hkept⟩
    exact ⟨p, List.mem_filter.2 ⟨hp, by simp [hkept]⟩, rfl⟩

/-- The last value under a key that is not excluded. -/
theorem latest?_of_mem_parseQuery {p : String × String} (h : p ∈ (parseQuery query excluded).pairs) :
    Pairs.latest? p.1 (Text.Form.decode query) = some p.2 := by
  rw [pairs_parseQuery] at h
  exact Pairs.mem_putAll.1 (List.mem_filter.1 h).1

/-- The keys stand in the order in which they first appear in the query string. -/
theorem ordered_parseQuery (query : String) (excluded : List String) :
    ((parseQuery query excluded).pairs.map (·.1)).Pairwise fun a b =>
      ((Text.Form.decode query).map (·.1)).idxOf a < ((Text.Form.decode query).map (·.1)).idxOf b := by
  rw [pairs_parseQuery]
  exact (Pairs.ordered_putAll _).sublist (List.filter_sublist.map _)

/-- A pair of the query string has no parameter exactly when its key is excluded. -/
theorem get?_parseQuery_isNone {p : String × String} (h : p ∈ Text.Form.decode query) :
    ((parseQuery query excluded).get? p.1).isNone = isExcluded excluded p.1 := by
  have hkey : p.1 ∈ (Text.Form.decode query).map (·.1) := List.mem_map_of_mem h
  have hnone : ((parseQuery query excluded).get? p.1).isNone ↔
      p.1 ∉ (parseQuery query excluded).pairs.map (·.1) := by
    rw [get?, Option.isNone_iff_eq_none, List.lookup_eq_none_iff, List.mem_map]
    simp only [bne_iff_ne, not_exists, not_and]
    exact forall₂_congr fun _ _ => ne_comm
  rw [mem_keys_parseQuery] at hnone
  rw [Bool.eq_iff_iff, hnone]
  simp [hkey]

end LedgerFront.Params
