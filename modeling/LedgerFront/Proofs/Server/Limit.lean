import LedgerFront.Proofs.Filter.Params
import LedgerFront.Proofs.Text.Digits
import LedgerFront.Server.Service

/-!
# Filter and limit

A bulk write reads its query string twice: once for the parameters of the filter, without the limit, and
once for the limit. The two divide the pairs between them, in whatever letter case and percent encoding
their keys are written, so that no limit becomes a filter and no filter a limit.

* `Params.dropped`: the pairs that have no parameter.
* `filter_and_limit`: the parameters, and the limit in terms of the pairs that have none.
-/

namespace LedgerFront

/-- The pairs of a query string that have no parameter when some names are excluded. -/
def Params.dropped (query : String) (excluded : List String) : List (String × String) :=
  (Text.Form.decode query).filter fun p => ((parseQuery query excluded).get? p.1).isNone

/-- A text that stands for an unsigned 64-bit integer: blanks around its digits, which may have a plus
sign in front. -/
def DenotesUnsigned (text : String) (n : Nat) : Prop :=
  ∃ ds, (Text.trimChars text.toList = ds ∨ Text.trimChars text.toList = '+' :: ds) ∧ ds ≠ [] ∧
    ds.all Text.isDigit = true ∧ Text.digitsValue ds = n ∧ n < 2 ^ 64

theorem natBelow?_eq_some_iff_denotes {text : String} {n : Nat} :
    Text.natBelow? UInt64.size (Text.trimChars text.toList) = some n ↔ DenotesUnsigned text n := by
  rw [Text.natBelow?_eq_some, Text.nat?_eq_some, DenotesUnsigned, ← exists_and_right]
  exact exists_congr fun ds => by simp only [and_assoc]; rfl

/-- What has no parameter beside the limit is what is read as the limit. -/
theorem Params.dropped_limit (query : String) : dropped query [limitKey] =
    (Text.Form.decode query).filter fun p => Text.sameName p.1 limitKey := by
  unfold dropped
  refine List.filter_congr fun p hp => ?_
  rw [get?_parseQuery_isNone hp, isExcluded_singleton]

theorem limitOfQuery_of_none {query : String} (h : Params.dropped query [limitKey] = []) :
    limitOfQuery query = .ok 0 := by
  rw [limitOfQuery, ← Params.dropped_limit, h]
  rfl

theorem limitOfQuery_of_dropped {query : String} {p : String × String}
    (h : (Params.dropped query [limitKey]).getLast? = some p) :
    (∀ n, limitOfQuery query = .ok n ↔ DenotesUnsigned p.2 n) ∧
    ∀ e, limitOfQuery query = .error e ↔
      (∀ n, ¬ DenotesUnsigned p.2 n) ∧ e = .badRequest ("Invalid limit '" ++ p.2 ++ "'") := by
  rw [Params.dropped_limit] at h
  unfold limitOfQuery
  rw [h]
  simp only [← natBelow?_eq_some_iff_denotes]
  cases hread : Text.natBelow? UInt64.size (Text.trimChars p.2.toList) with
  | none => simp [eq_comm]
  | some m => simp

/-- **Filter and limit.** The parameters have different keys: those of the query string, without the names
that are excluded in any letter case. They stand in the order in which the keys first appear, each with the
value of its last appearance, so names are excluded by removing them from all parameters. The limit is read
from the pairs that have no parameter when it is excluded, and from nothing else: it is zero when there are
none, else the last one has to stand for an unsigned integer, and the limit is that integer. -/
theorem filter_and_limit (query : String) :
    (∀ excluded,
      ((Params.parseQuery query excluded).pairs.map (·.1)).Nodup ∧
      (∀ key, key ∈ (Params.parseQuery query excluded).pairs.map (·.1) ↔
        key ∈ (Text.Form.decode query).map (·.1) ∧
          ∀ name ∈ excluded, Text.lower name ≠ Text.lower key) ∧
      (∀ p ∈ (Params.parseQuery query excluded).pairs,
        Pairs.latest? p.1 (Text.Form.decode query) = some p.2) ∧
      ((Params.parseQuery query excluded).pairs.map (·.1)).Pairwise (fun a b =>
        ((Text.Form.decode query).map (·.1)).idxOf a < ((Text.Form.decode query).map (·.1)).idxOf b) ∧
      (Params.parseQuery query excluded).pairs =
        (Params.parseQuery query []).pairs.filter fun p => !Params.isExcluded excluded p.1) ∧
    (∀ limit, limitOfQuery query = .ok limit ↔
      (Params.dropped query [limitKey] = [] ∧ limit = 0) ∨
        ∃ p, (Params.dropped query [limitKey]).getLast? = some p ∧ DenotesUnsigned p.2 limit) ∧
    ∀ e, limitOfQuery query = .error e ↔
      ∃ p, (Params.dropped query [limitKey]).getLast? = some p ∧ (∀ n, ¬ DenotesUnsigned p.2 n) ∧
        e = .badRequest ("Invalid limit '" ++ p.2 ++ "'") := by
  refine ⟨fun excluded => ⟨Params.nodup_parseQuery _ _, fun key => ?_,
    fun p hp => Params.latest?_of_mem_parseQuery hp, Params.ordered_parseQuery _ _, ?_⟩, ?_⟩
  · rw [Params.mem_keys_parseQuery, Params.isExcluded_eq_false]
  · rw [Params.pairs_parseQuery, Params.pairs_parseQuery_nil]
  · cases hlast : (Params.dropped query [limitKey]).getLast? with
    | none =>
      have hnone := List.getLast?_eq_none_iff.1 hlast
      simp [limitOfQuery_of_none hnone, hnone, eq_comm]
    | some p =>
      have hne : Params.dropped query [limitKey] ≠ [] := fun h => by simp [h] at hlast
      obtain ⟨hok, herror⟩ := limitOfQuery_of_dropped hlast
      simp [hok, herror, hne]

/-- The last of two limits counts; the parameters are cities and a name. -/
example : let query := "limit=3&City=Oslo&name=a&l%49MIT=+4+&City=Rome"
    (Params.parseQuery query [limitKey]).pairs = [("City", "Rome"), ("name", "a")] ∧
      limitOfQuery query = .ok 4 := by
  decide +kernel

end LedgerFront
