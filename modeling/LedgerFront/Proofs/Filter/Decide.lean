import LedgerFront.Proofs.Filter.Compile
import LedgerFront.Proofs.Filter.Fetch

/-!
# Conditions that decide

A filter becomes conditions, some checked by the remote side and some on the
returned rows. Where each of them decides a property of rows, the fetch selects
the rows with all the properties, whichever side checks which.

* `Condition.Decides`: the condition comes to a truth value on every row of a table.
* `Memory.select_of_decides`: what such conditions select.
-/

namespace LedgerFront

open Compiling

/-- An object with a property. -/
def Json.isObjectWith (property : Members → Bool) : Json → Bool
  | .obj row => property row
  | _ => false

/-- The query of some conditions. -/
def CompiledQuery.ofConditions (conditions : List Condition) : CompiledQuery :=
  ⟨conditions.filterMap Condition.server?, conditions.filterMap Condition.row?⟩

/-- The condition is understood and comes to `property` on every row. -/
def Condition.Decides (rows : List Json) (c : Condition) (property : Members → Bool) : Prop :=
  match c with
  | server p => ∃ t, Memory.test p = .ok t ∧
      ∀ row, Json.obj row ∈ rows → t.holds row = .ok (property row)
  | row p => ∀ row, Json.obj row ∈ rows → p.accepts (.obj row) = .ok (property row)

theorem Condition.Decides.of_parse? {x : String} {terms : List Where.Term}
    (h : Where.parse? x = some terms) (rows : List Json) :
    (Condition.server (.raw x)).Decides rows fun row => terms.any (·.holds row) :=
  ⟨.anyOf terms, by simp [Memory.test, h], fun _ _ => rfl⟩

theorem CompiledQuery.apply_eq_filter (q : CompiledQuery) (rows : List Json) :
    q.apply rows = Run.filter (fun row => Run.all (·.accepts row) q.rows) rows := by
  unfold CompiledQuery.apply
  split
  · rename_i h
    rw [List.isEmpty_iff] at h
    have hall : ∀ row ∈ rows, Run.all (fun p : RowPredicate => p.accepts row) q.rows = .ok true :=
      fun _ _ => by rw [h]; rfl
    rw [Run.filter_eq_ok (p := fun _ => true) hall, List.filter_true]
  · rfl

namespace Memory

variable {rows : List Json} {conditions : List Condition} {properties : List (Members → Bool)}

/-- Each side comes to a truth value on every row, and the two together to all the properties. -/
theorem sides_of_decides (h : List.Forall₂ (Condition.Decides rows) conditions properties) :
    ∃ (tests : List Test) (remote checked : Members → Bool),
      (conditions.filterMap Condition.server?).mapM test = .ok tests ∧
      (∀ row, Json.obj row ∈ rows → Run.all (·.holds row) tests = .ok (remote row)) ∧
      (∀ row, Json.obj row ∈ rows →
        Run.all (·.accepts (.obj row)) (conditions.filterMap Condition.row?) = .ok (checked row)) ∧
      ∀ row, (remote row && checked row) = properties.all (· row) := by
  induction h with
  | nil => exact ⟨[], fun _ => true, fun _ => true, rfl, fun _ _ => rfl, fun _ _ => rfl, by simp⟩
  | @cons c property conditions properties hc _ ih =>
    obtain ⟨tests, remote, checked, htests, hremote, hchecked, hall⟩ := ih
    -- the property of the condition is added on the side that checks it
    cases c with
    | server p =>
      obtain ⟨t, ht, hp⟩ := hc
      refine ⟨t :: tests, fun row => property row && remote row, checked, ?_, ?_, hchecked, ?_⟩
      · simp [Condition.server?, List.mapM_cons, ht, htests, bind, Except.bind, pure, Except.pure]
      · exact fun row hrow => Run.all_cons_ok (hp row hrow) (hremote row hrow)
      · intro row
        simp [← hall row, Bool.and_assoc]
    | row p =>
      refine ⟨tests, remote, fun row => property row && checked row, ?_, hremote, ?_, ?_⟩
      · simpa only [Condition.server?, List.filterMap_cons] using htests
      · exact fun row hrow => Run.all_cons_ok (hc row hrow) (hchecked row hrow)
      · intro row
        simp [← hall row, Bool.and_left_comm]

variable {s : CompilerSettings} {e : Entity} {p : Params} {key : TableKey} {m : Memory}

/-- **Selection.** Conditions that decide select the objects with all the properties, in order. -/
theorem select_of_decides (hc : Gives (p.compile s e) (.ofConditions conditions))
    (h : List.Forall₂ (Condition.Decides (m.rows key)) conditions properties) :
    m.select s e p key =
      .ok (.ok ((m.rows key).filter (Json.isObjectWith fun row => properties.all (· row)))) := by
  obtain ⟨tests, remote, checked, htests, hremote, hchecked, hall⟩ := sides_of_decides h
  -- the remote side keeps objects only, so the rows are checked on objects only
  have hquery : m.query key (CompiledQuery.ofConditions conditions).server =
      .ok (.ok ((m.rows key).filter (Json.isObjectWith remote))) := by
    simp only [query, CompiledQuery.ofConditions, htests]
    rw [Run.filter_eq_ok (p := Json.isObjectWith remote)]
    · rfl
    · intro row hrow
      cases row with
      | obj row => exact hremote row hrow
      | null | bool _ | num _ | str _ | arr _ => rfl
  have happly : (CompiledQuery.ofConditions conditions).apply
      ((m.rows key).filter (Json.isObjectWith remote)) =
        .ok (((m.rows key).filter (Json.isObjectWith remote)).filter
          (Json.isObjectWith checked)) := by
    rw [CompiledQuery.apply_eq_filter]
    refine Run.filter_eq_ok fun row hrow => ?_
    obtain ⟨hin, hobj⟩ := List.mem_filter.1 hrow
    cases row with
    | obj row => exact hchecked row hin
    | null | bool _ | num _ | str _ | arr _ => simp [Json.isObjectWith] at hobj
  have hboth : ∀ row : Json, (Json.isObjectWith checked row && Json.isObjectWith remote row) =
      Json.isObjectWith (fun row => properties.all (· row)) row := by
    intro row
    cases row with
    | obj row => simpa [Json.isObjectWith, Bool.and_comm] using hall row
    | null | bool _ | num _ | str _ | arr _ => rfl
  have hrun : (p.compile s e).run = .ok (.ok (.ofConditions conditions)) := hc
  simp only [select, hrun, hquery, happly, bind, Except.bind, pure, Except.pure,
    List.filter_filter, hboth]

/-- A raw expression that is not understood refuses the query. -/
theorem select_unread {q : CompiledQuery} {f : RemoteError} (hc : Gives (p.compile s e) q)
    (h : q.server.mapM test = .error f) : m.select s e p key = .ok (.error (.ofRemote f)) := by
  have hrun : (p.compile s e).run = .ok (.ok q) := hc
  simp [select, hrun, query, h, bind, Except.bind, pure, Except.pure]

end Memory

end LedgerFront
