import LedgerFront.Proofs.Filter.Traversal

/-!
# What compiling a filter gives

For each stage of the compilation, when it goes through and with what, and when
it stops the program. The last stage is the filter as a whole.

* `alternatives_gives`, `alternatives_stops`: the literals of one value.
* `parameterCondition_gives`, `parameterCondition_stops`: one parameter.
* `Params.compile_gives`, `Params.compile_stops`: all parameters.
-/

namespace LedgerFront

open Compiling

theorem alternative_run (c : Column) (x : String) :
    (alternative c x).run = (c.valueType.normalize x).map fun o => match o with
      | some v => .ok v
      | none => .error (.invalidValue c.name c.valueType x) := by
  unfold alternative
  rw [run_bind]
  rcases h : c.valueType.normalize x with why | o
  · rfl
  · cases o <;> rfl

theorem alternative_gives {c : Column} {x v : String} :
    Gives (alternative c x) v ↔ c.valueType.normalize x = .ok (some v) := by
  unfold Gives
  rw [alternative_run]
  rcases c.valueType.normalize x with why | _ | w <;> simp [Except.map]

theorem alternative_stops {c : Column} {x : String} :
    Run.Stops (alternative c x).run ↔ (c.valueType.normalize x).Stops := by
  rw [alternative_run]
  exact Run.stops_map

theorem alternatives_gives {c : Column} {value : String} {vs : List String} :
    Gives (alternatives c value) vs ↔
      List.Forall₂ (fun x v => c.valueType.normalize x = .ok (some v)) (literals value) vs ∧
        vs ≠ [] := by
  unfold alternatives
  rw [gives_bind]
  simp only [mapM_gives, alternative_gives]
  constructor
  · rintro ⟨ws, hws, h⟩
    cases ws with
    | nil => exact absurd h not_gives_throw
    | cons w ws =>
      obtain rfl := gives_pure.1 h
      exact ⟨hws, by simp⟩
  · rintro ⟨hvs, hne⟩
    refine ⟨vs, hvs, ?_⟩
    rw [if_neg (by simpa using hne)]
    exact gives_pure.2 rfl

theorem alternatives_stops {c : Column} {value : String} :
    Run.Stops (alternatives c value).run ↔ ∃ before x after,
      literals value = before ++ x :: after ∧
        (∀ y ∈ before, ∃ v, c.valueType.normalize y = .ok (some v)) ∧
          (c.valueType.normalize x).Stops := by
  unfold alternatives
  simp only [stops_bind, mapM_stops, alternative_gives, alternative_stops]
  -- the check for an empty list refuses, it does not stop
  refine or_iff_left ?_
  rintro ⟨vs, _, h⟩
  split at h <;> exact absurd h Run.not_stops_ok

variable {s : CompilerSettings} {e : Entity}

theorem parameterCondition_gives {key value : String} {condition : Condition} :
    Gives (parameterCondition s e key value) condition ↔ ∃ c vs, e.resolve? key = some c ∧
      Gives (alternatives c value) vs ∧ c.condition s vs = .ok condition := by
  unfold parameterCondition
  cases hr : e.resolve? key with
  | none => simp [not_gives_throw]
  | some c =>
    simp only [gives_bind, Option.some.injEq, exists_and_left, exists_eq_left']
    refine exists_congr fun vs => and_congr_right fun _ => ?_
    cases c.condition s vs with
    | error f => simp [not_gives_throw]
    | ok condition => simp [gives_pure]

theorem parameterCondition_stops {key value : String} :
    Run.Stops (parameterCondition s e key value).run ↔ ∃ c, e.resolve? key = some c ∧
      Run.Stops (alternatives c value).run := by
  unfold parameterCondition
  cases hr : e.resolve? key with
  | none =>
    simp only [reduceCtorEq, false_and, exists_false, iff_false]
    exact Run.not_stops_ok
  | some c =>
    simp only [stops_bind, Option.some.injEq, exists_eq_left']
    refine or_iff_left ?_
    rintro ⟨vs, _, h⟩
    split at h <;> exact absurd h Run.not_stops_ok

/-- The parameters that are compiled one by one: all but the raw expression. -/
def Params.plain (p : Params) (s : CompilerSettings) : List (String × String) :=
  p.pairs.filter (·.1 != s.rawKey)

theorem Params.compile_gives {p : Params} {q : CompiledQuery} :
    Gives (p.compile s e) q ↔ ∃ conditions,
      List.Forall₂ (fun kv c => Gives (parameterCondition s e kv.1 kv.2) c) (p.plain s) conditions ∧
        q = ⟨p.rawPredicates s ++ conditions.filterMap Condition.server?,
          conditions.filterMap Condition.row?⟩ := by
  unfold Params.compile
  simp only [gives_bind, mapM_gives]
  exact exists_congr fun conditions => and_congr Iff.rfl (gives_pure.trans eq_comm)

/-- A filter compiles exactly when each parameter but the raw expression does. -/
theorem Params.exists_compile_gives {p : Params} : (∃ q, Gives (p.compile s e) q) ↔
    ∀ kv ∈ p.plain s, ∃ c, Gives (parameterCondition s e kv.1 kv.2) c := by
  rw [← exists_mapM_gives]
  simp only [compile_gives, ← mapM_gives]
  constructor
  · rintro ⟨_, conditions, h, _⟩
    exact ⟨conditions, h⟩
  · rintro ⟨conditions, h⟩
    exact ⟨_, conditions, h, rfl⟩

theorem Params.compile_stops {p : Params} :
    Run.Stops (p.compile s e).run ↔ ∃ before k v after, p.plain s = before ++ (k, v) :: after ∧
      (∀ kv ∈ before, ∃ c, Gives (parameterCondition s e kv.1 kv.2) c) ∧
        ∃ c, e.resolve? k = some c ∧ Run.Stops (alternatives c v).run := by
  unfold Params.compile
  simp only [stops_bind, mapM_stops, parameterCondition_stops, Prod.exists]
  refine or_iff_left ?_
  rintro ⟨_, _, h⟩
  exact absurd h Run.not_stops_ok

end LedgerFront
