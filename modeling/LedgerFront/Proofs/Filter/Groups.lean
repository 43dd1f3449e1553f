import LedgerFront.Proofs.Filter.Decide
import LedgerFront.Proofs.Filter.Stops
import Mathlib.Data.String.Basic

/-!
# Groups of alternatives

A parameter comes to a group: the column that it addresses and the alternatives
for it. What becomes of the group depends on the settings; which rows it holds
on does not.

* `Group.holds`: the group on a row.
* `Params.compile_gives_groups`: a filter compiles to the conditions of its groups.
* `Params.compile_clientFilter`: under the client filter nothing is refused after
  the groups are formed.
-/

namespace LedgerFront

open Compiling

/-- A column and the normal forms of which its cell has to be one. -/
structure Group where
  column : Column
  values : List String
deriving DecidableEq

namespace Group

/-- The group on a row; it stops where the cell has no normal form and no refusal. -/
def test (g : Group) (row : Members) : Run Bool :=
  Row.isOneOf g.column.valueType g.values (Row.column? g.column.name row)

/-- The cell of the row has one of the normal forms. -/
def holds (g : Group) (row : Members) : Bool :=
  match g.test row with
  | .ok b => b
  | .error _ => false

/-- The cell of the row does not escape the calendar. -/
def Quiet (g : Group) (row : Members) : Prop :=
  ∀ v, Row.column? g.column.name row = some v → ¬ g.column.valueType.EscapesJson v

variable {g : Group} {row : Members}

theorem test_eq_holds (h : g.Quiet row) : g.test row = .ok (g.holds row) := by
  obtain hs | ⟨b, hb⟩ := Run.stops_or_ok (g.test row)
  · obtain ⟨v, hv, hesc⟩ := isOneOf_stops.1 hs
    exact absurd hesc (h v hv)
  · simp [holds, hb]

/-- The match of the group for the remote side. -/
def remote (g : Group) : Predicate :=
  .oneOf ⟨g.column.name, g.column.kind, g.column.valueType, g.values⟩

/-- The match of the group for the returned rows. -/
def onRows (g : Group) : RowPredicate :=
  ⟨g.column.publicName, g.column.valueType, sortedSet g.values⟩

end Group

section Sorted

variable {x y : String} {l : List String}

theorem mem_insertSorted : x ∈ insertSorted y l ↔ x = y ∨ x ∈ l := by
  induction l with
  | nil => simp [insertSorted]
  | cons z l ih =>
    unfold insertSorted
    split_ifs with h1 h2
    · simp [h1]
    · simp
    · simp only [List.mem_cons, ih]
      exact or_left_comm

theorem mem_foldl_insertSorted {set : List String} :
    x ∈ l.foldl (fun set s => insertSorted s set) set ↔ x ∈ l ∨ x ∈ set := by
  induction l generalizing set with
  | nil => simp
  | cons z l ih =>
    rw [List.foldl_cons, ih, mem_insertSorted, List.mem_cons, or_left_comm, or_assoc]

theorem mem_sortedSet : x ∈ sortedSet l ↔ x ∈ l := by
  simp [sortedSet, mem_foldl_insertSorted]

theorem contains_sortedSet : (sortedSet l).contains x = l.contains x := by
  rw [Bool.eq_iff_iff, List.contains_iff_mem, List.contains_iff_mem, mem_sortedSet]

theorem ascending_insertSorted (h : l.Pairwise (· < ·)) (x : String) :
    (insertSorted x l).Pairwise (· < ·) := by
  induction l with
  | nil => exact List.pairwise_singleton ..
  | cons y l ih =>
    obtain ⟨hy, hl⟩ := List.pairwise_cons.1 h
    unfold insertSorted
    split_ifs with heq hlt
    · exact h
    · refine List.pairwise_cons.2 ⟨fun z hz => ?_, h⟩
      obtain rfl | hz := List.mem_cons.1 hz
      · exact hlt
      · exact lt_trans hlt (hy z hz)
    · have hyx : y < x := lt_of_le_of_ne (not_lt.1 hlt) (Ne.symm heq)
      refine List.pairwise_cons.2 ⟨fun z hz => ?_, ih hl⟩
      obtain rfl | hz := mem_insertSorted.1 hz
      · exact hyx
      · exact hy z hz

theorem ascending_sortedSet : (sortedSet l).Pairwise (· < ·) :=
  List.foldlRecOn l _ List.Pairwise.nil fun _ h x _ => ascending_insertSorted h x

/-- An ascending list is known by its members. -/
theorem eq_sortedSet_iff {m : List String} :
    m = sortedSet l ↔ m.Pairwise (· < ·) ∧ ∀ x, x ∈ m ↔ x ∈ l := by
  constructor
  · rintro rfl
    exact ⟨ascending_sortedSet, fun x => mem_sortedSet⟩
  · rintro ⟨hm, hmem⟩
    have hperm : m.Perm (sortedSet l) := by
      rw [List.perm_ext_iff_of_nodup (hm.imp fun h => h.ne) (ascending_sortedSet.imp fun h => h.ne)]
      intro x
      rw [hmem, mem_sortedSet]
    exact hperm.eq_of_pairwise (fun a b _ _ hab hba => absurd hab hba.asymm) hm ascending_sortedSet

end Sorted

theorem isOneOf_sortedSet (t : ValueType) (vs : List String) (cell : Option Json) :
    Row.isOneOf t (sortedSet vs) cell = Row.isOneOf t vs cell := by
  cases cell with
  | none => rfl
  | some v => simp only [Row.isOneOf, contains_sortedSet]

namespace Group

variable {g : Group} {rows : List Json}

/-- The two sides look the column up and compare in the same way. -/
theorem accepts_onRows (g : Group) (row : Members) : g.onRows.accepts (.obj row) = g.test row := by
  unfold RowPredicate.accepts onRows test
  exact isOneOf_sortedSet ..

/-- Within the limit a group is a match for the remote side. -/
theorem condition_within {s : CompilerSettings} (h : g.values.length ≤ s.limit) :
    g.column.condition s g.values = .ok (.server g.remote) := by
  unfold Column.condition
  rw [if_pos h]
  rfl

/-- Over the limit the strategy says what becomes of a group. -/
theorem condition_over {s : CompilerSettings} (h : s.limit < g.values.length) :
    g.column.condition s g.values = match s.overflow with
      | .serverFold =>
        match Where.fold g.column.name g.column.valueType g.values with
        | .ok x => .ok (.server (.raw x))
        | .error v => .error (.unsafeValue g.column.name v)
      | .clientFilter => .ok (.row g.onRows)
      | .reject => .error (.tooManyAlternatives g.column.name g.values.length s.limit) := by
  unfold Column.condition
  rw [if_neg (by omega)]
  rfl

theorem remote_decides (h : ∀ row, Json.obj row ∈ rows → g.Quiet row) :
    (Condition.server g.remote).Decides rows g.holds :=
  ⟨_, rfl, fun row hrow => test_eq_holds (h row hrow)⟩

theorem onRows_decides (h : ∀ row, Json.obj row ∈ rows → g.Quiet row) :
    (Condition.row g.onRows).Decides rows g.holds :=
  fun row hrow => (g.accepts_onRows row).trans (test_eq_holds (h row hrow))

/-- The condition of a group that is never refused. -/
def assign (limit : Nat) (g : Group) : Condition :=
  if g.values.length ≤ limit then .server g.remote else .row g.onRows

theorem assign_decides (limit : Nat) (h : ∀ row, Json.obj row ∈ rows → g.Quiet row) :
    (g.assign limit).Decides rows g.holds := by
  unfold assign
  split
  · exact remote_decides h
  · exact onRows_decides h

end Group

variable {s : CompilerSettings} {e : Entity} {p : Params}

/-- The group of one parameter. -/
def parameterGroup (e : Entity) (key value : String) : Compiling Group :=
  match e.resolve? key with
  | none => throw (.unknownProperty e.name key)
  | some c => do return ⟨c, ← alternatives c value⟩

theorem parameterGroup_gives {key value : String} {g : Group} :
    Gives (parameterGroup e key value) g ↔
      e.resolve? key = some g.column ∧ Gives (alternatives g.column value) g.values := by
  unfold parameterGroup
  cases hr : e.resolve? key with
  | none => simp [not_gives_throw]
  | some c =>
    rw [gives_bind, Option.some.injEq]
    constructor
    · rintro ⟨vs, hvs, h⟩
      obtain rfl := gives_pure.1 h
      exact ⟨rfl, hvs⟩
    · rintro ⟨rfl, hvs⟩
      exact ⟨g.values, hvs, gives_pure.2 rfl⟩

/-- The groups of all parameters but the raw expression. -/
def Params.groups (p : Params) (s : CompilerSettings) (e : Entity) : Compiling (List Group) :=
  (p.plain s).mapM fun kv => parameterGroup e kv.1 kv.2

theorem parameterCondition_eq (key value : String) :
    parameterCondition s e key value = parameterGroup e key value >>= fun g =>
      (match g.column.condition s g.values with
      | .ok condition => pure condition
      | .error error => throw error) := by
  unfold parameterCondition parameterGroup
  cases e.resolve? key with
  | none => rfl
  | some c =>
    refine .symm ((bind_assoc _ _ _).trans ?_)
    exact congrArg (alternatives c value >>= ·) (funext fun _ => pure_bind _ _)

theorem parameterCondition_gives_group {key value : String} {condition : Condition} :
    Gives (parameterCondition s e key value) condition ↔ ∃ g,
      Gives (parameterGroup e key value) g ∧ g.column.condition s g.values = .ok condition := by
  simp only [parameterCondition_gives, parameterGroup_gives]
  constructor
  · rintro ⟨c, vs, hr, hvs, h⟩
    exact ⟨⟨c, vs⟩, ⟨hr, hvs⟩, h⟩
  · rintro ⟨g, ⟨hr, hvs⟩, h⟩
    exact ⟨g.column, g.values, hr, hvs, h⟩

/-- The conditions of a whole filter: the raw expression and those of the groups. -/
def Params.conditions (p : Params) (s : CompilerSettings) (ofGroups : List Condition) :
    List Condition :=
  (p.rawPredicates s).map .server ++ ofGroups

theorem ofConditions_conditions (ofGroups : List Condition) :
    CompiledQuery.ofConditions (p.conditions s ofGroups) =
      ⟨p.rawPredicates s ++ ofGroups.filterMap Condition.server?,
        ofGroups.filterMap Condition.row?⟩ := by
  simp only [CompiledQuery.ofConditions, Params.conditions, List.filterMap_append,
    List.filterMap_map]
  congr 2
  · exact List.filterMap_some
  · simp [Condition.row?]

/-- **Compilation by groups.** A filter compiles to the conditions of its groups, if each has one. -/
theorem Params.compile_gives_groups {q : CompiledQuery} :
    Gives (p.compile s e) q ↔ ∃ gs conditions, Gives (p.groups s e) gs ∧
      List.Forall₂ (fun g c => g.column.condition s g.values = .ok c) gs conditions ∧
        q = .ofConditions (p.conditions s conditions) := by
  simp only [Params.compile_gives, Params.groups, mapM_gives, parameterCondition_gives_group,
    ofConditions_conditions]
  -- a condition for each parameter is a group for each and a condition for each group
  have hsplit : ∀ (l : List (String × String)) (conditions : List Condition),
      List.Forall₂ (fun kv c => ∃ g, Gives (parameterGroup e kv.1 kv.2) g ∧
        g.column.condition s g.values = .ok c) l conditions ↔
      ∃ gs, List.Forall₂ (fun kv g => Gives (parameterGroup e kv.1 kv.2) g) l gs ∧
        List.Forall₂ (fun g c => g.column.condition s g.values = .ok c) gs conditions := by
    intro l conditions
    constructor
    · intro h
      induction h with
      | nil => exact ⟨[], .nil, .nil⟩
      | cons hc _ ih =>
        obtain ⟨g, hg, hcond⟩ := hc
        obtain ⟨gs, hgs, hconds⟩ := ih
        exact ⟨g :: gs, .cons hg hgs, .cons hcond hconds⟩
    · rintro ⟨gs, hgs, h⟩
      induction hgs generalizing conditions with
      | nil =>
        cases h
        exact .nil
      | cons hg _ ih =>
        cases h with
        | cons hcond hconds => exact .cons ⟨_, hg, hcond⟩ (ih _ hconds)
  simp only [hsplit]
  constructor
  · rintro ⟨conditions, ⟨gs, hgs, h⟩, rfl⟩
    exact ⟨gs, conditions, hgs, h, rfl⟩
  · rintro ⟨gs, conditions, hgs, h, rfl⟩
    exact ⟨conditions, ⟨gs, hgs, h⟩, rfl⟩

theorem mapM_bind_pure {α β γ : Type} (f : α → Compiling β) (g : β → γ) (l : List α) :
    (l.mapM fun a => f a >>= fun b => pure (g b)) = l.mapM f >>= fun bs => pure (bs.map g) := by
  induction l with
  | nil => simp
  | cons a l ih => simp only [List.mapM_cons, ih, bind_assoc, pure_bind, List.map_cons]

theorem condition_clientFilter (h : s.overflow = .clientFilter) (g : Group) :
    g.column.condition s g.values = .ok (g.assign s.limit) := by
  unfold Group.assign
  split
  · rename_i hle
    exact Group.condition_within hle
  · rename_i hlt
    rw [Group.condition_over (by omega), h]

/-- Under the client filter a refusal comes from forming the groups, whatever the limit. -/
theorem Params.compile_clientFilter (h : s.overflow = .clientFilter) :
    p.compile s e = p.groups s e >>= fun gs =>
      pure (.ofConditions (p.conditions s (gs.map (Group.assign s.limit)))) := by
  have hcond : ∀ kv : String × String, parameterCondition s e kv.1 kv.2 =
      parameterGroup e kv.1 kv.2 >>= fun g => pure (g.assign s.limit) := by
    intro kv
    rw [parameterCondition_eq]
    congr 1
    funext g
    rw [condition_clientFilter h]
  unfold Params.compile Params.groups Params.plain
  simp only [hcond, mapM_bind_pure, bind_assoc, pure_bind, ofConditions_conditions]

end LedgerFront
