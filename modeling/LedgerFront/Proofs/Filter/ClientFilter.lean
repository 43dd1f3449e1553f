import LedgerFront.Proofs.Filter.Groups

/-!
# What a filter selects

The meaning of a filter without reference to how it is compiled: a row is
selected when it is an object, the raw expression holds on it, and for each other
parameter the cell has the normal form of one of the literals. Under the client
filter this is what a fetch returns, whatever number of alternatives the remote
side takes.

* `Params.selects`: the rows that a filter is meant to select.
* `Service.fetch_clientFilter`: the fetch selects these rows.
-/

namespace LedgerFront

open Compiling

/-- The normal form of a literal. -/
def ValueType.normalForm? (t : ValueType) (raw : String) : Option String :=
  match t.normalize raw with
  | .ok v => v
  | .error _ => none

/-- A cell has the normal form of one of the literals in a value. -/
def Column.accepts (c : Column) (value : String) (cell : Json) : Bool :=
  match c.valueType.normalizeJson cell with
  | .ok (some v) => (literals value).any fun x => c.valueType.normalForm? x == some v
  | _ => false

namespace Params

/-- The expression under the raw key, unless it is blank. -/
def rawExpression? (p : Params) (s : CompilerSettings) : Option String :=
  (p.get? s.rawKey).filter fun x => !Text.isBlankText x

/-- The expression under the raw key, if it is not understood. -/
def unread? (p : Params) (s : CompilerSettings) : Option String :=
  (p.rawExpression? s).filter fun x => (Where.parse? x).isNone

/-- One of the terms of the raw expression holds on the row. -/
def rawHolds (p : Params) (s : CompilerSettings) (row : Members) : Bool :=
  (p.rawExpression? s).all fun x => (Where.parse? x).any fun terms => terms.any (·.holds row)

/-- The column that a parameter addresses has an accepted cell in the row. -/
def parameterHolds (e : Entity) (row : Members) (kv : String × String) : Bool :=
  (e.resolve? kv.1).any fun c => (Row.column? c.name row).any (c.accepts kv.2)

/-- An object on which the raw expression and every other parameter hold. -/
def selects (p : Params) (s : CompilerSettings) (e : Entity) : Json → Bool :=
  Json.isObjectWith fun row => p.rawHolds s row && (p.plain s).all (parameterHolds e row)

/-- What a filter that is not refused selects from a table; the raw expression has to be
understood. -/
def selection (p : Params) (s : CompilerSettings) (e : Entity) (rows : List Json) :
    Except RequestError (List Json) :=
  match p.unread? s with
  | some x => .error (.ofRemote (.unsupported ("where expression: " ++ x)))
  | none => .ok (rows.filter (p.selects s e))

/-- No literal of the filter escapes the calendar. -/
def QuietLiterals (p : Params) (s : CompilerSettings) (e : Entity) : Prop :=
  ∀ kv ∈ p.plain s, ∀ c, e.resolve? kv.1 = some c → ∀ x ∈ literals kv.2, ¬ c.valueType.Escapes x

/-- No cell that the filter looks up escapes the calendar. -/
def QuietCells (p : Params) (s : CompilerSettings) (e : Entity) (rows : List Json) : Prop :=
  ∀ row, Json.obj row ∈ rows → ∀ kv ∈ p.plain s, ∀ c, e.resolve? kv.1 = some c →
    ∀ v, Row.column? c.name row = some v → ¬ c.valueType.EscapesJson v

variable {p : Params} {s : CompilerSettings} {e : Entity} {rows : List Json}

theorem rawPredicates_eq : p.rawPredicates s = (p.rawExpression? s).toList.map .raw := by
  unfold rawPredicates rawExpression?
  cases p.get? s.rawKey with
  | none => rfl
  | some x => cases h : Text.isBlankText x <;> simp [h, Option.filter]

theorem compile_answers (h : p.QuietLiterals s e) : ∃ compiled, (p.compile s e).run = .ok compiled := by
  refine (Run.stops_or_ok _).resolve_left fun hstop => ?_
  obtain ⟨before, k, v, after, hplain, _, c, hr, hstop⟩ := compile_stops.1 hstop
  obtain ⟨pre, x, post, hx, _, hesc⟩ := alternatives_stops.1 hstop
  exact h (k, v) (by simp [hplain]) c hr x (by simp [hx]) (ValueType.normalize_stops.1 hesc)

end Params

/-- A group holds where the literals that it was made of accept the cell. -/
theorem Group.holds_eq {e : Entity} {kv : String × String} {g : Group}
    (h : Gives (parameterGroup e kv.1 kv.2) g) (row : Members) :
    g.holds row = Params.parameterHolds e row kv := by
  obtain ⟨hr, hvs⟩ := parameterGroup_gives.1 h
  -- the alternatives are the normal forms of the literals, and all literals have one
  have hforms : (literals kv.2).map g.column.valueType.normalForm? = g.values.map some := by
    refine List.forall₂_eq_eq_eq ▸ List.forall₂_map_left_iff.2 (List.forall₂_map_right_iff.2 ?_)
    refine (alternatives_gives.1 hvs).1.imp fun x v hx => ?_
    simp [ValueType.normalForm?, hx]
  have hcontains : ∀ v, g.values.contains v =
      (literals kv.2).any fun x => g.column.valueType.normalForm? x == some v := by
    intro v
    have hmem : some v ∈ g.values.map some ↔
        some v ∈ (literals kv.2).map g.column.valueType.normalForm? := by rw [hforms]
    rw [Bool.eq_iff_iff, List.contains_iff_mem, List.any_eq_true]
    simpa using hmem
  unfold Group.holds Group.test Params.parameterHolds
  rw [hr, Option.any_some]
  cases Row.column? g.column.name row with
  | none => rfl
  | some v =>
    simp only [Row.isOneOf, Option.any_some, Column.accepts]
    rcases g.column.valueType.normalizeJson v with why | _ | w
    · rfl
    · rfl
    · exact hcontains w

namespace Params

variable {p : Params} {s : CompilerSettings} {e : Entity} {rows : List Json}

theorem all_groups {gs : List Group} (h : Gives (p.groups s e) gs) (row : Members) :
    (gs.all fun g => g.holds row) = (p.plain s).all (parameterHolds e row) := by
  have hgs := mapM_gives.1 h
  clear h
  generalize p.plain s = l at hgs ⊢
  induction hgs with
  | nil => rfl
  | cons hg _ ih => simp [Group.holds_eq hg, ih]

theorem quiet_groups {gs : List Group} (h : Gives (p.groups s e) gs) (hq : p.QuietCells s e rows) :
    ∀ g ∈ gs, ∀ row, Json.obj row ∈ rows → g.Quiet row := by
  intro g hg row hrow v hv
  obtain ⟨kv, hkv, hgive⟩ := exists_of_forall₂ (mapM_gives.1 h) hg
  exact hq row hrow kv hkv g.column (parameterGroup_gives.1 hgive).1 v hv

/-- The raw expression decides, when it is understood. -/
theorem raw_decides (rows : List Json) (h : p.unread? s = none) : ∃ properties : List (Members → Bool),
    List.Forall₂ (Condition.Decides rows) ((p.rawPredicates s).map .server) properties ∧
      ∀ row, properties.all (· row) = p.rawHolds s row := by
  unfold rawHolds
  rw [rawPredicates_eq]
  unfold unread? at h
  cases hx : p.rawExpression? s with
  | none => exact ⟨[], .nil, fun _ => rfl⟩
  | some x =>
    rw [hx, Option.filter_some] at h
    cases hp : Where.parse? x with
    | none => simp [hp] at h
    | some terms =>
      refine ⟨[fun row => terms.any (·.holds row)], .cons (.of_parse? hp rows) .nil, ?_⟩
      simp [hp]

theorem raw_unread {x : String} (h : p.unread? s = some x) (q : List Predicate) :
    (p.rawPredicates s ++ q).mapM Memory.test =
      .error (.unsupported ("where expression: " ++ x)) := by
  unfold unread? at h
  obtain ⟨hx, hp⟩ := Option.filter_eq_some_iff.1 h
  rw [Option.isNone_iff_eq_none] at hp
  simp [rawPredicates_eq, hx, Memory.test, hp, bind, Except.bind]

/-- A raw expression that is not understood refuses the filter, whatever else it says. -/
theorem select_unread {key : TableKey} {m : Memory} {q : CompiledQuery} {x : String}
    (hun : p.unread? s = some x) (hq : Gives (p.compile s e) q) :
    m.select s e p key = .ok (.error (.ofRemote (.unsupported ("where expression: " ++ x)))) := by
  obtain ⟨_, conditions, _, _, rfl⟩ := compile_gives_groups.1 hq
  refine Memory.select_unread hq ?_
  rw [ofConditions_conditions]
  exact raw_unread hun _

/-- Conditions that decide select the objects on which the raw expression and all their properties
hold. -/
theorem select_read {key : TableKey} {m : Memory} {conditions : List Condition}
    {properties : List (Members → Bool)} (hun : p.unread? s = none)
    (hc : Gives (p.compile s e) (.ofConditions (p.conditions s conditions)))
    (hd : List.Forall₂ (Condition.Decides (m.rows key)) conditions properties) :
    m.select s e p key = .ok (.ok ((m.rows key).filter
      (Json.isObjectWith fun row => p.rawHolds s row && properties.all (· row)))) := by
  obtain ⟨ofRaw, hraw, hall⟩ := raw_decides (m.rows key) hun
  have hboth : ∀ row : Members, (ofRaw ++ properties).all (· row) =
      (p.rawHolds s row && properties.all (· row)) := by
    intro row
    rw [List.all_append, hall]
  rw [Memory.select_of_decides hc (List.rel_append hraw hd)]
  simp only [hboth]

/-- Conditions that come to the groups of a filter select from a table what the filter means. -/
theorem select_conditions {key : TableKey} {m : Memory} {gs : List Group}
    {conditions : List Condition} (hgs : Gives (p.groups s e) gs)
    (hc : Gives (p.compile s e) (.ofConditions (p.conditions s conditions)))
    (hd : List.Forall₂ (fun g c => c.Decides (m.rows key) g.holds) gs conditions) :
    m.select s e p key = .ok (p.selection s e (m.rows key)) := by
  unfold selection
  cases hun : p.unread? s with
  | some x => exact select_unread hun hc
  | none =>
    have hgroups : ∀ row : Members, (gs.map Group.holds).all (· row) =
        (p.plain s).all (parameterHolds e row) := by
      intro row
      rw [← all_groups hgs, List.all_map]
      rfl
    rw [select_read hun hc (List.forall₂_map_right_iff.2 hd.flip)]
    simp only [hgroups, selects]

/-- Under the client filter the groups of a filter select what it means. -/
theorem select_clientFilter {key : TableKey} {m : Memory} {gs : List Group}
    (hover : s.overflow = .clientFilter) (hgs : Gives (p.groups s e) gs)
    (hcell : p.QuietCells s e (m.rows key)) :
    m.select s e p key = .ok (p.selection s e (m.rows key)) := by
  have hc : Gives (p.compile s e)
      (.ofConditions (p.conditions s (gs.map (Group.assign s.limit)))) := by
    rw [compile_clientFilter hover]
    exact gives_bind.2 ⟨gs, hgs, gives_pure.2 rfl⟩
  refine select_conditions hgs hc ?_
  rw [List.forall₂_map_right_iff, List.forall₂_same]
  exact fun g hg => Group.assign_decides _ (quiet_groups hgs hcell g hg)

end Params

end LedgerFront
