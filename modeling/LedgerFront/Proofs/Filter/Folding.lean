import LedgerFront.Proofs.Filter.ClientFilter
import LedgerFront.Proofs.Filter.Faithful

/-!
# What a filter selects under folding

Under folding a group over the limit is checked by the terms that its expression is
read as. Where one of the expressions is not understood, the whole filter is refused.

* `Params.FoldsTo`: the groups of a filter after folding, all of them understood.
* `Params.select_foldsTo`, `Params.select_not_foldsTo`: what is selected, and when nothing is.
* `Service.sameFetch_iff`: when folding and checking the rows come to the same.
-/

namespace LedgerFront

open Compiling

/-- The settings with another strategy for long lists of alternatives. -/
def CompilerSettings.withOverflow (s : CompilerSettings) (o : Overflow) : CompilerSettings :=
  { s with overflow := o }

/-- The service with another strategy for long lists of alternatives. -/
def Service.withOverflow (svc : Service) (o : Overflow) : Service :=
  { svc with compiler := svc.compiler.withOverflow o }

/-- What is checked of a group under folding: within the limit the group, over it the terms of its
expression, if this is understood. -/
def Group.folded? (limit : Nat) (g : Group) : Option (Members → Bool) :=
  if g.values.length ≤ limit then some g.holds
  else
    match Where.fold g.column.name g.column.valueType g.values with
    | .ok x => (Where.parse? x).map fun terms row => terms.any (·.holds row)
    | .error _ => none

/-- The condition of a group under folding: within the limit the match, over it the expression. -/
theorem condition_serverFold {s : CompilerSettings} (hover : s.overflow = .serverFold) {g : Group}
    {c : Condition} (h : g.column.condition s g.values = .ok c) :
    (g.values.length ≤ s.limit ∧ c = .server g.remote) ∨
      (s.limit < g.values.length ∧ ∃ x,
        Where.fold g.column.name g.column.valueType g.values = .ok x ∧ c = .server (.raw x)) := by
  obtain hle | hlt := le_or_gt g.values.length s.limit
  · rw [Group.condition_within hle] at h
    exact .inl ⟨hle, (Except.ok.inj h).symm⟩
  · rw [Group.condition_over hlt, hover] at h
    cases hf : Where.fold g.column.name g.column.valueType g.values with
    | error v => simp [hf] at h
    | ok x =>
      simp only [hf, Except.ok.injEq] at h
      exact .inr ⟨hlt, x, rfl, h.symm⟩

/-- A folded group decides what it was folded into, or its expression is not understood. -/
theorem Group.folded_decides {s : CompilerSettings} (hover : s.overflow = .serverFold) {g : Group}
    {c : Condition} (h : g.column.condition s g.values = .ok c) {rows : List Json}
    (hq : ∀ row, Json.obj row ∈ rows → g.Quiet row) :
    (∃ f, g.folded? s.limit = some f ∧ c.Decides rows f) ∨
      (g.folded? s.limit = none ∧ ∃ x, c = .server (.raw x) ∧ Where.parse? x = none) := by
  unfold folded?
  obtain ⟨hle, rfl⟩ | ⟨hlt, x, hx, rfl⟩ := condition_serverFold hover h
  · rw [if_pos hle]
    exact .inl ⟨_, rfl, remote_decides hq⟩
  · rw [if_neg (by omega)]
    simp only [hx]
    cases hp : Where.parse? x with
    | none => exact .inr ⟨rfl, x, rfl, hp⟩
    | some terms => exact .inl ⟨_, rfl, .of_parse? hp rows⟩

theorem Memory.mapM_test_unread {l : List Predicate} {x : String} (hx : Predicate.raw x ∈ l)
    (hp : Where.parse? x = none) : ∃ f, l.mapM Memory.test = .error f := by
  induction l with
  | nil => simp at hx
  | cons q l ih =>
    rw [List.mapM_cons]
    cases hq : Memory.test q with
    | error f => exact ⟨f, rfl⟩
    | ok t =>
      obtain rfl | hx := List.mem_cons.1 hx
      · simp [Memory.test, hp] at hq
      · obtain ⟨f, hf⟩ := ih hx
        exact ⟨f, by rw [hf]; rfl⟩

namespace Params

variable {p : Params} {s : CompilerSettings} {e : Entity} {rows : List Json} {key : TableKey}
  {m : Memory} {q : CompiledQuery} {f : Members → Bool}

/-- The filter compiles under a strategy. -/
def Compiles (p : Params) (s : CompilerSettings) (e : Entity) (o : Overflow) : Prop :=
  ∃ q, Gives (p.compile (s.withOverflow o) e) q

/-- The cells that the filter looks up are empty or have the form of the column's type. -/
def FitsRows (p : Params) (s : CompilerSettings) (e : Entity) (rows : List Json) : Prop :=
  ∀ row, Json.obj row ∈ rows → ∀ kv ∈ p.plain s, ∀ c, e.resolve? kv.1 = some c →
    ∀ v, Row.column? c.name row = some v → c.valueType.Fits v

theorem FitsRows.quietCells (h : p.FitsRows s e rows) : p.QuietCells s e rows :=
  fun row hrow kv hkv c hr v hv => (h row hrow kv hkv c hr v hv).not_escapes

theorem FitsRows.row {row : Members} (h : p.FitsRows s e rows) (hrow : Json.obj row ∈ rows) :
    p.FitsRows s e [.obj row] := by
  intro row' hrow'
  obtain rfl : row' = row := by simpa using hrow'
  exact h row' hrow

theorem FitsRows.group {gs : List Group} (h : p.FitsRows s e rows) (hgs : Gives (p.groups s e) gs) :
    ∀ g ∈ gs, ∀ row, Json.obj row ∈ rows → g.FitsRow row := by
  intro g hg row hrow v hv
  obtain ⟨kv, hkv, hgive⟩ := exists_of_forall₂ (mapM_gives.1 hgs) hg
  exact h row hrow kv hkv g.column (parameterGroup_gives.1 hgive).1 v hv

/-- All groups of the filter are understood after folding, and come to this together. -/
def FoldsTo (p : Params) (s : CompilerSettings) (e : Entity) (f : Members → Bool) : Prop :=
  ∃ gs fs, Gives (p.groups s e) gs ∧ List.Forall₂ (fun g f => g.folded? s.limit = some f) gs fs ∧
    f = fun row => fs.all (· row)

/-- Understood expressions select the objects on which they hold. -/
theorem select_foldsTo (hover : s.overflow = .serverFold) (hq : Gives (p.compile s e) q)
    (hun : p.unread? s = none) (hcell : p.QuietCells s e (m.rows key)) (hf : p.FoldsTo s e f) :
    m.select s e p key = .ok (.ok ((m.rows key).filter
      (Json.isObjectWith fun row => p.rawHolds s row && f row))) := by
  obtain ⟨gs, conditions, hgs, hconditions, rfl⟩ := compile_gives_groups.1 hq
  obtain ⟨gs', fs, hgs', hfs, rfl⟩ := hf
  obtain rfl := gives_unique hgs hgs'
  -- each condition decides what its group is folded into
  refine select_read hun hq ?_
  have hquiet := quiet_groups hgs hcell
  clear hq hgs hgs' hcell
  induction hconditions generalizing fs with
  | nil =>
    cases hfs
    exact .nil
  | @cons g c gs conditions hc _ ih =>
    obtain _ | ⟨hf, hfs⟩ := hfs
    refine .cons ?_ (ih _ hfs fun g hg => hquiet g (by simp [hg]))
    obtain ⟨f, hf', hdecides⟩ | ⟨hnone, _⟩ := Group.folded_decides hover hc (hquiet g (by simp))
    · obtain rfl := Option.some.inj (hf.symm.trans hf')
      exact hdecides
    · exact absurd (hf.symm.trans hnone) (by simp)

/-- An expression that is not understood refuses the whole filter. -/
theorem select_not_foldsTo (hover : s.overflow = .serverFold) (hq : Gives (p.compile s e) q)
    (hcell : p.QuietCells s e (m.rows key)) (hno : ∀ f, ¬ p.FoldsTo s e f) :
    ∃ failure, m.select s e p key = .ok (.error failure) := by
  obtain ⟨gs, conditions, hgs, hconditions, rfl⟩ := compile_gives_groups.1 hq
  have hquiet := quiet_groups hgs hcell
  -- either all groups are understood, or one of the conditions is not
  have hcases : (∃ fs, List.Forall₂ (fun g f => g.folded? s.limit = some f) gs fs) ∨
      ∃ x, .server (.raw x) ∈ conditions ∧ Where.parse? x = none := by
    clear hq hgs
    induction hconditions with
    | nil => exact .inl ⟨[], .nil⟩
    | @cons g c gs conditions hc _ ih =>
      obtain ⟨f, hf, _⟩ | ⟨_, x, rfl, hx⟩ := Group.folded_decides hover hc (hquiet g (by simp))
      · obtain ⟨fs, hfs⟩ | ⟨x, hmem, hx⟩ := ih fun g hg => hquiet g (by simp [hg])
        · exact .inl ⟨f :: fs, .cons hf hfs⟩
        · exact .inr ⟨x, by simp [hmem], hx⟩
      · exact .inr ⟨x, by simp, hx⟩
  obtain ⟨fs, hfs⟩ | ⟨x, hmem, hx⟩ := hcases
  · exact absurd ⟨gs, fs, hgs, hfs, rfl⟩ (hno _)
  · have hin : Predicate.raw x ∈ (CompiledQuery.ofConditions (p.conditions s conditions)).server := by
      rw [ofConditions_conditions, List.mem_append, List.mem_filterMap]
      exact .inr ⟨_, hmem, rfl⟩
    obtain ⟨f, hf⟩ := Memory.mapM_test_unread hin hx
    exact ⟨_, Memory.select_unread hq hf⟩

end Params

/-- A memory with one table and a session that is logged in. -/
def Memory.ofTable (key : TableKey) (rows : List Json) : Memory :=
  { Memory.empty with tables := [(key, rows)], sessions := [true] }

theorem Memory.rows_ofTable (key : TableKey) (rows : List Json) :
    (Memory.ofTable key rows).rows key = rows := by
  simp [Memory.ofTable, Memory.rows, Memory.table?]

theorem Json.filter_isObjectWith_singleton {f g : Members → Bool} {row : Members}
    (h : [Json.obj row].filter (Json.isObjectWith f) = [Json.obj row].filter (Json.isObjectWith g)) :
    f row = g row := by
  have hlength := congrArg List.length h
  simp only [List.filter_singleton, Json.isObjectWith] at hlength
  cases hf : f row <;> cases hg : g row <;> simp [hf, hg] at hlength ⊢

namespace Service

variable {svc : Service} {e : Entity} {p : Params}

/-- In every session that is logged in, a filter fetches the same under folding and under the client
filter from a table with cells of the right types. -/
def SameFetch (svc : Service) (e : Entity) (p : Params) : Prop :=
  ∀ (session : Nat) (m : Memory) (company : Int), m.isLoggedIn session →
    p.FitsRows svc.compiler e (m.rows (.of company e.name)) →
      ((svc.withOverflow .serverFold).fetch company e p).run.run Memory.remote session m =
        ((svc.withOverflow .clientFilter).fetch company e p).run.run Memory.remote session m

theorem SameFetch.select (h : svc.SameFetch e p) {rows : List Json}
    (hfit : p.FitsRows svc.compiler e rows) :
    let m := Memory.ofTable (.of 0 e.name) rows
    m.select (svc.compiler.withOverflow .serverFold) e p (.of 0 e.name) =
      m.select (svc.compiler.withOverflow .clientFilter) e p (.of 0 e.name) := by
  intro m
  have hrows : m.rows (.of 0 e.name) = rows := Memory.rows_ofTable ..
  have hrun := h 0 m 0 rfl (hrows.symm ▸ hfit)
  rw [fetch_run _ rfl, fetch_run _ rfl] at hrun
  exact (map_inj_right (m := Run) fun h => (Prod.mk.inj h).1).1 hrun

section

variable {q q' : CompiledQuery} {m : Memory} {key : TableKey} {f : Members → Bool}
  (hq : Gives (p.compile (svc.compiler.withOverflow .serverFold) e) q)
  (hq' : Gives (p.compile (svc.compiler.withOverflow .clientFilter) e) q')

include hq in
theorem select_folded (hun : p.unread? svc.compiler = none)
    (hfit : p.FitsRows svc.compiler e (m.rows key)) (hf : p.FoldsTo svc.compiler e f) :
    m.select (svc.compiler.withOverflow .serverFold) e p key = .ok (.ok ((m.rows key).filter
      (Json.isObjectWith fun row => p.rawHolds svc.compiler row && f row))) :=
  Params.select_foldsTo (s := svc.compiler.withOverflow .serverFold) rfl hq hun hfit.quietCells hf

include hq' in
theorem select_checked (hun : p.unread? svc.compiler = none)
    (hfit : p.FitsRows svc.compiler e (m.rows key)) :
    m.select (svc.compiler.withOverflow .clientFilter) e p key =
      .ok (.ok ((m.rows key).filter (p.selects svc.compiler e))) := by
  obtain ⟨gs, _, hgs, _⟩ := Params.compile_gives_groups.1 hq'
  have h : m.select (svc.compiler.withOverflow .clientFilter) e p key =
      .ok (p.selection svc.compiler e (m.rows key)) :=
    Params.select_clientFilter rfl hgs hfit.quietCells
  rw [h, Params.selection, hun]

include hq hq'

theorem sameFetch_of_unread {x : String} (hun : p.unread? svc.compiler = some x) :
    svc.SameFetch e p := by
  intro session m company hlog _
  have hfolded : m.select (svc.compiler.withOverflow .serverFold) e p (.of company e.name) = _ :=
    Params.select_unread hun hq
  have hchecked : m.select (svc.compiler.withOverflow .clientFilter) e p (.of company e.name) = _ :=
    Params.select_unread hun hq'
  rw [fetch_run _ hlog, fetch_run _ hlog]
  exact congrArg _ (hfolded.trans hchecked.symm)

theorem sameFetch_of_foldsTo (hun : p.unread? svc.compiler = none) (hf : p.FoldsTo svc.compiler e f)
    (h : ∀ row, p.FitsRows svc.compiler e [.obj row] → p.rawHolds svc.compiler row →
      f row = (p.plain svc.compiler).all (Params.parameterHolds e row)) : svc.SameFetch e p := by
  intro session m company hlog hfit
  have hrows : (m.rows (.of company e.name)).filter
      (Json.isObjectWith fun row => p.rawHolds svc.compiler row && f row) =
        (m.rows (.of company e.name)).filter (p.selects svc.compiler e) := by
    refine List.filter_congr fun row hin => ?_
    cases row with
    | obj row =>
      cases hraw : p.rawHolds svc.compiler row with
      | false => simp [Json.isObjectWith, Params.selects, hraw]
      | true => simp [Json.isObjectWith, Params.selects, hraw, h row (hfit.row hin) hraw]
    | null | bool _ | num _ | str _ | arr _ => rfl
  have hfolded := select_folded hq hun hfit hf
  rw [hrows, ← select_checked hq' hun hfit] at hfolded
  rw [fetch_run _ hlog, fetch_run _ hlog]
  exact congrArg _ hfolded

/-- What the same rows of every table say about the folded expressions. -/
theorem SameFetch.foldsTo (h : svc.SameFetch e p) (hun : p.unread? svc.compiler = none) :
    ∃ f, p.FoldsTo svc.compiler e f ∧ ∀ row, p.FitsRows svc.compiler e [.obj row] →
      p.rawHolds svc.compiler row → f row = (p.plain svc.compiler).all (Params.parameterHolds e row) := by
  have hrows := Memory.rows_ofTable (.of 0 e.name)
  by_cases hf : ∃ f, p.FoldsTo svc.compiler e f
  · obtain ⟨f, hf⟩ := hf
    refine ⟨f, hf, fun row hfit hraw => ?_⟩
    have hfits := (hrows [.obj row]).symm ▸ hfit
    have hsame := (select_folded hq hun hfits hf).symm.trans
      ((h.select hfit).trans (select_checked hq' hun hfits))
    rw [hrows] at hsame
    have hrow := Json.filter_isObjectWith_singleton (Except.ok.inj (Except.ok.inj hsame))
    simpa [hraw] using hrow
  · -- an expression that is not understood shows on the empty table
    exfalso
    have hfit : p.FitsRows svc.compiler e [] := fun _ hrow => by simp at hrow
    have hfits := (hrows []).symm ▸ hfit
    obtain ⟨failure, hfailure⟩ := Params.select_not_foldsTo
      (s := svc.compiler.withOverflow .serverFold) rfl hq hfits.quietCells (not_exists.1 hf)
    have hsame := hfailure.symm.trans ((h.select hfit).trans (select_checked hq' hun hfits))
    simp at hsame

end

/-- **The same rows.** A filter fetches the same under both strategies exactly when its raw expression
is refused, or its folded expressions are understood and come to what its parameters mean on every row
of the right types on which the raw expression holds. -/
theorem sameFetch_iff (hfold : p.Compiles svc.compiler e .serverFold)
    (hclient : p.Compiles svc.compiler e .clientFilter) :
    svc.SameFetch e p ↔ (p.unread? svc.compiler).isSome ∨ ∃ f, p.FoldsTo svc.compiler e f ∧
      ∀ row, p.FitsRows svc.compiler e [.obj row] → p.rawHolds svc.compiler row →
        f row = (p.plain svc.compiler).all (Params.parameterHolds e row) := by
  obtain ⟨q, hq⟩ := hfold
  obtain ⟨q', hq'⟩ := hclient
  cases hun : p.unread? svc.compiler with
  | some x => simpa using sameFetch_of_unread hq hq' hun
  | none =>
    simp only [Option.isSome_none, Bool.false_eq_true, false_or]
    constructor
    · exact fun h => h.foldsTo hq hq' hun
    · rintro ⟨f, hf, h⟩
      exact sameFetch_of_foldsTo hq hq' hun hf h

end Service

end LedgerFront
