import LedgerFront.Proofs.Filter.ClientFilter
import LedgerFront.Proofs.Where.Fold

/-!
# The verdict on a filter

Compiling goes through the parameters in their order and ends at the first that
cannot be used. Here is said without the compilation what a parameter must be: the
column is known, the value lists literals and each has a normal form, and the
settings take so many of them. A filter of such parameters becomes one predicate
for each, on one side or the other.

* `Lists`: the literals in a value.
* `Group.IsOf`, `Group.Allowed`: the group of a parameter, and what the settings ask of it.
* `Group.predicate`, `RowPredicate.Checks`: what becomes of a group.
* `Objection`: what is wrong with a parameter, and the error that says so.
* `Params.compile_verdict`: when a filter compiles, to what, and how else it is refused.
-/

namespace LedgerFront

open Compiling

/-- The literals in a value: its pieces between ` OR `, without the empty ones. -/
def Lists (value : String) (xs : List String) : Prop :=
  ∃ pieces, Text.Cuts (· = " OR ".toList) value.toList pieces ∧
    xs = (pieces.filter (· ≠ [])).map String.ofList

theorem lists_iff {value : String} {xs : List String} : Lists value xs ↔ xs = literals value := by
  have hcut : ∀ pieces, Text.Cuts (· = " OR ".toList) value.toList pieces ↔
      pieces = Text.cutAt (· == ·) " OR ".toList value.toList := by
    intro pieces
    exact Text.cuts_iff (by decide) fun m => Text.matches_beq_iff.symm
  have hempty : ∀ piece : List Char, (!(String.ofList piece).isEmpty) = decide (piece ≠ []) := by
    intro piece
    cases h : (String.ofList piece).isEmpty <;> simp_all [String.isEmpty_iff]
  unfold Lists literals Text.pieces
  simp only [hcut, exists_eq_left, List.filter_map, Function.comp_def, hempty]

/-- Literals that neither hold the separator nor end in a character of it, joined by it. -/
theorem lists_intercalate {xs : List String} (hne : xs ≠ []) (h : ∀ x ∈ xs,
    ¬ Text.Occurs (· == ·) " OR ".toList x.toList ∧
      ∃ a e, x.toList = a ++ [e] ∧ Text.Inert (· == ·) " OR ".toList e) :
    Lists (" OR ".intercalate xs) xs := by
  have hsep : " OR ".toList ≠ [] := by decide
  have hparts : ∀ l ∈ xs.map String.toList,
      ∃ a e, l = a ++ [e] ∧ Text.Inert (· == ·) " OR ".toList e := by
    simpa using fun x hx => (h x hx).2
  have hwhole : (xs.map String.toList).flatMap (Text.cutAt (· == ·) " OR ".toList) =
      xs.map String.toList := by
    rw [List.flatMap_map, List.flatMap_congr fun x hx => Text.cutAt_of_not_occurs hsep (h x hx).1,
      ← List.map_eq_flatMap]
  have hkept : xs.filter (!·.isEmpty) = xs := by
    refine List.filter_eq_self.2 fun x hx => ?_
    obtain ⟨-, a, e, hend, -⟩ := h x hx
    have hfull : x ≠ "" := by
      rintro rfl
      simp at hend
    simpa using hfull
  rw [lists_iff, literals, Text.pieces, String.toList_intercalate,
    Text.cutAt_intercalate hsep (Text.matches_beq_iff.2 rfl) (by simpa using hne) hparts, hwhole,
    List.map_map, show String.ofList ∘ String.toList = id from funext fun x => String.ofList_toList,
    List.map_id, hkept]

/-- The types whose literals stand between quotes in an expression. -/
def quotedTypes : List ValueType := [.string, .enum, .date, .dateTime]

theorem mem_quotedTypes {t : ValueType} : t ∈ quotedTypes ↔ t.isBare = false := by
  cases t <;> decide

namespace Group

/-- The group that a parameter stands for: its column, and the normal form of each literal. -/
structure IsOf (e : Entity) (kv : String × String) (g : Group) : Prop where
  column : e.resolve? kv.1 = some g.column
  values : ∃ xs, Lists kv.2 xs ∧
    List.Forall₂ (fun x v => g.column.valueType.normalize x = .ok (some v)) xs g.values
  nonempty : g.values ≠ []

theorem gives_iff_isOf {e : Entity} {kv : String × String} {g : Group} :
    Gives (parameterGroup e kv.1 kv.2) g ↔ g.IsOf e kv := by
  rw [parameterGroup_gives, alternatives_gives]
  constructor
  · rintro ⟨hr, hvs, hne⟩
    exact ⟨hr, ⟨_, lists_iff.2 rfl, hvs⟩, hne⟩
  · rintro ⟨hr, ⟨xs, hxs, hvs⟩, hne⟩
    rw [lists_iff.1 hxs] at hvs
    exact ⟨hr, hvs, hne⟩

theorem IsOf.unique {e : Entity} {kv : String × String} {g g' : Group} (h : g.IsOf e kv)
    (h' : g'.IsOf e kv) : g = g' := gives_unique (gives_iff_isOf.2 h) (gives_iff_isOf.2 h')

/-- The alternative can stand in an expression: between quotes there is no quote. -/
def CanStand (g : Group) (v : String) : Prop := g.column.valueType ∈ quotedTypes → '\'' ∉ v.toList

theorem canStand_iff {g : Group} {v : String} : g.CanStand v ↔ Where.Embeds g.column.valueType v := by
  unfold CanStand Where.Embeds
  rw [mem_quotedTypes]

/-- The settings take the group: one over the limit must not be refused, and where it is folded each
alternative can stand in an expression. -/
def Allowed (overflow : Overflow) (limit : Nat) (g : Group) : Prop :=
  limit < g.values.length → overflow ≠ .reject ∧
    (overflow = .serverFold → ∀ v ∈ g.values, g.CanStand v)

/-- The group is checked on the returned rows. -/
def isChecked (overflow : Overflow) (limit : Nat) (g : Group) : Bool :=
  overflow == .clientFilter && limit < g.values.length

/-- The literal of an alternative as an expression has it. -/
def literal (g : Group) (v : String) : String :=
  if g.column.valueType ∈ quotedTypes then "'" ++ v ++ "'" else v

/-- The alternatives as a raw expression. -/
def expression (g : Group) : String :=
  " or ".intercalate (g.values.map fun v => g.column.name ++ " = " ++ g.literal v)

/-- What the remote side is asked for a group that it checks. -/
def predicate (limit : Nat) (g : Group) : Predicate :=
  if g.values.length ≤ limit then g.remote else .raw g.expression

/-- What becomes of an allowed group. -/
def become (overflow : Overflow) (limit : Nat) (g : Group) : Condition :=
  if g.isChecked overflow limit then .row g.onRows else .server (g.predicate limit)

variable {overflow : Overflow} {limit : Nat} {g : Group}

theorem become_checked (h : g.isChecked overflow limit = true) :
    g.become overflow limit = .row g.onRows := if_pos h

theorem become_remote (h : g.isChecked overflow limit = false) :
    g.become overflow limit = .server (g.predicate limit) := if_neg (by simp [h])

theorem toList_literal (g : Group) (v : String) :
    (g.literal v).toList = Where.literalChars g.column.valueType v.toList := by
  unfold literal Where.literalChars
  simp only [mem_quotedTypes]
  cases g.column.valueType.isBare <;> simp

theorem fold_eq_expression {x : String} :
    Where.fold g.column.name g.column.valueType g.values = .ok x ↔
      (∀ v ∈ g.values, g.CanStand v) ∧ x = g.expression := by
  have hchars : g.expression.toList = Where.separator.intercalate (g.values.map fun v =>
      Where.partChars g.column.name.toList g.column.valueType v.toList) := by
    unfold expression
    rw [String.toList_intercalate, List.map_map]
    congr 1
    refine List.map_congr_left fun v _ => ?_
    simp [toList_literal, Where.partChars]
  simp only [canStand_iff]
  rw [Where.fold_eq_ok, ← hchars, String.toList_inj]

/-- Folding is refused for the first alternative that cannot stand in the expression. -/
theorem fold_refused {v : String} : Where.fold g.column.name g.column.valueType g.values = .error v ↔
    ∃ before after, g.values = before ++ v :: after ∧
      (∀ w ∈ before, g.CanStand w) ∧ ¬ g.CanStand v := by
  simp only [canStand_iff]
  exact Where.fold_eq_error

/-- What is wrong with a group that the settings do not take. -/
inductive Objection (overflow : Overflow) (limit : Nat) (g : Group) : FilterError → Prop where
  | tooMany (hlt : limit < g.values.length) (hover : overflow = .reject) :
    Objection overflow limit g (.tooManyAlternatives g.column.name g.values.length limit)
  | quoted {before after : List String} {v : String} (hlt : limit < g.values.length)
    (hover : overflow = .serverFold) (hvs : g.values = before ++ v :: after)
    (hbefore : ∀ w ∈ before, g.CanStand w) (hv : ¬ g.CanStand v) :
    Objection overflow limit g (.unsafeValue g.column.name v)

variable {s : CompilerSettings}

theorem condition_gives {c : Condition} : g.column.condition s g.values = .ok c ↔
    g.Allowed s.overflow s.limit ∧ c = g.become s.overflow s.limit := by
  unfold Allowed become isChecked predicate
  obtain hle | hlt := le_or_gt g.values.length s.limit
  · rw [condition_within hle]
    simp [hle, Nat.not_lt.2 hle, eq_comm]
  · rw [condition_over hlt]
    cases s.overflow with
    | reject => simp [hlt]
    | clientFilter => simp [hlt, eq_comm]
    | serverFold =>
      cases hf : Where.fold g.column.name g.column.valueType g.values with
      | ok x =>
        obtain ⟨he, rfl⟩ := fold_eq_expression.1 hf
        constructor
        · intro h
          obtain rfl := Except.ok.inj h
          exact ⟨fun _ => ⟨by simp, fun _ => he⟩, by simp [Nat.not_le.2 hlt]⟩
        · rintro ⟨_, rfl⟩
          simp [Nat.not_le.2 hlt]
      | error v =>
        obtain ⟨before, after, hvs, _, hv⟩ := fold_refused.1 hf
        have hbad : ¬ ∀ w ∈ g.values, g.CanStand w := fun he => hv (he v (by simp [hvs]))
        simp [hlt, hbad]

theorem condition_refused {f : FilterError} :
    g.column.condition s g.values = .error f ↔ g.Objection s.overflow s.limit f := by
  constructor
  · intro h
    obtain hle | hlt := le_or_gt g.values.length s.limit
    · simp [condition_within hle] at h
    · rw [condition_over hlt] at h
      cases hover : s.overflow with
      | reject =>
        obtain rfl : _ = f := by simpa [hover] using h
        exact .tooMany hlt rfl
      | clientFilter => simp [hover] at h
      | serverFold =>
        cases hf : Where.fold g.column.name g.column.valueType g.values with
        | ok x => simp [hover, hf] at h
        | error v =>
          obtain rfl : _ = f := by simpa [hover, hf] using h
          obtain ⟨before, after, hvs, hbefore, hv⟩ := fold_refused.1 hf
          exact .quoted hlt rfl hvs hbefore hv
  · rintro (⟨hlt, hover⟩ | ⟨hlt, hover, hvs, hbefore, hv⟩)
    · rw [condition_over hlt, hover]
    · rw [condition_over hlt, hover, fold_refused.2 ⟨_, _, hvs, hbefore, hv⟩]

end Group

/-- What is wrong with a parameter: its column, one of its literals, or its group. -/
inductive Objection (overflow : Overflow) (limit : Nat) (e : Entity) (kv : String × String) :
    FilterError → Prop where
  | unknown (hr : e.resolve? kv.1 = none) :
    Objection overflow limit e kv (.unknownProperty e.name kv.1)
  | empty {c : Column} (hr : e.resolve? kv.1 = some c) (hx : Lists kv.2 []) :
    Objection overflow limit e kv (.emptyValue c.name)
  | invalid {c : Column} {before after : List String} {x : String} (hr : e.resolve? kv.1 = some c)
    (hx : Lists kv.2 (before ++ x :: after))
    (hbefore : ∀ y ∈ before, ∃ v, c.valueType.normalize y = .ok (some v))
    (hn : c.valueType.normalize x = .ok none) :
    Objection overflow limit e kv (.invalidValue c.name c.valueType x)
  | group {g : Group} {f : FilterError} (hg : g.IsOf e kv) (hf : g.Objection overflow limit f) :
    Objection overflow limit e kv f

theorem alternative_refuses {c : Column} {x : String} {f : FilterError} :
    Refuses (alternative c x) f ↔
      c.valueType.normalize x = .ok none ∧ f = .invalidValue c.name c.valueType x := by
  unfold Refuses
  rw [alternative_run]
  rcases c.valueType.normalize x with why | _ | w <;> simp [Except.map, eq_comm]

theorem alternatives_refuses {c : Column} {value : String} {f : FilterError} :
    Refuses (alternatives c value) f ↔ (Lists value [] ∧ f = .emptyValue c.name) ∨
      ∃ before x after, Lists value (before ++ x :: after) ∧
        (∀ y ∈ before, ∃ v, c.valueType.normalize y = .ok (some v)) ∧
          c.valueType.normalize x = .ok none ∧ f = .invalidValue c.name c.valueType x := by
  unfold alternatives
  simp only [refuses_bind, mapM_refuses, mapM_gives, alternative_gives, alternative_refuses, lists_iff,
    eq_comm (b := literals value)]
  rw [or_comm]
  refine or_congr_left ?_
  -- the check for an empty list comes after all literals have gone through
  constructor
  · rintro ⟨vs, hvs, h⟩
    cases vs with
    | nil => exact ⟨List.forall₂_nil_right_iff.1 hvs, (refuses_throw.1 h).symm⟩
    | cons => exact absurd h not_refuses_pure
  · rintro ⟨hx, rfl⟩
    rw [hx]
    exact ⟨[], .nil, refuses_throw.2 rfl⟩

variable {s : CompilerSettings} {e : Entity}

theorem parameterGroup_refuses {kv : String × String} {f : FilterError} :
    Refuses (parameterGroup e kv.1 kv.2) f ↔
      (e.resolve? kv.1 = none ∧ f = .unknownProperty e.name kv.1) ∨
        ∃ c, e.resolve? kv.1 = some c ∧ Refuses (alternatives c kv.2) f := by
  unfold parameterGroup
  cases hr : e.resolve? kv.1 with
  | none => simp [refuses_throw, eq_comm]
  | some c =>
    simp only [refuses_bind, reduceCtorEq, false_and, false_or, Option.some.injEq,
      exists_eq_left']
    refine or_iff_left ?_
    rintro ⟨vs, _, h⟩
    exact absurd h not_refuses_pure

theorem parameterCondition_refuses {kv : String × String} {f : FilterError} :
    Refuses (parameterCondition s e kv.1 kv.2) f ↔ Objection s.overflow s.limit e kv f := by
  rw [parameterCondition_eq, refuses_bind, parameterGroup_refuses]
  constructor
  · rintro ((⟨hr, rfl⟩ | ⟨c, hr, h⟩) | ⟨g, hg, h⟩)
    · exact .unknown hr
    · obtain ⟨hx, rfl⟩ | ⟨before, x, after, hx, hbefore, hn, rfl⟩ := alternatives_refuses.1 h
      · exact .empty hr hx
      · exact .invalid hr hx hbefore hn
    · refine .group (Group.gives_iff_isOf.1 hg) (Group.condition_refused.1 ?_)
      split at h
      · exact absurd h not_refuses_pure
      · rename_i error herror
        rw [herror, refuses_throw.1 h]
  · rintro (hr | ⟨hr, hx⟩ | ⟨hr, hx, hbefore, hn⟩ | ⟨hg, hf⟩)
    · exact .inl (.inl ⟨hr, rfl⟩)
    · exact .inl (.inr ⟨_, hr, alternatives_refuses.2 (.inl ⟨hx, rfl⟩)⟩)
    · exact .inl (.inr ⟨_, hr, alternatives_refuses.2 (.inr ⟨_, _, _, hx, hbefore, hn, rfl⟩)⟩)
    · refine .inr ⟨_, Group.gives_iff_isOf.2 hg, ?_⟩
      rw [Group.condition_refused.2 hf]
      exact refuses_throw.2 rfl

theorem parameterCondition_gives_allowed {kv : String × String} {c : Condition} :
    Gives (parameterCondition s e kv.1 kv.2) c ↔ ∃ g : Group, g.IsOf e kv ∧
      g.Allowed s.overflow s.limit ∧ c = g.become s.overflow s.limit := by
  simp only [parameterCondition_gives_group, Group.gives_iff_isOf, Group.condition_gives]

theorem exists_parameterCondition_gives {kv : String × String} :
    (∃ c, Gives (parameterCondition s e kv.1 kv.2) c) ↔
      ∃ g : Group, g.IsOf e kv ∧ g.Allowed s.overflow s.limit := by
  simp only [parameterCondition_gives_allowed]
  constructor
  · rintro ⟨_, g, hg, hallowed, _⟩
    exact ⟨g, hg, hallowed⟩
  · rintro ⟨g, hg, hallowed⟩
    exact ⟨_, g, hg, hallowed, rfl⟩

/-- The predicate checks the group: its column, and its alternatives in ascending order, each once. -/
structure RowPredicate.Checks (r : RowPredicate) (g : Group) : Prop where
  property : r.property = g.column.publicName
  valueType : r.valueType = g.column.valueType
  ascending : r.values.Pairwise (· < ·)
  mem : ∀ v, v ∈ r.values ↔ v ∈ g.values

theorem RowPredicate.checks_iff {r : RowPredicate} {g : Group} : r.Checks g ↔ r = g.onRows := by
  obtain ⟨property, valueType, values⟩ := r
  simp only [Group.onRows, RowPredicate.mk.injEq, eq_sortedSet_iff]
  constructor
  · rintro ⟨hproperty, htype, hascending, hmem⟩
    exact ⟨hproperty, htype, hascending, hmem⟩
  · rintro ⟨hproperty, htype, hascending, hmem⟩
    exact ⟨hproperty, htype, hascending, hmem⟩

/-- The first value under the raw key, unless it has nothing but blanks. -/
def Params.rawTexts (p : Params) (s : CompilerSettings) : List String :=
  ((p.pairs.find? (·.1 = s.rawKey)).toList.map (·.2)).filter fun x => x.toList.any (!Text.isBlank ·)

theorem Params.toList_rawExpression? (p : Params) (s : CompilerSettings) :
    (p.rawExpression? s).toList = p.rawTexts s := by
  have hget : p.get? s.rawKey = (p.pairs.find? (·.1 = s.rawKey)).map (·.2) := by
    unfold Params.get?
    induction p.pairs with
    | nil => rfl
    | cons kv pairs ih =>
      obtain ⟨key, value⟩ := kv
      by_cases hk : key = s.rawKey
      · simp [hk]
      · have hne : (s.rawKey == key) = false := by simpa using Ne.symm hk
        rw [List.find?_cons_of_neg (by simpa using hk), ← ih, List.lookup_cons, hne]
  unfold rawExpression? rawTexts Text.isBlankText
  rw [hget]
  cases p.pairs.find? (·.1 = s.rawKey) with
  | none => rfl
  | some kv =>
    have hany : kv.2.toList.any (!Text.isBlank ·) = !kv.2.toList.all Text.isBlank := by
      rw [List.all_eq_not_any_not, Bool.not_not]
    cases hblank : kv.2.toList.all Text.isBlank <;> simp [Option.filter, hany, hblank]

/-- The filter is made of the raw expression and of these groups, each of them on the side where it
is checked. -/
structure CompiledQuery.MadeOf (q : CompiledQuery) (s : CompilerSettings) (limit : Nat) (p : Params)
    (gs : List Group) : Prop where
  server : q.server = (p.rawTexts s).map .raw ++
    (gs.filter (!·.isChecked s.overflow limit)).map (·.predicate limit)
  rows : List.Forall₂ RowPredicate.Checks q.rows (gs.filter (·.isChecked s.overflow limit))

section

variable {gs : List Group} {overflow : Overflow} {limit : Nat}

theorem filterMap_server_become :
    (gs.map (·.become overflow limit)).filterMap Condition.server? =
      (gs.filter (!·.isChecked overflow limit)).map (·.predicate limit) := by
  induction gs with
  | nil => rfl
  | cons g gs ih =>
    rw [List.map_cons, List.filterMap_cons, ih]
    cases hg : g.isChecked overflow limit with
    | true => simp [Group.become_checked hg, Condition.server?, hg]
    | false => simp [Group.become_remote hg, Condition.server?, hg]

theorem filterMap_row_become :
    (gs.map (·.become overflow limit)).filterMap Condition.row? =
      (gs.filter (·.isChecked overflow limit)).map Group.onRows := by
  induction gs with
  | nil => rfl
  | cons g gs ih =>
    rw [List.map_cons, List.filterMap_cons, ih]
    cases hg : g.isChecked overflow limit with
    | true => simp [Group.become_checked hg, Condition.row?, hg]
    | false => simp [Group.become_remote hg, Condition.row?, hg]

variable {q : CompiledQuery} {p : Params}

theorem forall₂_checks_iff {rows : List RowPredicate} :
    List.Forall₂ RowPredicate.Checks rows gs ↔ rows = gs.map Group.onRows := by
  have heq : RowPredicate.Checks = fun r g => r = g.onRows := by
    funext r g
    exact propext RowPredicate.checks_iff
  rw [heq, ← List.forall₂_map_right_iff, List.forall₂_eq_eq_eq]

theorem CompiledQuery.madeOf_iff : q.MadeOf s limit p gs ↔
    q = ⟨p.rawPredicates s ++ (gs.map (·.become s.overflow limit)).filterMap Condition.server?,
      (gs.map (·.become s.overflow limit)).filterMap Condition.row?⟩ := by
  rw [filterMap_server_become, filterMap_row_become, Params.rawPredicates_eq,
    Params.toList_rawExpression?]
  constructor
  · rintro ⟨hserver, hrows⟩
    rw [← hserver, ← forall₂_checks_iff.1 hrows]
  · rintro rfl
    exact ⟨rfl, forall₂_checks_iff.2 rfl⟩

/-- A filter compiles to what its groups become, and each of them must be allowed. -/
theorem Params.compile_gives_allowed : Gives (p.compile s e) q ↔ ∃ gs : List Group,
    List.Forall₂ (fun kv g => g.IsOf e kv ∧ g.Allowed s.overflow s.limit) (p.plain s) gs ∧
      q.MadeOf s s.limit p gs := by
  simp only [compile_gives, parameterCondition_gives_allowed, CompiledQuery.madeOf_iff]
  -- a condition for each parameter is a group for each, and what they become
  have hsplit : ∀ (l : List (String × String)) (conditions : List Condition),
      List.Forall₂ (fun kv c => ∃ g : Group, g.IsOf e kv ∧ g.Allowed s.overflow s.limit ∧
        c = g.become s.overflow s.limit) l conditions ↔
      ∃ gs : List Group,
        List.Forall₂ (fun kv g => g.IsOf e kv ∧ g.Allowed s.overflow s.limit) l gs ∧
          conditions = gs.map (·.become s.overflow s.limit) := by
    intro l conditions
    constructor
    · intro h
      induction h with
      | nil => exact ⟨[], .nil, rfl⟩
      | cons hc _ ih =>
        obtain ⟨g, hg, hallowed, rfl⟩ := hc
        obtain ⟨gs, hgs, rfl⟩ := ih
        exact ⟨g :: gs, .cons ⟨hg, hallowed⟩ hgs, rfl⟩
    · rintro ⟨gs, hgs, rfl⟩
      refine List.forall₂_map_right_iff.2 (hgs.imp ?_)
      exact fun kv g hg => ⟨g, hg.1, hg.2, rfl⟩
  simp only [hsplit]
  constructor
  · rintro ⟨_, ⟨gs, hgs, rfl⟩, rfl⟩
    exact ⟨gs, hgs, rfl⟩
  · rintro ⟨gs, hgs, rfl⟩
    exact ⟨_, ⟨gs, hgs, rfl⟩, rfl⟩

/-- A filter is refused with what is wrong with its first unusable parameter. -/
theorem Params.compile_refuses {f : FilterError} : Refuses (p.compile s e) f ↔
    ∃ before kv after, p.plain s = before ++ kv :: after ∧
      (∀ b ∈ before, ∃ g : Group, g.IsOf e b ∧ g.Allowed s.overflow s.limit) ∧
        Objection s.overflow s.limit e kv f := by
  unfold Params.compile
  simp only [refuses_bind, mapM_refuses, parameterCondition_refuses,
    exists_parameterCondition_gives]
  refine or_iff_left ?_
  rintro ⟨_, _, h⟩
  exact absurd h not_refuses_pure

theorem CompiledQuery.MadeOf.length (h : q.MadeOf s limit p gs) :
    q.server.length + q.rows.length = (p.rawTexts s).length + gs.length := by
  have hparts : gs.length = _ :=
    List.length_eq_length_filter_add fun g : Group => g.isChecked s.overflow limit
  rw [h.server, h.rows.length_eq]
  simp only [List.length_append, List.length_map]
  omega

/-- A match is that of a group within the limit. -/
theorem CompiledQuery.MadeOf.mem_server (h : q.MadeOf s limit p gs) {m : PropertyMatch}
    (hm : .oneOf m ∈ q.server) : ∃ g ∈ gs, .oneOf m = g.remote ∧ g.values.length ≤ limit := by
  rw [h.server, List.mem_append] at hm
  obtain hraw | hgroup := hm
  · simp at hraw
  · obtain ⟨g, hg, hbecome⟩ := List.mem_map.1 hgroup
    unfold Group.predicate at hbecome
    split at hbecome
    · rename_i hle
      exact ⟨g, List.mem_of_mem_filter hg, hbecome.symm, hle⟩
    · simp at hbecome

end

/-- **The verdict.** A filter whose literals do not escape the calendar compiles exactly when every
parameter but the raw expression has a group that the settings allow. It becomes the raw expression,
unless that is blank, and one predicate for each parameter in their order, and a match has the normal
forms of its literals, at most as many as the limit. Otherwise it is refused with what is wrong with the
first parameter that has no such group. The limit is that of the settings, moved between 1 and 40. -/
theorem Params.compile_verdict (s : CompilerSettings) (e : Entity) (p : Params)
    (hlit : ∀ kv ∈ p.plain s, ∀ c, e.resolve? kv.1 = some c → ∀ xs, Lists kv.2 xs →
      ∀ x ∈ xs, ¬ c.valueType.Escapes x) :
    let limit := max 1 (min s.orLimit 40)
    ((∃ q, Gives (p.compile s e) q) ↔
      ∀ kv ∈ p.plain s, ∃ g : Group, g.IsOf e kv ∧ g.Allowed s.overflow limit) ∧
    (∀ q, Gives (p.compile s e) q → ∃ gs,
      List.Forall₂ (fun kv g => g.IsOf e kv) (p.plain s) gs ∧ q.MadeOf s limit p gs ∧
      q.server.length + q.rows.length = (p.rawTexts s).length + (p.plain s).length ∧
      ∀ m, .oneOf m ∈ q.server → ∃ g ∈ gs, .oneOf m = g.remote ∧
        1 ≤ m.values.length ∧ m.values.length ≤ limit) ∧
    ((¬ ∃ q, Gives (p.compile s e) q) → ∃ f, Refuses (p.compile s e) f) ∧
    ∀ f, Refuses (p.compile s e) f ↔ ∃ before kv after, p.plain s = before ++ kv :: after ∧
      (∀ b ∈ before, ∃ g : Group, g.IsOf e b ∧ g.Allowed s.overflow limit) ∧
        Objection s.overflow limit e kv f := by
  have hquiet : p.QuietLiterals s e := by
    intro kv hkv c hc
    exact hlit kv hkv c hc _ (lists_iff.2 rfl)
  refine ⟨?_, ?_, ?_, fun f => compile_refuses⟩
  · rw [exists_compile_gives]
    simp only [exists_parameterCondition_gives]
    exact Iff.rfl
  · intro q hq
    obtain ⟨gs, hgs, hmade⟩ := compile_gives_allowed.1 hq
    refine ⟨gs, hgs.imp fun _ _ h => h.1, hmade, by rw [hmade.length, hgs.length_eq], ?_⟩
    intro m hm
    obtain ⟨g, hg, heq, hle⟩ := hmade.mem_server hm
    obtain ⟨kv, _, hof, _⟩ := exists_of_forall₂ hgs hg
    obtain rfl := Predicate.oneOf.inj heq
    exact ⟨g, hg, rfl, List.length_pos_iff.2 hof.nonempty, hle⟩
  · intro hno
    obtain ⟨verdict, hv⟩ := compile_answers hquiet
    cases verdict with
    | error f => exact ⟨f, hv⟩
    | ok q => exact absurd ⟨q, hv⟩ hno

/-- Under a limit of zero, which counts as one, two cities are checked on the rows; a number in words is
refused before another parameter is looked at. A limit of 99 counts as forty. -/
theorem compile_verdict_voucher :
    let e := ((Entity.empty "Debtor").property "City" .string).property "Voucher" .integer
    let s : CompilerSettings := ⟨0, .clientFilter, "query"⟩
    let p (others : List (String × String)) : Params :=
      ⟨("query", " ") :: ("city", "Oslo OR Rome") :: others⟩
    let cities : Params := ⟨[("city", " OR ".intercalate (List.replicate 41 "Oslo"))]⟩
    (∃ q, Gives ((p [("voucher", "+7")]).compile s e) q ∧
      q.server = [.oneOf ⟨"Voucher", .property, .integer, ["7"]⟩] ∧
      q.rows = [⟨"City", .string, ["Oslo", "Rome"]⟩]) ∧
    Refuses ((p [("voucher", "seven"), ("x", "y")]).compile s e)
      (.invalidValue "Voucher" .integer "seven") ∧
    Refuses (cities.compile ⟨99, .reject, "query"⟩ e) (.tooManyAlternatives "City" 41 40) := by
  intro e s p cities
  let city : Column := ⟨"City", .property, .string⟩
  let voucher : Column := ⟨"Voucher", .property, .integer⟩
  have hcity : e.resolve? "city" = some city := by decide +kernel
  have hvoucher : e.resolve? "voucher" = some voucher := by decide +kernel
  have hx : e.resolve? "x" = none := by decide +kernel
  -- neither column has a type that asks for a date
  have hquiet : ∀ kv : String × String, kv.1 ∈ ["city", "voucher", "x"] → ∀ c,
      e.resolve? kv.1 = some c → ∀ xs, Lists kv.2 xs → ∀ x ∈ xs, ¬ c.valueType.Escapes x := by
    rintro ⟨key, value⟩ hkey c hc xs _ x _ ⟨hdate, _⟩
    have hcolumn : c = city ∨ c = voucher := by
      simp only [List.mem_cons, List.not_mem_nil, or_false] at hkey
      obtain rfl | rfl | rfl := hkey
      · exact .inl (Option.some.inj (hc.symm.trans hcity))
      · exact .inr (Option.some.inj (hc.symm.trans hvoucher))
      · simp [hx] at hc
    obtain rfl | rfl := hcolumn <;> simp [city, voucher] at hdate
  have htwo : Group.IsOf e ("city", "Oslo OR Rome") ⟨city, ["Oslo", "Rome"]⟩ := by
    refine ⟨hcity, ⟨["Oslo", "Rome"], lists_iff.2 (by decide +kernel), ?_⟩, by simp⟩
    exact .cons rfl (.cons rfl .nil)
  have htwo_allowed : Group.Allowed .clientFilter (max 1 (min 0 40)) ⟨city, ["Oslo", "Rome"]⟩ :=
    fun _ => ⟨by decide, fun h => absurd h (by decide)⟩
  refine ⟨?_, ?_, ?_⟩
  · have hplain : (p [("voucher", "+7")]).plain s = [("city", "Oslo OR Rome"), ("voucher", "+7")] := by
      decide +kernel
    have hseven : Group.IsOf e ("voucher", "+7") ⟨voucher, ["7"]⟩ := by
      refine ⟨hvoucher, ⟨["+7"], lists_iff.2 (by decide +kernel), ?_⟩, by simp⟩
      exact .cons (by decide +kernel) .nil
    have hverdict := Params.compile_verdict s e (p [("voucher", "+7")]) fun kv hkv => hquiet kv (by
      rw [hplain] at hkv
      aesop)
    obtain ⟨q, hq⟩ := hverdict.1.2 (by
      rw [hplain]
      simpa using ⟨⟨_, htwo, htwo_allowed⟩, ⟨_, hseven, fun h => absurd h (by decide)⟩⟩)
    refine ⟨q, hq, ?_⟩
    obtain ⟨gs, hgs, hmade, -⟩ := hverdict.2.1 q hq
    -- the groups are those two
    rw [hplain] at hgs
    cases hgs with
    | cons h1 hgs =>
      cases hgs with
      | cons h2 hgs =>
        cases hgs
        obtain rfl := h1.unique htwo
        obtain rfl := h2.unique hseven
        have hrows := forall₂_checks_iff.1 hmade.rows
        exact ⟨hmade.server.trans (by decide +kernel), hrows.trans (by decide +kernel)⟩
  · have hplain : (p [("voucher", "seven"), ("x", "y")]).plain s =
        [("city", "Oslo OR Rome"), ("voucher", "seven"), ("x", "y")] := by decide +kernel
    have hverdict := Params.compile_verdict s e (p [("voucher", "seven"), ("x", "y")])
      fun kv hkv => hquiet kv (by
        rw [hplain] at hkv
        aesop)
    have hn : voucher.valueType.normalize "seven" = .ok none := by decide +kernel
    have hwords : Lists "seven" ([] ++ "seven" :: []) := lists_iff.2 (by decide +kernel)
    refine (hverdict.2.2.2 _).2 ⟨[("city", "Oslo OR Rome")], _, [("x", "y")], hplain, ?_, ?_⟩
    · simpa using ⟨_, htwo, htwo_allowed⟩
    · exact .invalid (c := voucher) hvoucher hwords (by simp) hn
  · have hplain : cities.plain ⟨99, .reject, "query"⟩ = cities.pairs := by decide +kernel
    have hverdict := Params.compile_verdict ⟨99, .reject, "query"⟩ e cities fun kv hkv => hquiet kv (by
      rw [hplain] at hkv
      aesop)
    have hlists : Lists (" OR ".intercalate (List.replicate 41 "Oslo")) (List.replicate 41 "Oslo") := by
      refine lists_intercalate (by simp) fun x hx => ?_
      rw [List.eq_of_mem_replicate hx]
      exact ⟨by decide, "Osl".toList, 'o', by decide, by simp [Text.Inert]⟩
    have hmany : Group.IsOf e ("city", " OR ".intercalate (List.replicate 41 "Oslo"))
        ⟨city, List.replicate 41 "Oslo"⟩ := by
      refine ⟨hcity, ⟨List.replicate 41 "Oslo", hlists, ?_⟩, by simp⟩
      exact List.forall₂_same.2 fun x _ => rfl
    refine (hverdict.2.2.2 _).2 ⟨[], _, [], hplain, by simp, .group hmany ?_⟩
    exact .tooMany (by decide) rfl

end LedgerFront
