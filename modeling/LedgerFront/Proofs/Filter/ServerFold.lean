import LedgerFront.Proofs.Filter.Folding

/-!
# Folding against checking the rows

The two strategies for long lists of alternatives fetch the same from tables with
cells of the right types when the groups that are folded are faithful; a group that
is not changes what its parameter selects.

* `Params.Foldable`: no group over the limit is torn apart or blurred by folding.
* `Service.fetch_serverFold`: when the strategies fetch the same.
* `fetch_serverFold_or_in_text`: a group that is torn apart.
-/

namespace LedgerFront

open Compiling

theorem Group.normal_of_gives {e : Entity} {key value : String} {g : Group}
    (h : Gives (parameterGroup e key value) g) : g.Normal := by
  obtain ⟨hforms, hne⟩ := alternatives_gives.1 (parameterGroup_gives.1 h).2
  refine ⟨hne, fun v hv => ?_⟩
  obtain ⟨x, _, hx⟩ := exists_of_forall₂ hforms hv
  exact ValueType.isNormal_of_normalize hx

/-- A faithful group over the limit is folded into something that comes to the same. -/
theorem Group.folded_of_faithful {s : CompilerSettings} (hover : s.overflow = .serverFold) {g : Group}
    {c : Condition} (h : g.column.condition s g.values = .ok c) (hn : g.Normal)
    (hf : s.limit < g.values.length → g.Faithful) :
    ∃ f, g.folded? s.limit = some f ∧ ∀ row, g.FitsRow row → f row = g.holds row := by
  unfold folded?
  obtain ⟨hle, _⟩ | ⟨hlt, x, hx, _⟩ := condition_serverFold hover h
  · rw [if_pos hle]
    exact ⟨_, rfl, fun _ _ => rfl⟩
  · have hf := hf hlt
    rw [if_neg (by omega)]
    simp only [hx, parse?_of_readable hn hf.readable hf.whole hx, Option.map_some]
    exact ⟨_, rfl, fun _ hfit => terms_hold hf hn hfit⟩

namespace Params

variable {p p' : Params} {s : CompilerSettings} {e : Entity}

/-- The groups over the limit are faithful. -/
def Foldable (p : Params) (s : CompilerSettings) (e : Entity) : Prop :=
  ∀ kv ∈ p.plain s, ∀ g, Gives (parameterGroup e kv.1 kv.2) g → s.limit < g.values.length →
    g.Faithful

theorem Foldable.foldsTo (hp : p.Foldable s e) (hover : s.overflow = .serverFold) {q : CompiledQuery}
    (hq : Gives (p.compile s e) q) : ∃ f, p.FoldsTo s e f ∧
      ∀ row, p.FitsRows s e [.obj row] → f row = (p.plain s).all (parameterHolds e row) := by
  obtain ⟨gs, conditions, hgs, hconditions, rfl⟩ := compile_gives_groups.1 hq
  have hmem : ∀ g ∈ gs, ∃ kv ∈ p.plain s, Gives (parameterGroup e kv.1 kv.2) g :=
    fun g hg => exists_of_forall₂ (mapM_gives.1 hgs) hg
  have hfolded : ∃ fs, List.Forall₂ (fun g f => g.folded? s.limit = some f) gs fs ∧
      ∀ row, (∀ g ∈ gs, g.FitsRow row) → (fs.all (· row)) = gs.all (·.holds row) := by
    clear hgs hq
    induction hconditions with
    | nil => exact ⟨[], .nil, fun _ _ => rfl⟩
    | @cons g c gs conditions hc _ ih =>
      obtain ⟨kv, hkv, hgive⟩ := hmem g (by simp)
      obtain ⟨f, hf, hholds⟩ := Group.folded_of_faithful hover hc (Group.normal_of_gives hgive)
        (hp kv hkv g hgive)
      obtain ⟨fs, hfs, hall⟩ := ih fun g hg => hmem g (by simp [hg])
      refine ⟨f :: fs, .cons hf hfs, fun row hfit => ?_⟩
      rw [List.all_cons, List.all_cons, hholds row (hfit g (by simp)),
        hall row fun g hg => hfit g (by simp [hg])]
  obtain ⟨fs, hfs, hall⟩ := hfolded
  refine ⟨_, ⟨gs, fs, hgs, hfs, rfl⟩, fun row hfit => ?_⟩
  rw [← all_groups hgs]
  exact hall row fun g hg => hfit.group hgs g hg row (by simp)

theorem condition_of_compiles {o : Overflow} (hp : p.Compiles s e o) {kv : String × String}
    (hkv : kv ∈ p.plain s) {g : Group} (hgive : Gives (parameterGroup e kv.1 kv.2) g) :
    ∃ c, g.column.condition (s.withOverflow o) g.values = .ok c := by
  obtain ⟨c, hc⟩ := exists_compile_gives.1 hp kv hkv
  obtain ⟨g', hg', hc⟩ := parameterCondition_gives_group.1 hc
  obtain rfl := gives_unique hg' hgive
  exact ⟨c, hc⟩

theorem plain_subset (h : p'.pairs ⊆ p.pairs) : p'.plain s ⊆ p.plain s := by
  intro kv hkv
  obtain ⟨hmem, hkey⟩ := List.mem_filter.1 hkv
  exact List.mem_filter.2 ⟨h hmem, hkey⟩

theorem Compiles.subset {o : Overflow} (hp : p.Compiles s e o) (h : p'.pairs ⊆ p.pairs) :
    p'.Compiles s e o :=
  exists_compile_gives.2 fun kv hkv => exists_compile_gives.1 hp kv (plain_subset h hkv)

theorem Foldable.subset (hp : p.Foldable s e) (h : p'.pairs ⊆ p.pairs) : p'.Foldable s e :=
  fun kv hkv => hp kv (plain_subset h hkv)

section Single

variable {kv : String × String} (hkey : kv.1 ≠ s.rawKey)

include hkey in
theorem plain_single : (⟨[kv]⟩ : Params).plain s = [kv] := by simp [plain, hkey]

include hkey in
theorem rawExpression?_single : (⟨[kv]⟩ : Params).rawExpression? s = none := by
  have hget : (⟨[kv]⟩ : Params).get? s.rawKey = none := by simpa [get?] using hkey.symm
  rw [rawExpression?, hget]
  rfl

theorem fitsRows_single {c : Column} {rows : List Json} (hr : e.resolve? kv.1 = some c)
    (h : ∀ row, Json.obj row ∈ rows → ∀ v, Row.column? c.name row = some v → c.valueType.Fits v) :
    (⟨[kv]⟩ : Params).FitsRows s e rows := by
  intro row hrow kv' hkv' c' hc v hv
  obtain rfl : kv' = kv := by simpa using (List.mem_filter.1 hkv').1
  obtain rfl : c = c' := by simpa [hr] using hc
  exact h row hrow v hv

end Single

end Params

/-- Where a filter of one parameter fetches the same, the expression of its group comes to the same as
the group. -/
theorem Service.SameFetch.agrees {svc : Service} {e : Entity} {kv : String × String} {g : Group}
    {x : String} (hkey : kv.1 ≠ svc.compiler.rawKey) (hgive : Gives (parameterGroup e kv.1 kv.2) g)
    (hlt : svc.compiler.limit < g.values.length)
    (hx : Where.fold g.column.name g.column.valueType g.values = .ok x)
    (hfold : (⟨[kv]⟩ : Params).Compiles svc.compiler e .serverFold)
    (hclient : (⟨[kv]⟩ : Params).Compiles svc.compiler e .clientFilter)
    (h : svc.SameFetch e ⟨[kv]⟩) : g.Agrees x := by
  have hraw := Params.rawExpression?_single hkey
  obtain hun | ⟨f, hf, hall⟩ := (Service.sameFetch_iff hfold hclient).1 h
  · simp [Params.unread?, hraw] at hun
  obtain ⟨gs, fs, hgs, hfs, rfl⟩ := hf
  -- the filter has this group only, and it is over the limit
  unfold Params.groups at hgs
  rw [Params.plain_single hkey, mapM_gives] at hgs
  obtain _ | ⟨hg, hnil⟩ := hgs
  cases hnil
  obtain rfl := gives_unique hgive hg
  obtain _ | ⟨hf, hnil⟩ := hfs
  cases hnil
  unfold Group.folded? at hf
  rw [if_neg (by omega)] at hf
  simp only [hx, Option.map_eq_some_iff] at hf
  obtain ⟨terms, hparse, rfl⟩ := hf
  intro row hfit
  have hfits : (⟨[kv]⟩ : Params).FitsRows svc.compiler e [.obj row] :=
    Params.fitsRows_single (parameterGroup_gives.1 hgive).1 fun row' hrow => by
      obtain rfl : row' = row := by simpa using hrow
      exact hfit
  have hread : (⟨[kv]⟩ : Params).rawHolds svc.compiler row = true := by
    rw [Params.rawHolds, hraw, Option.all_none]
  have hrow := hall row hfits hread
  refine ⟨terms, hparse, ?_⟩
  rw [Group.holds_eq hgive]
  simpa [Params.plain_single hkey] using hrow

/-- **Folding.** A filter that compiles under both strategies fetches the same under both exactly when
its raw expression is refused, or the folded expressions are understood and come to what its parameters
mean. This is so for the filter and every filter made of some of its parameters exactly when its groups
over the limit are faithful. -/
theorem Service.fetch_serverFold (svc : Service) (e : Entity) (p : Params)
    (hfold : p.Compiles svc.compiler e .serverFold)
    (hclient : p.Compiles svc.compiler e .clientFilter) :
    (svc.SameFetch e p ↔ (p.unread? svc.compiler).isSome ∨ ∃ f, p.FoldsTo svc.compiler e f ∧
      ∀ row, p.FitsRows svc.compiler e [.obj row] → p.rawHolds svc.compiler row →
        f row = (p.plain svc.compiler).all (Params.parameterHolds e row)) ∧
    (p.Foldable svc.compiler e ↔ ∀ p' : Params, p'.pairs.Sublist p.pairs → svc.SameFetch e p') := by
  refine ⟨Service.sameFetch_iff hfold hclient, ?_⟩
  constructor
  · intro hfaithful p' hsub
    have hfold := hfold.subset hsub.subset
    refine (Service.sameFetch_iff hfold (hclient.subset hsub.subset)).2 (.inr ?_)
    obtain ⟨q, hq⟩ := hfold
    have hfaithful : p'.Foldable (svc.compiler.withOverflow .serverFold) e :=
      hfaithful.subset hsub.subset
    obtain ⟨f, hf, hall⟩ := hfaithful.foldsTo rfl hq
    exact ⟨f, hf, fun row hfit _ => hall row hfit⟩
  · intro hsame kv hkv g hgive hlt
    obtain ⟨hmem, hraw⟩ := List.mem_filter.1 hkv
    have hkey : kv.1 ≠ svc.compiler.rawKey := by simpa using hraw
    have hsingle : [kv].Sublist p.pairs := by simpa using hmem
    obtain ⟨c, hc⟩ := Params.condition_of_compiles hfold hkv hgive
    obtain ⟨hle, _⟩ | ⟨_, x, hx, _⟩ := condition_serverFold rfl hc
    · exact absurd hlt (not_lt.2 hle)
    have hagrees := (hsame ⟨[kv]⟩ hsingle).agrees hkey hgive hlt hx (hfold.subset hsingle.subset)
      (hclient.subset hsingle.subset)
    exact (Group.agrees_iff_faithful (Group.normal_of_gives hgive) hx).1 hagrees

/-- Two cities under a limit of one, so that the group is folded. -/
theorem fetch_serverFold_cities :
    let e := (Entity.empty "Debtor").property "City" .string
    let p : Params := ⟨[("City", "Oslo OR Rome")]⟩
    let row (city : String) : Json := .obj [("City", .str city)]
    let m := Memory.ofTable (.of 1 "Debtor") [row "Oslo", row "Paris", row "Rome"]
    let svc : Service := ⟨.empty, ⟨1, .serverFold, "query"⟩, 0, ⟨.midnight ⟨2024, 1, 1⟩, 0, 0⟩⟩
    ((svc.withOverflow .serverFold).fetch 1 e p).run.run Memory.remote 0 m =
      .ok (.ok [row "Oslo", row "Rome"], m) := by
  intro e p row m svc
  have hfolded : Gives (p.compile (svc.compiler.withOverflow .serverFold) e)
      ⟨[.raw "City = 'Oslo' or City = 'Rome'"], []⟩ := rfl
  have hchecked : Gives (p.compile (svc.compiler.withOverflow .clientFilter) e)
      ⟨[], [⟨"City", .string, ["Oslo", "Rome"]⟩]⟩ := by unfold Gives; decide +kernel
  have hcity : e.resolve? "City" = some ⟨"City", .property, .string⟩ := by decide +kernel
  have hfaithful : p.Foldable svc.compiler e := by
    intro kv hkv g hgive _
    obtain rfl : kv = ("City", "Oslo OR Rome") := by simpa [p] using (List.mem_filter.1 hkv).1
    have hg : Gives (parameterGroup e "City" "Oslo OR Rome")
        ⟨⟨"City", .property, .string⟩, ["Oslo", "Rome"]⟩ := by unfold Gives; decide +kernel
    obtain rfl := gives_unique hg hgive
    exact ⟨by decide, fun _ => by decide, by simp, by simp⟩
  have hfit : p.FitsRows svc.compiler e (m.rows (.of 1 e.name)) := by
    have hrows : m.rows (.of 1 e.name) = [row "Oslo", row "Paris", row "Rome"] := by decide +kernel
    have hcell (city : String) : Row.column? "City" [("City", .str city)] = some (.str city) := by
      have hbare : bareName "City" = "City" := by decide +kernel
      have hsame : Text.sameName "City" "City" = true := by decide +kernel
      simp [Row.column?, hbare, Row.publicColumn?, Row.named?, hsame]
    rw [hrows]
    refine Params.fitsRows_single hcity fun r hr v hv => .inr ?_
    obtain ⟨city, rfl⟩ : ∃ city, r = [("City", .str city)] := by
      simp only [row, List.mem_cons, Json.obj.injEq, List.not_mem_nil, or_false] at hr
      rcases hr with rfl | rfl | rfl <;> exact ⟨_, rfl⟩
    exact ⟨city, by simpa [hcell] using hv.symm⟩
  have hsame := (svc.fetch_serverFold e p ⟨_, hfolded⟩ ⟨_, hchecked⟩).2.1 hfaithful p (.refl _)
    0 m 1 rfl hfit
  rw [hsame]
  decide +kernel

/-- A city with the separator of terms in its name: the folded group is not understood, while the
check on the rows finds it. -/
theorem fetch_serverFold_or_in_text :
    let e := (Entity.empty "Debtor").property "City" .string
    let p : Params := ⟨[("City", "Oslo or Rome OR Paris")]⟩
    let row : Json := .obj [("City", .str "Oslo or Rome")]
    let m := Memory.ofTable (.of 1 "Debtor") [row]
    let svc : Service := ⟨.empty, ⟨1, .serverFold, "query"⟩, 0, ⟨.midnight ⟨2024, 1, 1⟩, 0, 0⟩⟩
    p.Compiles svc.compiler e .serverFold ∧ p.Compiles svc.compiler e .clientFilter ∧
      p.FitsRows svc.compiler e (m.rows (.of 1 e.name)) ∧
      ((svc.withOverflow .serverFold).fetch 1 e p).run.run Memory.remote 0 m =
        .ok (.error (.ofRemote (.unsupported
          "where expression: City = 'Oslo or Rome' or City = 'Paris'")), m) ∧
      ((svc.withOverflow .clientFilter).fetch 1 e p).run.run Memory.remote 0 m =
        .ok (.ok [row], m) := by
  intro e p row m svc
  have hfolded : Gives (p.compile (svc.compiler.withOverflow .serverFold) e)
      ⟨[.raw "City = 'Oslo or Rome' or City = 'Paris'"], []⟩ := rfl
  have hchecked : Gives (p.compile (svc.compiler.withOverflow .clientFilter) e)
      ⟨[], [⟨"City", .string, ["Oslo or Rome", "Paris"]⟩]⟩ := by unfold Gives; decide +kernel
  have hparse : Where.parse? "City = 'Oslo or Rome' or City = 'Paris'" = none := by decide +kernel
  have hrows : m.rows (.of 1 e.name) = [row] := by decide +kernel
  have hcity : e.resolve? "City" = some ⟨"City", .property, .string⟩ := by decide +kernel
  have hcell : Row.column? "City" [("City", .str "Oslo or Rome")] = some (.str "Oslo or Rome") := by decide +kernel
  refine ⟨⟨_, hfolded⟩, ⟨_, hchecked⟩, ?_, ?_, by decide +kernel⟩
  · rw [hrows]
    refine Params.fitsRows_single hcity fun r hr v hv => .inr ⟨"Oslo or Rome", ?_⟩
    obtain rfl : r = [("City", .str "Oslo or Rome")] := by simpa [row] using hr
    simpa [hcell] using hv.symm
  · rw [Service.fetch_run _ rfl]
    exact congrArg _ (Memory.select_unread hfolded (by simp [Memory.test, hparse, bind, Except.bind]))

end LedgerFront
