import LedgerFront.Proofs.Schema.Columns
import LedgerFront.Schema.Catalogue
import LedgerFront.Schema.Document

/-!
# Loading schema documents

A document is loaded up to the first entity that cannot be registered: one without columns, or with a
column of an unknown type. The entities before it stay, each in the place of any earlier one with its name
in whatever letter case. However a registry came about, its names stand in strictly ascending order, and
each of them finds its entity.

* `EntityText.entity_eq`: what an entity in a document describes, or what is wrong with it.
* `Registry.Loads`, `Registry.load_eq_iff`: what loading a document comes to.
* `Registry.Change`, `Registry.after_listed`: registries after any changes.
* `Registry.load_document`: all of this together.
-/

namespace LedgerFront

namespace Entity

theorem name_define (e : Entity) (d : Definition) : (e.define d).name = e.name := by
  unfold define
  cases d.kind <;> rfl

theorem name_ofDefinitions (name : String) (ds : List Definition) :
    (ofDefinitions name ds).name = name := by
  induction ds using List.reverseRecOn with
  | nil => rfl
  | append_singleton ds d ih =>
    rw [ofDefinitions_concat, name_define, ih]

end Entity

/-! ## One entity of a document -/

namespace EntityText

/-- The type of a column is not known. -/
def isUnknown (c : String × String) : Bool := (ValueType.parse? c.2).isNone

/-- The columns as definitions of one kind, as far as their types are known. -/
def typed (kind : FieldKind) (columns : List (String × String)) : List Definition :=
  columns.filterMap fun c => (ValueType.parse? c.2).map fun t => ⟨kind, c.1, t⟩

/-- The entity has a column, and the types of all columns are known. -/
structure Good (e : EntityText) : Prop where
  columns : e.properties ≠ [] ∨ e.fields ≠ []
  types : ∀ c ∈ e.properties ++ e.fields, ∃ t, ValueType.parse? c.2 = some t

/-- What is wrong with an entity: it has no columns, or else the first type that is not known. -/
def problem? (e : EntityText) : Option SchemaError :=
  if e.properties = [] ∧ e.fields = [] then some (.noColumns e.name)
  else ((e.properties ++ e.fields).find? isUnknown).map fun c => .unknownType e.name c.2

/-- The entity of the columns whose types are known. -/
def described (e : EntityText) : Entity :=
  .ofDefinitions e.name (typed .property e.properties ++ typed .field e.fields)

theorem name_described (e : EntityText) : e.described.name = e.name := Entity.name_ofDefinitions _ _

theorem problem?_eq_none {e : EntityText} : e.problem? = none ↔ e.Good := by
  have hknown : (∀ c ∈ e.properties ++ e.fields, ¬ isUnknown c = true) ↔
      ∀ c ∈ e.properties ++ e.fields, ∃ t, ValueType.parse? c.2 = some t := by
    refine forall₂_congr fun c _ => ?_
    simp [isUnknown, Option.ne_none_iff_exists']
  unfold problem?
  split
  · rename_i hempty
    refine iff_of_false (by simp) fun h => ?_
    exact h.columns.elim (absurd hempty.1) (absurd hempty.2)
  · rename_i hcolumns
    rw [Option.map_eq_none_iff, List.find?_eq_none, hknown]
    exact ⟨fun h => ⟨not_and_or.1 hcolumns, h⟩, fun h => h.types⟩

/-- Columns are definitions up to the first one whose type is not known. -/
theorem definitions_eq (entity : String) (kind : FieldKind) (columns : List (String × String)) :
    definitions entity kind columns =
      match columns.find? isUnknown with
      | some c => .error (.unknownType entity c.2)
      | none => .ok (typed kind columns) := by
  unfold definitions
  induction columns with
  | nil => rfl
  | cons c columns ih =>
    rw [List.mapM_cons, ih, List.find?_cons]
    cases ht : ValueType.parse? c.2 with
    | none => simp [isUnknown, ht, bind, Except.bind]
    | some t =>
      have hc : isUnknown c = false := by simp [isUnknown, ht]
      rw [hc]
      cases columns.find? isUnknown with
      | none => simp [typed, ht, bind, Except.bind, pure, Except.pure]
      | some c' => simp [bind, Except.bind]

/-- **An entity of a document** is what it describes, unless something is wrong with it. -/
theorem entity_eq (e : EntityText) :
    e.entity = match e.problem? with
      | some error => .error error
      | none => .ok e.described := by
  have hempty : (e.properties.isEmpty && e.fields.isEmpty) = decide (e.properties = [] ∧ e.fields = []) := by
    cases e.properties <;> cases e.fields <;> rfl
  unfold entity problem?
  rw [hempty]
  by_cases h : e.properties = [] ∧ e.fields = []
  · simp [h]
  · rw [if_neg (by simpa using h), if_neg h, definitions_eq, definitions_eq, List.find?_append]
    cases e.properties.find? isUnknown with
    | some c => rfl
    | none =>
      cases e.fields.find? isUnknown with
      | some c => rfl
      | none => rfl

end EntityText

namespace Registry

open EntityText (Good)

variable {r : Registry} {es before : List EntityText} {e : EntityText} {error : SchemaError}

/-! ## All entities of a document -/

/-- The registry with entities registered in order. -/
def registerAll (r : Registry) (es : List EntityText) : Registry :=
  es.foldl (fun r e => r.register e.described) r

theorem extend_good (h : e.Good) (es : List EntityText) :
    r.extend (e :: es) = (r.register e.described).extend es := by
  rw [extend, EntityText.entity_eq, EntityText.problem?_eq_none.2 h]

theorem extend_bad (h : e.problem? = some error) (es : List EntityText) :
    r.extend (e :: es) = (r, some error) := by
  rw [extend, EntityText.entity_eq, h]

/-- Good entities are registered, and then what follows. -/
theorem extend_append (h : ∀ e ∈ before, e.Good) (es : List EntityText) :
    r.extend (before ++ es) = (r.registerAll before).extend es := by
  induction before generalizing r with
  | nil => rfl
  | cons e before ih =>
    rw [List.cons_append, extend_good (h e (by simp)), ih fun b hb => h b (by simp [hb])]
    rfl

/-- What loading entities comes to: all of them are good and registered, or those before the first that
is not, whose problem is reported. -/
inductive Loads (r : Registry) (es : List EntityText) : Registry × Except SchemaError Nat → Prop
  | all (h : ∀ e ∈ es, e.Good) : Loads r es (r.registerAll es, .ok es.length)
  | upTo {before after : List EntityText} {e : EntityText} {error : SchemaError}
    (hes : es = before ++ e :: after) (hgood : ∀ b ∈ before, b.Good)
    (hbad : e.problem? = some error) : Loads r es (r.registerAll before, .error error)

/-- Either all entities are good, or there is a first one that is not. -/
theorem exists_loads (r : Registry) (es : List EntityText) : ∃ p, Loads r es p := by
  by_cases h : ∀ e ∈ es, e.Good
  · exact ⟨_, .all h⟩
  -- the entities up to the first bad one
  obtain ⟨e, he⟩ : ∃ e, es.find? (fun e => e.problem?.isSome) = some e := by
    rw [← Option.isSome_iff_exists, List.find?_isSome]
    push Not at h
    obtain ⟨e, he, hbad⟩ := h
    exact ⟨e, he, Option.isSome_iff_ne_none.2 (mt EntityText.problem?_eq_none.1 hbad)⟩
  obtain ⟨hbad, before, after, hes, hgood⟩ := List.find?_eq_some_iff_append.1 he
  obtain ⟨error, herror⟩ := Option.isSome_iff_exists.1 hbad
  refine ⟨_, .upTo hes (fun b hb => EntityText.problem?_eq_none.1 ?_) herror⟩
  simpa using hgood b hb

theorem load_of_loads {document : String} {p : Registry × Except SchemaError Nat}
    (hes : entitiesOf? document = some es) (h : Loads r es p) : r.load document = p := by
  unfold load
  rw [hes]
  cases h with
  | all h =>
    have hall : r.extend es = (r.registerAll es, none) := by
      simpa [extend] using extend_append (r := r) h []
    simp only [hall]
  | upTo hsplit hgood hbad =>
    simp only [hsplit, extend_append hgood, extend_bad hbad]

/-- **Loading** comes to exactly this. -/
theorem load_eq_iff {document : String} {p : Registry × Except SchemaError Nat}
    (hes : entitiesOf? document = some es) : r.load document = p ↔ Loads r es p := by
  refine ⟨fun h => ?_, load_of_loads hes⟩
  obtain ⟨p', hp'⟩ := exists_loads r es
  rw [← h, load_of_loads hes hp']
  exact hp'

/-! ## What a registry holds -/

theorem entities_registerAll (r : Registry) (es : List EntityText) :
    (r.registerAll es).entities = Index.putAll Entity.name (es.map EntityText.described) r.entities := by
  induction es using List.reverseRecOn with
  | nil => rfl
  | append_singleton es e ih =>
    have hlast : r.registerAll (es ++ [e]) = (r.registerAll es).register e.described := by
      simp [registerAll]
    rw [hlast, List.map_append, List.map_singleton, Index.putAll_concat, ← ih]
    rfl

/-- **Later entities replace earlier ones.** A name finds the last registered entity of that name, else
the one that was there before. -/
theorem get?_registerAll (r : Registry) (es : List EntityText) (name : String) :
    (r.registerAll es).get? name =
      ((lastNamed EntityText.name name es).map EntityText.described).or (r.get? name) := by
  have hlast : lastNamed Entity.name name (es.map EntityText.described) =
      (lastNamed EntityText.name name es).map EntityText.described := by
    simp [lastNamed, List.filter_map, Function.comp_def, EntityText.name_described]
  unfold get?
  rw [entities_registerAll, Index.get?_putAll, hlast]

/-- A change of a registry. -/
inductive Change where
  | register (e : Entity)
  | load (document : String)
  | loadFile (file : Option String)

/-- The registry after a change. -/
def change (r : Registry) : Change → Registry
  | .register e => r.register e
  | .load document => (r.load document).1
  | .loadFile file => (r.loadFile file).1

/-- The registry after changes of an empty one. -/
def after (changes : List Change) : Registry := changes.foldl change empty

/-- The built-in registry comes about by registering its entities. -/
theorem builtin_eq_after :
    builtin = after (Catalogue.entities.map fun e => .register (Catalogue.entity e.1 e.2)) := by
  rw [after, List.foldl_map]
  rfl

/-- The names stand in strictly ascending order, as many as there are entities. Each of them finds its
entity in any letter case, and nothing else is found. -/
structure Listed (r : Registry) : Prop where
  increasing : r.names.Pairwise (· < ·)
  length : r.names.length = r.size
  found : ∀ name ∈ r.names, ∀ key, Text.lower key = Text.lower name →
    ∃ e, r.get? key = some e ∧ e.name = name
  names : ∀ key e, r.get? key = some e → e.name ∈ r.names ∧ Text.lower e.name = Text.lower key

theorem mem_names {name : String} : name ∈ r.names ↔ ∃ e ∈ r.entities.values, e.name = name := by
  unfold Registry.names
  rw [(List.mergeSort_perm _ _).mem_iff, List.mem_map]

/-- A registry is listed when every entity stands under its own name. -/
theorem listed_of_keyed (h : r.entities.Keyed Entity.name) : r.Listed where
  increasing := by
    have hid : ((r.entities.values.map Entity.name).map id).Nodup := by
      rw [List.map_id]
      exact h.nodup_names
    exact pairwise_mergeSort_names hid
  length := by
    simp [Registry.names, size, Index.values]
  found name hname key hkey := by
    obtain ⟨e, he, rfl⟩ := mem_names.1 hname
    exact ⟨e, h.get?_eq_some.2 ⟨he, hkey.symm⟩, rfl⟩
  names key e hget := by
    obtain ⟨he, hname⟩ := h.get?_eq_some.1 hget
    exact ⟨mem_names.2 ⟨e, he, rfl⟩, hname⟩

/-- Loading keeps every entity under its own name, also when it stops. -/
theorem keyed_load (h : r.entities.Keyed Entity.name) (document : String) :
    (r.load document).1.entities.Keyed Entity.name := by
  cases hes : entitiesOf? document with
  | none =>
    simp only [load, hes]
    exact h
  | some es =>
    obtain ⟨p, hp⟩ := exists_loads r es
    rw [load_of_loads hes hp]
    cases hp with
    | all _ => exact entities_registerAll r es ▸ h.putAll _
    | upTo _ _ _ => exact entities_registerAll r _ ▸ h.putAll _

/-- **One change** keeps every entity under its own name. -/
theorem keyed_change (h : r.entities.Keyed Entity.name) (c : Change) :
    (r.change c).entities.Keyed Entity.name := by
  cases c with
  | register e => exact h.put e
  | load document => exact keyed_load h document
  | loadFile file =>
    cases file with
    | none => exact h
    | some document => exact keyed_load h document

/-- **All changes** leave every entity under its own name. -/
theorem keyed_after (changes : List Change) : (after changes).entities.Keyed Entity.name := by
  induction changes using List.reverseRecOn with
  | nil => exact Index.keyed_empty _
  | append_singleton changes c ih =>
    have hlast : after (changes ++ [c]) = (after changes).change c := by simp [after]
    rw [hlast]
    exact keyed_change ih c

theorem after_listed (changes : List Change) : (after changes).Listed := listed_of_keyed (keyed_after changes)

/-- **Loading a document.** All its entities are registered in order if each has a column and known types
only; otherwise those before the first bad one are, and its problem is reported. A name finds the last
entity that was registered under it. Whatever was registered and loaded before, the names of a registry
ascend strictly, are as many as its entities, and find them in any letter case. -/
theorem load_document {document : String} (hes : entitiesOf? document = some es) :
    (∀ (r : Registry) p, r.load document = p ↔ Loads r es p) ∧
    (∀ (r : Registry) loaded name, (r.registerAll loaded).get? name =
      ((lastNamed EntityText.name name loaded).map EntityText.described).or (r.get? name)) ∧
    ∀ changes, (after changes).Listed :=
  ⟨fun _ _ => load_eq_iff hes, get?_registerAll, after_listed⟩

/-- The second entity has a column of an unknown type; the first takes the place of the built-in one. -/
theorem load_document_debtor :
    let document := "[[entity]]\nname = \"debtor\"\n[entity.properties]\nNumber = \"integer\"\n" ++
      "[[entity]]\nname = \"Project\"\n[entity.fields]\n_Budget = \"blob\"\n"
    let debtor : EntityText := ⟨"debtor", [("Number", "integer")], []⟩
    let project : EntityText := ⟨"Project", [], [("_Budget", "blob")]⟩
    entitiesOf? document = some [debtor, project] ∧
      builtin.load document = (builtin.registerAll [debtor], .error (.unknownType "Project" "blob")) ∧
      (builtin.load document).1.get? "DEBTOR" = some debtor.described ∧
      (builtin.load document).1.names.length = (builtin.load document).1.size := by
  intro document debtor project
  have hes : entitiesOf? document = some [debtor, project] := by decide +kernel
  obtain ⟨hload, hget, hlisted⟩ := load_document hes
  have hgood : debtor.Good := EntityText.problem?_eq_none.1 (by decide +kernel)
  have hloaded : builtin.load document =
      (builtin.registerAll [debtor], .error (.unknownType "Project" "blob")) :=
    (hload builtin _).2 (.upTo rfl (by simpa using hgood) (by decide +kernel))
  have hchanged : (builtin.load document).1 =
      after ((Catalogue.entities.map fun e => .register (Catalogue.entity e.1 e.2)) ++ [.load document]) := by
    rw [after, List.foldl_append, ← after, ← builtin_eq_after]
    rfl
  refine ⟨hes, hloaded, ?_, ?_⟩
  · have hlast : lastNamed EntityText.name "DEBTOR" [debtor] = some debtor := by decide +kernel
    rw [hloaded, hget, hlast]
    rfl
  · rw [hchanged]
    exact (hlisted _).length

end Registry

end LedgerFront
