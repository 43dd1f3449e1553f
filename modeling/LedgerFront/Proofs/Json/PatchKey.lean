import LedgerFront.Proofs.Json.Place

/-!
# Patches that leave a member alone

Which operations can change what an object holds under a key. An operation that
spares the key never does, and every other one does on some object, unless it
puts a value back to where it came from.

* `PatchOp.Spares`: the operations that cannot change the member.
* `Patch.apply_under`: a patch of such operations.
* `PatchOp.exists_change`: every other operation.
-/

namespace LedgerFront

namespace PatchOp

/-- The place that an operation takes a value from. -/
def source? : PatchOp → Option Pointer
  | move source _ | copy source _ => some source
  | _ => none

/-- The operation cannot change what an object holds under a key: its place is neither the whole value
nor at the key or below, and it moves nothing away from there. The operations that never succeed, and
the copy of the whole value onto itself, count too. -/
def Spares (key : String) : PatchOp → Prop
  | add path _ | replace path _ => path ≠ [] ∧ path.head? ≠ some key
  | remove path => path.head? ≠ some key
  | move source path =>
    source = [] ∨ path.isInside source = true ∨
      (path ≠ [] ∧ path.head? ≠ some key ∧ source.head? ≠ some key)
  | copy source path => (source = [] ∧ path = []) ∨ (path ≠ [] ∧ path.head? ≠ some key)
  | test _ _ => True

instance (key : String) : DecidablePred (Spares key) := fun op => by
  cases op <;> unfold Spares <;> infer_instance

end PatchOp

namespace Patch

variable {key : String} {j j' : Json}

theorem orFail_eq_ok {α : Type} {failure : PatchFailure} {o : Option α} {a : α} :
    orFail failure o = .ok a ↔ o = some a := by
  cases o <;> simp [orFail]

/-! ## The steps of an operation -/

section Step

variable {source path : Pointer} {value : Json}

theorem step_add : step j (.add path value) = .ok j' ↔ add? path value j = some j' := orFail_eq_ok

theorem step_remove : step j (.remove path) = .ok j' ↔ remove? path j = some j' := orFail_eq_ok

theorem step_replace : step j (.replace path value) = .ok j' ↔
    Pointer.update? (fun _ => some value) path j = some j' := orFail_eq_ok

theorem step_move : step j (.move source path) = .ok j' ↔ path.isInside source = false ∧
    ∃ rest v, remove? source j = some rest ∧ Pointer.get? source j = some v ∧
      add? path v rest = some j' := by
  simp only [step]
  cases path.isInside source with
  | true => simp [throw, throwThe, MonadExceptOf.throw, bind, Except.bind]
  | false =>
    cases hr : remove? source j with
    | none => simp [orFail, bind, Except.bind]
    | some rest =>
      cases hv : Pointer.get? source j with
      | none => simp [orFail, bind, Except.bind]
      | some v => simpa [orFail, bind, Except.bind, pure, Except.pure] using orFail_eq_ok

theorem step_copy : step j (.copy source path) = .ok j' ↔
    ∃ v, Pointer.get? source j = some v ∧ add? path v j = some j' := by
  simp only [step]
  cases hv : Pointer.get? source j with
  | none => simp [orFail, bind, Except.bind]
  | some v => simpa [orFail, bind, Except.bind] using orFail_eq_ok

theorem eq_of_step_test (h : step j (.test path value) = .ok j') : j' = j := by
  simp only [step] at h
  cases hv : Pointer.get? path j with
  | none => simp [hv, orFail, bind, Except.bind] at h
  | some v =>
    simp only [hv, orFail, bind, Except.bind] at h
    split at h
    · exact (Except.ok.inj h).symm
    · simp [throw, throwThe, MonadExceptOf.throw] at h

end Step

/-- **One operation.** -/
theorem step_under {op : PatchOp} (hop : op.Spares key) (h : step j op = .ok j') :
    j'.under key = j.under key := by
  cases op with
  | add path value => exact under_add? hop.1 hop.2 (step_add.1 h)
  | remove path => exact under_remove? hop (step_remove.1 h)
  | replace path value => exact Pointer.under_update? hop.1 hop.2 (step_replace.1 h)
  | move source path =>
    obtain ⟨hin, rest, v, hrest, -, hadd⟩ := step_move.1 h
    obtain rfl | hinside | ⟨hne, hpath, hsource⟩ := hop
    · simp [remove?, Pointer.split?_nil] at hrest
    · simp [hin] at hinside
    · exact (under_add? hne hpath hadd).trans (under_remove? hsource hrest)
  | copy source path =>
    obtain ⟨v, hv, hadd⟩ := step_copy.1 h
    obtain ⟨rfl, rfl⟩ | ⟨hne, hpath⟩ := hop
    · -- the copy of the whole value onto itself
      obtain rfl : j = v := by simpa using hv
      rw [Option.some.inj hadd]
    · exact under_add? hne hpath hadd
  | test path value => rw [eq_of_step_test h]

theorem applyFrom_under {n : Nat} {ops : Patch} (hops : ∀ op ∈ ops, op.Spares key)
    (h : applyFrom n ops j = .ok j') : j'.under key = j.under key := by
  induction ops generalizing n j with
  | nil => rw [← Except.ok.inj h]
  | cons op ops ih =>
    unfold applyFrom at h
    cases hstep : step j op with
    | error e => simp [hstep] at h
    | ok i =>
      rw [hstep] at h
      exact (ih (fun o ho => hops o (by simp [ho])) h).trans (step_under (hops op (by simp)) hstep)

/-- **A patch.** Operations that spare a key leave what an object holds under it. -/
theorem apply_under {ops : Patch} (hops : ∀ op ∈ ops, op.Spares key) (h : ops.apply j = .ok j') :
    j'.under key = j.under key :=
  applyFrom_under hops h

theorem apply_single {op : PatchOp} (h : step j op = .ok j') : apply [op] j = .ok j' := by
  simp [apply, applyFrom, h]

end Patch

/-! ## Objects that hold something at given places -/

namespace Pointer

/-- Objects inside each other on the way to a place, and a value there. -/
def nest : Pointer → Json → Json
  | [], v => v
  | token :: rest, v => .obj [(token, nest rest v)]

/-- Objects on the way to two places. At the first place stands null, at the second an object, unless
one place is on the way to the other. -/
def fork : Pointer → Pointer → Json
  | [], path => nest path (.obj [])
  | token :: source, [] => nest (token :: source) .null
  | a :: source, b :: path =>
    if a = b then .obj [(a, fork source path)]
    else .ofPairs [(a, nest source .null), (b, nest path (.obj []))]

variable {key : String} {source path : Pointer} {v : Json}

@[simp] theorem get?_nest (path : Pointer) (v : Json) : get? path (nest path v) = some v := by
  induction path with
  | nil => rfl
  | cons token rest ih => simp [nest, Members.find?_cons, ih]

theorem nest_eq_obj (path : Pointer) (m : Members) : ∃ m', nest path (.obj m) = .obj m' := by
  cases path <;> exact ⟨_, rfl⟩

/-- A value that stands in something is neither an object without members nor null. -/
theorem nest_ne (hne : path ≠ []) : nest path v ≠ .obj [] ∧ nest path v ≠ .null := by
  cases path with
  | nil => exact absurd rfl hne
  | cons token rest => simp [nest]

theorem fork_eq_obj (source path : Pointer) : ∃ m, fork source path = .obj m := by
  cases source with
  | nil => exact nest_eq_obj path []
  | cons a source =>
    cases path with
    | nil => exact ⟨_, rfl⟩
    | cons b path =>
      unfold fork
      split <;> exact ⟨_, rfl⟩

theorem find?_pair (k a b : String) (v w : Json) :
    Members.find? k (Members.ofList [(a, v), (b, w)]) =
      if k = b then some w else if k = a then some v else none := by
  simp only [Members.ofList, List.foldl_cons, List.foldl_nil, Members.find?_insert]
  rfl

/-- Different values stand at the two places, null at the first if it is not on the way to the
other. -/
theorem get?_fork (h : source ≠ path) : ∃ x y, get? source (fork source path) = some x ∧
    get? path (fork source path) = some y ∧ x ≠ y ∧ (¬ source <+: path → x = .null) := by
  induction source generalizing path with
  | nil =>
    exact ⟨_, _, rfl, get?_nest path _, (nest_ne (Ne.symm h)).1, fun hp => absurd List.nil_prefix hp⟩
  | cons a source ih =>
    cases path with
    | nil => exact ⟨_, _, get?_nest _ _, rfl, (nest_ne (by simp)).2.symm, fun _ => rfl⟩
    | cons b path =>
      unfold fork
      split
      · rename_i hab
        subst hab
        obtain ⟨x, y, hx, hy, hxy, hnull⟩ := ih fun he => h (he ▸ rfl)
        refine ⟨x, y, by simpa [Members.find?_cons], by simpa [Members.find?_cons], hxy, fun hp => ?_⟩
        exact hnull fun hsub => hp (by simpa using hsub)
      · rename_i hab
        exact ⟨.null, .obj [], by simp [Json.ofPairs, find?_pair, hab],
          by simp [Json.ofPairs, find?_pair], by simp, fun _ => rfl⟩

end Pointer

namespace Patch

open Pointer

variable {key : String} {source path : Pointer} {v : Json}

theorem remove?_nest (hne : path ≠ []) (v : Json) :
    ∃ rest, remove? path (nest path v) = some rest ∧ get? path rest = none := by
  induction path with
  | nil => exact absurd rfl hne
  | cons token path ih =>
    have hv : Members.find? token [(token, nest path v)] = some (nest path v) := by
      simp [Members.find?_cons]
    cases path with
    | nil => exact ⟨_, remove?_single hv, by simp⟩
    | cons next path =>
      obtain ⟨rest, hrest, hnone⟩ := ih (by simp)
      exact ⟨_, remove?_cons (by simp) hv hrest, by simp [hnone]⟩

/-- The value at the first place can be taken away, and something is left at the other one. -/
theorem remove?_fork (h : ¬ source <+: path) : ∃ rest y,
    remove? source (fork source path) = some rest ∧ get? source rest = none ∧
      get? path rest = some y := by
  induction source generalizing path with
  | nil => exact absurd List.nil_prefix h
  | cons a source ih =>
    cases path with
    | nil =>
      obtain ⟨rest, hrest, hnone⟩ := remove?_nest (List.cons_ne_nil a source) .null
      exact ⟨rest, rest, hrest, hnone, rfl⟩
    | cons b path =>
      unfold fork
      split
      · rename_i hab
        subst hab
        have hsub : ¬ source <+: path := by simpa using h
        have hne : source ≠ [] := fun he => hsub (he ▸ List.nil_prefix)
        obtain ⟨rest, y, hrest, hnone, hy⟩ := ih hsub
        have hv : Members.find? a [(a, fork source path)] = some (fork source path) := by
          simp [Members.find?_cons]
        exact ⟨_, y, remove?_cons hne hv hrest, by simp [hnone], by simp [hy]⟩
      · rename_i hab
        -- the ways part here, so what is taken away is not on the other way
        have hv : Members.find? a (Members.ofList [(a, nest source .null), (b, nest path (.obj []))]) =
            some (nest source .null) := by
          rw [find?_pair, if_neg hab, if_pos rfl]
        cases source with
        | nil => exact ⟨_, .obj [], remove?_single hv, by simp, by simp [find?_pair, Ne.symm hab]⟩
        | cons next source =>
          obtain ⟨rest, hrest, hnone⟩ := remove?_nest (List.cons_ne_nil next source) .null
          exact ⟨_, .obj [], remove?_cons (by simp) hv hrest, by simp [hnone],
            by simp [find?_pair, Ne.symm hab]⟩

/-! ## Every other operation -/

/-- A value differs from an object under a key if it does so as a whole, or at a place below the
key. -/
theorem under_ne {m : Members} {j : Json} (hpath : path = [] ∨ path.head? = some key)
    (hroot : path = [] → j.under key ≠ (Json.obj m).under key)
    (hget : get? path j ≠ get? path (.obj m)) : j.under key ≠ (Json.obj m).under key := by
  obtain hnil | hhead := hpath
  · exact hroot hnil
  · obtain ⟨rest, rfl⟩ := List.head?_eq_some_iff.1 hhead
    exact fun hu => hget (get?_of_under rest hu)

theorem exists_under_ne (key : String) (v : Json) : ∃ m, v.under key ≠ (Json.obj m).under key := by
  by_cases h : v.under key = (Json.obj []).under key
  · exact ⟨[(key, .null)], by rw [h]; simp [Members.find?]⟩
  · exact ⟨[], h⟩

/-- What is put at the whole or below a key can differ from what was there. -/
theorem exists_put (hpath : path = [] ∨ path.head? = some key) (v : Json) : ∃ m y,
    get? path (.obj m) = some y ∧
      ∀ j, get? path j = some v → j.under key ≠ (Json.obj m).under key := by
  obtain ⟨m₀, hm₀⟩ := exists_under_ne key v
  obtain ⟨m, hm⟩ := nest_eq_obj path m₀
  have hy : get? path (.obj m) = some (.obj m₀) := hm ▸ get?_nest path (.obj m₀)
  refine ⟨m, .obj m₀, hy, fun j hj => under_ne hpath ?_ ?_⟩
  · rintro rfl
    obtain rfl : j = v := by simpa using hj
    rw [← hm]
    exact hm₀
  · rw [hj, hy]
    exact fun he => hm₀ (by rw [Option.some.inj he])

theorem head_of_not {path : Pointer} (h : ¬ (path ≠ [] ∧ path.head? ≠ some key)) :
    path = [] ∨ path.head? = some key := by
  by_cases hnil : path = []
  · exact .inl hnil
  · exact .inr (not_not.1 fun hhead => h ⟨hnil, hhead⟩)

theorem exists_change_move (hsource : source ≠ []) (hne : source ≠ path)
    (hin : path.isInside source = false)
    (hkey : ¬ (path ≠ [] ∧ path.head? ≠ some key ∧ source.head? ≠ some key)) :
    ∃ m j', step (.obj m) (.move source path) = .ok j' ∧ j'.under key ≠ (Json.obj m).under key := by
  have hsub : ¬ source <+: path := fun hp => by
    have hlen : source.length < path.length :=
      Nat.lt_of_le_of_ne hp.length_le fun he => hne (hp.eq_of_length he)
    simp [isInside, hlen, List.isPrefixOf_iff_prefix.2 hp] at hin
  obtain ⟨m, hm⟩ := fork_eq_obj source path
  obtain ⟨x, y, hx, hy, hxy, hnull⟩ := get?_fork hne
  obtain rfl := hnull hsub
  obtain ⟨rest, z, hrest, hnone, hz⟩ := remove?_fork hsub
  obtain ⟨j', hj', hput⟩ := exists_add? .null hz
  rw [hm] at hx hy hrest
  refine ⟨m, j', step_move.2 ⟨hin, rest, .null, hrest, hx, hj'⟩, ?_⟩
  by_cases hpath : path ≠ [] ∧ path.head? ≠ some key
  · -- the value is missed where it was
    have hhead : source.head? = some key := not_not.1 fun hs => hkey ⟨hpath.1, hpath.2, hs⟩
    rw [under_add? hpath.1 hpath.2 hj']
    exact under_ne (.inr hhead) (fun he => absurd he hsource) (by rw [hnone, hx]; simp)
  · -- the value is found where another one was
    refine under_ne (head_of_not hpath) ?_ (by rw [hput, hy]; simpa using hxy)
    rintro rfl
    obtain rfl : j' = .null := by simpa using hput
    simp [Json.under, Json.members?]

theorem exists_change_copy (hne : source ≠ path)
    (hpath : path = [] ∨ path.head? = some key) :
    ∃ m j', step (.obj m) (.copy source path) = .ok j' ∧ j'.under key ≠ (Json.obj m).under key := by
  obtain ⟨m, hm⟩ := fork_eq_obj source path
  obtain ⟨x, y, hx, hy, hxy, hnull⟩ := get?_fork hne
  rw [hm] at hx hy
  obtain ⟨j', hj', hput⟩ := exists_add? x hy
  refine ⟨m, j', step_copy.2 ⟨x, hx, hj'⟩, under_ne hpath ?_ (by rw [hput, hy]; simpa using hxy)⟩
  rintro rfl
  obtain rfl := hnull fun hp => hne (List.prefix_nil.1 hp)
  obtain rfl : j' = .null := by simpa using hput
  simp [Json.under, Json.members?]

/-- **Every other operation.** One that does not spare the key changes what some object holds under it,
unless it puts a value where it took it from. -/
theorem exists_change {op : PatchOp} (hop : ¬ op.Spares key) (hself : op.source? ≠ some op.path) :
    ∃ m j', step (.obj m) op = .ok j' ∧ j'.under key ≠ (Json.obj m).under key := by
  cases op with
  | add path value =>
    obtain ⟨m, y, hy, hall⟩ := exists_put (head_of_not hop) value
    obtain ⟨j', hj', hput⟩ := exists_add? value hy
    exact ⟨m, j', step_add.2 hj', hall j' hput⟩
  | replace path value =>
    obtain ⟨m, y, hy, hall⟩ := exists_put (head_of_not hop) value
    obtain ⟨j', hj', hput⟩ := exists_update? (fun _ => some value) hy rfl
    exact ⟨m, j', step_replace.2 hj', hall j' hput⟩
  | remove path =>
    have hhead : path.head? = some key := not_not.1 hop
    have hne : path ≠ [] := by
      rintro rfl
      simp at hhead
    obtain ⟨rest, hrest, hnone⟩ := remove?_nest hne .null
    have hnull := get?_nest path .null
    obtain ⟨m, hm⟩ : ∃ m, nest path .null = .obj m := by
      cases path with
      | nil => exact absurd rfl hne
      | cons token path => exact ⟨_, rfl⟩
    rw [hm] at hrest hnull
    exact ⟨m, rest, step_remove.2 hrest,
      under_ne (.inr hhead) (fun he => absurd he hne) (by rw [hnone, hnull]; simp)⟩
  | move source path =>
    have hsource : source ≠ [] := fun he => hop (.inl he)
    have hin : path.isInside source = false :=
      Bool.eq_false_iff.2 fun he => hop (.inr (.inl he))
    exact exists_change_move hsource (fun he => hself (congrArg some he)) hin
      fun he => hop (.inr (.inr he))
  | copy source path =>
    exact exists_change_copy (fun he => hself (congrArg some he))
      (head_of_not fun he => hop (.inr he))
  | test path value => exact absurd trivial hop

end Patch

end LedgerFront
