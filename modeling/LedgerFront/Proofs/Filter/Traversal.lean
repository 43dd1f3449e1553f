import LedgerFront.Filter.Compile
import Mathlib.Data.List.Forall2

/-!
# Tests and compilation over lists

How runs behave that go through a list item by item: the tests on rows
(`Run.all`, `Run.filter`) and the compilation of parameters and alternatives
(`mapM` in `Compiling`). For each there is a statement of what it returns when no
item stops it, and of when it stops.

* `Run.all_stops`, `Run.filter_stops`: the tests.
* `Compiling.mapM_fails`: compilation comes to nothing at an item that stops or is
  refused, if the items before it go through.
-/

namespace LedgerFront

/-- The program stops in this run. -/
def Run.Stops {α : Type} (r : Run α) : Prop := r = .error .outsideCalendar

namespace Run

variable {α β : Type}

theorem stops_or_ok (r : Run α) : r.Stops ∨ ∃ a, r = .ok a := by
  cases r with
  | error why => cases why; exact .inl rfl
  | ok a => exact .inr ⟨a, rfl⟩

theorem not_stops_ok {a : α} : ¬ Run.Stops (.ok a : Run α) := by simp [Stops]

@[simp] theorem stops_map {r : Run α} {f : α → β} : Run.Stops (f <$> r) ↔ r.Stops := by
  cases r <;> simp [Stops, Functor.map, Except.map]

variable {test : α → Run Bool}

theorem all_cons (a : α) (l : List α) :
    Run.all test (a :: l) = (test a).bind fun b => if b then Run.all test l else .ok false := by
  simp only [Run.all, bind, pure, Except.pure]

theorem all_cons_ok {a : α} {l : List α} {b c : Bool} (ha : test a = .ok b)
    (hl : Run.all test l = .ok c) : Run.all test (a :: l) = .ok (b && c) := by
  rw [all_cons, ha, hl]
  cases b <;> rfl

/-- Testing stops at the first item that stops, if the items before it pass. -/
theorem all_stops {l : List α} :
    (Run.all test l).Stops ↔ ∃ before a after, l = before ++ a :: after ∧
      (∀ b ∈ before, test b = .ok true) ∧ (test a).Stops := by
  induction l with
  | nil => simp [Run.all, Stops]
  | cons a l ih =>
    rw [all_cons]
    constructor
    · intro h
      -- at the first item, or behind it if it passes
      cases ht : test a with
      | error why => exact ⟨[], a, l, rfl, by simp, by cases why; exact ht⟩
      | ok keep =>
        rw [ht] at h
        cases keep with
        | false => exact absurd h not_stops_ok
        | true =>
          obtain ⟨before, b, after, rfl, hpass, hb⟩ := ih.1 h
          exact ⟨a :: before, b, after, rfl, by simpa [ht] using hpass, hb⟩
    · rintro ⟨before, b, after, hl, hpass, hb⟩
      cases before with
      | nil =>
        obtain ⟨rfl, rfl⟩ := List.cons_eq_cons.1 hl
        rw [show test a = _ from hb]
        rfl
      | cons c before =>
        obtain ⟨rfl, rfl⟩ := List.cons_eq_cons.1 hl
        rw [hpass a (by simp)]
        exact ih.2 ⟨before, b, after, rfl, fun x hx => hpass x (by simp [hx]), hb⟩

theorem filter_cons (a : α) (l : List α) :
    Run.filter test (a :: l) = (test a).bind fun keep => (Run.filter test l).bind fun kept =>
      .ok (if keep then a :: kept else kept) := by
  simp only [Run.filter, bind, pure, Except.pure]

theorem filter_eq_ok {p : α → Bool} {l : List α} (h : ∀ a ∈ l, test a = .ok (p a)) :
    Run.filter test l = .ok (l.filter p) := by
  induction l with
  | nil => rfl
  | cons a l ih =>
    rw [filter_cons, h a (by simp), ih fun x hx => h x (by simp [hx]), List.filter_cons]
    cases p a <;> rfl

/-- Filtering tests every item, so it stops when any test does. -/
theorem filter_stops {l : List α} : (Run.filter test l).Stops ↔ ∃ a ∈ l, (test a).Stops := by
  induction l with
  | nil => simp [Run.filter, Stops]
  | cons a l ih =>
    simp only [List.mem_cons, exists_eq_or_imp, ← ih]
    rw [filter_cons]
    obtain h | ⟨keep, h⟩ := stops_or_ok (test a)
    · rw [show test a = _ from h]
      simp [Stops, Except.bind]
    · obtain hl | ⟨kept, hl⟩ := stops_or_ok (Run.filter test l)
      · rw [h, show Run.filter test l = _ from hl]
        simp [Stops, Except.bind]
      · rw [h, hl]
        simp [Stops, Except.bind]

end Run

namespace Compiling

variable {α β : Type} {f : α → Compiling β}

/-- Compilation goes through and gives this. -/
def Gives (x : Compiling β) (b : β) : Prop := x.run = .ok (.ok b)

theorem run_bind {γ : Type} (x : Compiling β) (g : β → Compiling γ) :
    (x >>= g).run = x.run.bind fun r => match r with
      | .ok b => (g b).run
      | .error e => .ok (.error e) := by
  simp only [bind, ExceptT.bind, ExceptT.run, ExceptT.mk]
  congr 1
  funext r
  cases r <;> rfl

theorem gives_unique {x : Compiling β} {b c : β} (hb : Gives x b) (hc : Gives x c) : b = c := by
  unfold Gives at hb hc
  simpa [hb] using hc

theorem gives_pure {b c : β} : Gives (pure b : Compiling β) c ↔ b = c := by
  simp [Gives, pure, ExceptT.pure, ExceptT.run, ExceptT.mk, Except.pure]

theorem not_gives_throw {f : FilterError} {b : β} : ¬ Gives (throw f : Compiling β) b := by
  simp [Gives, throw, throwThe, MonadExceptOf.throw, ExceptT.run, ExceptT.mk, pure, Except.pure]

theorem gives_bind {γ : Type} {x : Compiling β} {g : β → Compiling γ} {c : γ} :
    Gives (x >>= g) c ↔ ∃ b, Gives x b ∧ Gives (g b) c := by
  unfold Gives
  rw [run_bind]
  rcases x.run with why | e | b
  · simp [Except.bind]
  · simp [Except.bind]
  · simp [Except.bind]

/-- Compilation is refused with this error. -/
def Refuses (x : Compiling β) (f : FilterError) : Prop := x.run = .ok (.error f)

/-- Compilation comes to nothing: it stops the program or is refused. -/
def Fails (x : Compiling β) (why : Abort ⊕ FilterError) : Prop :=
  x.run = why.elim .error fun f => .ok (.error f)

theorem not_fails_pure {b : β} (why : Abort ⊕ FilterError) :
    ¬ Fails (pure b : Compiling β) why := by
  cases why <;> simp [Fails, pure, ExceptT.pure, ExceptT.run, ExceptT.mk, Except.pure]

theorem not_refuses_pure {b : β} {f : FilterError} : ¬ Refuses (pure b : Compiling β) f :=
  not_fails_pure (.inr f)

theorem refuses_throw {f f' : FilterError} : Refuses (throw f : Compiling β) f' ↔ f = f' := by
  simp [Refuses, throw, throwThe, MonadExceptOf.throw, ExceptT.run, ExceptT.mk, pure, Except.pure]

/-- A step comes to nothing, or the one after it does. -/
theorem fails_bind {γ : Type} {x : Compiling β} {g : β → Compiling γ} (why : Abort ⊕ FilterError) :
    Fails (x >>= g) why ↔ Fails x why ∨ ∃ b, Gives x b ∧ Fails (g b) why := by
  unfold Gives Fails
  rw [run_bind]
  rcases x.run with a | e | b <;> cases why <;> simp [Except.bind]

theorem stops_bind {γ : Type} {x : Compiling β} {g : β → Compiling γ} :
    Run.Stops (x >>= g).run ↔ Run.Stops x.run ∨ ∃ b, Gives x b ∧ Run.Stops (g b).run :=
  fails_bind (.inl .outsideCalendar)

theorem refuses_bind {γ : Type} {x : Compiling β} {g : β → Compiling γ} {f : FilterError} :
    Refuses (x >>= g) f ↔ Refuses x f ∨ ∃ b, Gives x b ∧ Refuses (g b) f :=
  fails_bind (.inr f)

/-- Compiling a list gives for each item what compiling the item gives. -/
theorem mapM_gives {l : List α} {bs : List β} :
    Gives (l.mapM f) bs ↔ List.Forall₂ (fun a b => Gives (f a) b) l bs := by
  induction l generalizing bs with
  | nil => cases bs <;> simp [gives_pure]
  | cons a l ih =>
    rw [List.mapM_cons, gives_bind]
    constructor
    · rintro ⟨b, hb, h⟩
      obtain ⟨cs, hcs, h⟩ := gives_bind.1 h
      obtain rfl := gives_pure.1 h
      exact .cons hb (ih.1 hcs)
    · rintro (_ | ⟨hb, hcs⟩)
      exact ⟨_, hb, gives_bind.2 ⟨_, ih.2 hcs, rfl⟩⟩

theorem exists_of_forall₂ {γ : Type} {R : α → γ → Prop} {l : List α} {m : List γ}
    (h : List.Forall₂ R l m) {c : γ} (hc : c ∈ m) : ∃ a ∈ l, R a c := by
  induction h with
  | nil => simp at hc
  | cons hab _ ih =>
    obtain rfl | hc := List.mem_cons.1 hc
    · exact ⟨_, by simp, hab⟩
    · obtain ⟨a, ha, hr⟩ := ih hc
      exact ⟨a, by simp [ha], hr⟩

/-- Compiling a list goes through exactly when compiling each of its items does. -/
theorem exists_mapM_gives {l : List α} :
    (∃ bs, Gives (l.mapM f) bs) ↔ ∀ a ∈ l, ∃ b, Gives (f a) b := by
  simp only [mapM_gives]
  constructor
  · rintro ⟨bs, h⟩ a ha
    obtain ⟨b, _, hb⟩ := exists_of_forall₂ h.flip ha
    exact ⟨b, hb⟩
  · intro h
    induction l with
    | nil => exact ⟨[], .nil⟩
    | cons a l ih =>
      obtain ⟨b, hb⟩ := h a (by simp)
      obtain ⟨bs, hbs⟩ := ih fun a' ha => h a' (by simp [ha])
      exact ⟨b :: bs, .cons hb hbs⟩

/-- Compiling a list comes to nothing at an item when the items before it go through. -/
theorem mapM_fails {l : List α} (why : Abort ⊕ FilterError) :
    Fails (l.mapM f) why ↔ ∃ before a after, l = before ++ a :: after ∧
      (∀ b ∈ before, ∃ r, Gives (f b) r) ∧ Fails (f a) why := by
  induction l with
  | nil => simpa using not_fails_pure why
  | cons a l ih =>
    rw [List.mapM_cons, fails_bind]
    constructor
    · rintro (h | ⟨b, hb, h⟩)
      · exact ⟨[], a, l, rfl, by simp, h⟩
      · obtain h | ⟨_, _, h⟩ := (fails_bind why).1 h
        · obtain ⟨before, c, after, rfl, hpass, hc⟩ := ih.1 h
          exact ⟨a :: before, c, after, rfl, by simpa using ⟨⟨b, hb⟩, hpass⟩, hc⟩
        · exact absurd h (not_fails_pure why)
    · rintro ⟨before, c, after, hl, hpass, hc⟩
      cases before with
      | nil =>
        obtain ⟨rfl, rfl⟩ := List.cons_eq_cons.1 hl
        exact .inl hc
      | cons d before =>
        obtain ⟨rfl, rfl⟩ := List.cons_eq_cons.1 hl
        obtain ⟨b, hb⟩ := hpass a (by simp)
        exact .inr ⟨b, hb, (fails_bind why).2
          (.inl (ih.2 ⟨before, c, after, rfl, fun x hx => hpass x (by simp [hx]), hc⟩))⟩

theorem mapM_stops {l : List α} :
    Run.Stops (l.mapM f).run ↔ ∃ before a after, l = before ++ a :: after ∧
      (∀ b ∈ before, ∃ r, Gives (f b) r) ∧ Run.Stops (f a).run :=
  mapM_fails (.inl .outsideCalendar)

theorem mapM_refuses {l : List α} {error : FilterError} :
    Refuses (l.mapM f) error ↔ ∃ before a after, l = before ++ a :: after ∧
      (∀ b ∈ before, ∃ r, Gives (f b) r) ∧ Refuses (f a) error :=
  mapM_fails (.inr error)

end Compiling

end LedgerFront
