import Mathlib.Data.List.Forall2

/-!
# Computations that may be refused

When steps in `Except` go through, and which step it is that refuses.

* `bind_eq_ok`, `mapError_eq_ok`: single steps.
* `mapM_eq_ok`, `mapM_eq_error`: a list item by item, refused at the first item that is.
* `mapM_eq_some`, `mapM_eq_none`: the same without a reason for the refusal.
-/

namespace LedgerFront

variable {ε ε' α β : Type}

/-- A computation in two steps goes through when both steps do. -/
theorem bind_eq_ok {x : Except ε α} {f : α → Except ε β} {b : β} :
    x >>= f = .ok b ↔ ∃ a, x = .ok a ∧ f a = .ok b := by
  cases x <;> simp [bind, Except.bind]

/-- A computation in two steps is refused in the first or after it in the second. -/
theorem bind_eq_error {x : Except ε α} {f : α → Except ε β} {e : ε} :
    x >>= f = .error e ↔ x = .error e ∨ ∃ a, x = .ok a ∧ f a = .error e := by
  cases x <;> simp [bind, Except.bind]

theorem map_eq_ok {x : Except ε α} {f : α → β} {b : β} :
    x.map f = .ok b ↔ ∃ a, x = .ok a ∧ f a = b := by
  cases x <;> simp [Except.map]

/-- What is known of the value of a computation that goes through. -/
theorem toOption_map_eq_some {x : Except ε α} {f : α → β} {b : β} :
    x.toOption.map f = some b ↔ ∃ a, x = .ok a ∧ f a = b := by
  cases x <;> simp [Except.toOption]

theorem mapError_ok (f : ε → ε') (a : α) : (Except.ok a).mapError f = .ok a := rfl

theorem mapError_eq_ok {f : ε → ε'} {x : Except ε α} {a : α} :
    x.mapError f = .ok a ↔ x = .ok a := by
  cases x <;> simp [Except.mapError]

theorem mapError_eq_error {f : ε → ε'} {x : Except ε α} {e : ε'} :
    x.mapError f = .error e ↔ ∃ e', x = .error e' ∧ f e' = e := by
  cases x <;> simp [Except.mapError]

variable {f : α → Except ε β}

theorem mapM_eq_ok {l : List α} {bs : List β} :
    l.mapM f = .ok bs ↔ List.Forall₂ (fun a b => f a = .ok b) l bs := by
  induction l generalizing bs with
  | nil => cases bs <;> simp [pure, Except.pure]
  | cons a l ih =>
    rw [List.mapM_cons, bind_eq_ok]
    constructor
    · rintro ⟨b, hb, h⟩
      obtain ⟨cs, hcs, h⟩ := bind_eq_ok.1 h
      obtain rfl := Except.ok.inj h
      exact .cons hb (ih.1 hcs)
    · rintro (_ | ⟨hb, hcs⟩)
      exact ⟨_, hb, bind_eq_ok.2 ⟨_, ih.2 hcs, rfl⟩⟩

/-- A list is refused at the first of its items that is. -/
theorem mapM_eq_error {l : List α} {e : ε} :
    l.mapM f = .error e ↔ ∃ before a after, l = before ++ a :: after ∧
      (∀ b ∈ before, ∃ r, f b = .ok r) ∧ f a = .error e := by
  induction l with
  | nil => simp [pure, Except.pure]
  | cons a l ih =>
    rw [List.mapM_cons, bind_eq_error]
    constructor
    · rintro (h | ⟨b, hb, h⟩)
      · exact ⟨[], a, l, rfl, by simp, h⟩
      · obtain h | ⟨_, _, h⟩ := bind_eq_error.1 h
        · obtain ⟨before, c, after, rfl, hpass, hc⟩ := ih.1 h
          exact ⟨a :: before, c, after, rfl, by simpa using ⟨⟨b, hb⟩, hpass⟩, hc⟩
        · simp [pure, Except.pure] at h
    · rintro ⟨before, c, after, hl, hpass, hc⟩
      cases before with
      | nil =>
        obtain ⟨rfl, rfl⟩ := List.cons_eq_cons.1 hl
        exact .inl hc
      | cons d before =>
        obtain ⟨rfl, rfl⟩ := List.cons_eq_cons.1 hl
        obtain ⟨b, hb⟩ := hpass a (by simp)
        exact .inr ⟨b, hb, bind_eq_error.2
          (.inl (ih.2 ⟨before, c, after, rfl, fun x hx => hpass x (by simp [hx]), hc⟩))⟩

variable {g : α → Option β}

theorem mapM_eq_some {l : List α} {bs : List β} :
    l.mapM g = some bs ↔ List.Forall₂ (fun a b => g a = some b) l bs := by
  induction l generalizing bs with
  | nil => cases bs <;> simp
  | cons a l ih =>
    simp only [List.mapM_cons, bind, Option.bind_eq_some_iff, ih, pure, Option.some.injEq]
    constructor
    · rintro ⟨b, hb, cs, hcs, rfl⟩
      exact .cons hb hcs
    · rintro (_ | ⟨hb, hcs⟩)
      exact ⟨_, hb, _, hcs, rfl⟩

theorem exists_of_mem_mapM {l : List α} {bs : List β} (h : l.mapM g = some bs) {b : β} (hb : b ∈ bs) :
    ∃ a ∈ l, g a = some b := by
  have hall := mapM_eq_some.1 h
  clear h
  induction hall with
  | nil => simp at hb
  | @cons a c l bs hac _ ih =>
    rcases List.mem_cons.1 hb with rfl | hb
    · exact ⟨a, by simp, hac⟩
    · obtain ⟨x, hx, hxb⟩ := ih hb
      exact ⟨x, by simp [hx], hxb⟩

/-- Where an item is read only from what it is written as, so is a list. -/
theorem mapM_eq_some_map {written : β → α} (h : ∀ {a b}, g a = some b ↔ a = written b) {l : List α}
    {bs : List β} : l.mapM g = some bs ↔ l = bs.map written := by
  have heq : List.Forall₂ (fun a b => g a = some b) l bs ↔ List.Forall₂ (· = ·) l (bs.map written) := by
    rw [List.forall₂_map_right_iff]
    simp only [h]
  rw [mapM_eq_some, heq, List.forall₂_eq_eq_eq]

theorem mapM_eq_none {l : List α} : l.mapM g = none ↔ ∃ a ∈ l, g a = none := by
  induction l with
  | nil => simp
  | cons a l ih =>
    rw [List.mapM_cons, List.exists_mem_cons_iff, ← ih]
    cases g a with
    | none => simp
    | some b => cases l.mapM g <;> simp

end LedgerFront
