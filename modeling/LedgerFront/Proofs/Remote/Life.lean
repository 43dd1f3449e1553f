import LedgerFront.Remote.Side
import Mathlib.Data.List.Induction

/-!
# The life of a session

A session is opened and calls are made in it, while others open sessions of theirs and use them. What a
session has from its calls is what the last of them gave that gave it anything.

* `Life`: the calls of a session since it was opened, and where the remote side stands.
* `Latest`: what was given last.
* `Belongings`: what a remote side does to the belongings of sessions in one step.
* `Belongings.holds`: in its whole life a session holds what it was given last.
-/

namespace LedgerFront

variable {σ ι : Type}

/-- The call is a login. -/
def Call.isLogin : Call → Bool
  | login .. => true
  | _ => false

theorem Call.isLogin_iff {c : Call} : c.isLogin = true ↔ ∃ user key, c = .login user key := by
  cases c <;> simp [isLogin]

theorem Call.ne_login {c : Call} (h : c.isLogin = false) (user : Credentials) (key : Uuid) :
    c ≠ .login user key := by
  rintro rfl
  simp [isLogin] at h

/-- A call that was made, with its reply and the remote side around it. -/
structure Turn (σ : Type) where
  before : σ
  call : Call
  reply : Reply call
  after : σ

/-- **The life of a session**: the calls that were made in it since it was opened, in their order, and
where the remote side stands now. Meanwhile there may be other sessions. -/
inductive Life (R : Remote σ) (session : Nat) : List (Turn σ) → σ → Prop where
  | opened {s s' : σ} (ho : R.openSession s = (.ok session, s')) : Life R session [] s'
  | turn {turns : List (Turn σ)} {s s' : σ} {c : Call} {reply : Reply c} (h : Life R session turns s)
      (hc : R.call session c s = .ok (reply, s')) : Life R session (turns ++ [⟨s, c, reply, s'⟩]) s'
  | openOther {turns : List (Turn σ)} {s s' : σ} {opened : Except RemoteError Nat}
      (h : Life R session turns s) (ho : R.openSession s = (opened, s')) : Life R session turns s'
  | callOther {turns : List (Turn σ)} {s s' : σ} {other : Nat} {c : Call} {reply : Reply c}
      (h : Life R session turns s) (hne : other ≠ session) (hc : R.call other c s = .ok (reply, s')) :
      Life R session turns s'

/-! ## What was given last -/

section

variable {gives : Turn σ → ι → Prop} {turns : List (Turn σ)} {t : Turn σ} {i : ι}

/-- A turn gave this, and no later one gave anything. -/
def Latest (gives : Turn σ → ι → Prop) (turns : List (Turn σ)) (i : ι) : Prop :=
  ∃ earlier t later, turns = earlier ++ t :: later ∧ gives t i ∧ ∀ u ∈ later, ∀ j, ¬ gives u j

theorem not_latest_nil : ¬ Latest gives [] i := by
  rintro ⟨earlier, t, later, h, -⟩
  simp at h

/-- The last turn gave it, or gave nothing and it was given before. -/
theorem latest_concat : Latest gives (turns ++ [t]) i ↔
    gives t i ∨ (∀ j, ¬ gives t j) ∧ Latest gives turns i := by
  constructor
  · rintro ⟨earlier, u, later, hsplit, hu, hlater⟩
    rcases List.eq_nil_or_concat later with rfl | ⟨more, w, rfl⟩
    · obtain ⟨-, htu⟩ := List.append_inj' hsplit rfl
      obtain rfl := List.singleton_inj.1 htu
      exact .inl hu
    · rw [List.concat_eq_append, ← List.cons_append, ← List.append_assoc] at hsplit
      obtain ⟨rfl, htw⟩ := List.append_inj' hsplit rfl
      obtain rfl := List.singleton_inj.1 htw
      refine .inr ⟨hlater t (by simp), earlier, u, more, rfl, hu, fun x hx => hlater x (by simp [hx])⟩
  · rintro (hgives | ⟨hnothing, earlier, u, later, rfl, hu, hlater⟩)
    · exact ⟨turns, t, [], rfl, hgives, by simp⟩
    · refine ⟨earlier, u, later ++ [t], by simp, hu, fun x hx => ?_⟩
      rcases List.mem_append.1 hx with hx | hx
      · exact hlater x hx
      · obtain rfl := List.mem_singleton.1 hx
        exact hnothing

/-- Something was given last if anything was given at all. -/
theorem exists_latest_iff : (∃ i, Latest gives turns i) ↔ ∃ t ∈ turns, ∃ i, gives t i := by
  -- from the end, where the last turn decides first
  induction turns using List.reverseRecOn with
  | nil => simp [not_latest_nil]
  | append_singleton turns t ih =>
    simp only [latest_concat, List.mem_append, List.mem_singleton]
    by_cases hgives : ∃ i, gives t i
    · obtain ⟨i, hi⟩ := hgives
      exact iff_of_true ⟨i, .inl hi⟩ ⟨t, .inr rfl, i, hi⟩
    · have hnothing : ∀ i, ¬ gives t i := not_exists.1 hgives
      constructor
      · rintro ⟨i, hi | ⟨-, hi⟩⟩
        · exact absurd hi (hnothing i)
        · obtain ⟨u, hu, j, hj⟩ := ih.1 ⟨i, hi⟩
          exact ⟨u, .inl hu, j, hj⟩
      · rintro ⟨u, hu | rfl, j, hj⟩
        · obtain ⟨i, hi⟩ := ih.2 ⟨u, hu, j, hj⟩
          exact ⟨i, .inr ⟨hnothing, hi⟩⟩
        · exact absurd hj (hnothing j)

end

/-! ## What sessions hold -/

/-- **What a remote side does to what sessions hold**, if they are open: a new session holds nothing, a call
in a session that gives something puts it there, and nothing else changes what a session holds. -/
structure Belongings (R : Remote σ) (held : Nat → σ → Option (Option ι)) (gives : Turn σ → ι → Prop) :
    Prop where
  opened : ∀ {session s s'}, R.openSession s = (.ok session, s') → held session s' = some none
  openOther : ∀ {session s s' r x}, R.openSession s = (r, s') → held session s = some x →
    held session s' = some x
  callOther : ∀ {session other s s' c reply}, other ≠ session → R.call other c s = .ok (reply, s') →
    held session s' = held session s
  given : ∀ {session s s' c reply i x}, held session s = some x → R.call session c s = .ok (reply, s') →
    gives ⟨s, c, reply, s'⟩ i → held session s' = some (some i)
  kept : ∀ {session s s' c reply}, R.call session c s = .ok (reply, s') →
    (∀ i, ¬ gives ⟨s, c, reply, s'⟩ i) → held session s' = held session s

namespace Belongings

variable {R : Remote σ} {held : Nat → σ → Option (Option ι)} {gives : Turn σ → ι → Prop} {session : Nat}
  {turns : List (Turn σ)} {s : σ}

/-- **A session holds what it was given last**, in its whole life. -/
theorem holds (hk : Belongings R held gives) (h : Life R session turns s) :
    ∃ x, held session s = some x ∧ ∀ i, x = some i ↔ Latest gives turns i := by
  -- along the life; that the session is open comes along, as nothing is put into one that is not
  induction h with
  | opened ho => exact ⟨none, hk.opened ho, fun i => by simp [not_latest_nil]⟩
  | openOther h ho ih =>
    obtain ⟨x, hx, hlatest⟩ := ih
    exact ⟨x, hk.openOther ho hx, hlatest⟩
  | callOther h hne hc ih =>
    obtain ⟨x, hx, hlatest⟩ := ih
    exact ⟨x, (hk.callOther hne hc).trans hx, hlatest⟩
  | @turn turns s s' c reply h hc ih =>
    obtain ⟨x, hx, hlatest⟩ := ih
    by_cases hgives : ∃ i, gives ⟨s, c, reply, s'⟩ i
    · obtain ⟨i, hi⟩ := hgives
      have hheld : held session s' = some (some i) := hk.given hx hc hi
      refine ⟨some i, hheld, fun j => ?_⟩
      rw [latest_concat]
      constructor
      · rintro ⟨rfl⟩
        exact .inl hi
      · rintro (hj | ⟨hnothing, -⟩)
        · exact Option.some.inj (hheld.symm.trans (hk.given hx hc hj))
        · exact absurd hi (hnothing i)
    · have hnothing : ∀ i, ¬ gives ⟨s, c, reply, s'⟩ i := not_exists.1 hgives
      refine ⟨x, (hk.kept hc hnothing).trans hx, fun i => ?_⟩
      rw [hlatest i, latest_concat]
      constructor
      · exact fun h => .inr ⟨hnothing, h⟩
      · rintro (h | ⟨-, h⟩)
        · exact absurd h (hnothing i)
        · exact h

/-- A session holds nothing if it was given nothing. -/
theorem holds_nothing_iff (hk : Belongings R held gives) (h : Life R session turns s) :
    held session s = some none ↔ ∀ t ∈ turns, ∀ i, ¬ gives t i := by
  obtain ⟨x, hx, hlatest⟩ := hk.holds h
  rw [hx, Option.some_inj]
  constructor
  · rintro rfl t ht i hi
    obtain ⟨j, hj⟩ := exists_latest_iff.2 ⟨t, ht, i, hi⟩
    exact absurd ((hlatest j).2 hj) (by simp)
  · intro hnothing
    refine Option.eq_none_iff_forall_not_mem.2 fun i hi => ?_
    obtain ⟨t, ht, j, hj⟩ := exists_latest_iff.1 ⟨i, (hlatest i).1 hi⟩
    exact hnothing t ht j hj

end Belongings

end LedgerFront
