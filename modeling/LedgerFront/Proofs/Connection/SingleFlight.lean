import LedgerFront.Proofs.Connection.Frame
import LedgerFront.Proofs.Connection.Gates

/-!
# One login at a time

Whatever calls, cancellations, answers and clock do, in whichever order: a user
has at most one login under way, everybody who waits for the same user waits at
the same gate, and a login starts only where the store has no fresh connection
(`single_flight`).
-/

namespace LedgerFront.Cache

open Pairs

variable {s : Cache}

/-- A call of the user past its first look at the store, or a login for the user, is at the gate. -/
def UsesGate (s : Cache) (user : Credentials) (g : GateId) : Prop :=
  (∃ id c, (id, c) ∈ s.calls ∧ c.user = user ∧ CallPhase.gate? c.phase = some g) ∨
    ∃ id t, (id, t) ∈ s.tasks ∧ t.user = user ∧ t.gate = g

/-- Whoever is at a gate is at the one registered for the user. -/
theorem GatesOK.registered (h : GatesOK s) {user : Credentials} {g : GateId}
    (hu : s.UsesGate user g) : s.gateOf.lookup user = some g := by
  rcases hu with ⟨id, c, hc, rfl, hg⟩ | ⟨id, t, ht, rfl, rfl⟩
  · exact h.callGate id c g (lookup_of_mem h.callKeys hc) hg
  · exact h.taskGate id t (lookup_of_mem h.taskKeys ht)

/-- Logins of one user hold the same lock, so they are the same login. -/
theorem GatesOK.login_unique (h : GatesOK s) {i j : CallId} {t u : LoginTask}
    (ht : (i, t) ∈ s.tasks) (hu : (j, u) ∈ s.tasks) (htu : t.user = u.user) : (i, t) = (j, u) := by
  have hti := lookup_of_mem h.taskKeys ht
  have huj := lookup_of_mem h.taskKeys hu
  have hgate : t.gate = u.gate := by
    have h1 := h.taskGate i t hti
    rw [htu, h.taskGate j u huj] at h1
    exact (Option.some.inj h1).symm
  have hi : s.Holds u.gate (.login i) := ⟨t, hti, hgate⟩
  have hj : s.Holds u.gate (.login j) := ⟨u, huj, rfl⟩
  obtain rfl : i = j := by simpa using h.alone _ _ _ hi hj
  rw [hti] at huj
  rw [Option.some.inj huj]

/-- A list without repetition in which all elements with a property are equal has at most one. -/
theorem length_filter_le_one {α : Type} {p : α → Bool} {l : List α} (hl : l.Nodup)
    (h : ∀ a ∈ l, ∀ b ∈ l, p a = true → p b = true → a = b) : (l.filter p).length ≤ 1 := by
  have hn := hl.filter p
  cases hf : l.filter p with
  | nil => simp
  | cons a r =>
    cases r with
    | nil => simp
    | cons b r =>
      have ha : a ∈ l.filter p := by simp [hf]
      have hb : b ∈ l.filter p := by simp [hf]
      rw [List.mem_filter] at ha hb
      rw [hf, h a ha.1 b hb.1 ha.2 hb.2] at hn
      simp at hn

theorem fresh?_eq_none_iff {user : Credentials} : s.fresh? user = none ↔
    ∀ x, s.entries.lookup user = some x → x.createdAt + s.settings.ttl ≤ s.now := by
  simp [fresh?, entry?, isFresh, Option.filter_eq_none_iff]

/-- The store keeps one connection for each user. -/
theorem storeKeys_step (h : (s.entries.map (·.1)).Nodup) (e : Event) :
    ((s.step e).1.entries.map (·.1)).Nodup := by
  by_cases ht : s.TouchesStore e
  swap
  · rw [(step_sameStore ht).entries]
    exact h
  cases e with
  | run i =>
    obtain ⟨t, x, hi, hp⟩ := ht
    simp only [step, runTask, hi, hp]
    rw [(Aside.endTask i t (.ok x) _).entries]
    exact nodup_put t.user x h
  | invalidate user => exact (keys_erase_sublist user s.entries).nodup h
  | expire user =>
    simp only [step, expire]
    split
    · exact h
    · exact (keys_erase_sublist user s.entries).nodup h
  | advance ms => exact h
  | _ => exact ht.elim

theorem storeKeys_run (settings : ConnectionSettings) (es : List Event) :
    (((empty settings).run es).1.entries.map (·.1)).Nodup := by
  have hrun : ∀ s : Cache, (s.entries.map (·.1)).Nodup → ((s.run es).1.entries.map (·.1)).Nodup := by
    induction es with
    | nil => exact fun s h => h
    | cons e es ih => exact fun s h => ih _ (storeKeys_step h e)
  exact hrun _ List.nodup_nil

/-- All connections that the store has for the user are too old. -/
theorem fresh?_eq_none_iff_old (h : (s.entries.map (·.1)).Nodup) {user : Credentials} :
    s.fresh? user = none ↔ ∀ x, (user, x) ∈ s.entries → x.createdAt + s.settings.ttl ≤ s.now := by
  rw [fresh?_eq_none_iff]
  constructor
  · exact fun hold x hx => hold x (lookup_of_mem h hx)
  · exact fun hold x hx => hold x (mem_of_lookup hx)

theorem fresh?_erase (user user' : Credentials) (hf : s.fresh? user = none) :
    ({ s with entries := erase user' s.entries } : Cache).fresh? user = none := by
  rw [fresh?_eq_none_iff] at hf ⊢
  intro e he
  simp only [lookup_erase] at he
  split at he
  · simp at he
  · exact hf e he

/-- While a call has the lock of its user in its hands, nobody stores a connection for the user. -/
theorem fresh?_step_of_checking (h : GatesOK s) {id : CallId} {c : PendingCall} {g : GateId}
    (hc : (id, c) ∈ s.calls) (hp : c.phase = .checking g) (hf : s.fresh? c.user = none) (e : Event) :
    (s.step e).1.fresh? c.user = none := by
  by_cases ht : s.TouchesStore e
  swap
  · rw [(step_sameStore ht).fresh?]
    exact hf
  have hcl := lookup_of_mem h.callKeys hc
  have hg := h.callGate id c g hcl (by simp [hp, CallPhase.gate?])
  cases e with
  | run i =>
    obtain ⟨t, e, hti, hph⟩ := ht
    -- the login would hold the very lock that the call holds
    have hne : c.user ≠ t.user := by
      intro he
      have htg := h.taskGate i t hti
      rw [← he, hg] at htg
      have hcall : s.Holds g (.call id) := ⟨c, hcl, hp⟩
      have hlogin : s.Holds g (.login i) := ⟨t, hti, (Option.some.inj htg).symm⟩
      simpa using h.alone g _ _ hcall hlogin
    have hs := (Aside.endTask i t (.ok e) { s with entries := put t.user e s.entries }).toSameStore
    have hstep : (s.step (.run i)).1 =
        endTask i t (.ok e) { s with entries := put t.user e s.entries } := by
      simp only [step, runTask, hti, hph]
    rw [hstep, hs.fresh?]
    simpa [fresh?, entry?, isFresh, hne] using hf
  | invalidate user => exact fresh?_erase c.user user hf
  | expire user =>
    simp only [step, expire]
    split
    · exact hf
    · exact fresh?_erase c.user user hf
  | advance ms =>
    -- what is not fresh now is not fresh later
    rw [fresh?_eq_none_iff] at hf ⊢
    intro e he
    exact Nat.le_trans (hf e he) (Nat.le_add_right _ _)
  | _ => exact absurd ht (by simp [TouchesStore])

/-- **Single flight.** In every reachable state, a user has at most one login between its start and
the opening of its lock; all calls past the first look at the store and all logins for the user are
at one gate; a login starts only while all connections of its user in the store are too old; and that
cannot change between a call's look at the store under the lock and the start of the login. -/
theorem single_flight (settings : ConnectionSettings) (es : List Event) (user : Credentials) :
    let s := ((empty settings).run es).1
    (s.tasks.filter fun p => p.2.user = user).length ≤ 1 ∧
      (∀ g g', s.UsesGate user g → s.UsesGate user g' → g = g') ∧
      (∀ e id t, s.Starts e id t → t.user = user →
        ∀ x, (user, x) ∈ s.entries → x.createdAt + s.settings.ttl ≤ s.now) ∧
      ∀ e id c g, (id, c) ∈ s.calls → c.user = user → c.phase = .checking g →
        (∀ x, (user, x) ∈ s.entries → x.createdAt + s.settings.ttl ≤ s.now) →
        ∀ x, (user, x) ∈ (s.step e).1.entries →
          x.createdAt + (s.step e).1.settings.ttl ≤ (s.step e).1.now := by
  intro s
  have h : GatesOK s := gatesOK_run settings es
  have hkeys : (s.entries.map (·.1)).Nodup := storeKeys_run settings es
  refine ⟨?_, ?_, ?_, ?_⟩
  · refine length_filter_le_one (List.Nodup.of_map _ h.taskKeys) ?_
    rintro ⟨i, t⟩ ht ⟨j, u⟩ hu htu huu
    simp only [decide_eq_true_eq] at htu huu
    exact h.login_unique ht hu (htu.trans huu.symm)
  · intro g g' hg hg'
    have h1 := h.registered hg
    rw [h.registered hg'] at h1
    exact (Option.some.inj h1).symm
  · rintro e id t ht rfl
    obtain ⟨c, g, -, -, -, rfl, hf⟩ := starts_cases ht
    exact (fresh?_eq_none_iff_old hkeys).1 hf
  · rintro e id c g hc rfl hp hold
    have hf := fresh?_step_of_checking h hc hp ((fresh?_eq_none_iff_old hkeys).2 hold) e
    exact (fresh?_eq_none_iff_old (storeKeys_step hkeys e)).1 hf

end LedgerFront.Cache
