import LedgerFront.Proofs.Connection.Provenance
import LedgerFront.Proofs.Connection.SingleFlight

/-!
# The time to live

From the moment a login comes to a connection until the connection is too old, its user needs no
other: the connection is about to be stored, and then it is in the store, where every call finds it
before a login can start. Only whoever has it dropped has to log in again.

* `Kept`: where a connection is that is not too old yet.
* `Kept.step`, `Kept.run`: it stays there, or gets too old.
* `one_login_per_ttl`: successful logins of a user are a time to live apart.
-/

namespace LedgerFront.Cache

open Pairs

variable {s : Cache} {settings : ConnectionSettings} {users : List Credentials} {log : List Heard}
  {user : Credentials} {id : CallId} {x : Entry}

/-- With this event a login of the user comes to a connection: the remote side has just answered with
its companies. -/
def Succeeds (s : Cache) (e : Event) (id : CallId) (user : Credentials) (x : Entry) : Prop :=
  ∃ t l a, e = .answer id a ∧ s.tasks.lookup id = some t ∧ t.user = user ∧ t.phase = .asking l ∧
    l.receive s.settings.loginAttempts a = .finished (.ok x.connected) ∧ x.createdAt = s.now

/-- The connection is too old, or in the store while no login of its user is under way, or about to be
stored by its login. -/
def Kept (user : Credentials) (id : CallId) (x : Entry) (s : Cache) : Prop :=
  x.createdAt + s.settings.ttl ≤ s.now ∨
    (s.entries.lookup user = some x ∧ ∀ i t, s.tasks.lookup i = some t → t.user ≠ user) ∨
    ∃ t, s.tasks.lookup id = some t ∧ t.user = user ∧ t.phase = .storing x

/-! ## The clock -/

theorem isFresh_iff : s.isFresh x = true ↔ s.now < x.createdAt + s.settings.ttl := by
  simp [isFresh]

theorem isFresh_of_fresh? (h : s.fresh? user = some x) : s.now < x.createdAt + s.settings.ttl :=
  isFresh_iff.1 (Option.filter_eq_some_iff.1 h).2

/-- Settings stay, and the clock does not go back. -/
theorem step_now (s : Cache) (e : Event) :
    (s.step e).1.settings = s.settings ∧ s.now ≤ (s.step e).1.now := by
  by_cases ht : s.TouchesStore e
  swap
  · exact ⟨(step_sameStore ht).settings, Nat.le_of_eq (step_sameStore ht).now.symm⟩
  cases e with
  | run i =>
    obtain ⟨t, x, hi, hp⟩ := ht
    have hend := Aside.endTask i t (.ok x) { s with entries := put t.user x s.entries }
    simp only [step, runTask, hi, hp]
    exact ⟨hend.settings, Nat.le_of_eq hend.now.symm⟩
  | invalidate user => exact ⟨rfl, Nat.le_refl _⟩
  | expire user =>
    simp only [step, expire]
    split <;> exact ⟨rfl, Nat.le_refl _⟩
  | advance ms => exact ⟨rfl, Nat.le_add_right _ _⟩
  | _ => exact ht.elim

/-! ## What keeps a connection -/

/-- A login that comes to a connection is about to store it. -/
theorem Succeeds.storing {e : Event} (h : s.Succeeds e id user x) :
    ∃ t, (s.step e).1.tasks.lookup id = some t ∧ t.user = user ∧ t.phase = .storing x := by
  obtain ⟨t, l, a, rfl, ht, hu, hp, hr, hx⟩ := h
  refine ⟨{ t with phase := .storing x }, ?_, hu, rfl⟩
  have hentry : (⟨x.connected, s.now⟩ : Entry) = x := by rw [← hx]
  simp only [step, answerTask, ht, hp, hr, advanceTask, hentry, lookup_put, if_true]

theorem Succeeds.kept {e : Event} (h : s.Succeeds e id user x) : (s.step e).1.Kept user id x :=
  .inr (.inr h.storing)

/-- The logins of a user after a step: one was under way before, unless it starts in the step. -/
theorem task_of_step (hs : Sound settings users log s) {e : Event} {i : CallId} {t : LoginTask}
    (ht : (s.step e).1.tasks.lookup i = some t) :
    (∃ u, s.tasks.lookup i = some u ∧ u.user = t.user) ∨ s.fresh? t.user = none := by
  cases hu : s.tasks.lookup i with
  | some u =>
    -- both are logins of the user of the call with this number
    have hbefore := hs.taskUser i u hu
    have hafter := (hs.step e).1.taskUser i t ht
    rw [List.getElem?_append_left (List.getElem?_eq_some_iff.1 hbefore).1, hbefore] at hafter
    exact .inl ⟨u, rfl, Option.some.inj hafter⟩
  | none =>
    have hstarts : s.Starts e i t := by
      refine ⟨mem_of_lookup ht, .inl fun u hmem => ?_⟩
      simpa using List.lookup_eq_none_iff.1 hu (i, u) hmem
    obtain ⟨c, g, -, -, -, rfl, hf⟩ := starts_cases hstarts
    exact .inr hf

/-- As long as the store has a fresh connection of the user, no login of the user starts. -/
theorem no_login_of_step (hs : Sound settings users log s) (hx : s.entries.lookup user = some x)
    (hyoung : s.now < x.createdAt + s.settings.ttl)
    (hnone : ∀ i t, s.tasks.lookup i = some t → t.user ≠ user) {e : Event} (i : CallId) (t : LoginTask)
    (ht : (s.step e).1.tasks.lookup i = some t) : t.user ≠ user := by
  rintro rfl
  obtain ⟨u, hu, huser⟩ | hf := task_of_step hs ht
  · exact hnone i u hu huser
  · exact absurd (fresh?_eq_none_iff.1 hf x hx) (Nat.not_le_of_lt hyoung)

/-- A fresh connection stays in the store until it is dropped or another login of the user stores
one. -/
theorem entry_of_step (hx : s.entries.lookup user = some x)
    (hyoung : s.now < x.createdAt + s.settings.ttl)
    (hnone : ∀ i t, s.tasks.lookup i = some t → t.user ≠ user) {e : Event}
    (hdrop : e ≠ .invalidate user) : (s.step e).1.entries.lookup user = some x := by
  by_cases ht : s.TouchesStore e
  swap
  · rw [(step_sameStore ht).entries, hx]
  cases e with
  | run i =>
    obtain ⟨t, y, hi, hp⟩ := ht
    simp only [step, runTask, hi, hp]
    rw [(Aside.endTask i t (.ok y) _).entries, lookup_put, if_neg (hnone i t hi).symm, hx]
  | invalidate user' =>
    have hne : user ≠ user' := fun he => hdrop (he ▸ rfl)
    simp [step, hne, hx]
  | expire user' =>
    simp only [step, expire]
    split
    · exact hx
    · rename_i hf
      have hne : user ≠ user' := by
        rintro rfl
        have hnone' : s.fresh? user = none := by simpa using hf
        exact absurd (fresh?_eq_none_iff.1 hnone' x hx) (Nat.not_le_of_lt hyoung)
      simp [hne, hx]
  | advance ms => exact hx
  | _ => exact ht.elim

/-- The login of a connection stores it, and there is no other login of its user. -/
theorem kept_of_stored (hg : GatesOK s) {t : LoginTask} (ht : s.tasks.lookup id = some t)
    (hu : t.user = user) (hp : t.phase = .storing x) : (s.step (.run id)).1.Kept user id x := by
  have hstep : (s.step (.run id)).1 =
      endTask id t (.ok x) { s with entries := put t.user x s.entries } := by
    simp only [step, runTask, ht, hp]
  have hend := Aside.endTask id t (.ok x) { s with entries := put t.user x s.entries }
  refine .inr (.inl ⟨?_, fun i u hi huser => ?_⟩)
  · rw [hstep, hend.entries, lookup_put, if_pos hu.symm]
  · rw [hstep, hend.tasks, lookup_erase] at hi
    split at hi
    · simp at hi
    · rename_i hne
      have hsame := hg.login_unique (mem_of_lookup hi) (mem_of_lookup ht) (huser.trans hu.symm)
      exact hne (Prod.mk.inj hsame).1

/-- **A step keeps a connection**, unless it is dropped in it or its login breaks down. -/
theorem Kept.step (h : s.Kept user id x) (hg : GatesOK s) (hs : Sound settings users log s) {e : Event}
    (hdrop : e ≠ .invalidate user) (hcrash : ∀ message, e ≠ .crash id message) :
    (s.step e).1.Kept user id x := by
  obtain ⟨hset, hnow⟩ := step_now s e
  obtain hold | ⟨hx, hnone⟩ | ⟨t, ht, hu, hp⟩ := h
  · exact .inl (by rw [hset]; exact Nat.le_trans hold hnow)
  · obtain hold | hyoung := Nat.lt_or_ge s.now (x.createdAt + s.settings.ttl) |>.symm
    · exact .inl (by rw [hset]; exact Nat.le_trans hold hnow)
    · exact .inr (.inl ⟨entry_of_step hx hyoung hnone hdrop, no_login_of_step hs hx hyoung hnone⟩)
  · by_cases hrun : e = .run id
    · exact hrun ▸ kept_of_stored hg ht hu hp
    · exact .inr (.inr ⟨t, lookup_step_of_waiting hg hs ht hp hrun hcrash, hu, hp⟩)

theorem Kept.run {es : List Event} (h : s.Kept user id x) (hg : GatesOK s)
    (hs : Sound settings users log s) (hdrop : Event.invalidate user ∉ es)
    (hcrash : ∀ message, Event.crash id message ∉ es) : (s.run es).1.Kept user id x := by
  induction es generalizing s users log with
  | nil => exact h
  | cons e es ih =>
    have hstep := h.step hg hs (fun he => hdrop (he ▸ List.mem_cons_self ..))
      fun message he => hcrash message (he ▸ List.mem_cons_self ..)
    exact ih hstep (hg.step e) (hs.step e).1 (fun hm => hdrop (List.mem_cons_of_mem _ hm))
      fun message hm => hcrash message (List.mem_cons_of_mem _ hm)

/-- **Another login of the user succeeds only when the connection is too old.** -/
theorem Kept.old_of_succeeds (h : s.Kept user id x) (hg : GatesOK s) {e : Event} {i : CallId} {y : Entry}
    (hy : s.Succeeds e i user y) : x.createdAt + s.settings.ttl ≤ y.createdAt := by
  obtain ⟨u, l, a, rfl, hu, huser, hphase, -, hnow⟩ := hy
  rw [hnow]
  obtain hold | ⟨-, hnone⟩ | ⟨t, ht, htuser, hp⟩ := h
  · exact hold
  · exact absurd huser (hnone i u hu)
  · -- both would be the same login, which cannot wait for an answer and store its connection
    have hsame := hg.login_unique (mem_of_lookup hu) (mem_of_lookup ht) (huser.trans htuser.symm)
    obtain rfl : u = t := (Prod.mk.inj hsame).2
    simp [hphase] at hp

/-! ## Connections that calls find -/

/-- A connection that a call finds in the store is not too old. -/
theorem young_of_found {c : PendingCall} (hc : s.calls.lookup id = some c)
    (hp : c.phase = .arrived ∨ ∃ g, c.phase = .checking g)
    (hr : (s.step (.resume id)).2 = some (id, .ok x)) : s.now < x.createdAt + s.settings.ttl := by
  obtain ⟨-, hf | ⟨g, ha⟩⟩ := (resumed hc).returned id x hr
  · exact isFresh_of_fresh? hf
  · obtain hp | ⟨g', hp⟩ := hp <;> simp [ha] at hp

/-- **One login for each time to live**, in every reachable state: of two successful logins of a user
between which nobody has the user's connection dropped, the second comes to its connection at least a
time to live after the first; and a connection that a call finds in the store, on its first look or
under the lock, is not too old at that time. Between the answer that a login succeeds with and its
storing the connection, the login does not ask the remote side, so it does not break down there. -/
theorem one_login_per_ttl (settings : ConnectionSettings) (es : List Event) :
    let s := ((empty settings).run es).1
    (∀ user e₁ id₁ x₁ between e₂ id₂ x₂, s.Succeeds e₁ id₁ user x₁ →
      (((s.step e₁).1.run between).1).Succeeds e₂ id₂ user x₂ → Event.invalidate user ∉ between →
      (∀ message, Event.crash id₁ message ∉ between) →
        x₁.createdAt + settings.ttl ≤ x₂.createdAt) ∧
    ∀ id c x, s.calls.lookup id = some c → (c.phase = .arrived ∨ ∃ g, c.phase = .checking g) →
      (s.step (.resume id)).2 = some (id, .ok x) → s.now < x.createdAt + settings.ttl := by
  intro s
  obtain ⟨hs, -⟩ := (sound_empty settings).run es
  have hg : GatesOK s := gatesOK_run settings es
  refine ⟨?_, fun id c x hc hp hr => hs.unchanged ▸ young_of_found hc hp hr⟩
  intro user e₁ id₁ x₁ between e₂ id₂ x₂ h₁ h₂ hdrop hcrash
  have hs' := (hs.step e₁).1
  have hkept := h₁.kept.run (hg.step e₁) hs' hdrop hcrash
  have hold := hkept.old_of_succeeds ((hg.step e₁).run between) h₂
  rwa [(hs'.run between).1.unchanged] at hold

/-- A connection serves its user until the last moment of its time to live, and the next login comes
right after that. -/
theorem one_login_per_ttl_exactly :
    let settings : ConnectionSettings := ⟨1000, 4, 3, .zero⟩
    let alice : Credentials := ⟨"alice", "s3cret"⟩
    let companies : List Company := [⟨1, "Demo", []⟩]
    let asked (id : CallId) (session : Nat) : List Event := [.resume id, .resume id, .run id,
      .answer id (.opened (.ok session)), .answer id (.status (.ok .success))]
    let es : List Event := .call alice :: asked 0 7
    let success (id : CallId) : Event := .answer id (.companies (.ok (some companies)))
    let last : List Event := [.run 0, .resume 0, .advance 999, .call alice]
    let between : List Event := last ++ [.resume 1, .advance 1, .call alice] ++ asked 2 8
    let first : Entry := ⟨⟨7, companies⟩, 0⟩
    let second : Entry := ⟨⟨8, companies⟩, 1000⟩
    let s := ((empty settings).run es).1
    let t := ((empty settings).run (es ++ success 0 :: last)).1
    s.Succeeds (success 0) 0 alice first ∧
      (((s.step (success 0)).1.run between).1).Succeeds (success 2) 2 alice second ∧
      first.createdAt + settings.ttl ≤ second.createdAt ∧
      (t.step (.resume 1)).2 = some (1, .ok first) ∧ t.now < first.createdAt + settings.ttl := by
  intro settings alice companies asked es success last between first second s t
  have h₁ : s.Succeeds (success 0) 0 alice first :=
    ⟨⟨alice, 0, .asking ⟨1, .listing 7⟩⟩, _, _, rfl, by decide +kernel, rfl, rfl, rfl, by decide +kernel⟩
  have h₂ : (((s.step (success 0)).1.run between).1).Succeeds (success 2) 2 alice second :=
    ⟨⟨alice, 1, .asking ⟨1, .listing 8⟩⟩, _, _, rfl, by decide +kernel, rfl, rfl, rfl, by decide +kernel⟩
  have hret : (t.step (.resume 1)).2 = some (1, .ok first) := by decide +kernel
  have h := one_login_per_ttl settings es
  have h' := one_login_per_ttl settings (es ++ success 0 :: last)
  refine ⟨h₁, h₂, ?_, hret, ?_⟩
  · have hcalm : ∀ e ∈ between, (e matches .invalidate _ | .crash _ _) = false := by decide
    exact h.1 alice _ 0 first between _ 2 second h₁ h₂ (fun hm => by simpa using hcalm _ hm)
      fun message hm => by simpa using hcalm _ hm
  · have harrived : ∀ c : Option PendingCall, c.any (·.phase matches .arrived) = true →
        ∃ d, c = some d ∧ d.phase = .arrived := by
      rintro (_ | ⟨_, _, _ | _⟩) h <;> simp_all
    obtain ⟨c, hc, hp⟩ := harrived (t.calls.lookup 1) (by decide +kernel)
    exact h'.2 1 c first hc (.inl hp) hret

end LedgerFront.Cache
