import LedgerFront.Proofs.Connection.Record
import LedgerFront.Proofs.Connection.TimeToLive

/-!
# What is counted

A call is counted when it looks at the store for the first time, as a hit or as a miss, and a login
when it comes to a connection.

* `firstLook`, `obtains`: what is counted in a step.
* `Tally.step`, `Tally.run`: the counters count just that, and no connection is stored that was not counted.
* `returned_of_hit`: a hit is returned.
-/

namespace LedgerFront.Cache

open Pairs

variable {s s' : Cache} {settings : ConnectionSettings} {id : CallId}
  {looks : List (CallId × Option Entry)} {won : List CallId}

/-! ## What is counted -/

/-- The call that looks at the store for the first time in this event, and what it finds. -/
def firstLook (s : Cache) : Event → List (CallId × Option Entry)
  | .resume id =>
    match s.calls.lookup id with
    | some ⟨user, _, .arrived⟩ => [(id, s.fresh? user)]
    | _ => []
  | _ => []

/-- The login that comes to a connection in this event. -/
def obtains (s : Cache) : Event → List CallId
  | .answer id a =>
    match s.tasks.lookup id with
    | some ⟨_, _, .asking l⟩ =>
      match l.receive s.settings.loginAttempts a with
      | .finished (.ok _) => [id]
      | _ => []
    | _ => []
  | _ => []

theorem firstLook_absent (hc : s.calls.lookup id = none) : s.firstLook (.resume id) = [] := by
  simp only [firstLook, hc]

theorem firstLook_arrived {c : PendingCall} (hc : s.calls.lookup id = some c) (hp : c.phase = .arrived) :
    s.firstLook (.resume id) = [(id, s.fresh? c.user)] := by
  obtain ⟨user, cancelled, phase⟩ := c
  obtain rfl : phase = .arrived := hp
  simp only [firstLook, hc]

theorem firstLook_later {c : PendingCall} (hc : s.calls.lookup id = some c) (hp : c.phase ≠ .arrived) :
    s.firstLook (.resume id) = [] := by
  obtain ⟨user, cancelled, phase⟩ := c
  cases phase with
  | arrived => exact absurd rfl hp
  | _ => simp only [firstLook, hc]

theorem obtains_of_not_asking {a : Login.Answer}
    (h : ∀ t l, s.tasks.lookup id = some t → t.phase ≠ .asking l) : s.obtains (.answer id a) = [] := by
  cases ht : s.tasks.lookup id with
  | none => simp only [obtains, ht]
  | some t =>
    obtain ⟨user, g, phase⟩ := t
    cases phase with
    | asking l => exact absurd rfl (h _ l ht)
    | _ => simp only [obtains, ht]

theorem obtains_of_not_ok {a : Login.Answer} {t : LoginTask} {l : Login}
    (ht : s.tasks.lookup id = some t) (hp : t.phase = .asking l)
    (hr : ∀ c, l.receive s.settings.loginAttempts a ≠ .finished (.ok c)) :
    s.obtains (.answer id a) = [] := by
  obtain ⟨user, g, phase⟩ := t
  obtain rfl : phase = .asking l := hp
  simp only [obtains, ht]

theorem obtains_of_ok {a : Login.Answer} {t : LoginTask} {l : Login} {c : Connected}
    (ht : s.tasks.lookup id = some t) (hp : t.phase = .asking l)
    (hr : l.receive s.settings.loginAttempts a = .finished (.ok c)) :
    s.obtains (.answer id a) = [id] := by
  obtain ⟨user, g, phase⟩ := t
  obtain rfl : phase = .asking l := hp
  simp only [obtains, ht, hr]

/-- What an event looks up is the user of a call that has arrived. -/
theorem firstLook_cases (s : Cache) (e : Event) :
    s.firstLook e = [] ∨ ∃ id c, e = .resume id ∧ s.calls.lookup id = some c ∧ c.phase = .arrived ∧
      s.firstLook e = [(id, s.fresh? c.user)] := by
  cases e with
  | resume id =>
    cases hc : s.calls.lookup id with
    | none => exact .inl (firstLook_absent hc)
    | some c =>
      by_cases hp : c.phase = .arrived
      · exact .inr ⟨id, c, rfl, hc, hp, firstLook_arrived hc hp⟩
      · exact .inl (firstLook_later hc hp)
  | _ => exact .inl rfl

/-- What an event brings a connection is a login that waits for an answer. -/
theorem obtains_cases (s : Cache) (e : Event) :
    s.obtains e = [] ∨ ∃ id a t l c, e = .answer id a ∧ s.tasks.lookup id = some t ∧
      t.phase = .asking l ∧ l.receive s.settings.loginAttempts a = .finished (.ok c) ∧
      s.obtains e = [id] := by
  cases e with
  | answer id a =>
    by_cases hasks : ∃ t l, s.tasks.lookup id = some t ∧ t.phase = .asking l
    · obtain ⟨t, l, ht, hp⟩ := hasks
      by_cases hr : ∃ c, l.receive s.settings.loginAttempts a = .finished (.ok c)
      · obtain ⟨c, hr⟩ := hr
        exact .inr ⟨id, a, t, l, c, rfl, ht, hp, hr, obtains_of_ok ht hp hr⟩
      · exact .inl (obtains_of_not_ok ht hp (not_exists.1 hr))
    · refine .inl (obtains_of_not_asking fun t l ht hp => hasks ⟨t, l, ht, hp⟩)
  | _ => exact .inl rfl

/-- The logins that are counted are those that succeed. -/
theorem mem_obtains {e : Event} : id ∈ s.obtains e ↔ ∃ user x, s.Succeeds e id user x := by
  constructor
  · intro hid
    rcases s.obtains_cases e with hnone | ⟨i, a, t, l, c, rfl, ht, hp, hr, hone⟩
    · simp [hnone] at hid
    · obtain rfl : id = i := by simpa [hone] using hid
      exact ⟨t.user, ⟨c, s.now⟩, t, l, a, rfl, ht, rfl, hp, hr, rfl⟩
  · rintro ⟨user, x, t, l, a, rfl, ht, -, hp, hr, -⟩
    simp [obtains_of_ok ht hp hr]

/-- **A hit is returned.** -/
theorem returned_of_hit {e : Event} {found : Entry} (h : (id, some found) ∈ s.firstLook e) :
    (s.step e).2 = some (id, .ok found) := by
  rcases s.firstLook_cases e with hnone | ⟨i, c, rfl, hc, hp, hone⟩
  · simp [hnone] at h
  · obtain ⟨rfl, hf⟩ : id = i ∧ some found = s.fresh? c.user := by simpa [hone] using h
    simp only [step, Cache.resume, hc, hp, Cache.lookUp, ← hf]

/-- What the events of a run add up to, in their order. -/
def gather {α : Type} (f : Cache → Event → List α) (s : Cache) : List Event → List α
  | [] => []
  | e :: es => f s e ++ gather f (s.step e).1 es

/-- A login that is about to store its connection. -/
def isStoring (p : CallId × LoginTask) : Bool := p.2.phase matches .storing _

/-- The counters show these first looks and these logins, and each connection that is stored or about to
be stored is one of a login. -/
structure Tally (looks : List (CallId × Option Entry)) (won : List CallId) (s : Cache) : Prop where
  hits : s.hits = looks.countP (·.2.isSome)
  misses : s.misses = looks.countP (·.2.isNone)
  logins : s.logins = won.length
  stored : s.entries.length + s.tasks.countP isStoring ≤ won.length

/-! ## Counting pairs -/

section

variable {κ α : Type} [DecidableEq κ]

theorem countP_put_le (p : κ × α → Bool) (k : κ) (x : α) (l : List (κ × α)) :
    (put k x l).countP p ≤ l.countP p + if p (k, x) then 1 else 0 := by
  induction l with
  | nil => simp [put, List.countP_cons]
  | cons q l ih =>
    obtain ⟨j, y⟩ := q
    by_cases hj : j = k
    · simp only [put, hj, if_true, List.countP_cons]
      omega
    · simp only [put, hj, if_false, List.countP_cons]
      omega

theorem countP_erase_le (p : κ × α → Bool) (k : κ) (l : List (κ × α)) :
    (erase k l).countP p ≤ l.countP p :=
  List.Sublist.countP_le List.filter_sublist

/-- A pair that is counted and goes is one less. -/
theorem countP_erase_lt {p : κ × α → Bool} {k : κ} {x : α} {l : List (κ × α)}
    (hx : l.lookup k = some x) (hp : p (k, x) = true) : (erase k l).countP p + 1 ≤ l.countP p := by
  induction l with
  | nil => simp at hx
  | cons q l ih =>
    obtain ⟨j, y⟩ := q
    rw [lookup_cons_ite] at hx
    by_cases hj : k = j
    · subst hj
      rw [if_pos rfl] at hx
      obtain rfl := Option.some.inj hx
      have herase : erase k ((k, y) :: l) = erase k l := by simp [erase]
      have hle := countP_erase_le p k l
      rw [herase, List.countP_cons, if_pos hp]
      omega
    · rw [if_neg hj] at hx
      have herase : erase k ((j, y) :: l) = (j, y) :: erase k l := by simp [erase, Ne.symm hj]
      have hlt := ih hx
      rw [herase, List.countP_cons, List.countP_cons]
      omega

theorem length_put_le (k : κ) (x : α) (l : List (κ × α)) : (put k x l).length ≤ l.length + 1 := by
  have h := countP_put_le (fun _ => true) k x l
  simpa using h

theorem length_erase_le (k : κ) (l : List (κ × α)) : (erase k l).length ≤ l.length :=
  List.length_filter_le _ _

end

/-! ## The counters in a step -/

namespace Tally

theorem empty (settings : ConnectionSettings) : Tally [] [] (Cache.empty settings) :=
  ⟨rfl, rfl, rfl, Nat.le_refl _⟩

/-- Nothing is counted, and nothing is stored that was not about to be stored. -/
theorem quiet (h : Tally looks won s) (hhits : s'.hits = s.hits) (hmisses : s'.misses = s.misses)
    (hlogins : s'.logins = s.logins)
    (hstored : s'.entries.length + s'.tasks.countP isStoring ≤
      s.entries.length + s.tasks.countP isStoring) : Tally looks won s' where
  hits := hhits.trans h.hits
  misses := hmisses.trans h.misses
  logins := hlogins.trans h.logins
  stored := Nat.le_trans hstored h.stored

theorem aside (h : Tally looks won s) (ha : Aside s s') : Tally looks won s' :=
  h.quiet ha.hits ha.misses ha.logins (Nat.le_of_eq (by rw [ha.entries, ha.tasks]))

/-- The first look of a call is counted. -/
theorem lookUp (h : Tally looks won s) (c : PendingCall) :
    Tally (looks ++ [(id, s.fresh? c.user)]) won (Cache.lookUp id c s).1 := by
  unfold Cache.lookUp
  cases hf : s.fresh? c.user with
  | some e =>
    refine ⟨?_, ?_, h.logins, h.stored⟩
    · simp [List.countP_append, h.hits]
    · simp [List.countP_append, h.misses]
  | none =>
    have hmiss : Tally (looks ++ [(id, none)]) won { s with misses := s.misses + 1 } := by
      refine ⟨?_, ?_, h.logins, h.stored⟩
      · simp [List.countP_append, h.hits]
      · simp [List.countP_append, h.misses]
    exact hmiss.aside (.enqueue id c _)

/-- A login that has nothing to store may come or go on. -/
theorem putTask (h : Tally looks won s) {t : LoginTask} (ht : isStoring (id, t) = false) :
    Tally looks won { s with tasks := put id t s.tasks } := by
  have hput := countP_put_le isStoring id t s.tasks
  rw [ht] at hput
  exact h.quiet rfl rfl rfl (Nat.add_le_add_left hput _)

/-- A login may end. -/
theorem eraseTask (h : Tally looks won s) (id : CallId) :
    Tally looks won { s with tasks := erase id s.tasks } :=
  h.quiet rfl rfl rfl (Nat.add_le_add_left (countP_erase_le isStoring id s.tasks) _)

/-- A login that starts has nothing to store yet. -/
theorem check (h : Tally looks won s) (c : PendingCall) (g : GateId) :
    Tally looks won (Cache.check id c g s).1 := by
  unfold Cache.check
  split
  · exact h.aside ((Aside.setGate g _ s).trans (.leave id c.user g _))
  · have hspawned : Tally looks won { s with tasks := put id ⟨c.user, g, .spawned⟩ s.tasks } :=
      h.putTask rfl
    exact hspawned.aside (.join id c g _)

/-- **A call goes on**, and is counted if it does so for the first time. -/
theorem resume (h : Tally looks won s) (id : CallId) :
    Tally (looks ++ s.firstLook (.resume id)) won (Cache.resume id s).1 := by
  unfold Cache.resume
  cases hc : s.calls.lookup id with
  | none =>
    rw [firstLook_absent hc, List.append_nil]
    exact h
  | some c =>
    dsimp only
    cases hp : c.phase with
    | arrived =>
      rw [firstLook_arrived hc hp]
      exact h.lookUp c
    | queued g =>
      rw [firstLook_later hc (by simp [hp]), List.append_nil]
      exact h.aside (.proceed id c g s)
    | checking g =>
      rw [firstLook_later hc (by simp [hp]), List.append_nil]
      exact h.check c g
    | joined g =>
      rw [firstLook_later hc (by simp [hp]), List.append_nil]
      exact h.aside (.join id c g s)
    | answered g outcome =>
      rw [firstLook_later hc (by simp [hp]), List.append_nil]
      dsimp only
      split <;> exact h.aside (.leave id c.user g s)

/-- A login that ends is no longer about to store anything. -/
theorem endTask (h : Tally looks won { s with tasks := erase id s.tasks }) (t : LoginTask)
    (outcome : Outcome) : Tally looks won (Cache.endTask id t outcome s) :=
  h.aside (.endTask id t outcome s)

/-- A login goes on without a connection. -/
theorem advanceTask (h : Tally looks won s) (t : LoginTask) {p : Login.Progress}
    (hp : ∀ c, p ≠ .finished (.ok c)) : Tally looks won (Cache.advanceTask id t p s) := by
  unfold Cache.advanceTask
  split
  · exact h.putTask rfl
  · rename_i c
    exact absurd rfl (hp c)
  · rename_i e
    exact (h.eraseTask id).endTask t (.error e)

/-- A login stores its connection: there is one more in the store and one less about to be stored. -/
theorem runTask (h : Tally looks won s) (id : CallId) : Tally looks won (Cache.runTask id s) := by
  unfold Cache.runTask
  cases ht : s.tasks.lookup id with
  | none => exact h
  | some t =>
    dsimp only
    cases hp : t.phase with
    | spawned => exact h.advanceTask t fun _ => Login.start_ne_ok
    | asking l => exact h
    | storing e =>
      -- what is stored goes up by one at most, what is about to be stored goes down by one
      have hput := length_put_le t.user e s.entries
      have herase := countP_erase_lt (p := isStoring) ht (by simp [isStoring, hp])
      have hstored : Tally looks won
          { s with entries := put t.user e s.entries, tasks := erase id s.tasks } := by
        refine h.quiet rfl rfl rfl ?_
        dsimp only
        omega
      exact hstored.endTask (s := { s with entries := put t.user e s.entries }) t (.ok e)

/-- **A login gets an answer**, and is counted if that is the last one that it needs. -/
theorem answerTask (h : Tally looks won s) (id : CallId) (a : Login.Answer) :
    Tally looks (won ++ s.obtains (.answer id a)) (Cache.answerTask id a s) := by
  unfold Cache.answerTask
  cases ht : s.tasks.lookup id with
  | none =>
    rw [obtains_of_not_asking fun t l ht' => by simp [ht] at ht', List.append_nil]
    exact h
  | some t =>
    dsimp only
    cases hp : t.phase with
    | spawned =>
      rw [obtains_of_not_asking fun u l hu => by
        obtain rfl := Option.some.inj (ht.symm.trans hu)
        simp [hp], List.append_nil]
      exact h
    | storing e =>
      rw [obtains_of_not_asking fun u l hu => by
        obtain rfl := Option.some.inj (ht.symm.trans hu)
        simp [hp], List.append_nil]
      exact h
    | asking l =>
      dsimp only
      cases hr : l.receive s.settings.loginAttempts a with
      | waiting l' =>
        rw [obtains_of_not_ok ht hp (by simp [hr]), List.append_nil]
        exact h.advanceTask t (by simp)
      | finished r =>
        cases r with
        | error e =>
          rw [obtains_of_not_ok ht hp (by simp [hr]), List.append_nil]
          exact h.advanceTask t (by simp)
        | ok c =>
          -- the login is counted now, so that its connection is paid for when it is stored
          rw [obtains_of_ok ht hp hr]
          have hput := countP_put_le isStoring id
            ({ t with phase := .storing ⟨c, s.now⟩ } : LoginTask) s.tasks
          have hone : (if isStoring (id, { t with phase := .storing ⟨c, s.now⟩ }) = true then 1 else 0) = 1 :=
            rfl
          have hstored := h.stored
          refine ⟨h.hits, h.misses, ?_, ?_⟩
          · simp [Cache.advanceTask, h.logins]
          · simp only [Cache.advanceTask, List.length_append, List.length_singleton]
            omega

theorem crashTask (h : Tally looks won s) (id : CallId) (message : String) :
    Tally looks won (Cache.crashTask id message s) := by
  unfold Cache.crashTask
  split
  · exact h
  · rename_i t ht
    exact (h.eraseTask id).aside (.crash id t _ s)

/-- Connections may be dropped. -/
theorem eraseEntry (h : Tally looks won s) (user : Credentials) :
    Tally looks won { s with entries := erase user s.entries } :=
  h.quiet rfl rfl rfl (Nat.add_le_add_right (length_erase_le user s.entries) _)

/-- **A step** counts what happens in it. -/
theorem step (h : Tally looks won s) (e : Event) :
    Tally (looks ++ s.firstLook e) (won ++ s.obtains e) (s.step e).1 := by
  have hnothing : Tally (looks ++ []) (won ++ []) s := by simpa using h
  cases e with
  | call user => exact hnothing.quiet rfl rfl rfl (Nat.le_refl _)
  | resume id =>
    have hresume := h.resume id
    rwa [← List.append_nil won] at hresume
  | cancel id => exact hnothing.aside (.cancelCall id s)
  | drop id => exact hnothing.aside (.dropCall id s)
  | run id => exact hnothing.runTask id
  | answer id a =>
    have hanswer := h.answerTask id a
    rwa [← List.append_nil looks] at hanswer
  | crash id message => exact hnothing.crashTask id message
  | invalidate user => exact hnothing.eraseEntry user
  | expire user =>
    simp only [Cache.step, expire]
    split
    · exact hnothing
    · exact hnothing.eraseEntry user
  | advance ms => exact hnothing.quiet rfl rfl rfl (Nat.le_refl _)

end Tally

/-! ## A run -/

theorem Tally.run (h : Tally looks won s) (es : List Event) :
    Tally (looks ++ gather firstLook s es) (won ++ gather obtains s es) (s.run es).1 := by
  -- what has been counted is moved along from the front of the run
  induction es generalizing s looks won with
  | nil => simpa [gather, Cache.run] using h
  | cons e es ih =>
    have hrest := ih (h.step e)
    rwa [List.append_assoc, List.append_assoc] at hrest

/-- Each hit of a run has been returned. -/
theorem returned_of_hit_run {es : List Event} {found : Entry}
    (h : (id, some found) ∈ gather firstLook s es) : (id, .ok found) ∈ (s.run es).2 := by
  induction es generalizing s with
  | nil => simp [gather] at h
  | cons e es ih =>
    refine List.mem_append.2 ?_
    rcases List.mem_append.1 h with hnow | hlater
    · have hreturned : (s.step e).2 = some (id, .ok found) := returned_of_hit hnow
      exact .inl (Option.mem_toList.2 hreturned)
    · exact .inr (ih hlater)

end LedgerFront.Cache
