import LedgerFront.Proofs.Filter.Fetch
import LedgerFront.Proofs.Memory.Writes

/-!
# What calls change

Sessions and the count of logins apart, the in-memory side changes only by a write
that it reports as a success. A dialogue can therefore be looked at call by call:
it changes the data only if it comes to an outcome that says so.

* `Memory.SameData`: the same tables and counters.
* `Memory.answer_sameData`: a call, by its reply.
* `Talk.Changes`: a dialogue, by its result, with `bind`, `andThen` and `ask`.
-/

namespace LedgerFront

namespace Memory

/-- The same accounts, companies, tables and numbers; sessions and logins may differ. -/
structure SameData (m m' : Memory) : Prop where
  accounts : m'.accounts = m.accounts
  companies : m'.companies = m.companies
  tables : m'.tables = m.tables
  lastRowId : m'.lastRowId = m.lastRowId
  lastDocument : m'.lastDocument = m.lastDocument

theorem SameData.refl (m : Memory) : SameData m m := ⟨rfl, rfl, rfl, rfl, rfl⟩

theorem SameData.trans {m m' m'' : Memory} (h : SameData m m') (h' : SameData m' m'') :
    SameData m m'' :=
  ⟨h'.accounts.trans h.accounts, h'.companies.trans h.companies, h'.tables.trans h.tables,
    h'.lastRowId.trans h.lastRowId, h'.lastDocument.trans h.lastDocument⟩

variable {m m' : Memory}

/-- **A call** changes the data only if its answer says so. -/
theorem answer_sameData {session : Nat} {c : Call} {reply : Reply c}
    (h : m.answer session c = .ok (reply, m')) : SameData m m' ∨ ∃ a, reply = .ok a ∧ c.Wrote a := by
  obtain ⟨_, _, _, _, rfl⟩ | ⟨-, rfl⟩ | ⟨-, _, a, -, -, rfl, ha⟩ := answer_cases h
  · exact .inl ⟨rfl, rfl, rfl, rfl, rfl⟩
  · exact .inl (.refl _)
  · exact .inr ⟨a, rfl, ha⟩

end Memory

namespace Talk

open Memory

variable {α β : Type}

/-- The dialogue changes the data only if it comes to a value with `done`. -/
def Changes (t : Talk α) (done : α → Prop) : Prop :=
  ∀ session m x m', t.run.run Memory.remote session m = .ok (x, m') →
    SameData m m' ∨ ∃ a, x = .ok a ∧ done a

/-- The dialogue changes no data. -/
abbrev Reads (t : Talk α) : Prop := Changes t fun _ => False

theorem Changes.sameData {t : Talk α} {done : α → Prop} (h : Changes t done) {session : Nat}
    {m m' : Memory} {e : RequestError}
    (hr : t.run.run Memory.remote session m = .ok (.error e, m')) : SameData m m' := by
  obtain hs | ⟨_, ha, _⟩ := h session m _ m' hr
  · exact hs
  · simp at ha

theorem Reads.sameData {t : Talk α} (h : Reads t) {session : Nat} {m m' : Memory}
    {x : Except RequestError α} (hr : t.run.run Memory.remote session m = .ok (x, m')) :
    SameData m m' := by
  obtain hs | ⟨_, _, hfalse⟩ := h session m x m' hr
  · exact hs
  · exact hfalse.elim

theorem Reads.changes {t : Talk α} (h : Reads t) (done : α → Prop) : Changes t done :=
  fun _ _ _ _ hr => .inl (h.sameData hr)

theorem reads_ofExcept (e : Except RequestError α) : Reads (Talk.ofExcept e) := by
  intro session m x m' hr
  obtain ⟨_, rfl⟩ := Prod.mk.inj (Except.ok.inj hr)
  exact .inl (.refl m)

theorem reads_pure (a : α) : Reads (pure a) := reads_ofExcept (.ok a)

theorem reads_throw (e : RequestError) : Reads (throw e : Talk α) := reads_ofExcept (.error e)

theorem reads_ofRun (r : Run α) : Reads (Talk.ofRun r) := by
  intro session m x m' hr
  rw [run_ofRun] at hr
  cases r with
  | error why => simp [Except.map] at hr
  | ok a =>
    obtain ⟨_, rfl⟩ := Prod.mk.inj (Except.ok.inj hr)
    exact .inl (.refl m)

theorem reads_expectSuccess (s : Status) : Reads (Talk.expectSuccess s) := by
  unfold expectSuccess
  split
  · exact reads_pure ()
  · exact reads_throw _

theorem changes_ask (c : Call) : Changes (Talk.ask c) c.Wrote := by
  intro session m x m' hr
  rw [run_ask] at hr
  cases hc : Memory.remote.call session c m with
  | error why => simp [hc, Except.map] at hr
  | ok p =>
    obtain ⟨reply, m''⟩ := p
    obtain ⟨rfl, rfl⟩ : reply.mapError RequestError.ofRemote = x ∧ m'' = m' := by
      simpa [hc, Except.map] using hr
    refine (answer_sameData hc).imp_right ?_
    rintro ⟨a, rfl, ha⟩
    exact ⟨a, rfl, ha⟩

/-- **One dialogue after the other.** If the first one has changed the data, the second one must end
at once, with a value that says so. -/
theorem Changes.andThen {t : Talk α} {f : α → Talk β} {wrote : α → Prop} {done : β → Prop}
    (ht : Changes t wrote) (hf : ∀ a, Changes (f a) done)
    (hend : ∀ a, wrote a → ∃ b, f a = pure b ∧ done b) : Changes (t >>= f) done := by
  intro session m x m' hr
  rw [run_bind] at hr
  obtain ⟨⟨y, m₁⟩, hrt, hr⟩ := bind_eq_ok.1 hr
  cases y with
  | error e =>
    obtain ⟨_, rfl⟩ := Prod.mk.inj (Except.ok.inj hr)
    exact .inl (ht.sameData hrt)
  | ok a =>
    obtain hs | ⟨_, ha, hwrote⟩ := ht session m _ m₁ hrt
    · exact (hf a session m₁ x m' hr).imp_left hs.trans
    · obtain rfl := Except.ok.inj ha
      obtain ⟨b, hb, hdone⟩ := hend a hwrote
      have hrb : (pure b : Talk β).run.run Memory.remote session m₁ = .ok (x, m') := hb ▸ hr
      obtain ⟨rfl, _⟩ := Prod.mk.inj (Except.ok.inj hrb)
      exact .inr ⟨b, rfl, hdone⟩

/-- A dialogue after one that changes nothing. -/
theorem Reads.bind {t : Talk α} {f : α → Talk β} {done : β → Prop} (ht : Reads t)
    (hf : ∀ a, Changes (f a) done) : Changes (t >>= f) done :=
  Changes.andThen ht hf fun _ h => h.elim

end Talk

end LedgerFront
