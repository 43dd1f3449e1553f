import LedgerFront.Proofs.Refusal
import LedgerFront.Server.Service

/-!
# Transcripts of dialogues

What a dialogue asks depends on the replies before, whoever gives them. A
transcript lists the calls that were made with their replies, so a statement about
all transcripts holds whatever the remote side answers.

* `Dialogue.Asks`: the call that a dialogue makes after a transcript.
* `Dialogue.Ends`: the result that a dialogue comes to with a transcript.
* `Dialogue.asks_of_calls`: all calls that are made to some remote side are such calls.
* `Talk.asks_bind`, `Talk.ends_bind`: both for a dialogue that goes on with another one.
-/

namespace LedgerFront

namespace Dialogue

variable {α β : Type}

/-- With these exchanges the dialogue comes to its end. -/
inductive Ends : Dialogue α → List Exchange → α → Prop where
  | done (a : α) : Ends (done a) [] a
  | ask {c : Call} {next : Reply c → Dialogue α} {reply : Reply c} {log : List Exchange} {a : α}
      (h : Ends (next reply) log a) : Ends (ask c next) (⟨c, reply⟩ :: log) a

/-- After these exchanges the dialogue makes the call. -/
inductive Asks : Dialogue α → List Exchange → Call → Prop where
  | now (c : Call) (next : Reply c → Dialogue α) : Asks (ask c next) [] c
  | later {c : Call} {next : Reply c → Dialogue α} {reply : Reply c} {log : List Exchange} {d : Call}
      (h : Asks (next reply) log d) : Asks (ask c next) (⟨c, reply⟩ :: log) d

theorem ends_done {a b : α} {log : List Exchange} : Ends (done a) log b ↔ log = [] ∧ a = b := by
  constructor
  · rintro ⟨_⟩
    exact ⟨rfl, rfl⟩
  · rintro ⟨rfl, rfl⟩
    exact .done a

theorem not_ends_abort {why : Abort} {log : List Exchange} {a : α} :
    ¬ Ends (abort why : Dialogue α) log a := nofun

theorem not_asks_done {a : α} {log : List Exchange} {c : Call} : ¬ Asks (done a) log c := nofun

theorem not_asks_abort {why : Abort} {log : List Exchange} {c : Call} :
    ¬ Asks (abort why : Dialogue α) log c := nofun

theorem ends_ask {c : Call} {next : Reply c → Dialogue α} {log : List Exchange} {a : α} :
    Ends (ask c next) log a ↔ ∃ reply rest, log = ⟨c, reply⟩ :: rest ∧ Ends (next reply) rest a := by
  constructor
  · intro h
    cases h with
    | ask h => exact ⟨_, _, rfl, h⟩
  · rintro ⟨reply, rest, rfl, h⟩
    exact .ask h

theorem asks_ask {d c : Call} {next : Reply d → Dialogue α} {log : List Exchange} :
    Asks (ask d next) log c ↔ (log = [] ∧ c = d) ∨
      ∃ reply rest, log = ⟨d, reply⟩ :: rest ∧ Asks (next reply) rest c := by
  constructor
  · intro h
    cases h with
    | now => exact .inl ⟨rfl, rfl⟩
    | later h => exact .inr ⟨_, _, rfl, h⟩
  · rintro (⟨rfl, rfl⟩ | ⟨reply, rest, rfl, h⟩)
    · exact .now _ next
    · exact .later h

theorem ends_bind {d : Dialogue α} {f : α → Dialogue β} {log : List Exchange} {b : β} :
    Ends (d >>= f) log b ↔ ∃ log₁ log₂ a, log = log₁ ++ log₂ ∧ Ends d log₁ a ∧ Ends (f a) log₂ b := by
  change Ends (d.bind f) log b ↔ _
  induction d generalizing log with
  | done a =>
    constructor
    · intro h
      exact ⟨[], log, a, rfl, .done a, h⟩
    · rintro ⟨log₁, log₂, a', rfl, ha, h⟩
      obtain ⟨rfl, rfl⟩ := ends_done.1 ha
      exact h
  | abort why => simp [Dialogue.bind, not_ends_abort]
  | ask c next ih =>
    simp only [Dialogue.bind, ends_ask, ih]
    constructor
    · rintro ⟨reply, rest, rfl, log₁, log₂, a, rfl, ha, hb⟩
      exact ⟨⟨c, reply⟩ :: log₁, log₂, a, rfl, ⟨reply, log₁, rfl, ha⟩, hb⟩
    · rintro ⟨_, log₂, a, rfl, ⟨reply, log₁, rfl, ha⟩, hb⟩
      exact ⟨reply, log₁ ++ log₂, rfl, log₁, log₂, a, rfl, ha, hb⟩

theorem asks_bind {d : Dialogue α} {f : α → Dialogue β} {log : List Exchange} {c : Call} :
    Asks (d >>= f) log c ↔ Asks d log c ∨
      ∃ log₁ log₂ a, log = log₁ ++ log₂ ∧ Ends d log₁ a ∧ Asks (f a) log₂ c := by
  change Asks (d.bind f) log c ↔ _
  induction d generalizing log with
  | done a =>
    constructor
    · intro h
      exact .inr ⟨[], log, a, rfl, .done a, h⟩
    · rintro (h | ⟨log₁, log₂, a', rfl, ha, h⟩)
      · exact absurd h not_asks_done
      · obtain ⟨rfl, rfl⟩ := ends_done.1 ha
        exact h
  | abort why => simp [Dialogue.bind, not_ends_abort, not_asks_abort]
  | ask e next ih =>
    simp only [Dialogue.bind, ends_ask, asks_ask, ih]
    constructor
    · rintro (h | ⟨reply, rest, rfl, h | ⟨log₁, log₂, a, rfl, ha, hc⟩⟩)
      · exact .inl (.inl h)
      · exact .inl (.inr ⟨reply, rest, rfl, h⟩)
      · exact .inr ⟨⟨e, reply⟩ :: log₁, log₂, a, rfl, ⟨reply, log₁, rfl, ha⟩, hc⟩
    · rintro ((h | ⟨reply, rest, rfl, h⟩) | ⟨_, log₂, a, rfl, ⟨reply, log₁, rfl, ha⟩, hc⟩)
      · exact .inl h
      · exact .inr ⟨reply, rest, rfl, .inl h⟩
      · exact .inr ⟨reply, log₁ ++ log₂, rfl, .inr ⟨log₁, log₂, a, rfl, ha, hc⟩⟩

section

variable {σ : Type} (remote : Remote σ) (session : Nat)

/-- The calls that are made when a dialogue is carried out in a session, also the one in which the
program stops. -/
def calls : Dialogue α → σ → List Call
  | done _, _ => []
  | abort _, _ => []
  | ask c next, s =>
    c :: match remote.call session c s with
      | .ok (reply, s) => (next reply).calls s
      | .error _ => []

/-- The calls of a dialogue that goes on with another one. -/
theorem calls_bind {d : Dialogue α} {f : α → Dialogue β} {s s' : σ} {a : α}
    (h : d.run remote session s = .ok (a, s')) : (d >>= f).calls remote session s =
      d.calls remote session s ++ (f a).calls remote session s' := by
  change (d.bind f).calls remote session s = _
  induction d generalizing s with
  | done b =>
    obtain ⟨rfl, rfl⟩ := Prod.mk.inj (Except.ok.inj h)
    rfl
  | abort why => simp [run] at h
  | ask c next ih =>
    obtain ⟨⟨reply, s₁⟩, hcall, h⟩ := bind_eq_ok.1 h
    simp only [Dialogue.bind, calls, hcall, ih reply h, List.cons_append]

/-- What makes no calls adds none. -/
theorem calls_bind_of_silent {d : Dialogue α} {f : α → Dialogue β}
    (hf : ∀ a s, (f a).calls remote session s = []) (s : σ) :
    (d >>= f).calls remote session s = d.calls remote session s := by
  change (d.bind f).calls remote session s = _
  induction d generalizing s with
  | done a => exact hf a s
  | abort why => rfl
  | ask c next ih =>
    simp only [Dialogue.bind, calls]
    split
    · rw [ih]
    · rfl

end

end Dialogue

namespace Talk

open Dialogue

variable {α β : Type} {log : List Exchange} {c : Call}

/-- With these exchanges the dialogue comes to a value, not to a refusal. -/
abbrev Ends (t : Talk α) (log : List Exchange) (a : α) : Prop := Dialogue.Ends t.run log (.ok a)

/-- After these exchanges the dialogue makes the call. -/
abbrev Asks (t : Talk α) (log : List Exchange) (c : Call) : Prop := Dialogue.Asks t.run log c

theorem ends_bind {t : Talk α} {f : α → Talk β} {b : β} :
    Ends (t >>= f) log b ↔ ∃ log₁ log₂ a, log = log₁ ++ log₂ ∧ Ends t log₁ a ∧ Ends (f a) log₂ b := by
  change Dialogue.Ends (ExceptT.run t >>= ExceptT.bindCont f) log (.ok b) ↔ _
  rw [Dialogue.ends_bind]
  constructor
  · rintro ⟨log₁, log₂, e | a, hlog, ha, hb⟩
    · exact absurd (Dialogue.ends_done.1 hb).2 (by simp)
    · exact ⟨log₁, log₂, a, hlog, ha, hb⟩
  · rintro ⟨log₁, log₂, a, hlog, ha, hb⟩
    exact ⟨log₁, log₂, .ok a, hlog, ha, hb⟩

theorem asks_bind {t : Talk α} {f : α → Talk β} :
    Asks (t >>= f) log c ↔ Asks t log c ∨
      ∃ log₁ log₂ a, log = log₁ ++ log₂ ∧ Ends t log₁ a ∧ Asks (f a) log₂ c := by
  change Dialogue.Asks (ExceptT.run t >>= ExceptT.bindCont f) log c ↔ _
  rw [Dialogue.asks_bind]
  refine or_congr Iff.rfl ?_
  constructor
  · rintro ⟨log₁, log₂, e | a, hlog, ha, hc⟩
    · exact absurd hc Dialogue.not_asks_done
    · exact ⟨log₁, log₂, a, hlog, ha, hc⟩
  · rintro ⟨log₁, log₂, a, hlog, ha, hc⟩
    exact ⟨log₁, log₂, .ok a, hlog, ha, hc⟩

theorem not_asks_pure {a : α} : ¬ Asks (pure a) log c := Dialogue.not_asks_done

theorem ends_ofExcept {e : Except RequestError α} {a : α} :
    Ends (Talk.ofExcept e) log a ↔ log = [] ∧ e = .ok a := Dialogue.ends_done

theorem not_asks_ofExcept {e : Except RequestError α} : ¬ Asks (Talk.ofExcept e) log c :=
  Dialogue.not_asks_done

theorem ends_ofRun {r : Run α} {a : α} : Ends (Talk.ofRun r) log a ↔ log = [] ∧ r = .ok a := by
  cases r with
  | error why => exact ⟨fun h => absurd h Dialogue.not_ends_abort, fun h => absurd h.2 (by simp)⟩
  | ok b => exact Dialogue.ends_done.trans (by simp)

theorem not_asks_ofRun {r : Run α} : ¬ Asks (Talk.ofRun r) log c := by
  cases r with
  | error why => exact Dialogue.not_asks_abort
  | ok b => exact Dialogue.not_asks_done

theorem ends_ask {a : c.Answer} : Ends (Talk.ask c) log a ↔ log = [⟨c, .ok a⟩] := by
  refine Dialogue.ends_ask.trans ?_
  constructor
  · rintro ⟨reply, rest, rfl, h⟩
    obtain ⟨rfl, ha⟩ := Dialogue.ends_done.1 h
    obtain rfl := mapError_eq_ok.1 ha
    rfl
  · rintro rfl
    exact ⟨.ok a, [], rfl, .done _⟩

theorem asks_ask {d : Call} : Asks (Talk.ask d) log c ↔ log = [] ∧ c = d := by
  refine Dialogue.asks_ask.trans (or_iff_left ?_)
  rintro ⟨reply, rest, -, h⟩
  exact Dialogue.not_asks_done h

theorem not_asks_expectSuccess {s : Status} : ¬ Asks (Talk.expectSuccess s) log c := by
  unfold expectSuccess
  split <;> exact Dialogue.not_asks_done

end Talk

/-- What a task asks is what its action asks. -/
theorem Service.serve_asks {svc : Service} {companies : List Company} {t : Task} {log : List Exchange}
    {c : Call} : (svc.serve companies t).Asks log c ↔ (svc.act companies t.company t.action).Asks log c := by
  unfold serve
  rw [Dialogue.asks_bind]
  refine or_iff_left ?_
  rintro ⟨_, _, outcome, -, -, h⟩
  cases outcome <;> exact Dialogue.not_asks_done h

end LedgerFront
