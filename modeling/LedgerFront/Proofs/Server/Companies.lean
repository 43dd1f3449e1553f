import LedgerFront.Proofs.Memory.Tables
import LedgerFront.Proofs.Server.Demo
import LedgerFront.Proofs.Server.Door
import LedgerFront.Proofs.Server.Scope

/-!
# Companies apart

A request to a resource of a company sees the tables of that company only, besides what all companies
share, and changes no others.

* `Memory.SameCompany`: what a request to a company can see is the same.
* `Memory.answer_sameCompany`: a call, made in two memories that are the same for its company.
* `Server.handle_sameCompany`: a request, sent to two servers that are the same for its company.
-/

namespace LedgerFront

/-- Both runs come to values that are related, or stop for the same reason. -/
inductive Run.Both {α β : Type} (related : α → β → Prop) : Run α → Run β → Prop where
  | values {a : α} {b : β} (h : related a b) : Run.Both related (.ok a) (.ok b)
  | stops (why : Abort) : Run.Both related (.error why) (.error why)

namespace Run.Both

variable {α β γ δ : Type} {related : α → β → Prop} {x : Run α} {y : Run β}

theorem refl {related : α → α → Prop} (h : ∀ a, related a a) (x : Run α) : Run.Both related x x := by
  cases x with
  | error why => exact .stops why
  | ok a => exact .values (h a)

theorem mono {related' : α → β → Prop} (h : Run.Both related x y)
    (hr : ∀ a b, related a b → related' a b) : Run.Both related' x y := by
  cases h with
  | values h => exact .values (hr _ _ h)
  | stops why => exact .stops why

theorem bind {related' : γ → δ → Prop} {f : α → Run γ} {g : β → Run δ} (h : Run.Both related x y)
    (hf : ∀ a b, related a b → Run.Both related' (f a) (g b)) :
    Run.Both related' (x >>= f) (y >>= g) := by
  cases h with
  | values h => exact hf _ _ h
  | stops why => exact .stops why

theorem map {related' : γ → δ → Prop} {f : α → γ} {g : β → δ} (h : Run.Both related x y)
    (hf : ∀ a b, related a b → related' (f a) (g b)) : Run.Both related' (x.map f) (y.map g) := by
  cases h with
  | values h => exact .values (hf _ _ h)
  | stops why => exact .stops why

theorem stop_or_values (h : Run.Both related x y) :
    (∃ why, x = .error why ∧ y = .error why) ∨ ∃ a b, x = .ok a ∧ y = .ok b ∧ related a b := by
  cases h with
  | values h => exact .inr ⟨_, _, rfl, rfl, h⟩
  | stops why => exact .inl ⟨why, rfl, rfl⟩

end Run.Both

/-- The table that a call puts rows into is one of its company. -/
theorem Call.company_of_target? {c : Call} {key : TableKey} (h : c.target? = some key) :
    c.company? = some key.1 := by
  cases c with
  | insert | update | delete | journal =>
    obtain rfl := Option.some.inj h
    rfl
  | _ => simp [target?] at h

namespace Memory

variable {m m' m'' : Memory} {company : Int}

/-! ## What belongs to a company -/

/-- The same accounts, companies, sessions and counters, and the same tables of one company. The tables
of other companies may differ, and so may the count of logins. -/
structure SameCompany (company : Int) (m m' : Memory) : Prop extends SameDoor m m' where
  lastRowId : m'.lastRowId = m.lastRowId
  lastDocument : m'.lastDocument = m.lastDocument
  tables : ∀ key : TableKey, key.1 = company → m'.table? key = m.table? key

/-- The tables of all other companies are as they were. -/
def KeepsOthers (company : Int) (m m' : Memory) : Prop :=
  ∀ key : TableKey, key.1 ≠ company → m'.table? key = m.table? key

theorem KeepsOthers.refl (company : Int) (m : Memory) : KeepsOthers company m m := fun _ _ => rfl

theorem KeepsOthers.trans (h : KeepsOthers company m m') (h' : KeepsOthers company m' m'') :
    KeepsOthers company m m'' :=
  fun key hkey => (h' key hkey).trans (h key hkey)

theorem keepsOthers_putTable (key : TableKey) (rows : List Json) (m : Memory) :
    KeepsOthers key.1 m (m.putTable key rows) := by
  intro key' hkey
  have hne : key' ≠ key := fun he => hkey (congrArg Prod.fst he)
  rw [table?_putTable, if_neg hne]

theorem SameData.keepsOthers (h : SameData m m') (company : Int) : KeepsOthers company m m' :=
  fun key _ => by unfold table?; rw [h.tables]

namespace SameCompany

theorem rows (h : SameCompany company m m') (key : TableKey) (hkey : key.1 = company) :
    m'.rows key = m.rows key := by
  unfold Memory.rows
  rw [h.tables key hkey]

/-- The same is written on both sides. -/
theorem write (h : SameCompany company m m') (w : Write) :
    SameCompany company (m.write w) (m'.write w) where
  toSameDoor := ((write_keepsDoor w m).symm.trans h.toSameDoor).trans (write_keepsDoor w m')
  lastRowId := rfl
  lastDocument := rfl
  tables key hkey := by
    rw [table?_write, table?_write]
    cases w.table with
    | none => exact h.tables key hkey
    | some p =>
      obtain ⟨key', rows⟩ := p
      dsimp only [Option.elim]
      rw [table?_putTable, table?_putTable, h.tables key hkey]

/-- Data that is not touched is as much the same as before. -/
theorem of_sameData {n n' : Memory} (h : SameCompany company m m') (hm : SameData m n)
    (hm' : SameData m' n') (hdoor : SameDoor n n') : SameCompany company n n' where
  toSameDoor := hdoor
  lastRowId := hm'.lastRowId.trans (h.lastRowId.trans hm.lastRowId.symm)
  lastDocument := hm'.lastDocument.trans (h.lastDocument.trans hm.lastDocument.symm)
  tables key hkey := by
    have htable := h.tables key hkey
    unfold table? at htable ⊢
    rw [hm'.tables, hm.tables, htable]

end SameCompany

/-! ## Calls -/

/-- What a call comes to in two memories: the same answer, memories that are the same for the company,
and the tables of the other companies as they were. -/
structure Apart {α : Type} (company : Int) (m m' : Memory) (p p' : α × Memory) : Prop where
  answer : p'.1 = p.1
  same : SameCompany company p.2 p'.2
  others : KeepsOthers company m p.2
  others' : KeepsOthers company m' p'.2

theorem Apart.refl {α : Type} (h : SameCompany company m m') (a : α) : Apart company m m' (a, m) (a, m') :=
  ⟨rfl, h, .refl company m, .refl company m'⟩

section

variable (h : SameCompany company m m') {c : Call} (hc : c.company? = some company)

include h hc

/-- What a call writes depends on what its company has only. -/
theorem write?_sameCompany : m'.write? c = m.write? c := by
  cases c with
  | login | companies => simp [Call.company?] at hc
  | query | read | lines => rfl
  | insert company' entity rows =>
    obtain rfl : company' = company := Option.some.inj hc
    simp only [write?, h.rows (.of company' entity) rfl, h.lastRowId, h.lastDocument]
  | update company' entity rows | delete company' entity rows =>
    obtain rfl : company' = company := Option.some.inj hc
    simp only [write?, h.tables (.of company' entity) rfl, h.lastRowId, h.lastDocument]
  | invoice company' request =>
    simp only [write?, h.lastRowId, h.lastDocument]
  | journal company' posting =>
    obtain rfl : company' = company := Option.some.inj hc
    simp only [write?, h.rows (.of company' journalLines) rfl, h.lastRowId, h.lastDocument]

/-- So does the reply. -/
theorem reply_sameCompany : (m'.serve c).map (·.1) = (m.serve c).map (·.1) := by
  cases c with
  | login | companies => simp [Call.company?] at hc
  | query company' entity predicates =>
    obtain rfl : company' = company := Option.some.inj hc
    have hquery : m'.query (.of company' entity) predicates = m.query (.of company' entity) predicates := by
      simp only [query, h.rows (.of company' entity) rfl]
    simp only [serve, hquery]
    cases m.query (.of company' entity) predicates <;> rfl
  | read company' entity k =>
    obtain rfl : company' = company := Option.some.inj hc
    simp only [serve, read, h.rows (.of company' entity) rfl]
    rfl
  | lines company' entity master =>
    obtain rfl : company' = company := Option.some.inj hc
    simp only [serve, lines, h.rows (.of company' entity) rfl]
    rfl
  | insert company' entity rows =>
    obtain rfl : company' = company := Option.some.inj hc
    simp only [serve, insert, append, h.lastRowId]
    split <;> rfl
  | update company' entity rows =>
    obtain rfl : company' = company := Option.some.inj hc
    simp only [serve, update, h.tables (.of company' entity) rfl]
    split
    · rfl
    · split <;> rfl
  | delete company' entity rows =>
    obtain rfl : company' = company := Option.some.inj hc
    simp only [serve, delete, h.tables (.of company' entity) rfl]
    split
    · rfl
    · split <;> rfl
  | invoice company' request =>
    simp only [serve, invoice, h.lastDocument]
    split <;> rfl
  | journal company' posting =>
    obtain rfl : company' = company := Option.some.inj hc
    simp only [serve, journal, h.rows (.of company' journalLines) rfl, h.lastDocument]
    split <;> rfl

end

/-- A call leaves the tables of all companies but its own alone. -/
theorem serve_keepsOthers {c : Call} (hc : c.company? = some company) {reply : Reply c}
    (h : m.serve c = .ok (reply, m')) : KeepsOthers company m m' := by
  obtain ⟨-, rfl⟩ | ⟨w, _, hw, rfl, -⟩ := serve_cases h
  · exact .refl company _
  intro key hkey
  rw [table?_write]
  cases htable : w.table with
  | none => rfl
  | some p =>
    obtain ⟨key', rows⟩ := p
    have hcompany := Call.company_of_target? (target?_of_write? hw htable)
    obtain rfl : key'.1 = company := Option.some.inj (hcompany.symm.trans hc)
    exact keepsOthers_putTable key' rows m key hkey

/-- **A call about a company**, in a session that is logged in. -/
theorem serve_sameCompany (h : SameCompany company m m') {c : Call} (hc : c.company? = some company) :
    Run.Both (Apart company m m') (m.serve c) (m'.serve c) := by
  have hreply := reply_sameCompany h hc
  cases hrun : m.serve c with
  | error why =>
    rw [hrun] at hreply
    cases hrun' : m'.serve c with
    | error why' =>
      obtain rfl : why' = why := Except.error.inj (hrun' ▸ hreply)
      exact .stops why'
    | ok p => exact absurd (hrun' ▸ hreply) nofun
  | ok p =>
    obtain ⟨reply, n⟩ := p
    rw [hrun] at hreply
    obtain ⟨⟨_, n'⟩, hrun', rfl⟩ := map_eq_ok.1 hreply
    rw [hrun']
    refine .values ⟨rfl, ?_, serve_keepsOthers hc hrun, serve_keepsOthers hc hrun'⟩
    -- the reply aside, a call is what it writes, and that is the same on both sides
    rw [serve_memory hrun, serve_memory hrun', write?_sameCompany h hc]
    cases m.write? c with
    | none => exact h
    | some w => exact h.write w

/-- **A call about a company**, in any session. -/
theorem answer_sameCompany (h : SameCompany company m m') {c : Call} (hc : c.company? = some company)
    (session : Nat) : Run.Both (Apart company m m') (m.answer session c) (m'.answer session c) := by
  have hlogin : ∀ user key, c ≠ .login user key := by
    rintro user key rfl
    simp [Call.company?] at hc
  rw [answer_of_ne_login session hlogin, answer_of_ne_login session hlogin, h.isLoggedIn session]
  split
  · exact serve_sameCompany h hc
  · exact .values (.refl h _)

end Memory

open Memory

variable {company : Int}

/-! ## Dialogues -/

/-- **A dialogue with calls about one company only.** -/
theorem Dialogue.run_sameCompany {α : Type} {d : Dialogue α}
    (hd : ∀ log c, d.Asks log c → c.company? = some company) {m m' : Memory}
    (h : SameCompany company m m') (session : Nat) :
    Run.Both (Apart company m m') (d.run Memory.remote session m) (d.run Memory.remote session m') := by
  induction d generalizing m m' with
  | done a => exact .values (.refl h a)
  | abort why => exact .stops why
  | ask c next ih =>
    refine Run.Both.bind (answer_sameCompany h (hd [] c (.now c next)) session) ?_
    rintro ⟨reply, n⟩ ⟨reply', n'⟩ hreply
    obtain rfl : reply' = reply := hreply.answer
    refine (ih reply' (fun log c hasks => hd _ c (.later hasks)) hreply.same).mono fun p p' hp => ?_
    exact ⟨hp.answer, hp.same, hreply.others.trans hp.others, hreply.others'.trans hp.others'⟩

/-- **A task of a company.** -/
theorem Service.serve_sameCompany {svc : Service} {companies : List Company} {t : Task}
    (ht : t.company = company) {m m' : Memory} (h : SameCompany company m m') (session : Nat) :
    Run.Both (Apart company m m') ((svc.serve companies t).run Memory.remote session m)
      ((svc.serve companies t).run Memory.remote session m') :=
  Dialogue.run_sameCompany (fun log c hasks =>
    ht ▸ asksOnly_act svc companies t.company t.action log c (serve_asks.1 hasks)) h session

/-! ## Requests -/

namespace Server

variable {service : Service} {r : Request} {s s' : Server Memory}

/-- The same connections with their sessions, the same accounts, companies and counters, and the same
tables of one company. The tables of other companies may differ. -/
structure SameCompany (company : Int) (s s' : Server Memory) : Prop where
  cache : s'.cache = s.cache
  stopping : s'.stopping = s.stopping
  remote : Memory.SameCompany company s.remote s'.remote

/-- What a request comes to on two servers: the same response, servers that are the same for the
company, and the tables of the other companies as they were. -/
structure Apart (company : Int) (s s' : Server Memory) (p p' : Response × Server Memory) : Prop where
  response : p'.1 = p.1
  same : SameCompany company p.2 p'.2
  others : KeepsOthers company s.remote p.2.remote
  others' : KeepsOthers company s'.remote p'.2.remote

theorem perform_sameCompany {t : Task} (ht : t.company = company) (h : SameCompany company s s') :
    Run.Both (Apart company s s') (perform service Memory.remote t s)
      (perform service Memory.remote t s') := by
  obtain ⟨outcome, cache, m, m', hconnect, hconnect', hdoor⟩ :=
    Cache.connect_sameDoor h.remote.toSameDoor t.user s.stopping s.cache
  have hdata := Cache.connect_sameData hconnect
  have hdata' := Cache.connect_sameData hconnect'
  have hsame := h.remote.of_sameData hdata hdata' hdoor
  rw [← h.cache, ← h.stopping] at hconnect'
  cases outcome with
  | error e =>
    rw [perform_of_refused hconnect, perform_of_refused hconnect']
    exact .values ⟨rfl, ⟨rfl, h.stopping, hsame⟩, hdata.keepsOthers company, hdata'.keepsOthers company⟩
  | ok e =>
    rw [perform_of_connected hconnect, perform_of_connected hconnect']
    refine (Service.serve_sameCompany ht hsame _).map fun p p' hp => ?_
    exact ⟨hp.answer, ⟨rfl, h.stopping, hp.same⟩, (hdata.keepsOthers company).trans hp.others,
      (hdata'.keepsOthers company).trans hp.others'⟩

theorem handle_apart (service : Service) (hr : r.company? = some company) (h : SameCompany company s s') :
    Run.Both (Apart company s s') (handle service Memory.remote r s)
      (handle service Memory.remote r s') := by
  cases htask : r.task? service.bodyLimit with
  | none =>
    obtain ⟨answer, hanswer, -⟩ := handle_of_noTask Memory.remote htask
    rw [hanswer, hanswer, h.cache]
    exact .values ⟨rfl, h, .refl company s.remote, .refl company s'.remote⟩
  | some t =>
    have ht : t.company = company :=
      Option.some.inj ((Request.company?_of_task htask).symm.trans hr)
    rw [handle_of_task htask, handle_of_task htask]
    refine (perform_sameCompany ht h).map fun p p' hp => ?_
    exact ⟨congrArg (sent r) hp.response, hp.same, hp.others, hp.others'⟩

/-- **Companies are apart.** A request that names a company is answered in the same way by two servers
that are the same for the company, whatever the tables of the others are; the servers are the same for
the company afterwards, and neither has changed a table of another company. -/
theorem handle_sameCompany (service : Service) (hr : r.company? = some company)
    (h : SameCompany company s s') :
    (∃ why, handle service Memory.remote r s = .error why ∧
      handle service Memory.remote r s' = .error why) ∨
    ∃ response t t', handle service Memory.remote r s = .ok (response, t) ∧
      handle service Memory.remote r s' = .ok (response, t') ∧ SameCompany company t t' ∧
      KeepsOthers company s.remote t.remote ∧ KeepsOthers company s'.remote t'.remote := by
  obtain hstop | ⟨⟨response, t⟩, ⟨response', t'⟩, ht, ht', hapart⟩ :=
    (handle_apart service hr h).stop_or_values
  · exact .inl hstop
  · obtain rfl : response' = response := hapart.response
    exact .inr ⟨response', t, t', ht, ht', hapart.same, hapart.others, hapart.others'⟩

/-- A row of company 1 is deleted, and another company has rows that match too, or none. -/
theorem handle_sameCompany_delete :
    let service := Demo.service Demo.debtors .default
    let rows := [Demo.debtor 2 "Oslo", Demo.debtor 3 "Oslo"]
    let s (others : List (TableKey × List Json)) : Server Memory :=
      Demo.server ((Demo.memory (((1, "debtor"), [Demo.debtor 1 "Oslo"]) :: others) 3).addCompany
        ⟨2, "Other", []⟩)
    let others := [((2, "debtor"), rows)]
    let r : Request :=
      ⟨"DELETE", "/Companies/1/Crud/Debtor", some "city=Oslo&limit=1", Demo.header, []⟩
    ∃ response t t', handle service Memory.remote r (s others) = .ok (response, t) ∧
      handle service Memory.remote r (s []) = .ok (response, t') ∧ response.status = 204 ∧
      t.remote.table? (1, "debtor") = some [] ∧ t'.remote.table? (1, "debtor") = some [] ∧
      t.remote.table? (2, "debtor") = some rows ∧ t'.remote.table? (2, "debtor") = none := by
  intro service rows s others r
  have hdeleted : (handle service Memory.remote r (s others)).toOption.map
      (fun p => (p.1.status, p.2.remote.table? (1, "debtor"))) = some (204, some []) := by
    decide +kernel
  have hr : r.company? = some 1 := by decide +kernel
  have hsame : SameCompany 1 (s others) (s []) := by
    refine ⟨rfl, rfl, ⟨rfl, rfl, rfl⟩, rfl, rfl, ?_⟩
    rintro ⟨company, entity⟩ rfl
    by_cases h : entity = "debtor" <;>
      simp [s, others, Demo.server, Demo.memory, addCompany, table?, Pairs.lookup_cons_ite, h]
  obtain ⟨why, hstop, -⟩ | ⟨response, t, t', ht, ht', hafter, hkeep, hkeep'⟩ :=
    handle_sameCompany service hr hsame
  · rw [hstop] at hdeleted
    exact absurd hdeleted nofun
  · rw [ht] at hdeleted
    obtain ⟨hstatus, htable⟩ := Prod.mk.inj (Option.some.inj hdeleted)
    exact ⟨response, t, t', ht, ht', hstatus, htable, (hafter.remote.tables _ rfl).trans htable,
      (hkeep (2, "debtor") (by decide)).trans (by decide +kernel),
      (hkeep' (2, "debtor") (by decide)).trans (by decide +kernel)⟩

end Server

end LedgerFront
