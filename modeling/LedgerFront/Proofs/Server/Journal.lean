import LedgerFront.Proofs.Server.Demo
import LedgerFront.Proofs.Server.NoMatch
import LedgerFront.Proofs.Server.Settled

/-!
# Posting a journal

A journal is posted with its lines, which are gone afterwards. So posting it again finds none. A
simulated posting finds the same lines and leaves them.

* `Memory.IsLineOf`: the lines of a journal.
* `Memory.journal_eq`: a posting, by whether there are lines.
* `Service.reaches_journal`: the dialogue of a request that posts.
* `Server.handle_journal`: a posting, a simulated one in the same state, and a second one.
-/

namespace LedgerFront

open Memory

namespace Memory

variable {m m' : Memory} {company : Int} {journal line : Json} {p : JournalPosting}

/-- The line is one of the journal: both have a `Journal` member, and the two are equal. -/
def IsLineOf (journal line : Json) : Prop :=
  ∃ number number', journal.get? "Journal" = some number ∧ line.get? "Journal" = some number' ∧
    number'.sameValue number = true

theorem belongs_iff : belongs journal line = true ↔ IsLineOf journal line := by
  unfold belongs memberIs IsLineOf Row.journalKey
  cases journal.get? "Journal" <;> cases line.get? "Journal" <;> simp

instance (journal line : Json) : Decidable (IsLineOf journal line) := decidable_of_iff _ belongs_iff

theorem belongs_eq (journal : Json) : belongs journal = fun line => decide (IsLineOf journal line) := by
  funext line
  rw [Bool.eq_iff_iff, belongs_iff, decide_eq_true_iff]

/-- The lines of a journal of a company, in the order of the table. -/
def linesOf (company : Int) (journal : Json) (m : Memory) : List Json :=
  (m.rows (.of company journalLines)).filter (belongs journal)

/-- What is left in the table of lines. -/
def linesLeft (company : Int) (journal : Json) (m : Memory) : List Json :=
  (m.rows (.of company journalLines)).filter fun line => !belongs journal line

/-- The outcome of a posting that found lines. -/
def postingOutcome (company : Int) (p : JournalPosting) (m : Memory) : PostingOutcome :=
  ⟨.success, .ofList [("JournalPostedId", .ofNat (m.lastDocument + 1)), ("Simulated", .bool p.simulate),
    ("Lines", .ofNat (m.linesOf company p.journal).length)]⟩

/-- The memory after a posting that found lines. -/
def posted (company : Int) (p : JournalPosting) (m : Memory) : Memory :=
  { (if p.simulate then m else m.putTable (.of company journalLines) (m.linesLeft company p.journal)) with
    lastDocument := m.lastDocument + 1 }

/-- **A posting**, by whether there are lines. -/
theorem journal_eq (company : Int) (p : JournalPosting) (m : Memory) :
    m.journal company p = if m.linesOf company p.journal = [] then (⟨.noLines, []⟩, m)
      else (m.postingOutcome company p, m.posted company p) := by
  unfold Memory.journal
  simp only [← List.isEmpty_iff_length_eq_zero, List.isEmpty_iff]
  rfl

theorem table?_posted (company : Int) (p : JournalPosting) (m : Memory) (key : TableKey) :
    (m.posted company p).table? key =
      if p.simulate = false ∧ key = .of company journalLines then some (m.linesLeft company p.journal)
      else m.table? key := by
  unfold posted
  cases p.simulate with
  | true => rfl
  | false =>
    simp only [true_and]
    exact table?_putTable (.of company journalLines) key (m.linesLeft company p.journal) m

/-- Where there are no lines of the journal, all lines are left. -/
theorem linesLeft_of_linesOf (h : m.linesOf company journal = []) :
    m.linesLeft company journal = m.rows (.of company journalLines) := by
  refine List.filter_eq_self.2 fun line hline => ?_
  have hnone := List.filter_eq_nil_iff.1 h line hline
  simpa using hnone

theorem read_of_table? {key : TableKey} (h : m'.table? key = m.table? key) (row : Json) :
    m'.read key row = m.read key row := by
  unfold read Memory.rows
  rw [h]

theorem SameData.read_eq (h : SameData m m') (key : TableKey) (row : Json) :
    m'.read key row = m.read key row :=
  read_of_table? (by unfold table?; rw [h.tables]) row

theorem SameData.linesOf_eq (h : SameData m m') (company : Int) (journal : Json) :
    m'.linesOf company journal = m.linesOf company journal := by
  unfold linesOf
  rw [h.rows_eq]

end Memory

/-- What the response reports under a name. -/
def Response.member? (r : Response) (name : String) : Option Json :=
  match r.content with
  | .json j => j.get? name
  | _ => none

/-- A posting reports the number of its lines. -/
theorem Memory.member?_postingOutcome (company : Int) (p : JournalPosting) (m : Memory) :
    (Response.ok (m.postingOutcome company p).encode).member? "Lines" =
      some (.ofNat (m.linesOf company p.journal).length) := by
  simp only [Response.member?, Response.ok, Response.of, postingOutcome, PostingOutcome.encode,
    Status.withDetails, Json.ofPairs, Members.ofList, List.foldl_cons, List.foldl_nil, Members.insert,
    String.reduceEq, String.reduceLT, if_true, if_false, Json.get?, Json.members?, Option.bind_some]
  rfl

namespace Service

variable {svc : Service} {company id : Int} {session : Nat} {m : Memory} {simulate : Bool} {row : Json}

theorem reaches_readRow {entity : String} {key : Json} (hlogged : m.isLoggedIn session = true)
    (hread : m.read (.of company entity) key = ⟨.success, some row⟩) :
    Talk.Reaches Memory.remote session (readRow company entity key) m row m := by
  have hcall : m.serve (.read company entity key) = .ok (.ok (m.read (.of company entity) key), m) := rfl
  rw [hread] at hcall
  exact Talk.reaches_bind.2 ⟨_, m, Talk.reaches_of_serve rfl hlogged hcall,
    Talk.reaches_bind.2 ⟨(), m, Talk.reaches_expectSuccess.2 ⟨rfl, rfl⟩, Talk.reaches_pure.2 ⟨rfl, rfl⟩⟩⟩

/-- The key of the journal with a number. -/
def journalKey (id : Int) : Json := .ofPairs [(Row.idKey, .ofInt id)]

/-- The answer to a posting of this journal. -/
def journalAnswer (svc : Service) (company : Int) (row : Json) (simulate : Bool) (m : Memory) : Response :=
  if m.linesOf company row = [] then .empty 204
  else .ok (m.postingOutcome company ⟨row, svc.now, simulate⟩).encode

/-- The memory after a posting of this journal. -/
def afterJournal (svc : Service) (company : Int) (row : Json) (simulate : Bool) (m : Memory) : Memory :=
  if m.linesOf company row = [] then m else m.posted company ⟨row, svc.now, simulate⟩

/-- **The dialogue** of a request that posts a journal. -/
theorem reaches_journal (hlogged : m.isLoggedIn session = true)
    (hread : m.read (.of company journalEntity) (journalKey id) = ⟨.success, some row⟩) :
    Talk.Reaches Memory.remote session (svc.journal company id simulate) m
      (svc.journalAnswer company row simulate m) (svc.afterJournal company row simulate m) := by
  have hserve : m.serve (.journal company ⟨row, svc.now, simulate⟩) =
      .ok (.ok (m.journal company ⟨row, svc.now, simulate⟩).1,
        (m.journal company ⟨row, svc.now, simulate⟩).2) := rfl
  rw [journal_eq] at hserve
  refine Talk.reaches_bind.2 ⟨row, m, reaches_readRow hlogged hread, ?_⟩
  unfold journalAnswer afterJournal
  split at hserve
  · rename_i hnone
    rw [if_pos hnone, if_pos hnone]
    exact Talk.reaches_bind.2 ⟨_, m, Talk.reaches_of_serve rfl hlogged hserve, Talk.reaches_pure.2 ⟨rfl, rfl⟩⟩
  · rename_i hsome
    rw [if_neg hsome, if_neg hsome]
    exact Talk.reaches_bind.2 ⟨_, _, Talk.reaches_of_serve rfl hlogged hserve,
      Talk.reaches_bind.2 ⟨(), _, Talk.reaches_expectSuccess.2 ⟨rfl, rfl⟩, Talk.reaches_pure.2 ⟨rfl, rfl⟩⟩⟩

theorem journalAnswer_status : (svc.journalAnswer company row simulate m).status =
    if m.linesOf company row = [] then 204 else 200 := by
  unfold journalAnswer
  split <;> rfl

theorem member?_journalAnswer : (svc.journalAnswer company row simulate m).member? "Lines" =
    if m.linesOf company row = [] then none else some (.ofNat (m.linesOf company row).length) := by
  unfold journalAnswer
  split
  · rfl
  · exact member?_postingOutcome company ⟨row, svc.now, simulate⟩ m

/-- A simulated posting changes no table. -/
theorem tables_afterJournal : (svc.afterJournal company row true m).tables = m.tables := by
  unfold afterJournal
  split <;> rfl

theorem rows_afterJournal : (svc.afterJournal company row false m).rows (.of company journalLines) =
    m.linesLeft company row := by
  unfold afterJournal
  split
  · rename_i hnone
    exact (linesLeft_of_linesOf hnone).symm
  · unfold Memory.rows
    rw [table?_posted, if_pos ⟨rfl, rfl⟩]
    rfl

theorem table?_afterJournal {key : TableKey} (hkey : key ≠ .of company journalLines) :
    (svc.afterJournal company row simulate m).table? key = m.table? key := by
  unfold afterJournal
  split
  · rfl
  · rw [table?_posted, if_neg fun h => hkey h.2]

/-- Posting a journal leaves the journals. -/
theorem read_afterJournal (key : Json) :
    (svc.afterJournal company row simulate m).read (.of company journalEntity) key =
      m.read (.of company journalEntity) key := by
  have hother : TableKey.of company journalEntity ≠ .of company journalLines := by
    intro h
    exact absurd (Prod.mk.inj h).2 (by decide)
  exact read_of_table? (table?_afterJournal hother) key

/-- After a posting that is not simulated there are no lines. -/
theorem linesOf_afterJournal : (svc.afterJournal company row false m).linesOf company row = [] := by
  unfold linesOf
  rw [rows_afterJournal, linesLeft, List.filter_filter]
  simp

end Service

namespace Server

variable {service : Service} {settings : ConnectionSettings} {s t : Server Memory} {user : Credentials}
  {company id : Int} {row : Json} {r : Request} {simulate : Bool}

/-- A journal is not posted by a request that asks for headers only. -/
theorem method_of_journal {limit : Nat}
    (h : r.task? limit = some ⟨user, company, .journal id simulate⟩) : r.method ≠ "HEAD" := by
  obtain ⟨-, route, -, hmethod, htask⟩ := route_of_task h
  intro hhead
  obtain ⟨type, filter, haction⟩ := query_of_method hmethod (.inr hhead) htask
  simp at haction

/-- **One posting**, by a user who gets in. -/
theorem handle_posting (service : Service) (hs : Settled s)
    (ht : r.task? service.bodyLimit = some ⟨user, company, .journal id simulate⟩)
    (hin : LetsIn s user company)
    (hread : s.remote.read (.of company Service.journalEntity) (Service.journalKey id) =
      ⟨.success, some row⟩) :
    ∃ m cache, SameData s.remote m ∧ handle service Memory.remote r s =
      .ok (sent r (service.journalAnswer company row simulate m),
        ⟨cache, service.afterJournal company row simulate m, s.stopping⟩) := by
  obtain ⟨e, cache, m, hconnect, hcompany, hsame, hlogged⟩ := hs.connected hin
  have hact : Talk.Reaches Memory.remote e.connected.session
      (service.act e.connected.companies company (.journal id simulate)) m
      (service.journalAnswer company row simulate m) (service.afterJournal company row simulate m) := by
    exact Talk.reaches_bind.2 ⟨(), m,
      Talk.reaches_ofExcept.2 ⟨Service.ensureCompany_eq_ok.2 hcompany, rfl⟩,
      Service.reaches_journal hlogged (by rw [hsame.read_eq, hread])⟩
  have hok : (sent r (service.journalAnswer company row simulate m)).isSuccess = true := by
    rw [sent_isSuccess]
    unfold Service.journalAnswer
    split <;> rfl
  exact ⟨m, cache, hsame, (handle_success ht hok).2 ⟨e, cache, m, _, _, rfl, rfl, hconnect, hact⟩⟩

/-- **Posting a journal.** Whatever has happened to a server that began without connections: let a user
get in who sees the company, and let the journal be found. A posting is answered, with 204 if there is no
line whose `Journal` member is that of the journal, and otherwise with 200 and the number of these lines.
They are removed, while all other lines stay in their order and all other tables as they are. A simulated
posting in the same state has the same answer as far as status and number of lines go, and changes no
table. The same posting once more is answered with 204, and leaves all tables and counters as they are. -/
theorem handle_journal {m : Memory} {history : List Happening}
    (hlive : live service Memory.remote history ⟨.empty settings, m, false⟩ = .ok s)
    {real simulated : Request}
    (hreal : real.task? service.bodyLimit = some ⟨user, company, .journal id false⟩)
    (hsimulated : simulated.task? service.bodyLimit = some ⟨user, company, .journal id true⟩)
    (hin : LetsIn s user company)
    (hread : s.remote.read (.of company Service.journalEntity) (Service.journalKey id) =
      ⟨.success, some row⟩)
    (now now' later : OffsetDateTime) :
    let answerTo (now : OffsetDateTime) := handle { service with now } Memory.remote
    let key := TableKey.of company journalLines
    let lines := (s.remote.rows key).filter fun line => IsLineOf row line
    ∃ answer t answer' t' answer'' t'', answerTo now real s = .ok (answer, t) ∧
      answerTo now' simulated s = .ok (answer', t') ∧ answerTo later real t = .ok (answer'', t'') ∧
      (answer.status = 204 ∧ lines = [] ∨ answer.status = 200 ∧ lines ≠ [] ∧
        answer.member? "Lines" = some (.ofNat lines.length)) ∧
      t.remote.rows key = (s.remote.rows key).filter (fun line => ¬ IsLineOf row line) ∧
      (∀ other, other ≠ key → t.remote.table? other = s.remote.table? other) ∧
      answer'.status = answer.status ∧ answer'.member? "Lines" = answer.member? "Lines" ∧
      t'.remote.tables = s.remote.tables ∧
      answer''.status = 204 ∧ SameData t.remote t''.remote := by
  intro answerTo key lines
  have hs := (Settled.empty settings m false).live hlive
  obtain ⟨m₁, cache, hsame, hfirst⟩ := handle_posting { service with now } hs hreal hin hread
  obtain ⟨m₂, cache', hsame', hsecond⟩ :=
    handle_posting { service with now := now' } hs hsimulated hin hread
  -- the journal is posted again on the server that the first posting leaves
  let t : Server Memory :=
    ⟨cache, Service.afterJournal { service with now } company row false m₁, s.stopping⟩
  have ht : Settled t := hs.handle hfirst
  have hagain : LetsIn t user company := hs.letsIn_again { service with now } hreal hin hfirst
  have hread' : t.remote.read (.of company Service.journalEntity) (Service.journalKey id) =
      ⟨.success, some row⟩ := by
    rw [← hread, ← hsame.read_eq]
    exact Service.read_afterJournal _
  obtain ⟨m₃, cache'', hsame'', hthird⟩ :=
    handle_posting { service with now := later } ht hreal hagain hread'
  have hnone : m₃.linesOf company row = [] := by
    rw [hsame''.linesOf_eq]
    exact Service.linesOf_afterJournal
  have hcontent : ∀ {r : Request} (response : Response), r.method ≠ "HEAD" →
      (sent r response).member? "Lines" = response.member? "Lines" := by
    intro r response hmethod
    unfold Response.member?
    rw [sent_content hmethod]
  refine ⟨_, t, _, _, _, _, hfirst, hsecond, hthird, ?_, ?_, ?_, ?_, ?_, ?_, ?_, ?_⟩
  · have hlines : m₁.linesOf company row = lines := by
      rw [hsame.linesOf_eq, linesOf, belongs_eq]
    rw [sent_status, hcontent _ (method_of_journal hreal), Service.journalAnswer_status,
      Service.member?_journalAnswer, hlines]
    by_cases hempty : lines = []
    · exact .inl ⟨if_pos hempty, hempty⟩
    · exact .inr ⟨if_neg hempty, hempty, if_neg hempty⟩
  · rw [← hsame.rows_eq, Service.rows_afterJournal, linesLeft, belongs_eq]
    simp only [decide_not]
    rfl
  · intro other hother
    have htable : m₁.table? other = s.remote.table? other := by
      unfold table?
      rw [hsame.tables]
    rw [← htable]
    exact Service.table?_afterJournal hother
  · rw [sent_status, sent_status, Service.journalAnswer_status, Service.journalAnswer_status,
      hsame.linesOf_eq, hsame'.linesOf_eq]
  · rw [hcontent _ (method_of_journal hreal), hcontent _ (method_of_journal hsimulated),
      Service.member?_journalAnswer, Service.member?_journalAnswer, hsame.linesOf_eq, hsame'.linesOf_eq]
  · rw [← hsame'.tables]
    exact Service.tables_afterJournal
  · rw [sent_status, Service.journalAnswer_status, if_pos hnone]
  · unfold Service.afterJournal
    rw [if_pos hnone]
    exact hsame''

/-- Two of three lines are of the journal. -/
theorem handle_journal_two_lines :
    let service := Demo.service .empty .default
    let line (number : String) (id : Nat) : Json := .obj [("Journal", .str number), ("RowId", .ofNat id)]
    let m := Demo.memory [((1, "invjournal"), [line "J1" 1]),
      ((1, "invjournalline"), [line "J1" 2, line "J2" 3, line "J1" 4])] 4
    let real : Request := ⟨"POST", "/Companies/1/Posting/InventoryJournals/1", none, Demo.header, []⟩
    let simulated : Request := { real with query := some "simulate=true" }
    let s := Demo.server m
    ∃ answer t answer' t' answer'' t'', handle service Memory.remote real s = .ok (answer, t) ∧
      handle service Memory.remote simulated s = .ok (answer', t') ∧
      handle service Memory.remote real t = .ok (answer'', t'') ∧
      answer.status = 200 ∧ answer.member? "Lines" = some (.ofNat 2) ∧
      t.remote.rows (1, "invjournalline") = [line "J2" 3] ∧ answer'.status = 200 ∧
      t'.remote.tables = m.tables ∧ answer''.status = 204 := by
  intro service line m real simulated s
  have htask (simulate : Bool) : (if simulate then simulated else real).task? service.bodyLimit =
      some ⟨Demo.alice, 1, .journal 1 simulate⟩ := by
    cases simulate <;> decide +kernel
  have hlive : live service Memory.remote [] s = .ok s := rfl
  have hread : s.remote.read (.of 1 Service.journalEntity) (Service.journalKey 1) =
      ⟨.success, some (line "J1" 1)⟩ := by decide +kernel
  obtain ⟨answer, t, answer', t', answer'', t'', hreal, hsimulated, hagain, hanswer, hrows, -, hstatus, -,
    htables, hagain204, -⟩ := handle_journal hlive (htask false) (htask true) (by decide +kernel) hread
      service.now service.now service.now
  obtain ⟨-, hnone⟩ | ⟨h200, -, hlines⟩ := hanswer
  · exact absurd hnone (by decide +kernel)
  · exact ⟨answer, t, answer', t', answer'', t'', hreal, hsimulated, hagain, h200,
      hlines.trans (by decide +kernel), hrows.trans (by decide +kernel), hstatus.trans h200, htables,
      hagain204⟩

end Server

end LedgerFront
