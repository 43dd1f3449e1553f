import LedgerFront.Proofs.Memory.Marks
import LedgerFront.Proofs.Memory.Tables
import LedgerFront.Proofs.Refusal

/-!
# What calls write

A call writes at most one table and the two counters, and then its answer says so. Everything that calls
leave as it was can be read off what they write.

* `Memory.write?`: what a call writes in a session that is logged in.
* `Memory.serve_cases`, `Memory.answer_cases`: a call writes that, or nothing.
* `Memory.write?_cases`: what is written where.
-/

namespace LedgerFront

/-- The answer reports that something was written. -/
def Call.Wrote : (c : Call) → c.Answer → Prop
  | .insert .., outcome => WriteOutcome.status outcome = .success
  | .update .., outcome => WriteOutcome.status outcome = .success
  | .delete .., status => status = Status.success
  | .invoice .., outcome => InvoiceOutcome.status outcome = .success
  | .journal .., outcome => PostingOutcome.status outcome = .success
  | _, _ => False

/-- The table that a call puts rows into, if any. -/
def Call.target? : Call → Option TableKey
  | .insert company entity _ | .update company entity _ | .delete company entity _ =>
    some (.of company entity)
  | .journal company _ => some (.of company Memory.journalLines)
  | _ => none

namespace Memory

/-- Rows in the place of those of a table, or no rows, and the counters after it. -/
structure Write where
  table : Option (TableKey × List Json)
  lastRowId : Nat
  lastDocument : Nat

variable {m m' : Memory} {c : Call} {w : Write}

/-- The memory after a write. -/
def write (w : Write) (m : Memory) : Memory :=
  { w.table.elim m fun (key, rows) => m.putTable key rows with
    lastRowId := w.lastRowId, lastDocument := w.lastDocument }

theorem table?_write (w : Write) (m : Memory) (key : TableKey) :
    (m.write w).table? key = (w.table.elim m fun (key, rows) => m.putTable key rows).table? key := rfl

/-- What a call writes in a session that is logged in, if it writes anything. -/
def write? (m : Memory) : Call → Option Write
  | .insert company entity rows =>
    let key := TableKey.of company entity
    if rows.all fun row => row.members?.isSome then
      let (stored, last) := numberAll m.lastRowId rows
      some ⟨some (key, m.rows key ++ stored), last, m.lastDocument⟩
    else none
  | .update company entity rows =>
    let key := TableKey.of company entity
    (m.table? key).bind fun old =>
      if covers old rows then
        let new := rows.foldl (fun t row => replaceFirst row t) old
        some ⟨some (key, new), m.lastRowId, m.lastDocument⟩
      else none
  | .delete company entity rows =>
    let key := TableKey.of company entity
    (m.table? key).bind fun old =>
      if covers old rows then
        let left := old.filter fun t => !rows.any (sameRow t)
        some ⟨some (key, left), m.lastRowId, m.lastDocument⟩
      else none
  | .invoice _ r =>
    if r.lines.isEmpty then none else some ⟨none, m.lastRowId, m.lastDocument + 1⟩
  | .journal company p =>
    let key := TableKey.of company journalLines
    if ((m.rows key).filter (belongs p.journal)).length = 0 then none
    else
      let left := (m.rows key).filter fun line => !belongs p.journal line
      some ⟨if p.simulate then none else some (key, left), m.lastRowId, m.lastDocument + 1⟩
  | _ => none

/-- Nothing is written, or what the call writes, and then the answer reports it. -/
def CarriesOut (m : Memory) (c : Call) (reply : Reply c) (m' : Memory) : Prop :=
  (m.write? c = none ∧ m' = m) ∨
    ∃ w a, m.write? c = some w ∧ m' = m.write w ∧ reply = .ok a ∧ c.Wrote a

section

variable {company : Int} {entity : String} {rows : List Json}

theorem insert_carriesOut : m.CarriesOut (.insert company entity rows)
    (.ok (m.insert (.of company entity) rows).1) (m.insert (.of company entity) rows).2 := by
  unfold insert
  split
  · rename_i hobjects
    exact .inr ⟨_, _, if_pos hobjects, rfl, rfl, rfl⟩
  · rename_i hobjects
    exact .inl ⟨if_neg hobjects, rfl⟩

theorem update_carriesOut : m.CarriesOut (.update company entity rows)
    (.ok (m.update (.of company entity) rows).1) (m.update (.of company entity) rows).2 := by
  simp only [CarriesOut, write?, update]
  cases m.table? (.of company entity) with
  | none => exact .inl ⟨rfl, rfl⟩
  | some old =>
    dsimp only [Option.bind]
    split
    · exact .inr ⟨_, _, rfl, rfl, rfl, rfl⟩
    · exact .inl ⟨rfl, rfl⟩

theorem delete_carriesOut : m.CarriesOut (.delete company entity rows)
    (.ok (m.delete (.of company entity) rows).1) (m.delete (.of company entity) rows).2 := by
  simp only [CarriesOut, write?, delete]
  cases m.table? (.of company entity) with
  | none => exact .inl ⟨rfl, rfl⟩
  | some old =>
    dsimp only [Option.bind]
    split
    · exact .inr ⟨_, _, rfl, rfl, rfl, rfl⟩
    · exact .inl ⟨rfl, rfl⟩

theorem invoice_carriesOut (r : InvoiceRequest) :
    m.CarriesOut (.invoice company r) (.ok (m.invoice r).1) (m.invoice r).2 := by
  unfold invoice
  split
  · rename_i hlines
    exact .inl ⟨if_pos hlines, rfl⟩
  · rename_i hlines
    exact .inr ⟨_, _, if_neg hlines, rfl, rfl, rfl⟩

theorem journal_carriesOut (p : JournalPosting) :
    m.CarriesOut (.journal company p) (.ok (m.journal company p).1) (m.journal company p).2 := by
  unfold journal
  dsimp only
  split
  · rename_i hcount
    exact .inl ⟨if_pos hcount, rfl⟩
  · rename_i hcount
    refine .inr ⟨_, _, if_neg hcount, ?_, rfl, rfl⟩
    -- the lines go only in a posting that is real
    cases p.simulate <;> rfl

end

/-- **A call in a session that is logged in** writes what `write?` says, and its answer reports it. -/
theorem serve_cases {reply : Reply c} (h : m.serve c = .ok (reply, m')) : m.CarriesOut c reply m' := by
  cases c with
  | login | companies | read | lines =>
    obtain ⟨-, rfl⟩ := Prod.mk.inj (Except.ok.inj h)
    exact .inl ⟨rfl, rfl⟩
  | query company entity predicates =>
    obtain ⟨_, -, h⟩ := map_eq_ok.1 h
    obtain ⟨-, rfl⟩ := Prod.mk.inj h
    exact .inl ⟨rfl, rfl⟩
  | insert company entity rows =>
    obtain ⟨rfl, rfl⟩ := Prod.mk.inj (Except.ok.inj h)
    exact insert_carriesOut
  | update company entity rows =>
    obtain ⟨rfl, rfl⟩ := Prod.mk.inj (Except.ok.inj h)
    exact update_carriesOut
  | delete company entity rows =>
    obtain ⟨rfl, rfl⟩ := Prod.mk.inj (Except.ok.inj h)
    exact delete_carriesOut
  | invoice company request =>
    obtain ⟨rfl, rfl⟩ := Prod.mk.inj (Except.ok.inj h)
    exact invoice_carriesOut request
  | journal company posting =>
    obtain ⟨rfl, rfl⟩ := Prod.mk.inj (Except.ok.inj h)
    exact journal_carriesOut posting

/-- The memory after a call. -/
theorem serve_memory {reply : Reply c} (h : m.serve c = .ok (reply, m')) :
    m' = (m.write? c).elim m m.write := by
  obtain ⟨hnone, rfl⟩ | ⟨w, _, hw, rfl, -⟩ := serve_cases h
  · rw [hnone]
    rfl
  · rw [hw]
    rfl

/-- A call other than a login is refused in a session that is not logged in. -/
theorem answer_of_ne_login (session : Nat) (hc : ∀ user key, c ≠ .login user key) :
    m.answer session c = if m.isLoggedIn session then m.serve c else .ok (.error .notLoggedIn, m) := by
  cases c with
  | login user key => exact absurd rfl (hc user key)
  | _ => rfl

/-- **A call in any session** changes the sessions and the count of logins if it is a login; otherwise it
writes what `write?` says if the session is logged in, and nothing if it is not. -/
theorem answer_cases {session : Nat} {reply : Reply c} (h : m.answer session c = .ok (reply, m')) :
    (∃ user key sessions, c = .login user key ∧
      m' = { m with logins := m.logins + 1, sessions := sessions }) ∨
    ((m.isLoggedIn session = true → m.write? c = none) ∧ m' = m) ∨
    m.isLoggedIn session = true ∧
      ∃ w a, m.write? c = some w ∧ m' = m.write w ∧ reply = .ok a ∧ c.Wrote a := by
  -- a login is answered in any session, all other calls in one that is logged in
  by_cases hlogin : ∃ user key, c = .login user key
  · obtain ⟨user, key, rfl⟩ := hlogin
    simp only [answer] at h
    split at h
    all_goals
      obtain ⟨-, rfl⟩ := Prod.mk.inj (Except.ok.inj h)
      exact .inl ⟨user, key, _, rfl, rfl⟩
  · rw [answer_of_ne_login session fun user key hc => hlogin ⟨user, key, hc⟩] at h
    split at h
    · rename_i hsession
      obtain ⟨hnone, rfl⟩ | hwrote := serve_cases h
      · exact .inr (.inl ⟨fun _ => hnone, rfl⟩)
      · exact .inr (.inr ⟨hsession, hwrote⟩)
    · rename_i hsession
      exact .inr (.inl ⟨fun h => absurd h hsession, (Prod.mk.inj (Except.ok.inj h)).2.symm⟩)

/-- **What is written where.** Rows are put into the table that the call is about, if any. Unless they are
inserted, they stand in the place of rows with at least their numbers, and no number is given out. -/
theorem write?_cases (h : m.write? c = some w) :
    (w.table = none ∧ w.lastRowId = m.lastRowId) ∨
    ∃ key rows, c.target? = some key ∧ w.table = some (key, rows) ∧
      ((∃ company entity new, c = .insert company entity new) ∨
        w.lastRowId = m.lastRowId ∧ ∃ old, m.table? key = some old ∧ (marks rows).Sublist (marks old)) := by
  cases c with
  | login | companies | read | lines | query => simp [write?] at h
  | insert company entity rows =>
    simp only [write?, Option.ite_none_right_eq_some, Option.some.injEq] at h
    obtain ⟨-, rfl⟩ := h
    exact .inr ⟨_, _, rfl, rfl, .inl ⟨company, entity, rows, rfl⟩⟩
  | update company entity rows =>
    simp only [write?, Option.bind_eq_some_iff, Option.ite_none_right_eq_some, Option.some.injEq] at h
    obtain ⟨old, hold, -, rfl⟩ := h
    exact .inr ⟨_, _, rfl, rfl, .inr ⟨rfl, old, hold, (marks_update rows old).symm ▸ .refl _⟩⟩
  | delete company entity rows =>
    simp only [write?, Option.bind_eq_some_iff, Option.ite_none_right_eq_some, Option.some.injEq] at h
    obtain ⟨old, hold, -, rfl⟩ := h
    exact .inr ⟨_, _, rfl, rfl, .inr ⟨rfl, old, hold, marks_filter _ old⟩⟩
  | invoice company request =>
    simp only [write?, Option.ite_none_left_eq_some, Option.some.injEq] at h
    obtain ⟨-, rfl⟩ := h
    exact .inl ⟨rfl, rfl⟩
  | journal company posting =>
    simp only [write?, Option.ite_none_left_eq_some, Option.some.injEq] at h
    obtain ⟨hcount, rfl⟩ := h
    cases posting.simulate with
    | true => exact .inl ⟨rfl, rfl⟩
    | false =>
      -- where lines are found, there is a table
      obtain ⟨old, hold⟩ : ∃ old, m.table? (.of company journalLines) = some old := by
        refine Option.ne_none_iff_exists'.1 fun hnone => hcount ?_
        simp [Memory.rows, hnone]
      refine .inr ⟨_, _, rfl, rfl, .inr ⟨rfl, old, hold, ?_⟩⟩
      rw [rows_of_table? hold]
      exact marks_filter _ old

/-- Rows are put into the table that the call is about. -/
theorem target?_of_write? {key : TableKey} {rows : List Json} (h : m.write? c = some w)
    (ht : w.table = some (key, rows)) : c.target? = some key := by
  obtain ⟨hnone, -⟩ | ⟨key', rows', htarget, htable, -⟩ := write?_cases h
  · simp [hnone] at ht
  · obtain ⟨rfl, -⟩ := Prod.mk.inj (Option.some.inj (htable.symm.trans ht))
    exact htarget

end Memory

end LedgerFront
