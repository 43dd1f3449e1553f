import LedgerFront.Proofs.Memory.RowIds

/-!
# Tables that were written

A table is there from the first time that rows are put into it, even if there are none of them. It is
never taken away again: updates, deletions and postings put other rows in the place of those of a table
that is there.

* `Memory.answer_tables`: what a call does to the tables.
* `Memory.Written`: rows were put into a table.
* `Memory.table?_isSome_iff`: the tables after a run.
-/

namespace LedgerFront.Memory

variable {m m' : Memory} {key : TableKey} {rows : List Json}

/-- A table put in its own place. -/
theorem putTable_of_table? (h : m.table? key = some rows) : m.putTable key rows = m := by
  unfold putTable
  rw [Pairs.put_of_lookup h]

/-- The same tables, or other rows in one that is there. -/
def Rewrites (m m' : Memory) : Prop :=
  m'.tables = m.tables ∨
    ∃ key rows, (m.table? key).isSome ∧ m'.tables = (m.putTable key rows).tables

theorem Rewrites.refl (m : Memory) : Rewrites m m := .inl rfl

/-- No table comes or goes. -/
theorem Rewrites.isSome_eq (h : Rewrites m m') (key : TableKey) :
    (m'.table? key).isSome = (m.table? key).isSome := by
  obtain h | ⟨key', rows, hsome, h⟩ := h
  · unfold table?
    rw [h]
  · have htable : m'.table? key = (m.putTable key' rows).table? key := by
      unfold table?
      rw [h]
    rw [htable, table?_putTable]
    split
    · rename_i hkey
      rw [hkey, hsome]
      rfl
    · rfl

/-- **A call that inserts nothing.** -/
theorem answer_tables {session : Nat} {c : Call} {reply : Reply c}
    (hc : ∀ company entity rows, c ≠ .insert company entity rows)
    (h : m.answer session c = .ok (reply, m')) : Rewrites m m' := by
  obtain ⟨_, _, _, _, rfl⟩ | ⟨-, rfl⟩ | ⟨-, w, _, hw, rfl, -⟩ := answer_cases h
  · exact .inl rfl
  · exact .refl _
  obtain ⟨hnone, -⟩ | ⟨key, rows, -, htable, ⟨company, entity, new, rfl⟩ | ⟨-, old, hold, -⟩⟩ :=
    write?_cases hw
  · exact .inl (by simp [write, hnone])
  · exact absurd rfl (hc company entity new)
  · exact .inr ⟨key, rows, by simp [hold], by simp [write, htable]⟩

/-- **One step** brings the table that it puts rows into, and no other. -/
theorem happen_table? {e : MemoryEvent} (h : m.happen e = .ok m') (key : TableKey) :
    (m'.table? key).isSome ↔ (m.table? key).isSome ∨ ∃ rows, m.appended? e = some (key, rows) := by
  have hnothing : ∀ {m₁}, m.appended? e = none → Rewrites m m₁ →
      ((m₁.table? key).isSome ↔ (m.table? key).isSome ∨ ∃ rows, m.appended? e = some (key, rows)) := by
    intro m₁ hnone hrewrites
    simp [hrewrites.isSome_eq, hnone]
  have happends : ∀ {key' rows}, m.appended? e = some (key', rows) →
      (((m.append key' rows).2.table? key).isSome ↔
        (m.table? key).isSome ∨ ∃ rows, m.appended? e = some (key, rows)) := by
    intro key' rows hsome
    have htable : (m.append key' rows).2.table? key =
        if key = key' then some (m.rows key' ++ (numberAll m.lastRowId rows).1) else m.table? key :=
      table?_putTable key' key _ m
    rw [htable, hsome]
    by_cases hkey : key = key'
    · simp [hkey]
    · simp [hkey, Ne.symm hkey]
  cases e with
  | account | company | opens =>
    obtain rfl := Except.ok.inj h
    exact hnothing rfl (.inl rfl)
  | seed company entity rows =>
    obtain rfl := Except.ok.inj h
    exact happends rfl
  | call session c =>
    obtain ⟨⟨reply, m₁⟩, hanswer, rfl⟩ := map_eq_ok.1 h
    cases c with
    | insert company entity rows =>
      obtain ⟨hsome, rfl⟩ | ⟨hnone, rfl⟩ := answer_insert hanswer
      · exact happends hsome
      · exact hnothing hnone (.refl _)
    | _ => exact hnothing rfl (answer_tables (by simp) hanswer)

/-- In some state of the run, rows are put at the end of the table, if only none at all. -/
def Written (key : TableKey) (es : List MemoryEvent) : Prop :=
  ∃ before e rest m rows, es = before ++ e :: rest ∧ empty.after before = .ok m ∧
    m.appended? e = some (key, rows)

theorem written_concat {es : List MemoryEvent} {e : MemoryEvent} (h : empty.after es = .ok m) :
    Written key (es ++ [e]) ↔ Written key es ∨ ∃ rows, m.appended? e = some (key, rows) := by
  constructor
  · rintro ⟨before, e', rest, m₁, rows, hes, hm₁, happended⟩
    rcases rest.eq_nil_or_concat with rfl | ⟨rest, last, rfl⟩
    · obtain ⟨rfl, hlast⟩ := List.append_inj' hes rfl
      obtain rfl := List.singleton_inj.1 hlast
      obtain rfl := Except.ok.inj (h.symm.trans hm₁)
      exact .inr ⟨rows, happended⟩
    · have hes' : es ++ [e] = (before ++ e' :: rest) ++ [last] := by simpa using hes
      obtain ⟨rfl, -⟩ := List.append_inj' hes' rfl
      exact .inl ⟨before, e', rest, m₁, rows, rfl, hm₁, happended⟩
  · rintro (⟨before, e', rest, m₁, rows, rfl, hm₁, happended⟩ | ⟨rows, happended⟩)
    · exact ⟨before, e', rest ++ [e], m₁, rows, by simp, hm₁, happended⟩
    · exact ⟨es, e, [], m, rows, rfl, h, happended⟩

/-- **The tables after a run** are those that were written. -/
theorem table?_isSome_iff {es : List MemoryEvent} (h : empty.after es = .ok m) :
    (m.table? key).isSome ↔ Written key es := by
  induction es using List.reverseRecOn generalizing m with
  | nil =>
    obtain rfl := Except.ok.inj h
    simp [Written, table?, empty]
  | append_singleton es e ih =>
    rw [after_concat] at h
    obtain ⟨m₁, hm₁, h⟩ := bind_eq_ok.1 h
    rw [happen_table? h, ih hm₁, written_concat hm₁]

end LedgerFront.Memory
