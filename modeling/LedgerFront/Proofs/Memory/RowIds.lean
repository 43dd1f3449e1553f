import Mathlib.Data.List.Induction
import LedgerFront.Proofs.Memory.Writes

/-!
# Row numbers that identify rows

The memory gives the next number to a row that comes without one, and keeps the number of a row that
comes with one, without looking at what is in the table. So rows are identified by their numbers as long
as the numbers that they come with stay out of the way, and no longer.

* `Memory.happen`, `Memory.after`: what can happen to a memory, once and several times.
* `Memory.Identified`: no two rows of a table have the same number.
* `Memory.happen_identified`: one step keeps this up exactly when its rows fit.
* `Memory.identified_iff_fits`: a run keeps it up exactly when the rows of all its steps fit.
* `Memory.identified_of_unnumbered`: rows that come without numbers fit.
-/

namespace LedgerFront

/-- What can happen to a memory: it is filled with accounts, companies and rows, or a session is opened,
or a call is made in a session. -/
inductive MemoryEvent where
  | account (username password : String)
  | company (c : Company)
  | seed (company : Int) (entity : String) (rows : List Json)
  | opens
  | call (session : Nat) (c : Call)

namespace Memory

variable {m m' : Memory} {e : MemoryEvent} {key : TableKey} {rows : List Json}

/-- The memory after one event. -/
def happen (m : Memory) : MemoryEvent → Run Memory
  | .account username password => .ok (m.addAccount username password)
  | .company c => .ok (m.addCompany c)
  | .seed company entity rows => .ok (m.seedRows company entity rows)
  | .opens => .ok m.openSession
  | .call session c => (m.answer session c).map (·.2)

/-- The memory after several events. -/
def after (m : Memory) (es : List MemoryEvent) : Run Memory := es.foldlM happen m

/-- No two rows of a table have the same number. -/
def Identified (m : Memory) : Prop := ∀ key, Distinct (m.rows key)

/-! ## Steps -/

/-- The rows that an event puts at the end of a table. -/
def appended? (m : Memory) : MemoryEvent → Option (TableKey × List Json)
  | .seed company entity rows => some (.of company entity, rows)
  | .call session (.insert company entity rows) =>
    if m.isLoggedIn session && rows.all fun row => row.members?.isSome then
      some (.of company entity, rows)
    else none
  | _ => none

/-- The rows that an event puts into a table fit. -/
def Fits (m : Memory) (e : MemoryEvent) : Prop :=
  ∀ key rows, m.appended? e = some (key, rows) → FitsTable m.lastRowId (m.rows key) rows

/-- The numbers in the tables are all from before. -/
structure Keeps (m m' : Memory) : Prop where
  lastRowId : m'.lastRowId = m.lastRowId
  marks : ∀ key, (marks (m'.rows key)).Sublist (marks (m.rows key))

theorem Keeps.of_tables (hlast : m'.lastRowId = m.lastRowId) (htables : m'.tables = m.tables) :
    Keeps m m' := by
  refine ⟨hlast, fun key => ?_⟩
  unfold Memory.rows table?
  rw [htables]

theorem Keeps.of_putTable (hlast : m'.lastRowId = m.lastRowId)
    (htables : m'.tables = (m.putTable key rows).tables)
    (hmarks : (Memory.marks rows).Sublist (Memory.marks (m.rows key))) : Keeps m m' := by
  refine ⟨hlast, fun key' => ?_⟩
  have hrows : m'.rows key' = (m.putTable key rows).rows key' := by
    unfold Memory.rows table?
    rw [htables]
  rw [hrows, rows_putTable]
  split
  · rename_i hkey
    exact hkey ▸ hmarks
  · exact .refl _

theorem Keeps.refl (m : Memory) : Keeps m m := .of_tables rfl rfl

/-- **A call that inserts nothing.** -/
theorem answer_keeps {session : Nat} {c : Call} {reply : Reply c}
    (hc : ∀ company entity rows, c ≠ .insert company entity rows)
    (h : m.answer session c = .ok (reply, m')) : Keeps m m' := by
  obtain ⟨_, _, _, _, rfl⟩ | ⟨-, rfl⟩ | ⟨-, w, _, hw, rfl, -⟩ := answer_cases h
  · exact .of_tables rfl rfl
  · exact .refl _
  obtain ⟨hnone, hlast⟩ | ⟨key, rows, -, htable, ⟨company, entity, new, rfl⟩ | ⟨hlast, old, hold, hmarks⟩⟩ :=
    write?_cases hw
  · exact .of_tables hlast (by simp [write, hnone])
  · exact absurd rfl (hc company entity new)
  · have htables : (m.write w).tables = (m.putTable key rows).tables := by simp [write, htable]
    refine .of_putTable hlast htables ?_
    rwa [rows_of_table? hold]

theorem appended?_insert {session : Nat} {company : Int} {entity : String} :
    m.appended? (.call session (.insert company entity rows)) =
      if m.isLoggedIn session && rows.all fun row => row.members?.isSome then
        some (.of company entity, rows)
      else none := rfl

theorem answer_insert {session : Nat} {company : Int} {entity : String}
    {reply : Reply (.insert company entity rows)}
    (h : m.answer session (.insert company entity rows) = .ok (reply, m')) :
    (m.appended? (.call session (.insert company entity rows)) = some (.of company entity, rows) ∧
      m' = (m.append (.of company entity) rows).2) ∨
    (m.appended? (.call session (.insert company entity rows)) = none ∧ m' = m) := by
  have hwrite : m.write? (.insert company entity rows) =
      if rows.all fun row => row.members?.isSome then
        some ⟨some (.of company entity, m.rows (.of company entity) ++ (numberAll m.lastRowId rows).1),
          (numberAll m.lastRowId rows).2, m.lastDocument⟩
      else none := rfl
  rw [appended?_insert]
  obtain ⟨_, _, _, hlogin, -⟩ | ⟨hidle, rfl⟩ | ⟨hsession, w, _, hw, rfl, -⟩ := answer_cases h
  · exact absurd hlogin nofun
  · refine .inr ⟨if_neg fun hcond => ?_, rfl⟩
    obtain ⟨hsession, hobjects⟩ := Bool.and_eq_true_iff.1 hcond
    rw [hwrite, if_pos hobjects] at hidle
    exact absurd (hidle hsession) nofun
  · rw [hwrite, Option.ite_none_right_eq_some] at hw
    obtain ⟨hobjects, hw⟩ := hw
    obtain rfl := Option.some.inj hw
    exact .inl ⟨if_pos (Bool.and_eq_true_iff.2 ⟨hsession, hobjects⟩), rfl⟩

/-- **One step** puts rows at the end of a table, or brings no new numbers. -/
theorem happen_cases (h : m.happen e = .ok m') :
    (∃ key rows, m.appended? e = some (key, rows) ∧ m' = (m.append key rows).2) ∨
      (m.appended? e = none ∧ Keeps m m') := by
  cases e with
  | account | company | opens =>
    obtain rfl := Except.ok.inj h
    exact .inr ⟨rfl, .of_tables rfl rfl⟩
  | seed company entity rows =>
    obtain rfl := Except.ok.inj h
    exact .inl ⟨_, _, rfl, rfl⟩
  | call session c =>
    obtain ⟨⟨reply, m₁⟩, hanswer, rfl⟩ := map_eq_ok.1 h
    cases c with
    | insert company entity rows =>
      obtain ⟨happended, rfl⟩ | ⟨happended, rfl⟩ := answer_insert hanswer
      · exact .inl ⟨_, _, happended, rfl⟩
      · exact .inr ⟨happended, .refl _⟩
    | _ => exact .inr ⟨rfl, answer_keeps (by simp) hanswer⟩

/-- **Rows put at the end of a table** leave all tables identified exactly when they fit. -/
theorem append_identified (hm : m.Identified) :
    (m.append key rows).2.Identified ↔ FitsTable m.lastRowId (m.rows key) rows := by
  have hrows : ∀ key', (m.append key rows).2.rows key' =
      if key' = key then m.rows key ++ (numberAll m.lastRowId rows).1 else m.rows key' :=
    fun key' => rows_putTable key key' _ m
  rw [← distinct_append_iff (hm key)]
  constructor
  · intro h
    have hkey := h key
    rwa [hrows, if_pos rfl] at hkey
  · intro h key'
    rw [hrows]
    split
    · exact h
    · exact hm key'

/-- **One step** from a memory whose rows are identified. -/
theorem happen_identified (hm : m.Identified) (h : m.happen e = .ok m') :
    m'.Identified ↔ m.Fits e := by
  obtain ⟨key, rows, happended, rfl⟩ | ⟨happended, hkeeps⟩ := happen_cases h
  · rw [append_identified hm]
    unfold Fits
    rw [happended]
    constructor
    · rintro hfits _ _ ⟨⟩
      exact hfits
    · exact fun hfits => hfits key rows rfl
  · refine iff_of_true (fun key => ?_) fun key rows hsome => ?_
    · exact distinct_iff.2 ((distinct_iff.1 (hm key)).sublist (hkeeps.marks key))
    · exact absurd (happended.symm.trans hsome) nofun

/-! ## Runs -/

theorem after_cons (m : Memory) (e : MemoryEvent) (es : List MemoryEvent) :
    m.after (e :: es) = m.happen e >>= fun m' => m'.after es := by
  unfold after
  rw [List.foldlM_cons]

theorem after_concat (m : Memory) (es : List MemoryEvent) (e : MemoryEvent) :
    m.after (es ++ [e]) = m.after es >>= fun m' => m'.happen e := by
  unfold after
  rw [List.foldlM_append]
  simp

theorem empty_identified : empty.Identified := fun _ => List.Pairwise.nil

/-- A step that stops the program puts no rows into a table. -/
theorem fits_of_stops {why : Abort} (h : m.happen e = .error why) : m.Fits e := by
  intro key rows happended
  cases e with
  | account | company | opens => simp [appended?] at happended
  | seed => simp [happen] at h
  | call session c =>
    cases c with
    | insert company entity rows =>
      have hok : ∃ p, m.answer session (.insert company entity rows) = .ok p := by
        rw [answer_of_ne_login session]
        · split <;> exact ⟨_, rfl⟩
        · simp
      obtain ⟨p, hp⟩ := hok
      simp [happen, hp, Except.map] at h
    | _ => simp [appended?] at happended

/-- **Rows are identified throughout a run exactly when all rows fit**: in all states of a run, no two
rows of a table have the same number if and only if each time rows are put into a table, their own
numbers and the numbers that the memory gives them are new to it. -/
theorem identified_iff_fits (es : List MemoryEvent) :
    (∀ before rest m, es = before ++ rest → empty.after before = .ok m → m.Identified) ↔
    ∀ before e rest m, es = before ++ e :: rest → empty.after before = .ok m → m.Fits e := by
  constructor
  · intro h before e rest m hes hm
    have hidentified := h before (e :: rest) m hes hm
    cases hnext : m.happen e with
    | error why => exact fits_of_stops hnext
    | ok m' =>
      refine (happen_identified hidentified hnext).1 (h (before ++ [e]) rest m' (by simp [hes]) ?_)
      rw [after_concat, hm]
      exact hnext
  · intro h before
    induction before using List.reverseRecOn with
    | nil =>
      rintro rest m - hm
      obtain rfl := Except.ok.inj hm
      exact empty_identified
    | append_singleton before e ih =>
      intro rest m hes hm
      rw [after_concat] at hm
      obtain ⟨m₁, hm₁, hm⟩ := bind_eq_ok.1 hm
      have hes₁ : es = before ++ e :: rest := by simp [hes]
      exact (happen_identified (ih (e :: rest) m₁ hes₁ hm₁) hm).2 (h before e rest m₁ hes₁ hm₁)

/-- The number that a row comes with is the next one that the memory gives out. -/
theorem not_identified_of_seed : ∃ m, empty.after [.seed 1 "Debtor"
      [.obj [("Account", .str "1000"), ("RowId", .ofNat 1)], .obj [("Account", .str "1001")]]] = .ok m ∧
    ¬ m.Identified := by
  refine ⟨_, rfl, fun h => ?_⟩
  have hd := h (.of 1 "Debtor")
  simp only [Distinct] at hd
  revert hd
  decide

/-! ## Rows without numbers -/

/-- All numbers in the tables have been given out by the memory. -/
def Counted (m : Memory) : Prop :=
  ∀ key, ∀ mark ∈ marks (m.rows key), ∃ n ≤ m.lastRowId, mark = .ofNat n

theorem Counted.fitsTable (hc : m.Counted) (h : ∀ row ∈ rows, rowId? row = none) :
    FitsTable m.lastRowId (m.rows key) rows := by
  have hmarks := marks_of_unnumbered h
  refine ⟨?_, fun old _ row hrow => ?_, fun n hlast _ row hrow hid => ?_⟩
  · rw [distinct_iff, hmarks]
    exact List.nodup_nil
  · rw [← Bool.not_eq_true, sameRow_iff]
    rintro ⟨mark, -, hmark⟩
    simp [mark?, h row hrow] at hmark
  · obtain hrow | hrow := List.mem_append.1 hrow
    · obtain ⟨k, hk, hkn⟩ := hc key (.ofNat n) (mem_marks.2 ⟨row, hrow, mark_eq_ofNat.2 hid⟩)
      obtain rfl := Json.ofNat_injective hkn
      omega
    · simp [h row hrow] at hid

theorem Counted.append (hc : m.Counted) (h : ∀ row ∈ rows, rowId? row = none) :
    (m.append key rows).2.Counted := by
  intro key' mark hmark
  have hlast : (m.append key rows).2.lastRowId = m.lastRowId + rows.countP lacksNumber :=
    numberAll_last m.lastRowId rows
  have hrows : (m.append key rows).2.rows key' =
      if key' = key then m.rows key ++ (numberAll m.lastRowId rows).1 else m.rows key' :=
    rows_putTable key key' _ m
  rw [hlast]
  have hold : ∀ {k}, mark ∈ marks (m.rows k) →
      ∃ n ≤ m.lastRowId + rows.countP lacksNumber, mark = .ofNat n := by
    intro k hk
    obtain ⟨n, hn, rfl⟩ := hc k mark hk
    exact ⟨n, by omega, rfl⟩
  rw [hrows] at hmark
  split at hmark
  · rw [marks_append, List.mem_append, (marks_numberAll _ _).mem_iff, marks_of_unnumbered h,
      List.nil_append, List.mem_map] at hmark
    obtain hmark | ⟨n, hn, rfl⟩ := hmark
    · exact hold hmark
    · exact ⟨n, by simp only [List.mem_range'_1] at hn; omega, rfl⟩
  · exact hold hmark

end Memory

/-- The rows that come in have no numbers of their own. -/
def MemoryEvent.Unnumbered : MemoryEvent → Prop
  | .seed _ _ rows | .call _ (.insert _ _ rows) => ∀ row ∈ rows, Memory.rowId? row = none
  | _ => True

namespace Memory

variable {m m' : Memory} {e : MemoryEvent} {key : TableKey} {rows : List Json}

theorem unnumbered_of_appended (he : e.Unnumbered) (h : m.appended? e = some (key, rows)) :
    ∀ row ∈ rows, rowId? row = none := by
  cases e with
  | account | company | opens => simp [appended?] at h
  | seed company entity rows' =>
    obtain ⟨-, rfl⟩ := Prod.mk.inj (Option.some.inj h)
    exact he
  | call session c =>
    cases c with
    | insert company entity rows' =>
      rw [appended?_insert, Option.ite_none_right_eq_some] at h
      obtain ⟨-, rfl⟩ := Prod.mk.inj (Option.some.inj h.2)
      exact he
    | _ => simp [appended?] at h

theorem happen_counted (hc : m.Counted) (he : e.Unnumbered) (h : m.happen e = .ok m') : m'.Counted := by
  obtain ⟨key, rows, happended, rfl⟩ | ⟨-, hkeeps⟩ := happen_cases h
  · exact hc.append (unnumbered_of_appended he happended)
  · intro key mark hmark
    rw [hkeeps.lastRowId]
    exact hc key mark ((hkeeps.marks key).subset hmark)

theorem after_identified {es : List MemoryEvent} (hes : ∀ e ∈ es, e.Unnumbered) (hm : m.Identified)
    (hc : m.Counted) (h : m.after es = .ok m') : m'.Identified := by
  induction es generalizing m with
  | nil =>
    obtain rfl := Except.ok.inj h
    exact hm
  | cons e es ih =>
    rw [after_cons] at h
    obtain ⟨m₁, hm₁, h⟩ := bind_eq_ok.1 h
    have he : e.Unnumbered := hes e (by simp)
    have hfits : m.Fits e := fun key rows happended =>
      hc.fitsTable (unnumbered_of_appended he happended)
    exact ih (fun e' he' => hes e' (by simp [he'])) ((happen_identified hm hm₁).2 hfits)
      (happen_counted hc he hm₁) h

/-- **The memory's own numbers identify rows**: if no row comes with a number, then no two rows of a
table have the same one, whatever else happens. -/
theorem identified_of_unnumbered {es : List MemoryEvent} (hes : ∀ e ∈ es, e.Unnumbered)
    (h : empty.after es = .ok m) : m.Identified :=
  after_identified hes empty_identified (fun _ _ hmark => absurd hmark List.not_mem_nil) h

end Memory

end LedgerFront
