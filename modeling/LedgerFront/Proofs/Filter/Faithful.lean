import LedgerFront.Proofs.Filter.Groups
import LedgerFront.Proofs.Filter.NormalForm
import LedgerFront.Proofs.Where.Misread

/-!
# Groups that survive folding

A folded group is checked term by term: texts by equality, numbers as doubles. It
comes to the same as the group on every cell of the type exactly when the group is
faithful: the expression can be read back, and the alternatives are all those that
are the same double.

* `Group.Faithful`: the groups that can be folded.
* `Group.terms_hold`: a faithful group on the cells of its type.
* `Group.agrees_iff_faithful`: no other group comes to the same on all these cells.
-/

namespace LedgerFront

open Where

namespace ValueType

/-- The JSON form of the values of a type. -/
def HasForm : ValueType → Json → Prop
  | string, v | enum, v => ∃ s, v = .str s
  | integer, v => ∃ i : Int, (-2 ^ 63 ≤ i ∧ i < 2 ^ 63) ∧ v = .num (.int i)
  | decimal, v => ∃ n, v = .num n
  | boolean, v => ∃ b, v = .bool b
  | date, v => ∃ s, IsNormal s date ∧ v = .str s
  | dateTime, v => ∃ s, IsNormal s dateTime ∧ v = .str s

/-- The cell is empty or has the JSON form of the type. -/
def Fits (t : ValueType) (v : Json) : Prop := v = .null ∨ t.HasForm v

variable {t : ValueType} {v : String} {cell : Json}

theorem Fits.not_escapes (h : t.Fits cell) : ¬ t.EscapesJson cell := by
  rintro ⟨raw, rfl, hesc⟩
  obtain h | h := h
  · exact absurd h (by simp)
  have hstop := normalize_stops.2 hesc
  obtain ⟨rfl | rfl, _⟩ := hesc
  · obtain ⟨s, hs, h⟩ := h
    obtain rfl : raw = s := by simpa using h
    rw [normalize_of_isNormal hs] at hstop
    exact Run.not_stops_ok hstop
  · obtain ⟨s, hs, h⟩ := h
    obtain rfl : raw = s := by simpa using h
    rw [normalize_of_isNormal hs] at hstop
    exact Run.not_stops_ok hstop

theorem normalizeJson_int {i : Int} (h : -2 ^ 63 ≤ i ∧ i < 2 ^ 63) :
    integer.normalizeJson (.num (.int i)) = .ok (some (Text.intText i)) := by
  simp only [normalizeJson, normalizeNumber, JsonNumber.int64?]
  rw [if_pos (by omega)]

/-- Every normal form is that of a cell. -/
theorem exists_cell (h : t.IsNormal v) : ∃ cell, t.HasForm cell ∧
    (t.isBare = false → cell = .str v) ∧ t.normalizeJson cell = .ok (some v) := by
  have hself := normalize_of_isNormal h
  cases t with
  | string | enum => exact ⟨.str v, ⟨v, rfl⟩, fun _ => rfl, rfl⟩
  | integer =>
    obtain ⟨i, hi, rfl⟩ := h
    exact ⟨.num (.int i), ⟨i, hi, rfl⟩, by simp [isBare], normalizeJson_int hi⟩
  | decimal =>
    obtain ⟨x, rfl⟩ := h
    exact ⟨.num (.double x), ⟨_, rfl⟩, by simp [isBare], rfl⟩
  | boolean =>
    obtain ⟨b, rfl⟩ := h
    exact ⟨.bool b, ⟨b, rfl⟩, by simp [isBare], rfl⟩
  | date => exact ⟨.str v, ⟨v, h, rfl⟩, fun _ => rfl, hself⟩
  | dateTime => exact ⟨.str v, ⟨v, h, rfl⟩, fun _ => rfl, hself⟩

theorem isNormal_isNumber (h : t.IsNormal v) (ht : t = integer ∨ t = decimal) :
    Text.IsNumber v.toList := by
  obtain rfl | rfl := ht
  · obtain ⟨i, _, rfl⟩ := h
    simpa [Text.intText] using Text.isNumber_intChars i
  · obtain ⟨x, rfl⟩ := h
    simpa [Binary64.plainText] using x.isNumber_plainChars

theorem isWord_of_isNumber {s : List Char} (h : Text.IsNumber s) : IsWord s := by
  obtain ⟨hall, a, e, rfl, _⟩ := h
  refine ⟨by simp, fun c hc => ⟨(hall c hc).not_blank, ?_, ?_⟩⟩
  · rintro rfl
    exact absurd (hall _ hc) (by simp [Text.IsNumeral, Text.isDigit])
  · rintro rfl
    exact absurd (hall _ hc) (by simp [Text.IsNumeral, Text.isDigit])

theorem inert_digit {c : Char} (h : Text.isDigit c = true) : Text.Inert sameLetter separator c := by
  simp only [Text.isDigit, Bool.and_eq_true, decide_eq_true_eq] at h
  have hlower : c.toLower = c := Text.toLower_of_not_upper (by omega)
  intro d hd
  unfold sameLetter
  rw [hlower, beq_eq_false_iff_ne]
  rintro rfl
  simp only [separator, List.mem_cons, List.not_mem_nil, or_false] at hd
  rcases hd with rfl | rfl | rfl | rfl <;> simp at h

/-- A normal form without quotes is a word that no separator runs into. -/
theorem isWord_of_isNormal (h : t.IsNormal v) (ht : t.isBare = true) :
    IsWord v.toList ∧ Sealed t v := by
  cases t with
  | string | enum | date | dateTime => simp [isBare] at ht
  | integer =>
    have hnum := isNormal_isNumber h (.inl rfl)
    obtain ⟨a, e, hv, he⟩ := hnum.last
    exact ⟨isWord_of_isNumber hnum, fun _ => ⟨a, e, hv, inert_digit he⟩⟩
  | decimal =>
    have hnum := isNormal_isNumber h (.inr rfl)
    obtain ⟨a, e, hv, he⟩ := hnum.last
    exact ⟨isWord_of_isNumber hnum, fun _ => ⟨a, e, hv, inert_digit he⟩⟩
  | boolean =>
    have he : Text.Inert sameLetter separator 'e' := by simp [Text.Inert, separator, sameLetter]
    obtain ⟨b, rfl⟩ := h
    cases b
    · have hword : IsWord "false".toList := by simp [IsWord, Text.isBlank]
      exact ⟨hword, fun _ => ⟨['f', 'a', 'l', 's'], 'e', rfl, he⟩⟩
    · have hword : IsWord "true".toList := by simp [IsWord, Text.isBlank]
      exact ⟨hword, fun _ => ⟨['t', 'r', 'u'], 'e', rfl, he⟩⟩

theorem boolText_injective {a b : Bool}
    (h : Text.sameName (Literal.boolText a) (Literal.boolText b) = true) : a = b := by
  revert h
  cases a <;> cases b <;> decide

/-- A number satisfies the term of a decimal when the two are the same number. -/
theorem accepts_num {name v : String} {quoted : Bool} {n : JsonNumber} {y : Binary64}
    (hv : Binary64.ofChars? v.toList = some y) :
    (⟨name, v, quoted⟩ : Term).accepts (.num n) = true ↔
      ∃ x, n.binary64? = some x ∧ x.sameNumber y = true := by
  unfold Term.accepts
  simp only [hv]
  cases n.binary64? <;> simp

/-- A cell with the normal form of an alternative satisfies the term of that alternative. -/
theorem accepts_of_normalizeJson {name : String} (hv : t.IsNormal v) (hc : t.HasForm cell)
    (h : t.normalizeJson cell = .ok (some v)) :
    (⟨name, v, !t.isBare⟩ : Term).accepts cell = true := by
  have hself (x : Binary64) : x.sameNumber x = true := by simp [Binary64.sameNumber]
  cases t with
  | string | enum =>
    obtain ⟨s, rfl⟩ := hc
    obtain rfl : s = v := by simpa [normalizeJson, isText] using h
    simp [Term.accepts, isBare]
  | integer =>
    obtain ⟨i, hi, rfl⟩ := hc
    obtain ⟨x, hx⟩ := Option.isSome_iff_exists.1 (Binary64.ofInt?_isSome hi)
    obtain rfl : Text.intText i = v := by simpa [normalizeJson_int hi] using h
    rw [accepts_num ((Binary64.ofChars?_intText hi).trans hx)]
    exact ⟨x, hx, hself x⟩
  | decimal =>
    obtain ⟨n, rfl⟩ := hc
    obtain ⟨x, hx, rfl⟩ := Option.map_eq_some_iff.1 (Except.ok.inj h)
    rw [accepts_num x.ofChars?_plainText]
    exact ⟨x, hx, hself x⟩
  | boolean =>
    obtain ⟨b, rfl⟩ := hc
    obtain rfl : Literal.boolText b = v := by simpa [normalizeJson] using h
    exact Text.sameName_refl _
  | date =>
    obtain ⟨s, hs, rfl⟩ := hc
    have hn := normalize_of_isNormal hs
    obtain rfl : s = v := by simpa [normalizeJson, isText, hn] using h
    simp [Term.accepts, isBare]
  | dateTime =>
    obtain ⟨s, hs, rfl⟩ := hc
    have hn := normalize_of_isNormal hs
    obtain rfl : s = v := by simpa [normalizeJson, isText, hn] using h
    simp [Term.accepts, isBare]

end ValueType

/-- A group that can be folded. -/
structure Group.Faithful (g : Group) : Prop where
  readable : ReadableName g.column.name.toList
  whole : g.column.valueType.isBare = false → ∀ v ∈ g.values, ¬ Separated v.toList
  integers : g.column.valueType = .integer → ∀ i j : Int, -2 ^ 63 ≤ j ∧ j < 2 ^ 63 →
    Text.intText i ∈ g.values → Binary64.SameInt j i → Text.intText j ∈ g.values
  zeros : g.column.valueType = .decimal → ("0" ∈ g.values ↔ "-0" ∈ g.values)

namespace Group

variable {g : Group}

/-- The alternatives are normal forms of the column's type, of which there is one at least. -/
structure Normal (g : Group) : Prop where
  ne : g.values ≠ []
  normal : ∀ v ∈ g.values, g.column.valueType.IsNormal v

theorem Normal.isWord (hn : g.Normal) :
    ∀ v ∈ g.values, g.column.valueType.isBare = true → IsWord v.toList :=
  fun v hv ht => (ValueType.isWord_of_isNormal (hn.normal v hv) ht).1

theorem Normal.sealed (hn : g.Normal) : ∀ v ∈ g.values, Sealed g.column.valueType v :=
  fun v hv ht => (ValueType.isWord_of_isNormal (hn.normal v hv) ht).2 ht

/-- The terms that the group is written as. -/
def terms (g : Group) : List Term :=
  g.values.map fun v => ⟨g.column.name, v, !g.column.valueType.isBare⟩

/-- The cell of the row, if it has one, is empty or has the form of the column's type. -/
def FitsRow (g : Group) (row : Members) : Prop :=
  ∀ v, Row.column? g.column.name row = some v → g.column.valueType.Fits v

theorem holds_iff {row : Members} : g.holds row = true ↔ ∃ cell w,
    Row.column? g.column.name row = some cell ∧
      g.column.valueType.normalizeJson cell = .ok (some w) ∧ w ∈ g.values := by
  unfold holds test
  cases Row.column? g.column.name row with
  | none => simp [Row.isOneOf]
  | some cell =>
    simp only [Row.isOneOf, Option.some.injEq, exists_and_left, exists_eq_left']
    rcases g.column.valueType.normalizeJson cell with why | _ | w
    · simp [bind, Except.bind]
    · simp [bind, Except.bind, pure, Except.pure]
    · simp [bind, Except.bind, pure, Except.pure]

/-- In a faithful group a term that accepts a cell stands for one whose alternative it has. -/
theorem Faithful.normalizeJson_of_accepts (hf : g.Faithful) (hn : g.Normal) {v : String}
    (hv : v ∈ g.values) {cell : Json} (hc : g.column.valueType.HasForm cell)
    (h : (⟨g.column.name, v, !g.column.valueType.isBare⟩ : Term).accepts cell = true) :
    ∃ w ∈ g.values, g.column.valueType.normalizeJson cell = .ok (some w) := by
  have hnormal := hn.normal v hv
  cases ht : g.column.valueType with
  | string | enum =>
    rw [ht] at hc h
    obtain ⟨s, rfl⟩ := hc
    obtain rfl : s = v := by simpa [Term.accepts, ValueType.isBare] using h
    exact ⟨s, hv, rfl⟩
  | integer =>
    rw [ht] at hc h hnormal
    obtain ⟨i, hi, rfl⟩ := hc
    obtain ⟨j, hj, rfl⟩ := hnormal
    obtain ⟨y, hy⟩ := Option.isSome_iff_exists.1 (Binary64.ofInt?_isSome hj)
    rw [ValueType.accepts_num ((Binary64.ofChars?_intText hj).trans hy)] at h
    obtain ⟨x, hx, hsame⟩ := h
    exact ⟨Text.intText i, hf.integers ht j i hi hv ⟨x, y, hx, hy, hsame⟩,
      ValueType.normalizeJson_int hi⟩
  | decimal =>
    rw [ht] at hc h hnormal
    obtain ⟨n, rfl⟩ := hc
    obtain ⟨y, rfl⟩ := hnormal
    rw [ValueType.accepts_num y.ofChars?_plainText] at h
    obtain ⟨x, hx, hsame⟩ := h
    refine ⟨x.plainText, ?_, by simp [ValueType.normalizeJson, ValueType.normalizeNumber, hx]⟩
    simp only [Binary64.sameNumber, Bool.or_eq_true, beq_iff_eq, Bool.and_eq_true] at hsame
    -- the same double, or zeros of any sign
    obtain rfl | ⟨hx0, hy0⟩ := hsame
    · exact hv
    · have hzeros := hf.zeros ht
      rw [Binary64.plainText_of_isZero hy0] at hv
      rw [Binary64.plainText_of_isZero hx0]
      split at hv
      · split
        · exact hv
        · exact hzeros.2 hv
      · split
        · exact hzeros.1 hv
        · exact hv
  | boolean =>
    rw [ht] at hc h hnormal
    obtain ⟨b, rfl⟩ := hc
    obtain ⟨b', rfl⟩ := hnormal
    obtain rfl : b' = b := ValueType.boolText_injective h
    exact ⟨_, hv, rfl⟩
  | date | dateTime =>
    rw [ht] at hc h
    obtain ⟨s, hs, rfl⟩ := hc
    obtain rfl : s = v := by simpa [Term.accepts, ValueType.isBare] using h
    exact ⟨s, hv, ValueType.normalize_of_isNormal hs⟩

/-- **Faithful groups.** The terms hold on a row of the right types where the group does. -/
theorem terms_hold (hf : g.Faithful) (hn : g.Normal) {row : Members} (hfit : g.FitsRow row) :
    g.terms.any (·.holds row) = g.holds row := by
  rw [Bool.eq_iff_iff, holds_iff, terms, List.any_map, List.any_eq_true]
  simp only [Function.comp_apply, Term.holds, Option.any_eq_true]
  constructor
  · rintro ⟨v, hv, cell, hcell, h⟩
    obtain rfl | hform := hfit cell hcell
    · simp [Term.accepts] at h
    · obtain ⟨w, hw, hw'⟩ := hf.normalizeJson_of_accepts hn hv hform h
      exact ⟨cell, w, hcell, hw', hw⟩
  · rintro ⟨cell, w, hcell, hw, hmem⟩
    obtain rfl | hform := hfit cell hcell
    · simp [ValueType.normalizeJson] at hw
    · exact ⟨w, hmem, cell, hcell,
        ValueType.accepts_of_normalizeJson (hn.normal w hmem) hform hw⟩

/-- A readable group without separators in its texts is read as the terms that it was written as. -/
theorem parse?_of_readable (hn : g.Normal) (hr : ReadableName g.column.name.toList)
    (hw : g.column.valueType.isBare = false → ∀ v ∈ g.values, ¬ Separated v.toList) {e : String}
    (h : fold g.column.name g.column.valueType g.values = .ok e) : parse? e = some g.terms :=
  parse?_fold_readable hn.ne hr hn.sealed hn.isWord hw h

/-- A row with one cell, under the field of the column. -/
def rowOf (g : Group) (cell : Json) : Members := [(fieldName (bareName g.column.name), cell)]

theorem column?_rowOf (g : Group) (cell : Json) :
    Row.column? g.column.name (g.rowOf cell) = some cell := column?_field _ cell

theorem fitsRow_rowOf {cell : Json} (h : g.column.valueType.HasForm cell) :
    g.FitsRow (g.rowOf cell) := by
  intro v hv
  rw [column?_rowOf, Option.some.injEq] at hv
  exact hv ▸ .inr h

theorem holds_rowOf {cell : Json} {w : String}
    (h : g.column.valueType.normalizeJson cell = .ok (some w)) :
    g.holds (g.rowOf cell) = true ↔ w ∈ g.values := by
  rw [holds_iff]
  constructor
  · rintro ⟨cell', w', hcell, hw, hmem⟩
    rw [column?_rowOf, Option.some.injEq] at hcell
    subst hcell
    obtain rfl : w = w' := by simpa [h] using hw
    exact hmem
  · exact fun hmem => ⟨cell, w, column?_rowOf g cell, h, hmem⟩

/-- What folding has to come to: the expression is read, and its terms hold on rows of the right types
where the group does. -/
def Agrees (g : Group) (e : String) : Prop :=
  ∀ row, g.FitsRow row → ∃ terms, parse? e = some terms ∧ terms.any (·.holds row) = g.holds row

variable {e : String}

section Agrees

variable (hn : g.Normal) (h : fold g.column.name g.column.valueType g.values = .ok e)
  (ha : g.Agrees e)
include hn h ha

omit h in
/-- Every alternative has a cell, and a term that holds on the row with that cell. -/
theorem Agrees.exists_term {v : String} (hv : v ∈ g.values) : ∃ cell terms T,
    (g.column.valueType.isBare = false → cell = .str v) ∧ parse? e = some terms ∧ T ∈ terms ∧
      T.holds (g.rowOf cell) = true := by
  obtain ⟨cell, hform, hquoted, hnormal⟩ := ValueType.exists_cell (hn.normal v hv)
  obtain ⟨terms, hparse, hall⟩ := ha _ (fitsRow_rowOf hform)
  rw [(holds_rowOf hnormal).2 hv, List.any_eq_true] at hall
  obtain ⟨T, hT, hholds⟩ := hall
  exact ⟨cell, terms, T, hquoted, hparse, hT, hholds⟩

theorem Agrees.readable : ReadableName g.column.name.toList := by
  by_contra hbad
  obtain ⟨v, hv⟩ := List.exists_mem_of_ne_nil _ hn.ne
  obtain ⟨cell, terms, T, hquoted, hparse, hT, hholds⟩ := ha.exists_term hn hv
  have hmiss := not_holds_unreadable hn.ne hn.sealed hn.isWord hbad h hparse
    (fun ht => ⟨v, hquoted ht⟩) T hT
  exact Bool.false_ne_true (hmiss.symm.trans hholds)

omit h in
theorem Agrees.whole (ht : g.column.valueType.isBare = false) :
    ∀ v ∈ g.values, ¬ Separated v.toList := by
  intro v hv
  obtain ⟨cell, terms, T, hquoted, hparse, hT, hholds⟩ := ha.exists_term hn hv
  obtain rfl := hquoted ht
  obtain ⟨cell, hcell, haccepts⟩ := (Option.any_eq_true _ _).1 hholds
  obtain rfl := column?_single hcell
  -- the cell is a text, so the term has just this text for its literal
  obtain ⟨hq, rfl⟩ : T.quoted = true ∧ v = T.literal := by simpa [Term.accepts] using haccepts
  exact literal_not_separated hparse hT hq

/-- A cell that the term of an alternative accepts has an alternative for its normal form. -/
theorem Agrees.mem_of_accepts {v w : String} (cell : Json) (hv : v ∈ g.values)
    (hform : g.column.valueType.HasForm cell)
    (hnormal : g.column.valueType.normalizeJson cell = .ok (some w))
    (haccepts : (⟨g.column.name, v, !g.column.valueType.isBare⟩ : Term).accepts cell = true) :
    w ∈ g.values := by
  obtain ⟨terms, hparse, hall⟩ := ha _ (fitsRow_rowOf hform)
  rw [parse?_of_readable hn (ha.readable hn h) (ha.whole hn) h] at hparse
  obtain rfl := Option.some.inj hparse
  rw [← holds_rowOf hnormal, ← hall, List.any_eq_true]
  refine ⟨_, List.mem_map_of_mem hv, ?_⟩
  rw [Term.holds, column?_rowOf]
  exact haccepts

theorem Agrees.faithful : g.Faithful := by
  refine ⟨ha.readable hn h, ha.whole hn, ?_, ?_⟩
  · intro ht i j hj hi hsame
    -- a cell with the one integer is accepted by the term of the other
    obtain ⟨k, hk, hik⟩ : ValueType.integer.IsNormal (Text.intText i) := ht ▸ hn.normal _ hi
    obtain rfl := Text.intText_injective hik
    obtain ⟨x, y, hx, hy, hxy⟩ := hsame
    refine ha.mem_of_accepts hn h (.num (.int j)) hi ?_ ?_ ?_
    · rw [ht]
      exact ⟨j, hj, rfl⟩
    · rw [ht]
      exact ValueType.normalizeJson_int hj
    · rw [ValueType.accepts_num ((Binary64.ofChars?_intText hk).trans hy)]
      exact ⟨x, hx, hxy⟩
  · intro ht
    -- a zero of one sign is accepted by the term of the other
    have hzero (b : Bool) : (Binary64.zero b).plainText ∈ g.values →
        (Binary64.zero !b).plainText ∈ g.values := by
      intro hmem
      refine ha.mem_of_accepts hn h (.num (.double (Binary64.zero !b))) hmem ?_ ?_ ?_
      · rw [ht]
        exact ⟨_, rfl⟩
      · rw [ht]
        rfl
      · rw [ValueType.accepts_num (Binary64.zero b).ofChars?_plainText]
        exact ⟨_, rfl, by cases b <;> decide⟩
    exact ⟨hzero false, hzero true⟩

end Agrees

/-- **Only faithful groups.** The expression comes to the same as the group on every row of the right
types exactly when the group is faithful. -/
theorem agrees_iff_faithful (hn : g.Normal)
    (h : fold g.column.name g.column.valueType g.values = .ok e) : g.Agrees e ↔ g.Faithful := by
  constructor
  · exact fun ha => ha.faithful hn h
  · intro hf row hfit
    exact ⟨g.terms, parse?_of_readable hn hf.readable hf.whole h, terms_hold hf hn hfit⟩

end Group

end LedgerFront
