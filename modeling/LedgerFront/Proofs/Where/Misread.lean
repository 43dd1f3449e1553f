import LedgerFront.Proofs.Where.Read
import Mathlib.Data.List.TakeWhile
import Mathlib.Tactic.ByContra

/-!
# What a folded expression is misread as

A text between quotes that holds the separator is torn apart, and a name that is
not readable comes out shorter. In both cases the expression is refused or its
terms miss a row that they were written for.

* `literal_not_separated`: no literal that is read between quotes holds the separator.
* `length_bareName_lt`: the names that are read instead of an unreadable one.
* `not_holds_unreadable`: no such term holds on a row with the column that was meant.
-/

namespace LedgerFront.Where

open Text

theorem isInfix_of_mem_cutAt {s p : List Char} (hp : p ∈ cutAt sameLetter separator s) : p <:+: s := by
  induction hn : s.length using Nat.strongRecOn generalizing s with
  | ind n ih =>
    obtain ⟨_, h⟩ | ⟨q, m, r, rfl, hm, _, h⟩ := cutAt_first separator_ne_nil s
    · rw [h, List.mem_singleton] at hp
      exact hp ▸ List.infix_refl p
    · have hpos : 0 < m.length := List.length_pos_iff.2 (hm.ne_nil separator_ne_nil)
      simp only [List.length_append] at hn
      rw [h] at hp
      obtain rfl | hp := List.mem_cons.1 hp
      · exact (List.prefix_append p (m ++ r)).isInfix.trans (by simp)
      · exact (ih r.length (by omega) hp rfl).trans (List.suffix_append (q ++ m) r).isInfix

/-- **Torn literals.** A literal that is read between quotes does not hold the separator. -/
theorem literal_not_separated {e : String} {terms : List Term} (h : parse? e = some terms) {T : Term}
    (hT : T ∈ terms) (hq : T.quoted = true) : ¬ Separated T.literal.toList := by
  obtain ⟨p, hp, hterm⟩ := exists_of_mem_mapM h hT
  obtain ⟨w, l, ⟨rfl, -⟩, -, -, -, hliteral, hquoted⟩ := term?_eq_some_iff.1 hterm
  intro hsep
  refine not_occurs_of_mem_cutAt separator_ne_nil hp (hsep.of_infix ?_)
  have hin : T.literal.toList <:+: trimChars l := by
    have hquotes := eq_of_inQuotes (hquoted.1 hq)
    rw [← hliteral] at hquotes
    rw [hquotes]
    exact ⟨['\''], ['\''], by simp⟩
  exact (hin.trans (isInfix_trimChars l)).trans ⟨w ++ ['='], [], by simp⟩

theorem splitFirst?_takeWhile {mark : Char} {u x a b : List Char}
    (h : splitFirst? mark (u ++ mark :: x) = some (a, b)) : a = u.takeWhile (· ≠ mark) := by
  induction u generalizing a with
  | nil =>
    simp only [List.nil_append, splitFirst?, if_true, Option.some.injEq, Prod.mk.injEq] at h
    simp [← h.1]
  | cons c u ih =>
    rw [List.cons_append, splitFirst?] at h
    split at h
    · rename_i hc
      simp only [Option.some.injEq, Prod.mk.injEq] at h
      simp [hc, ← h.1]
    · rename_i hc
      simp only [Option.map_eq_some_iff, Prod.mk.injEq, Prod.exists] at h
      obtain ⟨a', b', h, rfl, rfl⟩ := h
      simp [hc, ih h]

/-- The part in front of the first equals sign of a piece: the piece stands behind `u`, or that part
is shorter than `u` by a separator, or it is read from the start of `u`, which holds none. -/
theorem piece_name {u rest p w l : List Char}
    (hp : p ∈ cutAt sameLetter separator (u ++ '=' :: rest)) (hs : splitFirst? '=' p = some (w, l)) :
    p <:+: rest ∨ w.length + 4 ≤ u.length ∨ (¬ Separated u ∧ w = u.takeWhile (· ≠ '=')) := by
  induction hn : u.length using Nat.strongRecOn generalizing u with
  | ind n ih =>
    obtain ⟨hno, h⟩ | ⟨q, m, r, heq, hm, hno, h⟩ := cutAt_first separator_ne_nil (u ++ '=' :: rest)
    · rw [h, List.mem_singleton] at hp
      rw [hp] at hs
      exact .inr (.inr ⟨fun hu => hno (hu.of_infix (List.prefix_append _ _).isInfix),
        splitFirst?_takeWhile hs⟩)
    · have hequals := inert_equals.not_mem hm
      have hlen : m.length = 4 := hm.length_eq.symm
      rw [h, List.mem_cons] at hp
      rw [List.append_assoc] at heq
      obtain ⟨x, rfl, hx⟩ | ⟨x, rfl, hx⟩ := List.append_eq_append_iff.1 heq
      · -- the first separator stands behind the equals sign
        obtain ⟨y, rfl, rfl⟩ : ∃ y, x = '=' :: y ∧ rest = y ++ (m ++ r) := by
          cases x with
          | nil =>
            cases m with
            | nil => simp at hlen
            | cons c m =>
              obtain ⟨rfl, _⟩ := List.cons_eq_cons.1 hx
              simp at hequals
          | cons c x =>
            obtain ⟨rfl, hy⟩ := List.cons_eq_cons.1 hx
            exact ⟨x, rfl, hy⟩
        obtain rfl | hp := hp
        · exact .inr (.inr ⟨fun hu => hno (hu.of_infix (List.prefix_append _ _).isInfix),
            splitFirst?_takeWhile hs⟩)
        · exact .inl ((isInfix_of_mem_cutAt hp).trans ⟨y ++ m, [], by simp⟩)
      · -- the first separator stands in `u`
        obtain ⟨y, rfl, rfl⟩ : ∃ y, x = m ++ y ∧ r = y ++ '=' :: rest := by
          obtain ⟨y, rfl, hr⟩ | ⟨z, rfl, hz⟩ := List.append_eq_append_iff.1 hx
          · exact ⟨y, rfl, hr⟩
          · cases z with
            | nil => exact ⟨[], by simp, hz.symm⟩
            | cons c z =>
              obtain ⟨rfl, _⟩ := List.cons_eq_cons.1 hz
              simp at hequals
        simp only [List.length_append] at hn ⊢
        obtain rfl | hp := hp
        · obtain ⟨rfl, _⟩ := splitFirst?_eq_some hs
          simp only [List.length_append, List.length_cons] at hn ⊢
          omega
        · obtain hin | hshort | ⟨_, rfl⟩ := ih y.length (by omega) hp rfl
          · exact .inl hin
          · omega
          · have := (List.takeWhile_prefix (fun c : Char => decide (c ≠ '=')) (l := y)).length_le
            omega

theorem bareName_cases (name : String) :
    (∃ r, name.toList = '_' :: r ∧ (bareName name).toList = r) ∨
      (name.toList.head? ≠ some '_' ∧ bareName name = name) := by
  unfold bareName
  split
  · rename_i r hr
    exact .inl ⟨r, hr, String.toList_ofList⟩
  · rename_i hno
    refine .inr ⟨fun hhead => ?_, rfl⟩
    obtain ⟨r, hr⟩ := List.head?_eq_some_iff.1 hhead
    exact hno r hr

theorem length_bareName (name : String) :
    (bareName name).toList.length ≤ name.toList.length ∧
      name.toList.length ≤ (bareName name).toList.length + 1 := by
  obtain ⟨r, hr, hb⟩ | ⟨_, hb⟩ := bareName_cases name
  · simp [hr, hb]
  · simp [hb]

/-- A name that is read from the start of an unreadable one is shorter. -/
theorem length_trimChars_start {n w : List Char} (hbad : ¬ ReadableName n)
    (hno : ¬ Separated (n ++ [' '])) (hw : w = (n ++ [' ']).takeWhile (· ≠ '='))
    (hne : trimChars w ≠ []) : (trimChars w).length < n.length := by
  by_cases heq : '=' ∈ n
  · -- cut off at an equals sign of its own
    obtain ⟨a, b, rfl, ha⟩ := List.eq_append_cons_of_mem heq
    have hall : ∀ c ∈ a, decide (c ≠ '=') = true := fun c hc => by
      simpa using fun h : c = '=' => ha (h ▸ hc)
    rw [List.append_assoc, List.cons_append, List.takeWhile_append_of_pos hall,
      List.takeWhile_cons_of_neg (by simp), List.append_nil] at hw
    have := length_trimChars_le w
    rw [hw] at this ⊢
    simp only [List.length_append, List.length_cons]
    omega
  · -- read as a whole, so it has blanks at its ends that are trimmed
    have hself : (n ++ [' ']).takeWhile (· ≠ '=') = n ++ [' '] := by
      rw [List.takeWhile_eq_self_iff]
      intro c hc
      obtain hc | hc := List.mem_append.1 hc
      · simpa using fun h : c = '=' => heq (h ▸ hc)
      · rw [List.mem_singleton.1 hc]
        decide
    rw [hw, hself, trimChars_concat (by decide)] at hne ⊢
    refine Nat.lt_of_le_of_ne (length_trimChars_le n) fun hlen => hbad ?_
    have htrim : trimChars n = n := (isInfix_trimChars n).eq_of_length hlen
    exact ⟨fun hn => hne (by rw [htrim, hn]), htrim, heq, hno⟩

theorem length_bareName_of_start {name : String} {w : List Char} (hbad : ¬ ReadableName name.toList)
    (hno : ¬ Separated (name.toList ++ [' '])) (hw : w = (name.toList ++ [' ']).takeWhile (· ≠ '='))
    (hne : trimChars w ≠ []) :
    (bareName (String.ofList (trimChars w))).toList.length < (bareName name).toList.length := by
  have hshort := length_trimChars_start hbad hno hw hne
  obtain ⟨r, hr, hb⟩ | ⟨_, hb⟩ := bareName_cases name
  · -- the underscore at the start is read with the name
    obtain ⟨t, ht, _⟩ := trimChars_of_head (c := '_') (by decide) ((r ++ [' ']).takeWhile (· ≠ '='))
    have hstart : w = '_' :: (r ++ [' ']).takeWhile (· ≠ '=') := by
      rw [hw, hr, List.cons_append, List.takeWhile_cons_of_pos (by decide)]
    rw [← hstart] at ht
    have hbare : (bareName (String.ofList ('_' :: t))).toList = t := by simp [bareName]
    rw [ht, hbare, hb]
    rw [ht, hr, List.length_cons, List.length_cons] at hshort
    omega
  · rw [hb]
    have := (length_bareName (String.ofList (trimChars w))).1
    rw [String.toList_ofList] at this
    omega

/-- **Shorter names.** The names that are read instead of an unreadable one are shorter without the
underscore, unless they stand behind the equals sign. -/
theorem length_bareName_lt {name : String} {t : ValueType} {v p : List Char} {T : Term}
    (hbad : ¬ ReadableName name.toList)
    (hp : p ∈ cutAt sameLetter separator (partChars name.toList t v)) (hT : term? p = some T) :
    p <:+: ' ' :: literalChars t v ∨
      (bareName T.name).toList.length < (bareName name).toList.length := by
  obtain ⟨w, l, hhalves, hne, -, hchars, -⟩ := term?_eq_some_iff.1 hT
  have hname : T.name = String.ofList (trimChars w) := by rw [← hchars, String.ofList_toList]
  rw [partChars_eq] at hp
  obtain hin | hshort | ⟨hno, hw⟩ := piece_name hp (splitFirst?_eq_some_iff.2 hhalves)
  · exact .inl hin
  · right
    have h1 := (length_bareName T.name).1
    have h2 := (length_bareName name).2
    have h3 := length_trimChars_le w
    rw [hname, String.toList_ofList] at h1
    rw [List.length_append, List.length_singleton] at hshort
    rw [hname]
    omega
  · right
    rw [hname]
    exact length_bareName_of_start hbad hno hw hne

/-- A piece that stands behind the equals sign is no term, or no text is read from it. -/
theorem not_quoted_of_infix {t : ValueType} {v p : List Char} {T : Term}
    (hword : t.isBare = true → IsWord v) (hembeds : t.isBare = false → '\'' ∉ v)
    (hp : p <:+: ' ' :: literalChars t v) (hT : term? p = some T) :
    t.isBare = false ∧ T.quoted = false := by
  obtain ⟨w, l, ⟨rfl, -⟩, -, -, -, -, hquoted⟩ := term?_eq_some_iff.1 hT
  have hequals : '=' ∈ ' ' :: literalChars t v := hp.subset (by simp)
  unfold literalChars at hp hequals
  cases ht : t.isBare with
  | true =>
    simp only [ht, if_true, List.mem_cons] at hequals
    obtain h | h := hequals
    · exact absurd h (by decide)
    · exact absurd rfl ((hword ht).2 '=' h).2.1
  | false =>
    refine ⟨rfl, ?_⟩
    by_contra hq
    rw [Bool.not_eq_false] at hq
    simp only [ht, Bool.false_eq_true, if_false] at hp
    obtain ⟨a, b, hab⟩ := hp
    -- both quotes stand in `l`, so none is left in front of the equals sign
    have htwo : 2 ≤ l.count '\'' := by
      have hle := (isInfix_trimChars l).sublist.count_le '\''
      rw [eq_of_inQuotes (hquoted.1 hq)] at hle
      simp only [List.count_cons_self, List.count_append, List.count_nil] at hle
      omega
    have hcount := congrArg (List.count '\'') hab
    simp only [List.count_append, List.count_cons, List.count_nil,
      List.count_eq_zero_of_not_mem (hembeds ht)] at hcount
    simp at hcount
    have hnone : '\'' ∉ a ++ w := by
      rw [← List.count_eq_zero, List.count_append]
      omega
    rw [List.append_assoc, List.append_assoc, ← List.append_assoc a w] at hab
    generalize a ++ w = u at hab hnone
    cases u with
    | nil => simp at hab
    | cons c u =>
      cases u with
      | nil => simp at hab
      | cons d u =>
        obtain ⟨_, hab⟩ := List.cons_eq_cons.1 hab
        obtain ⟨rfl, _⟩ := List.cons_eq_cons.1 hab
        simp at hnone

theorem length_of_sameName {a b : String} (h : sameName a b = true) :
    a.toList.length = b.toList.length := by
  have hlower := congrArg (fun s => s.toList.length) (sameName_iff.1 h)
  simpa [lower] using hlower

theorem toList_fieldName (name : String) : (fieldName name).toList = '_' :: name.toList := by
  simp [fieldName]

/-- The column of a name on a row that has nothing but its field. -/
theorem column?_field (name : String) (cell : Json) :
    Row.column? name [(fieldName (bareName name), cell)] = some cell := by
  have hno : sameName (fieldName (bareName name)) (bareName name) = false := by
    rw [← Bool.not_eq_true]
    intro h
    have := length_of_sameName h
    simp [toList_fieldName] at this
  simp [Row.column?, Row.publicColumn?, Row.named?, hno, sameName_refl]

theorem column?_shorter {name other : String} (cell : Json)
    (h : (bareName other).toList.length < (bareName name).toList.length) :
    Row.column? other [(fieldName (bareName name), cell)] = none := by
  have hno (s : String) (hs : s.toList.length < (bareName name).toList.length + 1) :
      sameName (fieldName (bareName name)) s = false := by
    rw [← Bool.not_eq_true]
    intro hsame
    have := length_of_sameName hsame
    rw [toList_fieldName, List.length_cons] at this
    omega
  have h1 := hno (bareName other) (by omega)
  have h2 := hno (fieldName (bareName other)) (by rw [toList_fieldName, List.length_cons]; omega)
  simp [Row.column?, Row.publicColumn?, Row.named?, h1, h2]

theorem column?_single {name key : String} {cell v : Json}
    (h : Row.column? name [(key, cell)] = some v) : v = cell := by
  have hnamed {n : String} (h : Row.named? n [(key, cell)] = some v) : v = cell := by
    simp only [Row.named?, List.find?_cons, List.find?_nil] at h
    split at h
    · simpa using h.symm
    · simp at h
  obtain h | ⟨_, h⟩ := Option.or_eq_some_iff.1 h
  · exact hnamed h
  · exact hnamed h

/-- **Missed rows.** Under an unreadable name no term that is read holds on a row with the column that
was meant and nothing else. -/
theorem not_holds_unreadable {name e : String} {t : ValueType} {values : List String}
    {terms : List Term} (hne : values ≠ []) (hs : ∀ v ∈ values, Sealed t v)
    (hw : ∀ v ∈ values, t.isBare = true → IsWord v.toList) (hbad : ¬ ReadableName name.toList)
    (hf : fold name t values = .ok e) (hp : parse? e = some terms) {cell : Json}
    (hcell : t.isBare = false → ∃ s, cell = .str s) :
    ∀ T ∈ terms, T.holds [(fieldName (bareName name), cell)] = false := by
  intro T hT
  rw [parse?_fold hne hs hf] at hp
  obtain ⟨p, hpiece, hterm⟩ := exists_of_mem_mapM hp hT
  obtain ⟨v, hv, hpiece⟩ := List.mem_flatMap.1 hpiece
  obtain hin | hshort := length_bareName_lt hbad hpiece hterm
  · -- read from a literal, and no text, while the cell is one
    obtain ⟨ht, hq⟩ := not_quoted_of_infix (hw v hv) ((fold_eq_ok.1 hf).1 v hv) hin hterm
    obtain ⟨s, rfl⟩ := hcell ht
    unfold Term.holds
    cases hc : Row.column? T.name [(fieldName (bareName name), .str s)] with
    | none => rfl
    | some v =>
      rw [column?_single hc]
      simp [Term.accepts, hq]
  · simp [Term.holds, column?_shorter cell hshort]

end LedgerFront.Where
