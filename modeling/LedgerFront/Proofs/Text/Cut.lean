import LedgerFront.Text.Cut
import Mathlib.Data.List.Forall2
import Mathlib.Data.List.Infix
import Mathlib.Data.Nat.Find

/-!
# Where a text is cut

A separator stands in a text where each of its characters is matched in order.
The text is cut at the first such place, then behind it, so that no piece holds
the separator.

* `cutAt_first`: the first piece and what the others are pieces of.
* `Cuts`: the pieces of a text, said without cutting it.
* `cuts_iff`: a text has pieces in one way, and these are cut.
* `not_occurs_of_mem_cutAt`: no piece holds the separator.
* `cutAt_append`: a separator behind a character that none of its own characters
  match is a place where the text is cut.
* `splitFirst?_append`, `splitFirst?_eq_some`: the parts around the first mark.
-/

namespace LedgerFront.Text

variable {same : Char → Char → Bool} {sep : List Char}

/-- The text is an instance of the separator. -/
def Matches (same : Char → Char → Bool) (sep m : List Char) : Prop :=
  List.Forall₂ (fun c d => same c d = true) sep m

theorem matches_beq_iff {m : List Char} : Matches (· == ·) sep m ↔ m = sep := by
  simp only [Matches, beq_iff_eq]
  rw [List.forall₂_eq_eq_eq, eq_comm]

theorem after?_eq_some {s r : List Char} :
    after? same sep s = some r ↔ ∃ m, s = m ++ r ∧ Matches same sep m := by
  unfold Matches
  induction sep generalizing s with
  | nil =>
    simp only [after?, Option.some.injEq, List.forall₂_nil_left_iff]
    constructor
    · rintro rfl
      exact ⟨[], rfl, rfl⟩
    · rintro ⟨m, rfl, rfl⟩
      rfl
  | cons c sep ih =>
    cases s with
    | nil => simp [after?, List.forall₂_cons_left_iff]
    | cons d s =>
      simp only [after?, Option.ite_none_right_eq_some, ih, List.forall₂_cons_left_iff]
      constructor
      · rintro ⟨hd, m, rfl, hm⟩
        exact ⟨d :: m, rfl, d, m, hd, hm, rfl⟩
      · rintro ⟨_, hs, e, m, he, hm, rfl⟩
        obtain ⟨rfl, rfl⟩ := List.cons_eq_cons.1 hs
        exact ⟨he, m, rfl, hm⟩

/-- An instance of the separator stands somewhere in the text. -/
def Occurs (same : Char → Char → Bool) (sep s : List Char) : Prop :=
  ∃ m, Matches same sep m ∧ m <:+: s

theorem Occurs.of_infix {s t : List Char} (h : Occurs same sep s) (hst : s <:+: t) :
    Occurs same sep t := by
  obtain ⟨m, hm, hin⟩ := h
  exact ⟨m, hm, hin.trans hst⟩

/-- No character of the separator matches this one. -/
def Inert (same : Char → Char → Bool) (sep : List Char) (e : Char) : Prop :=
  ∀ c ∈ sep, same c e = false

theorem Inert.not_mem {e : Char} (h : Inert same sep e) {m : List Char} (hm : Matches same sep m) :
    e ∉ m := by
  unfold Matches at hm
  induction hm with
  | nil => simp
  | cons hcd _ ih =>
    rw [List.mem_cons, not_or]
    refine ⟨?_, ih fun c hc => h c (by simp [hc])⟩
    rintro rfl
    simp [h _ List.mem_cons_self] at hcd

theorem infix_of_not_mem {e : Char} {m s t : List Char} (h : m <:+: s ++ e :: t) (he : e ∉ m) :
    m <:+: s ∨ m <:+: t := by
  obtain h | h | ⟨m1, m2, rfl, h1, h2⟩ := List.infix_append_iff.1 h
  · exact .inl h
  · obtain h | h := List.infix_cons_iff.1 h
    · obtain rfl | ⟨u, rfl, _⟩ := List.prefix_cons_iff.1 h
      · exact .inl (List.nil_infix)
      · simp at he
    · exact .inr h
  · obtain rfl | ⟨u, rfl, _⟩ := List.prefix_cons_iff.1 h2
    · exact .inl (by simpa using h1.isInfix)
    · simp at he

/-- Around a character that is not matched, the separator stands on one side. -/
theorem occurs_append_inert {e : Char} (he : Inert same sep e) {s t : List Char} :
    Occurs same sep (s ++ e :: t) ↔ Occurs same sep s ∨ Occurs same sep t := by
  constructor
  · rintro ⟨m, hm, hin⟩
    exact (infix_of_not_mem hin (he.not_mem hm)).imp (fun h => ⟨m, hm, h⟩) fun h => ⟨m, hm, h⟩
  · rintro (h | h)
    · exact h.of_infix ⟨[], e :: t, by simp⟩
    · exact h.of_infix ⟨s ++ [e], [], by simp⟩

theorem prefix_of_not_mem {e : Char} {m s t : List Char} (h : m <+: s ++ e :: t) (he : e ∉ m) :
    m <+: s := by
  obtain h | ⟨w, rfl⟩ := List.prefix_or_prefix_of_prefix h (List.prefix_append s (e :: t))
  · exact h
  · obtain rfl | ⟨u, rfl, _⟩ := List.prefix_cons_iff.1 (List.prefix_append_right_inj s |>.1 h)
    · simp
    · simp at he

theorem Matches.ne_nil (hsep : sep ≠ []) {m : List Char} (hm : Matches same sep m) : m ≠ [] := by
  rintro rfl
  exact hsep (List.forall₂_nil_right_iff.1 hm)

theorem not_occurs_nil (hsep : sep ≠ []) : ¬ Occurs same sep [] := by
  rintro ⟨m, hm, hin⟩
  exact hm.ne_nil hsep (List.infix_nil.1 hin)

theorem after?_isSome {s : List Char} :
    (after? same sep s).isSome = true ↔ ∃ m, Matches same sep m ∧ m <+: s := by
  rw [Option.isSome_iff_exists]
  constructor
  · rintro ⟨r, hr⟩
    obtain ⟨m, rfl, hm⟩ := after?_eq_some.1 hr
    exact ⟨m, hm, List.prefix_append m r⟩
  · rintro ⟨m, hm, r, rfl⟩
    exact ⟨r, after?_eq_some.2 ⟨m, rfl, hm⟩⟩

theorem occurs_iff_tails {s : List Char} :
    Occurs same sep s ↔ ∃ t ∈ s.tails, (after? same sep t).isSome = true := by
  simp only [after?_isSome, List.mem_tails]
  constructor
  · rintro ⟨m, hm, hin⟩
    obtain ⟨t, hpre, hsuf⟩ := List.infix_iff_prefix_suffix.1 hin
    exact ⟨t, hsuf, m, hm, hpre⟩
  · rintro ⟨t, hsuf, m, hm, hpre⟩
    exact ⟨m, hm, List.infix_iff_prefix_suffix.2 ⟨t, hpre, hsuf⟩⟩

instance (s : List Char) : Decidable (Occurs same sep s) := decidable_of_iff _ occurs_iff_tails.symm

theorem occurs_cons {c : Char} {s : List Char} :
    Occurs same sep (c :: s) ↔ (after? same sep (c :: s)).isSome = true ∨ Occurs same sep s := by
  unfold Occurs
  simp only [after?_isSome, List.infix_cons_iff, and_or_left, exists_or]

theorem cutAt_ne_nil (s : List Char) : cutAt same sep s ≠ [] := cutFrom_ne_nil same sep 0 s

theorem pushHead_append {c : Char} {ps qs : List (List Char)} (h : ps ≠ []) :
    pushHead c (ps ++ qs) = pushHead c ps ++ qs := by
  cases ps with
  | nil => exact absurd rfl h
  | cons p ps => rfl

theorem cutFrom_eq_drop (k : Nat) (s : List Char) :
    cutFrom same sep k s = cutAt same sep (s.drop k) := by
  induction k generalizing s with
  | zero => rfl
  | succ k ih =>
    cases s with
    | nil => rfl
    | cons c s => exact ih s

section Cutting

variable (hsep : sep ≠ [])
include hsep

/-- Where the separator stands at the start, the first piece is empty. -/
theorem cutAt_matches {m : List Char} (hm : Matches same sep m) (r : List Char) :
    cutAt same sep (m ++ r) = [] :: cutAt same sep r := by
  have hafter : after? same sep (m ++ r) = some r := after?_eq_some.2 ⟨m, rfl, hm⟩
  have hlen : sep.length = m.length := hm.length_eq
  cases m with
  | nil => exact absurd rfl (hm.ne_nil hsep)
  | cons c m =>
    rw [List.cons_append] at hafter ⊢
    rw [cutAt, cutFrom, if_pos (by simp [hafter]), cutFrom_eq_drop, hlen, List.length_cons,
      Nat.add_sub_cancel, List.drop_left]

omit hsep in
theorem cutAt_cons {c : Char} {s : List Char} (h : ¬ (after? same sep (c :: s)).isSome = true) :
    cutAt same sep (c :: s) = pushHead c (cutAt same sep s) := by
  unfold cutAt
  rw [cutFrom, if_neg h]

/-- **The first piece.** The text is one piece without the separator, or such a piece stands in front
of a separator and the others are the pieces of what follows. -/
theorem cutAt_first (s : List Char) :
    (¬ Occurs same sep s ∧ cutAt same sep s = [s]) ∨
      ∃ p m r, s = p ++ m ++ r ∧ Matches same sep m ∧ ¬ Occurs same sep p ∧
        cutAt same sep s = p :: cutAt same sep r := by
  induction s with
  | nil => exact .inl ⟨not_occurs_nil hsep, rfl⟩
  | cons c s ih =>
    by_cases ha : (after? same sep (c :: s)).isSome = true
    · obtain ⟨m, hm, r, hs⟩ := after?_isSome.1 ha
      exact .inr ⟨[], m, r, hs.symm, hm, not_occurs_nil hsep, by rw [← hs, cutAt_matches hsep hm]⟩
    · rw [cutAt_cons ha, occurs_cons, not_or]
      obtain ⟨hno, h⟩ | ⟨p, m, r, rfl, hm, hno, h⟩ := ih
      · exact .inl ⟨⟨ha, hno⟩, by rw [h]; rfl⟩
      · refine .inr ⟨c :: p, m, r, rfl, hm, ?_, by rw [h]; rfl⟩
        -- an instance at the start of the piece would be one at the start of the text
        rw [occurs_cons, not_or, after?_isSome]
        refine ⟨fun ⟨m', hm', hp⟩ => ha (after?_isSome.2 ⟨m', hm', hp.trans ?_⟩), hno⟩
        exact ⟨m ++ r, by simp⟩

theorem cutAt_of_not_occurs {s : List Char} (h : ¬ Occurs same sep s) : cutAt same sep s = [s] := by
  obtain ⟨_, h⟩ | ⟨p, m, r, rfl, hm, _⟩ := cutAt_first hsep s
  · exact h
  · exact absurd ⟨m, hm, p, r, rfl⟩ h

/-- **No piece holds the separator.** -/
theorem not_occurs_of_mem_cutAt {s p : List Char} (hp : p ∈ cutAt same sep s) :
    ¬ Occurs same sep p := by
  induction hn : s.length using Nat.strongRecOn generalizing s with
  | ind n ih =>
    obtain ⟨hno, h⟩ | ⟨q, m, r, rfl, hm, hno, h⟩ := cutAt_first hsep s
    · rw [h, List.mem_singleton] at hp
      exact hp ▸ hno
    · have hpos : 0 < m.length := List.length_pos_iff.2 (hm.ne_nil hsep)
      simp only [List.length_append] at hn
      rw [h] at hp
      obtain rfl | hp := List.mem_cons.1 hp
      · exact hno
      · exact ih r.length (by omega) hp rfl

/-- **A place to cut.** Behind a character that is not matched, the separator always counts. -/
theorem cutAt_append {e : Char} (he : Inert same sep e) {m : List Char} (hm : Matches same sep m)
    (a b : List Char) :
    cutAt same sep (a ++ e :: (m ++ b)) = cutAt same sep (a ++ [e]) ++ cutAt same sep b := by
  induction hn : a.length using Nat.strongRecOn generalizing a with
  | ind n ih =>
    cases a with
    | nil =>
      -- no instance starts with the character that is not matched
      have hnone (t : List Char) : ¬ (after? same sep (e :: t)).isSome = true := by
        rw [after?_isSome]
        rintro ⟨m', hm', hp⟩
        have := prefix_of_not_mem (s := []) hp (he.not_mem hm')
        exact hm'.ne_nil hsep (List.prefix_nil.1 this)
      rw [List.nil_append, List.nil_append, cutAt_cons (hnone _), cutAt_cons (hnone _),
        cutAt_matches hsep hm]
      rfl
    | cons c a =>
      by_cases ha : (after? same sep (c :: a ++ [e])).isSome = true
      · -- the text starts with an instance, which ends before `e`
        obtain ⟨m', hm', hp⟩ := after?_isSome.1 ha
        obtain ⟨r, hr⟩ := prefix_of_not_mem hp (he.not_mem hm')
        have hpos : 0 < m'.length := List.length_pos_iff.2 (hm'.ne_nil hsep)
        have hlen := congrArg List.length hr
        simp only [List.length_append, List.length_cons] at hlen hn
        rw [← hr, List.append_assoc, cutAt_matches hsep hm', List.append_assoc,
          cutAt_matches hsep hm', ih r.length (by omega) r rfl]
        rfl
      · have ha' : ¬ (after? same sep (c :: (a ++ e :: (m ++ b)))).isSome = true := by
          rw [after?_isSome]
          rintro ⟨m', hm', hp⟩
          have hp := prefix_of_not_mem (s := c :: a) hp (he.not_mem hm')
          exact ha (after?_isSome.2 ⟨m', hm', hp.trans (List.prefix_append _ _)⟩)
        simp only [List.length_cons] at hn
        rw [List.cons_append] at ha
        rw [List.cons_append, List.cons_append, cutAt_cons ha, cutAt_cons ha',
          ih a.length (by omega) a rfl, pushHead_append (cutAt_ne_nil _)]

/-- Parts that end in a character that is not matched are cut one by one. -/
theorem cutAt_intercalate (hself : Matches same sep sep) {parts : List (List Char)}
    (hne : parts ≠ []) (h : ∀ p ∈ parts, ∃ a e, p = a ++ [e] ∧ Inert same sep e) :
    cutAt same sep (sep.intercalate parts) = parts.flatMap (cutAt same sep) := by
  induction parts with
  | nil => exact absurd rfl hne
  | cons p parts ih =>
    cases parts with
    | nil => simp
    | cons q parts =>
      obtain ⟨a, e, rfl, he⟩ := h p (by simp)
      have ih := ih (by simp) fun r hr => h r (by simp [hr])
      rw [List.intercalate_cons_cons, List.flatMap_cons, ← ih, List.append_assoc, List.append_assoc]
      exact cutAt_append hsep he hself a _

end Cutting

/-! ## Pieces -/

section Pieces

variable {IsSep : List Char → Prop} {s : List Char} {pieces : List (List Char)}

/-- A separator stands in the text behind `a`. -/
def StandsBehind (IsSep : List Char → Prop) (a s : List Char) : Prop :=
  ∃ m, IsSep m ∧ a ++ m <+: s

/-- **The pieces of a text.** It is one piece where no separator stands in it; otherwise the first piece
ends at the leftmost separator and the others are those of the text behind it. -/
inductive Cuts (IsSep : List Char → Prop) : List Char → List (List Char) → Prop
  | whole {s : List Char} (hno : ∀ a, ¬ StandsBehind IsSep a s) : Cuts IsSep s [s]
  | first {p m r : List Char} {pieces : List (List Char)} (hm : IsSep m)
      (hleft : ∀ a, StandsBehind IsSep a (p ++ m ++ r) → p.length ≤ a.length)
      (hrest : Cuts IsSep r pieces) : Cuts IsSep (p ++ m ++ r) (p :: pieces)

/-- Every text has pieces. -/
theorem exists_cuts (hpos : ∀ m, IsSep m → m ≠ []) (s : List Char) : ∃ pieces, Cuts IsSep s pieces := by
  classical
  induction hn : s.length using Nat.strongRecOn generalizing s with
  | ind n ih =>
    by_cases hsep : ∃ k a, a.length = k ∧ StandsBehind IsSep a s
    · -- the leftmost separator is the one with the least in front of it
      obtain ⟨p, hp, m, hm, r, rfl⟩ := Nat.find_spec hsep
      have hleft : ∀ a, StandsBehind IsSep a (p ++ m ++ r) → p.length ≤ a.length := by
        intro a ha
        rw [hp]
        exact Nat.find_min' hsep ⟨a, rfl, ha⟩
      have hlen : 0 < m.length := List.length_pos_iff.2 (hpos m hm)
      simp only [List.length_append] at hn
      obtain ⟨pieces, hrest⟩ := ih r.length (by omega) r rfl
      exact ⟨p :: pieces, .first hm hleft hrest⟩
    · exact ⟨[s], .whole fun a ha => hsep ⟨a.length, a, rfl, ha⟩⟩

theorem not_occurs_iff (hsame : ∀ m, IsSep m ↔ Matches same sep m) :
    ¬ Occurs same sep s ↔ ∀ a, ¬ StandsBehind IsSep a s := by
  constructor
  · rintro h a ⟨m, hm, r, hs⟩
    exact h ⟨m, (hsame m).1 hm, a, r, hs⟩
  · rintro h ⟨m, hm, a, r, hs⟩
    exact h a ⟨m, (hsame m).2 hm, r, hs⟩

/-- **The leftmost separator** is where the text is cut. -/
theorem cutAt_leftmost (hsep : sep ≠ []) (hsame : ∀ m, IsSep m ↔ Matches same sep m)
    {p m r : List Char} (hm : IsSep m)
    (hleft : ∀ a, StandsBehind IsSep a (p ++ m ++ r) → p.length ≤ a.length) :
    cutAt same sep (p ++ m ++ r) = p :: cutAt same sep r := by
  induction p with
  | nil => exact cutAt_matches hsep ((hsame m).1 hm) r
  | cons c p ih =>
    have hstart : ¬ (after? same sep (c :: (p ++ m ++ r))).isSome = true := by
      rw [after?_isSome]
      rintro ⟨m', hm', hp⟩
      have := hleft [] ⟨m', (hsame m').2 hm', hp⟩
      simp at this
    have hrest : cutAt same sep (p ++ m ++ r) = p :: cutAt same sep r := by
      apply ih
      rintro a ⟨m', hm', hp⟩
      have := hleft (c :: a) ⟨m', hm', List.cons_prefix_cons.2 ⟨rfl, hp⟩⟩
      simpa using this
    rw [List.cons_append, List.cons_append, cutAt_cons hstart, hrest, pushHead]

/-- **One way to cut.** The pieces of a text are those that it is cut into. -/
theorem cuts_iff (hsep : sep ≠ []) (hsame : ∀ m, IsSep m ↔ Matches same sep m) :
    Cuts IsSep s pieces ↔ pieces = cutAt same sep s := by
  have hcut : ∀ {s : List Char} {pieces : List (List Char)}, Cuts IsSep s pieces →
      cutAt same sep s = pieces := by
    intro s pieces h
    induction h with
    | whole hno => exact cutAt_of_not_occurs hsep ((not_occurs_iff hsame).2 hno)
    | first hm hleft _ ih => rw [cutAt_leftmost hsep hsame hm hleft, ih]
  constructor
  · exact fun h => (hcut h).symm
  · rintro rfl
    obtain ⟨pieces, h⟩ := exists_cuts (fun m hm => ((hsame m).1 hm).ne_nil hsep) s
    rwa [hcut h]

end Pieces

/-! ## The first mark -/

theorem splitFirst?_append {mark : Char} {a b : List Char} (h : mark ∉ a) :
    splitFirst? mark (a ++ mark :: b) = some (a, b) := by
  induction a with
  | nil => simp [splitFirst?]
  | cons c a ih =>
    rw [List.mem_cons, not_or] at h
    simp [splitFirst?, Ne.symm h.1, ih h.2]

theorem splitFirst?_eq_some {mark : Char} {s a b : List Char} (h : splitFirst? mark s = some (a, b)) :
    s = a ++ mark :: b ∧ mark ∉ a := by
  induction s generalizing a with
  | nil => simp [splitFirst?] at h
  | cons c s ih =>
    unfold splitFirst? at h
    split at h
    · rename_i hc
      simp only [Option.some.injEq, Prod.mk.injEq] at h
      obtain ⟨rfl, rfl⟩ := h
      simp [hc]
    · rename_i hc
      simp only [Option.map_eq_some_iff, Prod.mk.injEq, Prod.exists] at h
      obtain ⟨a', b', h, rfl, rfl⟩ := h
      obtain ⟨rfl, hm⟩ := ih h
      exact ⟨rfl, by simp [hm, Ne.symm hc]⟩

/-- The parts around the first mark. -/
theorem splitFirst?_eq_some_iff {mark : Char} {s a b : List Char} :
    splitFirst? mark s = some (a, b) ↔ s = a ++ mark :: b ∧ mark ∉ a := by
  constructor
  · exact splitFirst?_eq_some
  · rintro ⟨rfl, h⟩
    exact splitFirst?_append h

theorem splitFirst?_eq_none_iff {mark : Char} {s : List Char} :
    splitFirst? mark s = none ↔ mark ∉ s := by
  induction s with
  | nil => simp [splitFirst?]
  | cons c s ih =>
    unfold splitFirst?
    split
    · rename_i hc
      simp [hc]
    · rename_i hc
      rw [Option.map_eq_none_iff, ih, List.mem_cons, not_or, and_iff_right (Ne.symm hc)]

end LedgerFront.Text
