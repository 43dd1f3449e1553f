import LedgerFront.Proofs.Text.Cut
import LedgerFront.Proofs.Text.Letter
import LedgerFront.Proofs.Url.Escape
import LedgerFront.Url.Basic

/-!
# Segments added to a path

A text that is added to the path of a URL takes one segment, in which it is escaped. Tabs and line breaks
are passed over, and dots have a meaning of their own.

* `Url.kept`: what a URL keeps of a text.
* `Url.isDot_escape`, `Url.isDoubleDot_escape`: only dots are escaped to dots.
* `Url.addSegment_eq`: one more segment.
* `Url.stem`: what stays of a path that segments are added to.
* `Url.joined_injective`: a path is known by its text if no segment holds a slash.
-/

namespace LedgerFront.Url

open Text

variable {web : Bool} {s : List Char} {path : List String} {segment : String}

/-! ## Dots -/

theorem map_toLower_ofBytes (bytes : List UInt8) :
    (Utf8.ofBytes bytes).map Char.toLower = Utf8.ofBytes (bytes.map Percent.lowerByte) := by
  unfold Utf8.ofBytes
  rw [List.map_map, List.map_map]
  refine List.map_congr_left fun b _ => ?_
  have hb := b.toNat_lt
  have hb' := (Percent.lowerByte b).toNat_lt
  rw [← Char.toNat_inj, Function.comp_apply, Function.comp_apply, toNat_toLower,
    Utf8.toNat_ofNat (.inl (by omega)), Utf8.toNat_ofNat (.inl (by omega)), Percent.toNat_lowerByte]

/-- The bytes of a text whose escaped form is spelled like this in lower case. -/
theorem map_lowerByte_of_lower_escape {set : UInt8 → Bool} (h : Reversible set) {b : List UInt8}
    (hlower : lower (escape set s) = String.ofList (Utf8.ofBytes b)) :
    (Utf8.encode s).map Percent.lowerByte = (Percent.decode b).map Percent.lowerByte := by
  have hescape : (escape set s).toList = Utf8.ofBytes (Percent.encode set (Utf8.encode s)) :=
    String.toList_ofList
  unfold lower at hlower
  rw [hescape, map_toLower_ofBytes] at hlower
  have hbytes := Utf8.ofBytes_injective (String.ofList_injective hlower)
  rw [← hbytes, Percent.decode_map_lowerByte, Percent.decode_encode h.percent]

/-- **Only dots are escaped to dots**, also to dots that are escaped themselves. -/
theorem eq_dots_of_lower_escape {b : List UInt8} {n : Nat} (hdots : Percent.decode b = List.replicate n 46)
    (hlower : lower (escape (segmentSet web) s) = String.ofList (Utf8.ofBytes b)) :
    s = List.replicate n '.' := by
  have hbytes := map_lowerByte_of_lower_escape (reversible_segmentSet web) hlower
  rw [hdots, List.map_replicate, List.eq_replicate_iff, List.length_map] at hbytes
  obtain ⟨hlength, hdot⟩ := hbytes
  have hencode : Utf8.encode s = Utf8.encode (Utf8.ofBytes (List.replicate n 46)) := by
    rw [Utf8.encode_ofBytes fun b hb => by rw [List.eq_of_mem_replicate hb]; decide]
    exact List.eq_replicate_iff.2 ⟨hlength, fun b hb =>
      Percent.lowerByte_eq_dot.1 (hdot _ (List.mem_map_of_mem hb))⟩
  rw [Utf8.encode_injective hencode, Utf8.ofBytes, List.map_replicate]
  rfl

theorem isDot_escape : isDot (escape (segmentSet web) s) = true ↔ s = ['.'] := by
  constructor
  · intro h
    have hlower : lower (escape (segmentSet web) s) ∈ [".", "%2e"] := by simpa [isDot] using h
    simp only [List.mem_cons, List.not_mem_nil, or_false] at hlower
    rcases hlower with h | h
    · exact eq_dots_of_lower_escape (b := [46]) (n := 1) rfl (h.trans (by decide))
    · exact eq_dots_of_lower_escape (b := [37, 50, 101]) (n := 1) rfl (h.trans (by decide))
  · rintro rfl
    cases web <;> decide

theorem isDoubleDot_escape : isDoubleDot (escape (segmentSet web) s) = true ↔ s = ['.', '.'] := by
  constructor
  · intro h
    have hlower : lower (escape (segmentSet web) s) ∈ ["..", ".%2e", "%2e.", "%2e%2e"] := by
      simpa [isDoubleDot] using h
    simp only [List.mem_cons, List.not_mem_nil, or_false] at hlower
    rcases hlower with h | h | h | h
    · exact eq_dots_of_lower_escape (b := [46, 46]) (n := 2) rfl (h.trans (by decide))
    · exact eq_dots_of_lower_escape (b := [46, 37, 50, 101]) (n := 2) rfl (h.trans (by decide))
    · exact eq_dots_of_lower_escape (b := [37, 50, 101, 46]) (n := 2) rfl (h.trans (by decide))
    · exact eq_dots_of_lower_escape (b := [37, 50, 101, 37, 50, 101]) (n := 2) rfl (h.trans (by decide))
  · rintro rfl
    cases web <;> decide

/-! ## One segment -/

/-- What a URL keeps of the text of a segment: no segment at all, an empty one in the place of the one
before, or one with a text. -/
inductive Kept where
  | nothing
  | above
  | text (chars : List Char)
deriving DecidableEq, Repr

/-- Dots by themselves are dropped. Dots that are left when tabs and line breaks are passed over are
resolved. -/
def kept (segment : String) : Kept :=
  if segment = "." ∨ segment = ".." then .nothing
  else
    let chars := segment.toList.filter fun c => !isSkipped c
    if chars = ['.'] then .text [] else if chars = ['.', '.'] then .above else .text chars

/-- A text without tabs and line breaks that does not consist of one or two dots. -/
def Plain (segment : String) : Prop :=
  segment ≠ "." ∧ segment ≠ ".." ∧ ∀ c ∈ segment.toList, isSkipped c = false

instance : DecidablePred Plain := fun segment =>
  decidable_of_iff (segment ≠ "." ∧ segment ≠ ".." ∧ segment.toList.all (!isSkipped ·) = true)
    (by simp [Plain])

/-- **Plain texts are kept** as they are. -/
theorem kept_of_plain (h : Plain segment) : kept segment = .text segment.toList := by
  obtain ⟨hdot, hdots, hskip⟩ := h
  have hfilter : (segment.toList.filter fun c => !isSkipped c) = segment.toList :=
    List.filter_eq_self.2 fun c hc => by simp [hskip c hc]
  have hdot' : segment.toList ≠ ['.'] := fun heq => hdot (String.toList_injective heq)
  have hdots' : segment.toList ≠ ['.', '.'] := fun heq => hdots (String.toList_injective heq)
  unfold kept
  dsimp only
  rw [if_neg (by simp [hdot, hdots]), hfilter, if_neg hdot', if_neg hdots']

/-- A path that a segment is added to; an only empty segment gives way. -/
def cleared (path : List String) : List String := if path = [""] then [] else path

/-- **One more segment.** -/
theorem addSegment_eq (web : Bool) (path : List String) (segment : String) :
    addSegment web path segment =
      match kept segment with
      | .nothing => path
      | .above => (cleared path).dropLast ++ [""]
      | .text chars => cleared path ++ [escape (segmentSet web) chars] := by
  unfold addSegment kept
  split
  · rfl
  have hdots : ∀ chars, resolveDots (cleared path) [escape (segmentSet web) chars] =
      if chars = ['.', '.'] then (cleared path).dropLast ++ [""]
      else if chars = ['.'] then cleared path ++ [""]
      else cleared path ++ [escape (segmentSet web) chars] := by
    intro chars
    rw [resolveDots]
    simp only [isDoubleDot_escape, isDot_escape]
  refine (hdots _).trans ?_
  -- a dot leaves an empty segment, which is also what an empty text is escaped to
  dsimp only
  generalize (segment.toList.filter fun c => !isSkipped c) = chars
  split
  · rename_i hchars
    rw [if_neg (by simp [hchars])]
  · split <;> rfl

/-- A text that a URL keeps, and of which nothing is escaped. -/
def Fixed (web : Bool) (segment : String) : Prop :=
  kept segment = .text segment.toList ∧ escape (segmentSet web) segment.toList = segment

theorem addSegment_fixed (h : Fixed web segment) (path : List String) :
    addSegment web path segment = cleared path ++ [segment] := by
  rw [addSegment_eq, h.1]
  dsimp only
  rw [h.2]

/-- Characters that stand for themselves in a segment. -/
def isFree (c : Char) : Bool := c.toNat < 0x80 && !inWebSegment c.toNat.toUInt8 && c != '.'

theorem fixed_of_free (web : Bool) (h : ∀ c ∈ segment.toList, isFree c = true) : Fixed web segment := by
  have hfree : ∀ c ∈ segment.toList,
      (c.toNat < 0x80 ∧ inWebSegment c.toNat.toUInt8 = false) ∧ c ≠ '.' := by
    intro c hc
    simpa [isFree] using h c hc
  have hset : ∀ b, inWebSegment b = false → segmentSet web b = false := by
    intro b hb
    cases web with
    | false => exact (Bool.or_eq_false_iff.1 hb).1
    | true => exact hb
  have hplain : Plain segment := by
    refine ⟨?_, ?_, fun c hc => ?_⟩
    · rintro rfl
      exact (hfree '.' (by simp)).2 rfl
    · rintro rfl
      exact (hfree '.' (by simp)).2 rfl
    · obtain ⟨⟨-, hkept⟩, -⟩ := hfree c hc
      rw [Bool.eq_false_iff]
      intro hskip
      have hmark : c = '\t' ∨ c = '\n' ∨ c = '\r' := by simpa [isSkipped, or_assoc] using hskip
      rcases hmark with rfl | rfl | rfl <;> exact absurd hkept (by decide)
  refine ⟨kept_of_plain hplain, ?_⟩
  rw [escape_of_free fun c hc => ⟨(hfree c hc).1.1, hset _ (hfree c hc).1.2⟩, String.ofList_toList]

/-! ## The start of the path -/

/-- What stays of a path that segments are added to: an empty segment at the end does not, and of two
empty segments neither does. -/
def stem (path : List String) : List String :=
  if path = ["", ""] then [] else if path.getLast? = some "" then path.dropLast else path

theorem cleared_dropEmptyLast (path : List String) : cleared (dropEmptyLast path) = stem path := by
  unfold stem
  by_cases hlast : path.getLast? = some ""
  · obtain ⟨front, rfl⟩ := List.getLast?_eq_some_iff.1 hlast
    cases front with
    | nil => rfl
    | cons s front =>
      have hdrop : dropEmptyLast (s :: front ++ [""]) = s :: front :=
        (if_pos ⟨by simp, hlast⟩).trans List.dropLast_concat
      have htwo : s :: front ++ [""] = [""] ++ [""] ↔ s :: front = [""] := List.append_left_inj [""]
      rw [hdrop, if_pos hlast, List.dropLast_concat]
      exact if_congr htwo.symm rfl rfl
  · have hdrop : dropEmptyLast path = path := if_neg fun h => hlast h.2
    have hne : path ≠ [""] ∧ path ≠ ["", ""] := by
      constructor <;> rintro rfl <;> exact hlast rfl
    unfold cleared
    rw [hdrop, if_neg hne.1, if_neg hne.2, if_neg hlast]

theorem cleared_of_one_lt (h : 1 < path.length) : cleared path = path := by
  refine if_neg fun hone => ?_
  simp [hone] at h

theorem cleared_concat (h : segment ≠ "") (path : List String) :
    cleared (path ++ [segment]) = path ++ [segment] := by
  refine if_neg fun hone => h ?_
  have hlast := congrArg List.getLast? hone
  simpa using hlast

/-! ## The path as a text -/

/-- The characters of a path. -/
def joined (path : List String) : List Char := path.flatMap fun segment => '/' :: segment.toList

theorem toList_join (path : List String) :
    (String.join (path.map ("/" ++ ·))).toList = joined path := by
  rw [String.toList_join, List.flatMap_map]
  exact List.flatMap_congr fun segment _ => String.toList_append

theorem joined_append (a b : List String) : joined (a ++ b) = joined a ++ joined b := List.flatMap_append

/-- A slash follows each segment, if one is put behind the path. -/
theorem joined_slash (path : List String) : ∃ rest, joined path ++ ['/'] = '/' :: rest := by
  cases path with
  | nil => exact ⟨[], rfl⟩
  | cons s path => exact ⟨_, rfl⟩

/-- **A path is known by its text** if no segment holds a slash. -/
theorem joined_injective {a b : List String} (ha : ∀ s ∈ a, '/' ∉ s.toList) (hb : ∀ s ∈ b, '/' ∉ s.toList)
    (h : joined a = joined b) : a = b := by
  induction a generalizing b with
  | nil =>
    cases b with
    | nil => rfl
    | cons t b => simp [joined] at h
  | cons s a ih =>
    cases b with
    | nil => simp [joined] at h
    | cons t b =>
      -- with a slash behind both paths their first segments end at the first slash
      obtain ⟨rest, hrest⟩ := joined_slash a
      obtain ⟨rest', hrest'⟩ := joined_slash b
      have happend : s.toList ++ joined a = t.toList ++ joined b := (List.cons.inj h).2
      have hmarked : s.toList ++ '/' :: rest = t.toList ++ '/' :: rest' := by
        rw [← hrest, ← hrest', ← List.append_assoc, ← List.append_assoc, happend]
      have hsplit := splitFirst?_append (b := rest) (ha s (by simp))
      rw [hmarked, splitFirst?_append (hb t (by simp))] at hsplit
      obtain ⟨hst, -⟩ := Prod.mk.inj (Option.some.inj hsplit)
      obtain rfl := String.toList_injective hst
      have htail := List.append_cancel_left happend
      rw [ih (fun r hr => ha r (by simp [hr])) (fun r hr => hb r (by simp [hr])) htail]

end LedgerFront.Url
