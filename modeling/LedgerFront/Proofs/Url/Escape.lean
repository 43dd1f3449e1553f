import Mathlib.Data.List.Basic
import Mathlib.Data.String.Basic
import LedgerFront.Proofs.Text.Percent
import LedgerFront.Url.Escape

/-!
# Escaped segments

The text of a segment is read back from its escaped form, which holds no slash.

* `Url.unescape`: the text that is escaped in a segment.
* `Url.Reversible`, `Url.unescape_escape`: sets of bytes that can be escaped and read back.
* `Url.segmentSet`: the bytes that are escaped in a segment.
-/

namespace LedgerFront.Url

open Text

variable {set : UInt8 → Bool} {s t : List Char}

/-- The text whose bytes a segment spells. -/
def unescape (segment : String) : Option String :=
  Utf8.toString? (Percent.decode (Utf8.ofString segment))

/-- A set with the percent sign and all bytes outside ASCII. -/
structure Reversible (set : UInt8 → Bool) : Prop where
  percent : set 37 = true
  ascii : ∀ b, set b = false → b.toNat < 0x80

theorem ofString_escape (h : Reversible set) (s : List Char) :
    Utf8.ofString (escape set s) = Percent.encode set (Utf8.encode s) := by
  have hascii : ∀ b ∈ Percent.encode set (Utf8.encode s), b.toNat < 0x80 := by
    intro b hb
    rcases Percent.mem_encode hb with ⟨-, hb⟩ | hb | hb
    · exact h.ascii b hb
    · omega
    · omega
  unfold Utf8.ofString escape
  rw [String.toList_ofList]
  exact Utf8.encode_ofBytes hascii

/-- **The text is read back.** -/
theorem unescape_escape (h : Reversible set) (s : List Char) :
    unescape (escape set s) = some (String.ofList s) := by
  unfold unescape
  rw [ofString_escape h, Percent.decode_encode h.percent]
  unfold Utf8.toString?
  rw [Utf8.decode?_eq_some_iff.2 rfl, Option.map_some]

theorem eq_of_unescape (h : Reversible set) (hread : unescape (escape set s) = some (String.ofList t)) :
    s = t :=
  String.ofList_injective (Option.some.inj ((unescape_escape h s).symm.trans hread))

theorem escape_injective (h : Reversible set) : Function.Injective (escape set) :=
  fun _ t hst => eq_of_unescape h (hst ▸ unescape_escape h t)

/-- **No slash** is in an escaped text. -/
theorem slash_notMem_escape (hslash : set 47 = true) (s : List Char) :
    '/' ∉ (escape set s).toList := by
  intro hmem
  unfold escape at hmem
  rw [String.toList_ofList] at hmem
  obtain ⟨b, hb, hchar⟩ := List.mem_map.1 hmem
  have hcode : b.toNat = 47 := by
    have hvalid : b.toNat.isValidChar := .inl (lt_trans b.toNat_lt (by decide))
    rw [← Utf8.toNat_ofNat hvalid, hchar]
    rfl
  rcases Percent.mem_encode hb with ⟨-, hfree⟩ | hb | hb
  · obtain rfl : b = 47 := UInt8.toNat_inj.1 hcode
    simp [hslash] at hfree
  · omega
  · omega

/-- An ASCII text of which nothing is escaped. -/
theorem escape_of_free (h : ∀ c ∈ s, c.toNat < 0x80 ∧ set c.toNat.toUInt8 = false) :
    escape set s = String.ofList s := by
  have hbytes : Utf8.encode s = s.map fun c => c.toNat.toUInt8 := by
    rw [← List.flatMap_pure_eq_map]
    exact List.flatMap_congr fun c hc => if_pos (h c hc).1
  have hkept : Percent.encode set (Utf8.encode s) = Utf8.encode s := by
    refine Percent.encode_of_free fun b hb => ?_
    obtain ⟨c, hc, rfl⟩ := List.mem_map.1 (hbytes ▸ hb)
    exact (h c hc).2
  have hchar : ∀ c ∈ s, Char.ofNat c.toNat.toUInt8.toNat = c := by
    intro c hc
    have hlt := (h c hc).1
    rw [Utf8.toNat_toUInt8 (by omega), Char.ofNat_toNat]
  unfold escape
  rw [hkept, hbytes, List.map_map]
  exact congrArg String.ofList ((List.map_congr_left hchar).trans s.map_id)

/-! ## Segments -/

/-- The bytes that are escaped in a segment of a URL of this kind. -/
def segmentSet (web : Bool) : UInt8 → Bool := if web then inWebSegment else inSegment

theorem reversible_segmentSet (web : Bool) : Reversible (segmentSet web) := by
  have hascii : ∀ b, inSegment b = false → b.toNat < 0x80 := by
    intro b hb
    have hlow : ¬ 0x7E < b := by
      simp only [inSegment, inPath, inFragment, inBare, Bool.or_eq_false_iff, decide_eq_false_iff_not] at hb
      exact hb.1.1.1.2
    have hle : b.toNat ≤ 0x7E := UInt8.le_iff_toNat_le.1 (UInt8.not_lt.1 hlow)
    omega
  cases web with
  | false => exact ⟨rfl, hascii⟩
  | true => exact ⟨rfl, fun b hb => hascii b (Bool.or_eq_false_iff.1 hb).1⟩

theorem segmentSet_slash (web : Bool) : segmentSet web 47 = true := by
  cases web <;> rfl

end LedgerFront.Url
