import LedgerFront.Connection.Cache
import LedgerFront.Proofs.Pairs
import LedgerFront.Proofs.Text.Base64
import LedgerFront.Proofs.Text.Blank
import LedgerFront.Proofs.Text.Cut
import LedgerFront.Proofs.Text.Utf8
import LedgerFront.Server.Authorization

/-!
# Headers and the credentials that they spell

Credentials have one base64 form. The headers that spell them differ only in the letter case of the
scheme and in the blanks around that form, so whoever sends the same form shares the same connection.

* `Credentials.code`: the base64 form of credentials.
* `Authorization.Spells`: the headers that spell credentials.
* `Authorization.parse_eq_ok_iff`: these headers are read, and no others.
* `Authorization.parse_round_trip`: both directions, and when two headers share connections.
-/

namespace LedgerFront

/-- The base64 form of a user name, a colon and a password. -/
def Credentials.code (c : Credentials) : List Char :=
  Text.Utf8.ofBytes (Text.Base64.encode
    (Text.Utf8.encode (c.username.toList ++ ':' :: c.password.toList)))

/-- Credentials that a header can spell. -/
structure Credentials.Sendable (c : Credentials) : Prop where
  username : c.username ≠ ""
  noColon : ':' ∉ c.username.toList
  password : c.password ≠ ""

namespace Authorization

open Text

variable {header header' : String} {c c' : Credentials}

/-- The header is the scheme in any letter case, and the base64 form with blanks around it. -/
def Spells (header : String) (c : Credentials) : Prop :=
  ∃ scheme left right, header.toList = scheme ++ (left ++ c.code ++ right) ∧
    scheme.map Char.toLower = "basic ".toList ∧ (∀ b ∈ left, isBlank b = true) ∧
    ∀ b ∈ right, isBlank b = true

/-! ## The base64 form -/

theorem encode_code (c : Credentials) : Utf8.encode c.code =
    Base64.encode (Utf8.encode (c.username.toList ++ ':' :: c.password.toList)) := by
  refine Utf8.encode_ofBytes fun b hb => ?_
  have := Base64.encode_visible _ b hb
  omega

theorem not_blank_of_visible {b : UInt8} (h : 43 ≤ b.toNat ∧ b.toNat ≤ 122) :
    isBlank (Char.ofNat b.toNat) = false := by
  have hcode : (Char.ofNat b.toNat).toNat = b.toNat := Utf8.toNat_ofNat (.inl (by omega))
  simp only [isBlank, hcode, Bool.or_eq_false_iff, Bool.and_eq_false_iff, decide_eq_false_iff_not,
    beq_eq_false_iff_ne]
  omega

/-- The base64 form has no blanks, so trimming takes away those around it and no more. -/
theorem trimChars_code {left right : List Char} (hleft : ∀ b ∈ left, isBlank b = true)
    (hright : ∀ b ∈ right, isBlank b = true) : trimChars (left ++ c.code ++ right) = c.code := by
  rw [trimChars_append_blanks hright, trimChars_blanks_append hleft]
  refine trimChars_of_not_blank fun x hx => ?_
  obtain ⟨b, hb, rfl⟩ := List.mem_map.1 hx
  exact not_blank_of_visible (Base64.encode_visible _ b hb)

/-- **Credentials have one base64 form each.** -/
theorem code_injective (hc : c.Sendable) (hc' : c'.Sendable) (h : c.code = c'.code) : c = c' := by
  have hbytes := congrArg Utf8.encode h
  rw [encode_code, encode_code] at hbytes
  have htext := Utf8.encode_injective (Base64.encode_injective hbytes)
  have hsplit := splitFirst?_append (b := c.password.toList) hc.noColon
  rw [htext, splitFirst?_append hc'.noColon] at hsplit
  obtain ⟨husername, hpassword⟩ := Prod.mk.inj (Option.some.inj hsplit)
  obtain ⟨username, password⟩ := c
  obtain ⟨username', password'⟩ := c'
  rw [Credentials.mk.injEq]
  exact ⟨String.toList_inj.1 husername.symm, String.toList_inj.1 hpassword.symm⟩

/-! ## What is read -/

theorem afterScheme?_eq_some {rest : List Char} : afterScheme? header = some rest ↔
    ∃ scheme, header.toList = scheme ++ rest ∧ scheme.map Char.toLower = "basic ".toList := by
  unfold afterScheme?
  rw [after?_eq_some]
  have hmatches (m : List Char) : Matches (fun c d => c == d.toLower) "basic ".toList m ↔
      m.map Char.toLower = "basic ".toList := by
    unfold Matches
    simp only [beq_iff_eq]
    rw [← List.forall₂_map_right_iff (f := Char.toLower), List.forall₂_eq_eq_eq, eq_comm]
  simp only [hmatches]

/-- **What is read** from what follows the scheme. -/
theorem parse_of_code {rest : List Char} (hscheme : afterScheme? header = some rest) :
    parse header = .ok c ↔ c.Sendable ∧ trimChars rest = c.code := by
  unfold parse
  rw [hscheme]
  dsimp only
  constructor
  · intro h
    split at h
    · contradiction
    rename_i bytes hbytes
    split at h
    · contradiction
    rename_i text htext
    split at h
    · contradiction
    rename_i username password hsplit
    split at h
    · contradiction
    rename_i hparts
    obtain rfl := Except.ok.inj h
    rw [not_or, List.isEmpty_iff, List.isEmpty_iff] at hparts
    obtain ⟨rfl, hcolon⟩ := splitFirst?_eq_some hsplit
    have hsendable : (⟨String.ofList username, String.ofList password⟩ : Credentials).Sendable := by
      refine ⟨?_, ?_, ?_⟩
      · simpa using hparts.1
      · simpa using hcolon
      · simpa using hparts.2
    refine ⟨hsendable, Utf8.encode_injective ?_⟩
    rw [encode_code, Base64.decode?_eq_some_iff.1 hbytes, Utf8.decode?_eq_some_iff.1 htext]
    simp only [String.toList_ofList]
  · rintro ⟨hc, htrim⟩
    rw [htrim, encode_code, Base64.decode?_encode]
    dsimp only
    rw [Utf8.decode?_eq_some_iff.2 rfl]
    dsimp only
    rw [splitFirst?_append hc.noColon]
    have hparts : ¬ (c.username.toList.isEmpty = true ∨ c.password.toList.isEmpty = true) := by
      simpa [not_or] using ⟨hc.username, hc.password⟩
    dsimp only
    rw [if_neg hparts, String.ofList_toList, String.ofList_toList]

/-- **The headers that are read** are those that spell credentials. -/
theorem parse_eq_ok_iff : parse header = .ok c ↔ c.Sendable ∧ Spells header c := by
  constructor
  · intro h
    cases hscheme : afterScheme? header with
    | none => simp [parse, hscheme] at h
    | some rest =>
      obtain ⟨hc, htrim⟩ := (parse_of_code hscheme).1 h
      obtain ⟨scheme, hheader, hlower⟩ := afterScheme?_eq_some.1 hscheme
      obtain ⟨left, right, hrest, hleft, hright⟩ := exists_blanks rest
      rw [htrim] at hrest
      exact ⟨hc, scheme, left, right, hrest ▸ hheader, hlower, hleft, hright⟩
  · rintro ⟨hc, scheme, left, right, hheader, hlower, hleft, hright⟩
    exact (parse_of_code (afterScheme?_eq_some.2 ⟨scheme, hheader, hlower⟩)).2
      ⟨hc, trimChars_code hleft hright⟩

/-- What follows the six characters of the scheme, without the blanks around it. -/
def sentCode (header : String) : List Char := trimChars (header.toList.drop 6)

theorem sentCode_of_spells (h : Spells header c) : sentCode header = c.code := by
  obtain ⟨scheme, left, right, hheader, hlower, hleft, hright⟩ := h
  have hlen : scheme.length = 6 := by
    have := congrArg List.length hlower
    rwa [List.length_map] at this
  rw [sentCode, hheader, List.drop_left' hlen, trimChars_code hleft hright]

/-- **Headers and credentials go round.** A header is read as credentials exactly when the user name is
not empty and has no colon, the password is not empty, and the header spells them: `Basic ` in any letter
case, then the base64 form of the two with a colon between them, with blanks around it. Of two headers
that are read the credentials are equal exactly when the base64 parts are, and then and only then a
connection that is stored for one is the one that is found for the other. -/
theorem parse_round_trip :
    (∀ header c, parse header = .ok c ↔ c.Sendable ∧ Spells header c) ∧
    ∀ header header' c c', parse header = .ok c → parse header' = .ok c' →
      (c = c' ↔ sentCode header = sentCode header') ∧
      ∀ (e : Entry) (entries : List (Credentials × Entry)),
        (Pairs.put c e entries).lookup c' =
          if sentCode header = sentCode header' then some e else entries.lookup c' := by
  refine ⟨fun _ _ => parse_eq_ok_iff, ?_⟩
  intro header header' c c' h h'
  obtain ⟨hc, hspells⟩ := parse_eq_ok_iff.1 h
  obtain ⟨hc', hspells'⟩ := parse_eq_ok_iff.1 h'
  have hsame : c = c' ↔ sentCode header = sentCode header' := by
    rw [sentCode_of_spells hspells, sentCode_of_spells hspells']
    exact ⟨congrArg Credentials.code, code_injective hc hc'⟩
  refine ⟨hsame, fun e entries => ?_⟩
  rw [Pairs.lookup_put]
  simp only [← hsame, eq_comm]

/-- One user writes the header in two ways, another one has the same name and another password, which has
a colon too. -/
theorem parse_round_trip_spellings :
    let c : Credentials := ⟨"ålice", "s:ö"⟩
    let c' : Credentials := ⟨"ålice", "s:ø"⟩
    let header := "Basic w6VsaWNlOnM6w7Y="
    let recased := "bASIC \t w6VsaWNlOnM6w7Y= "
    let other := "Basic w6VsaWNlOnM6w7g="
    (parse header = .ok c ∧ parse recased = .ok c ∧ parse other = .ok c') ∧
      (c.Sendable ∧ Spells recased c) ∧ sentCode header = sentCode recased ∧
      sentCode header ≠ sentCode other ∧
      ∀ (e : Entry) (entries : List (Credentials × Entry)),
        (Pairs.put c e entries).lookup c = some e ∧
        (Pairs.put c e entries).lookup c' = entries.lookup c' := by
  intro c c' header recased other
  have h : parse header = .ok c := by decide +kernel
  have hrecased : parse recased = .ok c := by decide +kernel
  have hother : parse other = .ok c' := by decide +kernel
  have hne : sentCode header ≠ sentCode other := by
    rw [Ne, ← (parse_round_trip.2 _ _ _ _ h hother).1]
    decide
  have hsame : sentCode header = sentCode recased :=
    (parse_round_trip.2 _ _ _ _ h hrecased).1.1 rfl
  refine ⟨⟨h, hrecased, hother⟩, (parse_round_trip.1 _ _).1 hrecased, hsame, hne, fun e entries => ⟨?_, ?_⟩⟩
  · have hfound := (parse_round_trip.2 _ _ _ _ h hrecased).2 e entries
    rwa [if_pos hsame] at hfound
  · have hfound := (parse_round_trip.2 _ _ _ _ h hother).2 e entries
    rwa [if_neg hne] at hfound

end Authorization

end LedgerFront
