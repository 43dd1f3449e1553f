import LedgerFront.Proofs.Json.Decode
import LedgerFront.Proofs.Json.Ordered
import LedgerFront.Remote.Call

/-!
# Members that are carried along

A company and the outcome of a posting come as objects of which only a few members are interpreted. The
others are split off when the object is decoded and put back when it is encoded, so the object that goes
out is the one that came in, up to a name that was left out and the usual spelling of success.

* `Company.WellFormed`, `Company.decode?_encode`: companies that are read back from what they encode.
* `Company.encode_of_decode?`: the object of a company that was decoded.
* `PostingOutcome.WellFormed`, `PostingOutcome.decode?_encode`, `PostingOutcome.encode_of_decode?`: the
  same for outcomes of postings.
* `members_carried_through`: both, from outside.
-/

namespace LedgerFront

variable {m : Members} {j : Json}

/-- The object with a value put under a key that it does not have. -/
def Members.completed (key : String) (default : Json) (m : Members) : Members :=
  if (m.find? key).isSome then m else m.insert key default

theorem Members.find?_completed (key k : String) (default : Json) (m : Members) :
    (m.completed key default).find? k =
      if k = key then some ((m.find? key).getD default) else m.find? k := by
  unfold completed
  cases hfind : m.find? key with
  | none => simp
  | some v =>
    by_cases hk : k = key <;> simp [hk, hfind]

theorem Members.Ordered.completed (h : m.Ordered) (key : String) (default : Json) :
    (m.completed key default).Ordered := by
  unfold Members.completed
  split
  · exact h
  · exact h.insert key default

/-! ## Companies -/

namespace Company

variable {c : Company}

/-- A company with a number of 32 bits that carries neither a number nor a name along. -/
structure WellFormed (c : Company) : Prop where
  range : -0x80000000 ≤ c.id ∧ c.id < 0x80000000
  ordered : c.extra.Ordered
  noId : c.extra.find? "CompanyId" = none
  noName : c.extra.find? "Name" = none

/-- The objects that are companies. -/
theorem decode?_eq_some_iff : decode? (.obj m) = some c ↔
    m.find? "CompanyId" = some (.ofInt c.id) ∧ (-0x80000000 ≤ c.id ∧ c.id < 0x80000000) ∧
      (m.find? "Name").getD (.str "") = .str c.name ∧ c.extra = (m.erase "CompanyId").erase "Name" := by
  have hname : ∀ name, Fields.optional m "Name" "" Json.str? = some name ↔
      (m.find? "Name").getD (.str "") = .str name := by
    intro name
    rw [Fields.optional_eq_some]
    change (m.find? "Name" = none ∧ _) ∨ (∃ v, m.find? "Name" = some v ∧ _) ↔ _
    cases m.find? "Name" with
    | none => simp [eq_comm]
    | some v => simp [Json.str?_eq_some]
  have hid : ∀ id, Fields.required m "CompanyId" Json.int32? = some id ↔
      m.find? "CompanyId" = some (.ofInt id) ∧ -0x80000000 ≤ id ∧ id < 0x80000000 := by
    intro id
    rw [Fields.required_eq_some]
    simp only [Json.int32?_eq_some]
    exact ⟨fun ⟨v, hv, h, hrange⟩ => ⟨h ▸ hv, hrange⟩, fun ⟨hv, hrange⟩ => ⟨_, hv, rfl, hrange⟩⟩
  obtain ⟨id, name, extra⟩ := c
  simp only [decode?, Json.members?, Option.bind_eq_bind, Option.bind_some, Option.bind_eq_some_iff,
    Option.pure_def, Option.some.injEq, hname, hid, mk.injEq]
  constructor
  · rintro ⟨_, ⟨hid, hrange⟩, _, hname, rfl, rfl, rfl⟩
    exact ⟨hid, hrange, hname, rfl⟩
  · rintro ⟨hid, hrange, hname, rfl⟩
    exact ⟨id, ⟨hid, hrange⟩, name, hname, rfl, rfl, rfl⟩

theorem wellFormed_of_decode? (hm : m.Ordered) (h : decode? (.obj m) = some c) : c.WellFormed := by
  obtain ⟨-, hrange, -, hextra⟩ := decode?_eq_some_iff.1 h
  refine ⟨hrange, hextra ▸ (hm.erase _).erase _, ?_, ?_⟩
  · simp [hextra]
  · simp [hextra]

/-- **A company is read back** from the object that it encodes. -/
theorem decode?_encode (h : c.WellFormed) : decode? c.encode = some c := by
  have hids : ((c.extra.insert "CompanyId" (.ofInt c.id)).insert "Name" (.str c.name)).Ordered :=
    (h.ordered.insert _ _).insert _ _
  unfold encode
  rw [decode?_eq_some_iff]
  -- the two members that are put in are the ones that are split off again
  refine ⟨by simp, h.range, by simp, h.ordered.ext ((hids.erase _).erase _) fun k => ?_⟩
  simp only [Members.find?_erase, Members.find?_insert]
  split
  · rename_i hk
    rw [hk, h.noName]
  · split
    · rename_i hk
      rw [hk, h.noId]
    · rfl

/-- **The object of a company that was decoded** is the object that it came as, with a name. -/
theorem encode_of_decode? (hm : m.Ordered) (h : decode? (.obj m) = some c) :
    c.encode = .obj (m.completed "Name" (.str "")) := by
  obtain ⟨hid, -, hname, hextra⟩ := decode?_eq_some_iff.1 h
  have hencoded : ((c.extra.insert "CompanyId" (.ofInt c.id)).insert "Name" (.str c.name)).Ordered :=
    ((wellFormed_of_decode? hm h).ordered.insert _ _).insert _ _
  unfold encode
  rw [Json.obj.injEq]
  refine hencoded.ext (hm.completed _ _) fun k => ?_
  simp only [Members.find?_completed, Members.find?_insert, hname, hextra, Members.find?_erase]
  split
  · rfl
  · split
    · rename_i hk
      rw [hk, hid]
    · rfl

end Company

/-! ## Outcomes of postings -/

/-- **The spelling of a status**: the one that it came in, but for the usual one of success. -/
theorem Status.text_ofText (code : String) :
    (ofText code).text = if code = "Success" then "Succes" else code := by
  unfold ofText
  split
  · rfl
  · rfl
  · rfl
  · rename_i hne _
    rw [if_neg hne]
    rfl

theorem Status.ofText_text_ofText (code : String) : ofText (ofText code).text = ofText code := by
  rw [text_ofText]
  split
  · rename_i hcode
    rw [hcode]
    rfl
  · rfl

theorem Status.decode?_eq_some {status : Status} :
    Status.decode? j = some status ↔ ∃ code, j = .str code ∧ status = ofText code := by
  unfold decode?
  simp only [Option.map_eq_some_iff, Json.str?_eq_some, eq_comm (a := ofText _)]

namespace PostingOutcome

variable {o : PostingOutcome}

/-- An outcome with a status that some code stands for, which carries no other status along. -/
structure WellFormed (o : PostingOutcome) : Prop where
  status : Status.ofText o.status.text = o.status
  ordered : o.details.Ordered
  noStatus : o.details.find? "status" = none

/-- The objects that are outcomes of postings. -/
theorem decode?_eq_some_iff : decode? (.obj m) = some o ↔
    ∃ code, m.find? "status" = some (.str code) ∧ o = ⟨.ofText code, m.erase "status"⟩ := by
  have hstatus : ∀ status, Fields.required m "status" Status.decode? = some status ↔
      ∃ code, m.find? "status" = some (.str code) ∧ status = .ofText code := by
    intro status
    rw [Fields.required_eq_some]
    simp only [Status.decode?_eq_some]
    exact ⟨fun ⟨v, hv, code, h, hs⟩ => ⟨code, h ▸ hv, hs⟩, fun ⟨code, hv, hs⟩ => ⟨_, hv, code, rfl, hs⟩⟩
  simp only [decode?, Json.members?, Option.bind_eq_bind, Option.bind_some, Option.bind_eq_some_iff,
    Option.pure_def, Option.some.injEq, hstatus]
  constructor
  · rintro ⟨_, ⟨code, hcode, rfl⟩, rfl⟩
    exact ⟨code, hcode, rfl⟩
  · rintro ⟨code, hcode, rfl⟩
    exact ⟨_, ⟨code, hcode, rfl⟩, rfl⟩

theorem wellFormed_of_decode? (hm : m.Ordered) (h : decode? (.obj m) = some o) : o.WellFormed := by
  obtain ⟨code, -, rfl⟩ := decode?_eq_some_iff.1 h
  exact ⟨Status.ofText_text_ofText code, hm.erase _, by simp⟩

theorem encode_of_wellFormed (h : o.WellFormed) :
    o.encode = .obj (o.details.insert "status" (.str o.status.text)) := by
  unfold encode Status.withDetails Json.ofPairs
  rw [h.ordered.ofList_cons h.noStatus]
  rfl

/-- **An outcome is read back** from the object that it encodes. -/
theorem decode?_encode (h : o.WellFormed) : decode? o.encode = some o := by
  rw [encode_of_wellFormed h, decode?_eq_some_iff]
  exact ⟨o.status.text, by simp, by rw [h.status, h.ordered.erase_insert h.noStatus]⟩

/-- **The object of an outcome that was decoded** is the object that it came as, with the remote spelling
of success. -/
theorem encode_of_decode? (hm : m.Ordered) (h : decode? (.obj m) = some o) :
    o.encode = .obj (if m.find? "status" = some (.str "Success") then m.insert "status" (.str "Succes")
      else m) := by
  rw [encode_of_wellFormed (wellFormed_of_decode? hm h)]
  obtain ⟨code, hcode, rfl⟩ := decode?_eq_some_iff.1 h
  rw [hm.insert_erase, Status.text_ofText, hcode]
  by_cases hsuccess : code = "Success"
  · rw [if_pos hsuccess, if_pos (by rw [hsuccess])]
  · rw [if_neg hsuccess, if_neg (by simpa using hsuccess), hm.insert_of_find? hcode]

end PostingOutcome

/-- **Members are carried through.** An object that is a company comes back as it was, with an empty name
if it had none, and an object that is the outcome of a posting comes back as it was, with the remote
spelling of success; what comes back is the same company or outcome. -/
theorem members_carried_through (hm : m.Ordered) :
    (∀ c, Company.decode? (.obj m) = some c →
      c.encode = .obj (if (m.find? "Name").isSome then m else m.insert "Name" (.str "")) ∧
        Company.decode? c.encode = some c) ∧
    (∀ o, PostingOutcome.decode? (.obj m) = some o →
      o.encode = .obj (if m.find? "status" = some (.str "Success") then m.insert "status" (.str "Succes")
        else m) ∧
        PostingOutcome.decode? o.encode = some o) := by
  constructor
  · intro c h
    exact ⟨Company.encode_of_decode? hm h, Company.decode?_encode (Company.wellFormed_of_decode? hm h)⟩
  · intro o h
    exact ⟨PostingOutcome.encode_of_decode? hm h,
      PostingOutcome.decode?_encode (PostingOutcome.wellFormed_of_decode? hm h)⟩

/-- An object that is both, without a name and with the usual spelling. -/
theorem members_carried_through_both :
    let address : Json := .obj [("City", .str "Oslo"), ("Name", .arr [.null, .obj []])]
    let m : Members := [("Address", address), ("CompanyId", .ofInt (-7)), ("status", .str "Success")]
    ∃ c o, m.Ordered ∧ Company.decode? (.obj m) = some c ∧ PostingOutcome.decode? (.obj m) = some o ∧
      c.encode = .obj [("Address", address), ("CompanyId", .ofInt (-7)), ("Name", .str ""),
        ("status", .str "Success")] ∧
      Company.decode? c.encode = some c ∧
      o.encode = .obj [("Address", address), ("CompanyId", .ofInt (-7)), ("status", .str "Succes")] ∧
      PostingOutcome.decode? o.encode = some o := by
  intro address m
  have hm : m.Ordered := by
    unfold Members.Ordered
    decide +kernel
  obtain ⟨hcompany, hposting⟩ := members_carried_through hm
  obtain ⟨hc, hc'⟩ := hcompany _ rfl
  obtain ⟨ho, ho'⟩ := hposting _ rfl
  exact ⟨_, _, hm, rfl, rfl, hc.trans (by decide +kernel), hc', ho.trans (by decide +kernel), ho'⟩

end LedgerFront
