import LedgerFront.Proofs.Json.ReadBack
import LedgerFront.Proofs.Predicate.Document
import LedgerFront.Remote.Http

/-!
# Predicates on the wire

A predicate is sent as the text of its encoding, inside the body of a query.

* `Predicate.decode?_encode`: an encoded predicate is decoded as itself.
* `Predicate.plain_encode`: nothing is lost in its text.
* `Predicate.survive_the_wire`: what the other side reads.
-/

namespace LedgerFront

namespace PropertyMatch

theorem plain_members (m : PropertyMatch) : ∀ p ∈ m.members, p.2.Plain := by
  have hvalues : (Json.arr (m.values.map .str)).Plain := Json.plain_arr_map fun _ _ => trivial
  simp only [members, List.forall_mem_cons]
  exact ⟨trivial, trivial, trivial, hvalues, by simp⟩

theorem depth_members (m : PropertyMatch) : ∀ p ∈ m.members, p.2.depth ≤ 1 := by
  have hvalues : (Json.arr (m.values.map .str)).depth ≤ 1 :=
    Json.depth_arr_map fun _ _ => Nat.le_refl 0
  simp only [members, List.forall_mem_cons]
  exact ⟨Nat.zero_le 1, Nat.zero_le 1, Nat.zero_le 1, hvalues, by simp⟩

end PropertyMatch

namespace Predicate

/-- **An encoded predicate is decoded as itself.** -/
theorem decode?_encode (p : Predicate) : decode? p.encode = some p :=
  decode?_eq_some_iff.2 p.document_encode

theorem mapM_decode?_encode (l : List Predicate) : (l.map encode).mapM decode? = some l := by
  induction l with
  | nil => rfl
  | cons p l ih => simp [List.mapM_cons, decode?_encode, ih]

/-- **Nothing is lost in the text of a predicate.** -/
theorem plain_encode (p : Predicate) : p.encode.Plain := by
  cases p with
  | oneOf m => exact Json.plain_ofPairs (List.forall_mem_cons.2 ⟨trivial, m.plain_members⟩)
  | raw e => exact Json.plain_ofPairs (by simp [Json.Plain])

theorem depth_encode (p : Predicate) : p.encode.depth ≤ 2 := by
  cases p with
  | oneOf m => exact Json.depth_ofPairs (List.forall_mem_cons.2 ⟨Nat.zero_le 1, m.depth_members⟩)
  | raw e => exact Json.depth_ofPairs (by simp [Json.depth])

/-- A predicate is read back from its text. -/
theorem parse?_encode (p : Predicate) : Json.parse? p.encode.text = some p.encode :=
  Json.parse?_text p.plain_encode (Nat.le_trans p.depth_encode (by decide))

end Predicate

/-! ## Queries -/

namespace Http

variable {base : Url} {session : Option String} {c : Call} {r : Request}

theorem body_of_request (h : request base session c = .ok r) : r.body = body c := by
  unfold request at h
  split at h
  · obtain rfl := Except.ok.inj h
    rfl
  · simp at h
  · split at h
    · obtain rfl := Except.ok.inj h
      rfl
    · simp at h

/-- The body of a query. -/
def queryBody (predicates : List Predicate) : Json :=
  .ofPairs [("predicates", .arr (predicates.map Predicate.encode))]

/-- **The body of a query is read back** from its text, and the predicates are in it. -/
theorem read_queryBody (predicates : List Predicate) :
    Json.parse? (queryBody predicates).text = some (queryBody predicates) ∧
      (queryBody predicates).get? "predicates" = some (.arr (predicates.map Predicate.encode)) := by
  have hplain : (Json.arr (predicates.map Predicate.encode)).Plain :=
    Json.plain_arr_map fun p _ => p.plain_encode
  have hdepth : (Json.arr (predicates.map Predicate.encode)).depth ≤ 3 :=
    Json.depth_arr_map fun p _ => p.depth_encode
  have hbody : (queryBody predicates).Plain := Json.plain_ofPairs (by simpa using hplain)
  have hfour : (queryBody predicates).depth ≤ 4 := Json.depth_ofPairs (by simpa using hdepth)
  refine ⟨Json.parse?_text hbody (Nat.le_trans hfour (by decide)), ?_⟩
  simp [queryBody, Json.ofPairs, Json.get?, Json.members?, Members.ofList]

end Http

/-- **Predicates survive the wire.** An encoded predicate is decoded as itself, also from its text. A
query that is sent holds a list of predicates that is decoded as those that it was made with, in their
order. Whatever a predicate was decoded from, its encoding is decoded as the same predicate, which is
encoded in the same way. -/
theorem Predicate.survive_the_wire :
    (∀ p : Predicate, decode? p.encode = some p ∧ (Json.parse? p.encode.text).bind decode? = some p) ∧
    (∀ base session company entity predicates r,
      Http.request base session (.query company entity predicates) = .ok r →
      ∃ body list, r.body = some body ∧ Json.parse? body.text = some body ∧
        body.get? "predicates" = some (.arr list) ∧ list.mapM decode? = some predicates) ∧
    ∀ j p, decode? j = some p → ∃ q, decode? p.encode = some q ∧ q = p ∧ q.encode = p.encode := by
  refine ⟨fun p => ⟨p.decode?_encode, ?_⟩, ?_, fun j p _ => ⟨p, p.decode?_encode, rfl, rfl⟩⟩
  · rw [p.parse?_encode, Option.bind_some, p.decode?_encode]
  · intro base session company entity predicates r hr
    obtain ⟨hread, hlist⟩ := Http.read_queryBody predicates
    exact ⟨_, _, Http.body_of_request hr, hread, hlist, mapM_decode?_encode predicates⟩

/-- A query for towns goes out as it was made, and so does a match that came in an array. -/
theorem Predicate.survive_the_wire_towns :
    let base : Url := ⟨"http", some "gateway", .segments [""], none, none⟩
    let towns : Predicate := .oneOf ⟨"City", .property, .string, ["Oslo", "'s-Gravenhage"]⟩
    let open' : Predicate := .raw "IsClosed=false"
    let call : Call := .query 1 "Debtor" [towns, open']
    let array : Json := .arr [.str "match", .str "City", .obj [("property", .obj [])], .str "string",
      .arr [.str "Oslo", .str "'s-Gravenhage"]]
    (∃ r body list, Http.request base (some "s-1") call = .ok r ∧ r.body = some body ∧
      Json.parse? body.text = some body ∧ body.get? "predicates" = some (.arr list) ∧
      list.mapM decode? = some [towns, open']) ∧
    decode? array = some towns ∧ decode? towns.encode = some towns := by
  intro base towns open' call array
  obtain ⟨-, hquery, hback⟩ := survive_the_wire
  have hsent : Http.request base (some "s-1") call =
      .ok ⟨.post, base.addSegments (Http.path call), some "s-1", Http.body call⟩ := rfl
  obtain ⟨body, list, hbody, hread, hlist, hdecoded⟩ := hquery base (some "s-1") 1 "Debtor" _ _ hsent
  have harray : decode? array = some towns := by decide +kernel
  obtain ⟨q, hq, rfl, -⟩ := hback array towns harray
  exact ⟨⟨_, body, list, hsent, hbody, hread, hlist, hdecoded⟩, harray, hq⟩

end LedgerFront
