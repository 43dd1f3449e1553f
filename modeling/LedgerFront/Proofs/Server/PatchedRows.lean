import LedgerFront.Proofs.Filter.Traversal
import LedgerFront.Proofs.Json.PatchKey
import LedgerFront.Proofs.Refusal
import LedgerFront.Proofs.Server.Transcript
import LedgerFront.Remote.Memory.Basic

/-!
# The rows that a patch sends back

A patch is accepted when none of its operations is at the key column. Rows keep
their numbers under an accepted patch as long as no operation works on the whole
row, inside the number, or moves the number away.

* `Service.patch_asks_update`: what a patch sends back, whatever the remote side answers.
* `bodyPatch_keeps_rowId`: when the numbers stay, and that nothing less will do.
* `bodyPatch_changes_rowId`: accepted patches that change them.
-/

namespace LedgerFront

open Compiling

theorem patchRows_eq_ok {ops : Patch} {rows rows' : List Json} :
    patchRows ops rows = .ok rows' ↔
      List.Forall₂ (fun row row' => ops.apply row = .ok row') rows rows' := by
  simp only [patchRows, mapM_eq_ok, mapError_eq_ok]

theorem isRowKey_rowId : isRowKey [Row.idKey] = true := by decide +kernel

/-- An accepted patch does not write at the key column itself. -/
theorem path_ne_of_bodyPatch {body : List UInt8} {ops : Patch} (h : bodyPatch body = .ok ops)
    {op : PatchOp} (hop : op ∈ ops) (hw : op.isWrite = true) : op.path ≠ [Row.idKey] := by
  unfold bodyPatch at h
  split at h
  · simp at h
  split at h
  · simp at h
  rename_i hany
  obtain rfl := Except.ok.inj h
  intro hpath
  exact hany (List.any_eq_true.2 ⟨op, hop, by simp [hw, hpath, isRowKey_rowId]⟩)

namespace Service

variable {svc : Service} {company : Int} {e : Entity} {filter : String} {body : List UInt8}
  {log : List Exchange}

theorem not_fetch_asks_update {p : Params} {c : Int} {entity : String} {rows : List Json} :
    ¬ (svc.fetch company e p).Asks log (.update c entity rows) := by
  unfold fetch
  simp [Talk.asks_bind, Talk.not_asks_ofRun, Talk.not_asks_ofExcept, Talk.asks_ask]

/-- What a fetch gives: the filter compiles, the one call is a query with its predicates, and the rows
in the reply are checked. -/
theorem fetch_ends {p : Params} {selected : List Json} :
    (svc.fetch company e p).Ends log selected ↔ ∃ q rows, Gives (p.compile svc.compiler e) q ∧
      log = [⟨.query company e.name q.server, .ok rows⟩] ∧ q.apply rows = .ok selected := by
  unfold fetch Gives
  simp only [Talk.ends_bind, Talk.ends_ofRun, Talk.ends_ofExcept, Talk.ends_ask, mapError_eq_ok]
  constructor
  · rintro ⟨_, _, r, rfl, ⟨rfl, hrun⟩, _, _, q, rfl, ⟨rfl, rfl⟩, _, _, rows, rfl, rfl, rfl, happly⟩
    exact ⟨q, rows, hrun, rfl, happly⟩
  · rintro ⟨q, rows, hrun, rfl, happly⟩
    exact ⟨[], _, _, rfl, ⟨rfl, hrun⟩, [], _, q, rfl, ⟨rfl, rfl⟩, _, [], rows, rfl, rfl, rfl, happly⟩

/-- **What a patch sends back**, whatever the remote side answers: the rows that the filter selects,
each of them patched. -/
theorem patch_asks_update {c : Int} {entity : String} {rows' : List Json}
    (h : (svc.patch company e filter body).Asks log (.update c entity rows')) :
    ∃ ops q rows selected, bodyPatch body = .ok ops ∧
      Gives ((Params.parseQuery filter [limitKey]).compile svc.compiler e) q ∧
      log = [⟨.query company e.name q.server, .ok rows⟩] ∧ q.apply rows = .ok selected ∧
      patchRows ops selected = .ok rows' := by
  unfold patch at h
  simp only [Talk.asks_bind, Talk.not_asks_ofExcept, Talk.not_asks_expectSuccess,
    Talk.not_asks_pure, not_fetch_asks_update, Talk.ends_ofExcept, fetch_ends, Talk.asks_ask,
    false_or, and_false, exists_false, or_false] at h
  obtain ⟨_, _, limit, rfl, ⟨rfl, -⟩, _, _, ops, rfl, ⟨rfl, hops⟩, _, _, selected, rfl,
    ⟨q, rows, hq, rfl, happly⟩, _, _, _, rfl, ⟨rfl, -⟩, _, _, patched, rfl, ⟨rfl, hpatched⟩, rfl,
    hcall⟩ := h
  obtain ⟨-, -, rfl⟩ := Call.update.inj hcall
  exact ⟨ops, q, rows, selected, hops, hq, rfl, happly, hpatched⟩

end Service

theorem rowId?_eq_under (row : Json) : Memory.rowId? row = (row.under Row.idKey).join := by
  cases row <;> rfl

theorem under_eq_iff {key : String} {row : Members} {row' : Json} :
    row'.under key = (Json.obj row).under key ↔
      ∃ m, row' = .obj m ∧ Members.find? key m = Members.find? key row := by
  rw [Json.under_obj, Json.under_eq_some]

theorem patchRows_rowIds {ops : Patch} (hops : ∀ op ∈ ops, op.Spares Row.idKey)
    {rows rows' : List Json} (h : patchRows ops rows = .ok rows') :
    rows'.map Memory.rowId? = rows.map Memory.rowId? := by
  have hrows := patchRows_eq_ok.1 h
  clear h
  induction hrows with
  | nil => rfl
  | cons hrow _ ih =>
    rw [List.map_cons, List.map_cons, ih, rowId?_eq_under, rowId?_eq_under,
      Patch.apply_under hops hrow]

/-- **Row numbers under a patch.** An accepted patch whose operations spare the number keeps it in every
object that it is applied to, and sends back the numbers of the rows that the filter selects, whatever
the remote side answers. Any other operation of an accepted patch is not at the number itself, and on
some object it changes the number, unless it puts a value where it took it from. -/
theorem bodyPatch_keeps_rowId {body : List UInt8} {ops : Patch} (h : bodyPatch body = .ok ops) :
    ((∀ op ∈ ops, op.Spares Row.idKey) →
      (∀ row row', ops.apply (.obj row) = .ok row' →
        ∃ m, row' = .obj m ∧ Members.find? Row.idKey m = Members.find? Row.idKey row) ∧
      ∀ (svc : Service) (company : Int) (e : Entity) (filter : String) (log : List Exchange)
        (c : Int) (entity : String) (rows' : List Json),
        (svc.patch company e filter body).Asks log (.update c entity rows') →
        ∃ q rows selected, Gives ((Params.parseQuery filter [limitKey]).compile svc.compiler e) q ∧
          log = [⟨.query company e.name q.server, .ok rows⟩] ∧ q.apply rows = .ok selected ∧
          rows'.map Memory.rowId? = selected.map Memory.rowId?) ∧
    ∀ op ∈ ops, ¬ op.Spares Row.idKey → op.path ≠ [Row.idKey] ∧
      (op.source? ≠ some op.path → ∃ row row', Patch.apply [op] (.obj row) = .ok row' ∧
        ¬ ∃ m, row' = .obj m ∧ Members.find? Row.idKey m = Members.find? Row.idKey row) := by
  refine ⟨fun hops => ⟨?_, ?_⟩, fun op hop hspares => ⟨?_, fun hself => ?_⟩⟩
  · intro row row' hrow
    exact under_eq_iff.1 (Patch.apply_under hops hrow)
  · intro svc company e filter log c entity rows' hasks
    obtain ⟨ops', q, rows, selected, hbody, hq, hlog, happly, hrows⟩ := svc.patch_asks_update hasks
    obtain rfl : ops = ops' := Except.ok.inj (h.symm.trans hbody)
    exact ⟨q, rows, selected, hq, hlog, happly, patchRows_rowIds hops hrows⟩
  · refine path_ne_of_bodyPatch h hop ?_
    cases op with
    | test path value => exact absurd trivial hspares
    | _ => rfl
  · obtain ⟨row, row', hstep, hne⟩ := Patch.exists_change hspares hself
    exact ⟨row, row', Patch.apply_single hstep, fun hm => hne (under_eq_iff.2 hm)⟩

/-- The number is copied, another column renamed, and the number stays. -/
theorem bodyPatch_keeps_rowId_copy :
    let body := Text.Utf8.ofString "[\x7b\"op\":\"copy\",\"from\":\"/RowId\",\"path\":\"/Old\"\x7d,
      \x7b\"op\":\"move\",\"from\":\"/Name\",\"path\":\"/Title\"\x7d]"
    let ops : Patch := [.copy ["RowId"] ["Old"], .move ["Name"] ["Title"]]
    let row : Members := [("Name", .str "Acme"), ("RowId", .ofNat 7)]
    bodyPatch body = .ok ops ∧ ∃ m, ops.apply (.obj row) = .ok (.obj m) ∧
      Members.find? Row.idKey m = some (.ofNat 7) := by
  intro body ops row
  have hbody : bodyPatch body = .ok ops := by decide +kernel
  have hrow : ops.apply (.obj row) =
      .ok (.obj [("Old", .ofNat 7), ("RowId", .ofNat 7), ("Title", .str "Acme")]) := by decide +kernel
  have hops : ∀ op ∈ ops, op.Spares Row.idKey := by decide
  obtain ⟨m, hm, hid⟩ := ((bodyPatch_keeps_rowId hbody).1 hops).1 row _ hrow
  exact ⟨hbody, m, hrow.trans (congrArg _ hm), hid⟩

/-- Accepted patches that change the number: one moves it away, the other one puts a row with another
number in the place of the row. -/
theorem bodyPatch_changes_rowId :
    let row : Members := [("Name", .str "Acme"), ("RowId", .ofNat 1)]
    let other : Members := [("RowId", .ofNat 2)]
    bodyPatch (Text.Utf8.ofString
        "[\x7b\"op\":\"move\",\"from\":\"/RowId\",\"path\":\"/Old\"\x7d]") =
      .ok [.move ["RowId"] ["Old"]] ∧
    Patch.apply [.move ["RowId"] ["Old"]] (.obj row) =
      .ok (.obj [("Name", .str "Acme"), ("Old", .ofNat 1)]) ∧
    bodyPatch (Text.Utf8.ofString
        "[\x7b\"op\":\"replace\",\"path\":\"\",\"value\":\x7b\"RowId\":2\x7d\x7d]") =
      .ok [.replace [] (.obj other)] ∧
    Patch.apply [.replace [] (.obj other)] (.obj row) = .ok (.obj other) := by
  decide +kernel

end LedgerFront
