import LedgerFront.Remote.Side
import LedgerFront.Remote.Memory.Basic
import LedgerFront.Where

/-!
# Sessions of the in-memory remote side

How the in-memory side answers each call. Until a session is logged in, every
call but the login is refused.

* `Memory.answer`: the reply to a call in a session, with the memory after it.
-/

namespace LedgerFront.Memory

/-- A predicate ready to be checked on rows. -/
inductive Test where
  | oneOf (m : PropertyMatch)
  | anyOf (terms : List Where.Term)

/-- A row passes a test. -/
def Test.holds (row : Members) : Test → Run Bool
  | oneOf m => Row.isOneOf m.valueType m.values (Row.column? m.property row)
  | anyOf terms => .ok (terms.any (·.holds row))

/-- The test that a predicate asks for; a raw expression has to be understood. -/
def test : Predicate → Except RemoteError Test
  | .oneOf m => .ok (.oneOf m)
  | .raw e =>
    match Where.parse? e with
    | some terms => .ok (.anyOf terms)
    | none => .error (.unsupported ("where expression: " ++ e))

/-- An object that passes all tests. -/
def selects (tests : List Test) : Json → Run Bool
  | .obj row => Run.all (·.holds row) tests
  | _ => .ok false

/-- The rows of a table that satisfy all predicates. -/
def query (key : TableKey) (predicates : List Predicate) (m : Memory) :
    Run (Except RemoteError (List Json)) :=
  match predicates.mapM test with
  | .error e => .ok (.error e)
  | .ok tests => (Run.filter (selects tests) (m.rows key)).map .ok

/-- A row that has all the columns of a key with exactly these values. -/
def hasKey (key : Members) : Json → Bool
  | .obj row => key.all fun k => (Row.column? k.1 row).any (·.sameValue k.2)
  | _ => false

/-- The first row with a key; a key without columns finds nothing. -/
def read (table : TableKey) (key : Json) (m : Memory) : ReadOutcome :=
  match key with
  | .obj (k :: ks) =>
    match (m.rows table).find? (hasKey (k :: ks)) with
    | some row => ⟨.success, some row⟩
    | none => ⟨.keyNotFound, none⟩
  | _ => ⟨.keyNotFound, none⟩

/-- A row whose member under `name` is this value. -/
def memberIs (name : String) (value : Json) (row : Json) : Bool :=
  (row.get? name).any (·.sameValue value)

/-- The lines of an order. -/
def lines (table : TableKey) (master : Json) (m : Memory) : List Json :=
  match master.get? Row.orderKey with
  | none => []
  | some order => (m.rows table).filter (memberIs Row.orderKey order)

/-- Inserts rows, if all of them are objects. -/
def insert (table : TableKey) (rows : List Json) (m : Memory) : WriteOutcome × Memory :=
  if rows.all fun row => row.members?.isSome then
    let (stored, m) := m.append table rows
    (⟨.success, stored⟩, m)
  else (⟨.other "InvalidObject", []⟩, m)

/-- The status of a write to a row that is not there. -/
def recordNotFound : Status := .other "RecordNotFound"

/-- Every row has the number of some row of the table. -/
def covers (table rows : List Json) : Bool := rows.all fun row => table.any (sameRow · row)

/-- The table with a row in the place of the first one with its number. -/
def replaceFirst (row : Json) : List Json → List Json
  | [] => []
  | old :: rest => if sameRow old row then row :: rest else old :: replaceFirst row rest

/-- Replaces rows by number, all or none. -/
def update (table : TableKey) (rows : List Json) (m : Memory) : WriteOutcome × Memory :=
  match m.table? table with
  | none => (⟨recordNotFound, []⟩, m)
  | some old =>
    if covers old rows then
      (⟨.success, rows⟩, m.putTable table (rows.foldl (fun t row => replaceFirst row t) old))
    else (⟨recordNotFound, []⟩, m)

/-- Removes rows by number, all or none. -/
def delete (table : TableKey) (rows : List Json) (m : Memory) : Status × Memory :=
  match m.table? table with
  | none => (recordNotFound, m)
  | some old =>
    if covers old rows then
      (.success, m.putTable table (old.filter fun t => !rows.any (sameRow t)))
    else (recordNotFound, m)

/-- The document of an invoice. -/
def pdf (number : Nat) : List UInt8 :=
  Text.Utf8.ofString ("%PDF-1.4\n% invoice " ++ Text.natText number ++ "\n")

/-- Posts an invoice, if it has lines. -/
def invoice (r : InvoiceRequest) (m : Memory) : InvoiceOutcome × Memory :=
  if r.lines.isEmpty then (⟨.other "NoLinesToInvoice", none, []⟩, m)
  else
    let number := m.lastDocument + 1
    let emails := if r.sendEmail then [("Emails", Json.str r.emails)] else []
    (⟨.success, if r.returnPdf then some (pdf number) else none,
      .ofList ([("InvoiceNumber", .ofNat number), ("Simulated", .bool r.simulate),
        ("Lines", .ofNat r.lines.length)] ++ emails)⟩, { m with lastDocument := number })

/-- The entity of journal lines. -/
def journalLines : String := "InvJournalLine"

/-- A line of a journal. -/
def belongs (journal : Json) (line : Json) : Bool :=
  (journal.get? Row.journalKey).any fun j => memberIs Row.journalKey j line

/-- Posts a journal, if it has lines; they are removed unless the posting is simulated. -/
def journal (company : Int) (p : JournalPosting) (m : Memory) : PostingOutcome × Memory :=
  let key := TableKey.of company journalLines
  let count := ((m.rows key).filter (belongs p.journal)).length
  if count = 0 then (⟨.noLines, []⟩, m)
  else
    let number := m.lastDocument + 1
    let m' := if p.simulate then m
      else m.putTable key ((m.rows key).filter fun line => !belongs p.journal line)
    (⟨.success, .ofList [("JournalPostedId", .ofNat number), ("Simulated", .bool p.simulate),
      ("Lines", .ofNat count)]⟩, { m' with lastDocument := number })

/-- The user name and password are an account. -/
def isAccount (user : Credentials) (m : Memory) : Bool :=
  m.accounts.lookup user.username == some user.password

/-- The reply to a call in a session that is logged in. -/
def serve (m : Memory) : (c : Call) → Run (Reply c × Memory)
  | .login _ _ => .ok (.ok Status.success, m)
  | .companies => .ok (.ok (some m.companies), m)
  | .query company entity predicates =>
    (m.query (.of company entity) predicates).map fun reply => (reply, m)
  | .read company entity key => .ok (.ok (m.read (.of company entity) key), m)
  | .lines company entity master => .ok (.ok (m.lines (.of company entity) master), m)
  | .insert company entity rows =>
    let (outcome, m) := m.insert (.of company entity) rows
    .ok (.ok outcome, m)
  | .update company entity rows =>
    let (outcome, m) := m.update (.of company entity) rows
    .ok (.ok outcome, m)
  | .delete company entity rows =>
    let (status, m) := m.delete (.of company entity) rows
    .ok (.ok status, m)
  | .invoice _ request =>
    let (outcome, m) := m.invoice request
    .ok (.ok outcome, m)
  | .journal company posting =>
    let (outcome, m) := m.journal company posting
    .ok (.ok outcome, m)

/-- The reply to a call in the session with a number. A login that fails leaves the session as it
was. -/
def answer (session : Nat) (m : Memory) : (c : Call) → Run (Reply c × Memory)
  | .login user _ =>
    let m' := { m with logins := m.logins + 1 }
    if m.isAccount user then
      .ok (.ok Status.success, { m' with sessions := m.sessions.set session true })
    else .ok (.ok (Status.other "UserOrPasswordIncorrect"), m')
  | c => if m.isLoggedIn session then m.serve c else .ok (.error .notLoggedIn, m)

/-- The in-memory side as a remote side. -/
def remote : Remote Memory where
  openSession m := (.ok m.sessions.length, m.openSession)
  call session c m := m.answer session c

end LedgerFront.Memory
