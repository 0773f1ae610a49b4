import Waxseal.Adapters.RegexRedactor
import Waxseal.Base.PyValues
import Waxseal.Domain.Evidence
import Waxseal.Domain.Receipts
import Waxseal.Integrations.StdinHook
import Waxseal.Log.Accounting

/-!
# The governance sink

`WaxsealAuditSink` of `integrations/agt.py`.  The host hands over one entry after the other and
swallows nothing, and an entry is an object with any values for attributes.  The record is built
in three stages, each with exceptions of its own: the fields are read and sanitized, they are
mapped to a decision with a hash commitment, and the log redacts and writes what has come out.
-/

namespace Waxseal

open Json

/-- A governance entry: its attributes. -/
structure AgtEntry where
  attributes : List (PyStr × PyValue)

/-- `getattr(entry, name, None)`. -/
def AgtEntry.getattr (entry : AgtEntry) (name : PyStr) : PyValue :=
  (entry.attributes.lookup name).getD .none

/-- A record on its way to the log. -/
abbrev AgtPayload := List (PyStr × PyValue)

/-- `payload.get(key)`. -/
def AgtPayload.get (payload : AgtPayload) (key : PyStr) : PyValue := (payload.lookup key).getD .none

/-- What a sink is built with, and what it runs on. -/
structure AuditSink where
  model : Option ModelRef
  systemId : PyStr
  /-- The patterns of the redactor, on one string. -/
  redactText : PyStr → PyStr
  py : PyRuntime

/-- `PAYLOAD_TYPE`. -/
def agtPayloadType : PyStr := str "application/vnd.waxseal.agt-event+json"

/-- What a log opened by the sink is opened with; the redactor is in `recordPayload`. -/
def sinkConfig : LogConfig := ⟨some 1000, none, false, none, pos_of_mem_none⟩

/-- `to_payload(record)`. -/
def DecisionRecord.toPayload (record : DecisionRecord) : Json :=
  let optional (s : Option PyStr) : Json := s.elim .null .str
  .obj
    [ (str "decision_id", .str record.decisionId),
      (str "decision_type", .str record.decisionType),
      (str "system_id", .str record.systemId),
      (str "model", .obj
        [ (str "name", .str record.model.name),
          (str "version", .str record.model.version),
          (str "digest", optional (record.model.digest.map Subtype.val)) ]),
      (str "input_commitment", .str record.inputCommitment),
      (str "outcome", .str record.outcome),
      (str "rationale", optional record.rationale),
      (str "policy_version", optional record.policyVersion),
      (str "confidence", match record.confidence with
        | none => .null
        | some (.int n) => .int n
        | some (.float lexeme) => .float lexeme),
      (str "human_oversight", match record.humanOversight with
        | none => .null
        | some oversight => .obj
          [ (str "mode", .str oversight.mode),
            (str "reviewer_ref", optional oversight.reviewerRef),
            (str "action", optional oversight.action) ]),
      (str "subject_ref", optional record.subjectRef),
      (str "trace_id", optional record.traceId),
      (str "risk_tier", optional record.riskTier),
      (str "classification_ref", optional record.classificationRef) ]

/-- The mode of an approval is not empty. -/
theorem agtApproval_ne_nil : str "agt_approval" ≠ [] := by decide

namespace AuditSink

variable [Interpreter] (sink : AuditSink)

/-! ## Reading the fields -/

/-- `sanitize(value)`, that deep. -/
def sanitizeValue : ℕ → PyValue → Except PyErr PyValue
  | 0, _ => .error .recursionError
  | _ + 1, .none => .ok .none
  | _ + 1, .bool b => .ok (.bool b)
  | _ + 1, .int n => .ok (.int n)
  | _ + 1, .float lexeme => .ok (.float lexeme)
  | _ + 1, .str s => .ok (.str (clip (sink.redactText s)))
  | depth + 1, .dict members => do
      let clean ← members.foldlM (fun clean m => do
        let key ← m.1.text sink.py
        let value ← sanitizeValue depth m.2
        return PyValue.setItem clean key value) []
      return .ofMembers clean
  | depth + 1, .list items | depth + 1, .tuple items =>
      .list <$> items.mapM (sanitizeValue depth)
  -- A container that holds itself is entered without end.
  | _ + 1, .up _ => .error .recursionError
  | _ + 1, value => do return .str (clip (sink.redactText (← value.repr sink.py sink.py.reprDepth)))

/-- `_sanitize(value)`. -/
def sanitize (value : PyValue) : Except PyErr PyValue := sink.sanitizeValue sink.py.callDepth value

/-- `data if isinstance(data, dict) else {}`. -/
def dataOf (entry : AgtEntry) : List (PyValue × PyValue) :=
  match entry.getattr (str "data") with
  | .dict members => members
  | _ => []

/-- `_payload_for(entry)`. -/
def payloadFor (entry : AgtEntry) : Except PyErr AgtPayload := do
  let data := dataOf entry
  let reason ← sink.sanitize ((PyValue.find data (str "reason")).getD .none)
  let clean ← sink.sanitize (.dict data)
  let field (name : String) : PyStr × PyValue := (str name, entry.getattr (str name))
  return [ field "event_type", field "agent_did", field "action", field "resource",
    field "outcome", field "policy_decision", field "matched_rule", field "policy_version",
    (str "reason", reason), (str "data", clean), field "entry_id", field "trace_id",
    field "session_id" ]

/-! ## Mapping to a decision -/

section

variable [Hashlib]

/-- `_commitment(payload)`, below its digest. -/
def canonicalText (payload : AgtPayload) : Except PyErr PyStr :=
  PyValue.dumps sink.py .spaced (some (PyValue.text sink.py)) sink.py.dumpsDepth
    (.ofMembers payload)

/-- The texts a decision is made of. -/
structure DecisionTexts where
  decisionId : PyStr
  decisionType : PyStr
  canonical : PyStr
  outcome : PyStr
  reviewer : Option PyStr

/-- The arguments of `DecisionRecord(...)`, in their order. -/
def decisionTexts (entry : AgtEntry) (payload : AgtPayload) : Except PyErr DecisionTexts := do
  let eventType := payload.get (str "event_type")
  let approver := entry.getattr (str "approver_did")
  let decisionId ← (payload.get (str "entry_id")).text sink.py
  let decisionType ← if eventType.truthy then eventType.text sink.py else .ok (str "agt-governance")
  let canonical ← sink.canonicalText payload
  let outcome ← (payload.get (str "outcome")).text sink.py
  let reviewer ← if approver.truthy then some <$> approver.text sink.py else .ok none
  return ⟨decisionId, decisionType, canonical, outcome, reviewer⟩

/-- `_optional_str(value, field)`. -/
def optionalText : PyValue → Except PyErr (Option PyStr)
  | .none => .ok none
  | .str s => .ok (some s)
  | _ => .error .valueError

/-- `DecisionRecord.__post_init__`, of what the sink fills in. -/
def checkedRecord (model : ModelRef) (payload : AgtPayload) (texts : DecisionTexts) :
    Except PyErr DecisionRecord := do
  let decisionId ← requireNonempty (.str texts.decisionId)
  let decisionType ← requireNonempty (.str texts.decisionType)
  let systemId ← requireNonempty (.str sink.systemId)
  let outcome ← requireNonempty (.str texts.outcome)
  let rationale ← optionalText (payload.get (str "reason"))
  let policyVersion ← optionalText (payload.get (str "policy_version"))
  let traceId ← optionalText (payload.get (str "trace_id"))
  return {
    decisionId := decisionId
    decisionType := decisionType
    systemId := systemId
    model := model
    inputCommitment := ⟨hexdigest (asciiBytes texts.canonical), Receipts.isSha256Hex_digest _⟩
    outcome := outcome
    rationale := rationale
    policyVersion := policyVersion
    confidence := none
    humanOversight := texts.reviewer.map fun reviewer =>
      ⟨⟨str "agt_approval", agtApproval_ne_nil⟩, some reviewer, none⟩
    subjectRef := none
    traceId := traceId
    riskTier := none
    classificationRef := none }

/-- An identifier, an action and an outcome are there. -/
def identified (payload : AgtPayload) : Bool :=
  (payload.get (str "entry_id")).truthy && (payload.get (str "action")).truthy &&
    (payload.get (str "outcome")).truthy

/-- `_decision_payload(entry, payload)`. -/
def decisionPayload (entry : AgtEntry) (payload : AgtPayload) : Except PyErr (Option Json) :=
  match sink.model with
  | none => .ok none
  | some model =>
      if identified payload then
        match sink.decisionTexts entry payload >>= sink.checkedRecord model payload with
        | .ok record => .ok (some record.toPayload)
        | .error e => if e.isValueError then .ok none else .error e
      else .ok none

end

/-! ## Writing -/

/-- `_walk(value)` of the redactor of the log, that deep. -/
def walk : ℕ → PyValue → Except PyErr PyValue
  | 0, _ => .error .recursionError
  | _ + 1, .str s => .ok (.str (sink.redactText s))
  | depth + 1, .dict members => .dict <$> members.mapM fun m =>
      match m.1 with
      | .str key => (m.1, ·) <$> if isSensitive key then .ok (.str redacted) else walk depth m.2
      -- `lower` of bytes is no name of a secret; nothing else has a `lower`.
      | .bytes _ => (m.1, ·) <$> walk depth m.2
      | _ => .error .attributeError
  | depth + 1, .list items => .list <$> items.mapM (walk depth)
  | depth + 1, .tuple items => .tuple <$> items.mapM (walk depth)
  | _ + 1, .set _ _ => .error .typeError
  | _ + 1, .up _ => .error .recursionError
  | _ + 1, value => .ok value

omit [Interpreter] in
variable {sink} in
/-- With the patterns of the redactor, it is the walk of the redactor. -/
theorem walk_eq_redactValue (h : sink.redactText = Waxseal.redactText) (depth : ℕ) :
    sink.walk depth = redactValue depth := by
  induction depth with
  | zero =>
      funext value
      cases value <;> rfl
  | succ depth ih =>
      funext value
      cases value with
      | str s => exact congrArg (fun redactText => Except.ok (PyValue.str (redactText s))) h
      | dict members =>
          rw [walk, redactValue, ih, redactItems]
          refine congrArg (fun f => PyValue.dict <$> List.mapM f members) ?_
          funext m
          obtain ⟨key, value⟩ := m
          cases key <;> rfl
      | list items => rw [walk, redactValue, ih]
      | tuple items => rw [walk, redactValue, ih]
      | none | bool b | int n | float lexeme | bytes b | set frozen items | up marker => rfl

/-- What the log makes of a record: redacted, and as canonical JSON. -/
def recordPayload (record : PyValue) : Payload :=
  match sink.walk sink.py.callDepth record >>=
      PyValue.dumps sink.py .compact none sink.py.dumpsDepth with
  | .ok text => .bytes (asciiBytes text)
  | .error e => .unserializable e

/-- What happens around one write. -/
structure SinkIo where
  /-- `AuditLog.open`. -/
  opening : Option PyErr
  /-- `FileDropRecorder(trail)`: its path. -/
  locating : Option PyErr
  /-- The line of the drop reaches the sidecar. -/
  noted : Bool
  /-- `print(..., file=sys.stderr)`. -/
  stderr : Option PyErr
  now : Except PyErr PyStr
  append : AppendIo
  readBack : Option PyErr

/-- An entry handed to the sink. -/
structure SinkWrite where
  entry : AgtEntry
  io : SinkIo

/-- The trail of a sink, which opens it with its first write. -/
inductive SinkTrail where
  | unopened (file : Bytes)
  | opened (log : AuditLog)

/-- A sink in use. -/
structure SinkState where
  trail : SinkTrail
  /-- The drops noted beside the trail by the sink itself. -/
  noted : ℕ

namespace SinkState

/-- The entries on the chain. -/
def stored (s : SinkState) : List Entry :=
  match s.trail with
  | .unopened file => completeEntries file
  | .opened log => log.stored

/-- The drops on record. -/
def drops (s : SinkState) : ℕ :=
  match s.trail with
  | .unopened _ => s.noted
  | .opened log => s.noted + log.dropped

end SinkState

/-- A drop that no log can count: it is told, and noted. -/
def dropBeside (io : SinkIo) (s : SinkState) : Except PyErr Unit × SinkState :=
  match io.stderr, io.locating with
  | some e, _ => (.error e, s)
  | none, some e => (.error e, s)
  | none, none => (.ok (), if io.noted then { s with noted := s.noted + 1 } else s)

/-- `_open_log()`. -/
def openLog (io : SinkIo) : SinkTrail → Option AuditLog
  | .opened log => some log
  | .unopened file => if io.opening.isSome then none else some (.open file)

section

variable [Hashlib]

/-- The call of `try_append` for a record. -/
def callFor (io : SinkIo) (payload : AgtPayload) (decision : Option Json) : Call where
  viaTry := true
  payload := sink.recordPayload (decision.elim (.ofMembers payload) .ofJson)
  payloadType := if decision.isSome then decisionPayloadType else agtPayloadType
  now := io.now
  io := io.append
  readBack := io.readBack
  attest := none
  anchor := ⟨none, none, none⟩

/-- The line about a dropped write, which shows the type of its event. -/
def reportDropped (io : SinkIo) (payload : AgtPayload) : Except PyErr Unit := do
  let _ ← (payload.get (str "event_type")).repr sink.py sink.py.reprDepth
  orFail io.stderr

/-- `_write_one(entry)`. -/
def writeOne (w : SinkWrite) (s : SinkState) : Except PyErr Unit × SinkState :=
  match sink.payloadFor w.entry with
  | .error _ => dropBeside w.io s
  | .ok payload =>
      match openLog w.io s.trail with
      | none => dropBeside w.io s
      | some log =>
          match sink.decisionPayload w.entry payload with
          | .error e => (.error e, { s with trail := .opened log })
          | .ok decision =>
              match log.tryAppend sinkConfig (sink.callFor w.io payload decision) with
              | (true, log) => (.ok (), { s with trail := .opened log })
              | (false, log) => (sink.reportDropped w.io payload, { s with trail := .opened log })

/-- `write_batch(entries)`; `write(entry)` is a batch of one. -/
def writeBatch : List SinkWrite → SinkState → Except PyErr Unit × SinkState
  | [], s => (.ok (), s)
  | w :: ws, s =>
      match sink.writeOne w s with
      | (.ok _, s) => writeBatch ws s
      | (.error e, s) => (.error e, s)

end

end AuditSink

end Waxseal
