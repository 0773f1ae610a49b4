import Waxseal.Domain.Handoff
import Waxseal.Domain.Registry

/-!
# Evidence records

`domain/decision.py`, `domain/incident.py` and `domain/intervention.py`: the three kinds of
payload a report reads.  The constructors refuse malformed records, so a record is well formed
by type.

A scan labels the rows it cannot read and goes on (`scanRows`).  It raises only what reading a
row raises beyond a `ValueError` or a `TypeError`.
-/

namespace Waxseal

open Json

/-- What the standard library makes of a payload. -/
structure PayloadReader where
  /-- `json.loads` of the bytes: how deep it nests, and how many digits an integer may have,
  are settings of the interpreter. -/
  loads : Bytes → Except PyErr Json
  /-- Whether the float a number is read as is finite and lies between 0 and 1. -/
  inUnit : PyStr → Bool

/-! ## Fields -/

/-- A string that is not empty. -/
abbrev NonemptyStr := { s : PyStr // s ≠ [] }

/-- A SHA-256 digest in hex. -/
abbrev HexDigest := { s : PyStr // isSha256Hex s = true }

/-- A dict. -/
def requireMembers : Json → Except PyErr (List (PyStr × Json))
  | .obj members => .ok members
  | _ => .error .valueError

/-- `payload.get(key)`. -/
def fieldOf (members : List (PyStr × Json)) (key : PyStr) : Json :=
  (members.find? (·.1 = key)).elim .null Prod.snd

/-- `_require_nonempty(value, field)`. -/
def requireNonempty : Json → Except PyErr NonemptyStr
  | .str (c :: s) => .ok ⟨c :: s, List.cons_ne_nil c s⟩
  | _ => .error .valueError

/-- `_require_digest(value, field)`. -/
def requireDigest : Json → Except PyErr HexDigest
  | .str s => if h : isSha256Hex s = true then .ok ⟨s, h⟩ else .error .valueError
  | _ => .error .valueError

/-- `_optional_str(value, field)`. -/
def optionalStr : Json → Except PyErr (Option PyStr)
  | .null => .ok none
  | .str s => .ok (some s)
  | _ => .error .valueError

/-- A value that is checked when it is there. -/
def whenPresent {α : Type} (check : Json → Except PyErr α) : Json → Except PyErr (Option α)
  | .null => .ok none
  | value => some <$> check value

/-! ## Decisions -/

/-- `ModelRef`. -/
structure ModelRef where
  name : NonemptyStr
  version : NonemptyStr
  digest : Option HexDigest

/-- `HumanOversight`. -/
structure HumanOversight where
  mode : NonemptyStr
  reviewerRef : Option PyStr
  action : Option PyStr

/-- A confidence, as the number it is read from. -/
inductive Confidence where
  | int (n : ℤ)
  | float (lexeme : PyStr)

/-- `DecisionRecord`. -/
structure DecisionRecord where
  decisionId : NonemptyStr
  decisionType : NonemptyStr
  systemId : NonemptyStr
  model : ModelRef
  inputCommitment : HexDigest
  outcome : NonemptyStr
  rationale : Option PyStr
  policyVersion : Option PyStr
  confidence : Option Confidence
  humanOversight : Option HumanOversight
  subjectRef : Option PyStr
  traceId : Option PyStr
  riskTier : Option PyStr
  classificationRef : Option PyStr

/-- `float(n)` overflows: the nearest float would be `2 ** 1024` or more. -/
def overflowsFloat (n : ℤ) : Bool := 2 ^ 1024 - 2 ^ 970 ≤ n.natAbs

/-- `float(confidence)` of the field. -/
def readConfidence : Json → Except PyErr (Option Confidence)
  | .null => .ok none
  | .int n => if overflowsFloat n then .error .overflowError else .ok (some (.int n))
  | .float lexeme => .ok (some (.float lexeme))
  | _ => .error .valueError

/-- The range `DecisionRecord.__post_init__` asks of a confidence. -/
def requireUnit (py : PayloadReader) : Option Confidence → Except PyErr Unit
  | none => .ok ()
  | some (.int n) => if 0 ≤ n ∧ n ≤ 1 then .ok () else .error .valueError
  | some (.float lexeme) => if py.inUnit lexeme then .ok () else .error .valueError

/-- `ModelRef(...)` of the `model` object. -/
def ModelRef.ofMembers (members : List (PyStr × Json)) : Except PyErr ModelRef := do
  let name ← requireNonempty (fieldOf members (Waxseal.str "name"))
  let version ← requireNonempty (fieldOf members (Waxseal.str "version"))
  let digest ← whenPresent requireDigest (fieldOf members (Waxseal.str "digest"))
  return ⟨name, version, digest⟩

/-- `HumanOversight(...)` of the `human_oversight` object. -/
def HumanOversight.ofMembers (members : List (PyStr × Json)) : Except PyErr HumanOversight := do
  let mode ← requireNonempty (fieldOf members (Waxseal.str "mode"))
  let reviewerRef ← optionalStr (fieldOf members (Waxseal.str "reviewer_ref"))
  let action ← optionalStr (fieldOf members (Waxseal.str "action"))
  return ⟨mode, reviewerRef, action⟩

/-- `DecisionRecord(...)`, with `__post_init__`. -/
def DecisionRecord.ofMembers (py : PayloadReader) (members model : List (PyStr × Json))
    (oversight : Option (List (PyStr × Json))) (confidence : Option Confidence) :
    Except PyErr DecisionRecord := do
  let model ← ModelRef.ofMembers model
  let humanOversight ← oversight.mapM HumanOversight.ofMembers
  let decisionId ← requireNonempty (fieldOf members (Waxseal.str "decision_id"))
  let decisionType ← requireNonempty (fieldOf members (Waxseal.str "decision_type"))
  let systemId ← requireNonempty (fieldOf members (Waxseal.str "system_id"))
  let inputCommitment ← requireDigest (fieldOf members (Waxseal.str "input_commitment"))
  let outcome ← requireNonempty (fieldOf members (Waxseal.str "outcome"))
  let rationale ← optionalStr (fieldOf members (Waxseal.str "rationale"))
  let policyVersion ← optionalStr (fieldOf members (Waxseal.str "policy_version"))
  let subjectRef ← optionalStr (fieldOf members (Waxseal.str "subject_ref"))
  let traceId ← optionalStr (fieldOf members (Waxseal.str "trace_id"))
  let riskTier ← optionalStr (fieldOf members (Waxseal.str "risk_tier"))
  let classificationRef ← optionalStr (fieldOf members (Waxseal.str "classification_ref"))
  requireUnit py confidence
  return {
    decisionId, decisionType, systemId, model, inputCommitment, outcome, rationale,
    policyVersion, confidence, humanOversight, subjectRef, traceId, riskTier,
    classificationRef }

/-- `from_payload(payload)` of a decision. -/
def DecisionRecord.fromPayload (py : PayloadReader) (payload : Json) :
    Except PyErr DecisionRecord := do
  let members ← requireMembers payload
  let model ← requireMembers (fieldOf members (Waxseal.str "model"))
  let oversight ← whenPresent requireMembers (fieldOf members (Waxseal.str "human_oversight"))
  let confidence ← readConfidence (fieldOf members (Waxseal.str "confidence"))
  DecisionRecord.ofMembers py members model oversight confidence

/-! ## Incidents -/

/-- `IncidentRecord`. -/
structure IncidentRecord where
  incidentId : NonemptyStr
  systemId : NonemptyStr
  detectedAt : NonemptyStr
  severity : NonemptyStr
  confirmedAt : Option PyStr
  summary : Option PyStr
  consequenceKinds : List NonemptyStr
  operatingStatus : Option PyStr
  reportRef : Option PyStr
  reportedAt : Option PyStr
  traceId : Option PyStr

/-- The `consequence_kinds` of a payload: a list, or nothing. -/
def readKinds : Json → Except PyErr (List Json)
  | .null => .ok []
  | .arr kinds => .ok kinds
  | _ => .error .valueError

/-- `from_payload(payload)` of an incident. -/
def IncidentRecord.fromPayload (payload : Json) : Except PyErr IncidentRecord := do
  let members ← requireMembers payload
  let kinds ← readKinds (fieldOf members (Waxseal.str "consequence_kinds"))
  let incidentId ← requireNonempty (fieldOf members (Waxseal.str "incident_id"))
  let systemId ← requireNonempty (fieldOf members (Waxseal.str "system_id"))
  let detectedAt ← requireNonempty (fieldOf members (Waxseal.str "detected_at"))
  let severity ← requireNonempty (fieldOf members (Waxseal.str "severity"))
  let confirmedAt ← optionalStr (fieldOf members (Waxseal.str "confirmed_at"))
  let summary ← optionalStr (fieldOf members (Waxseal.str "summary"))
  let operatingStatus ← optionalStr (fieldOf members (Waxseal.str "operating_status"))
  let reportRef ← optionalStr (fieldOf members (Waxseal.str "report_ref"))
  let reportedAt ← optionalStr (fieldOf members (Waxseal.str "reported_at"))
  let traceId ← optionalStr (fieldOf members (Waxseal.str "trace_id"))
  let consequenceKinds ← kinds.mapM requireNonempty
  return {
    incidentId, systemId, detectedAt, severity, confirmedAt, summary, consequenceKinds,
    operatingStatus, reportRef, reportedAt, traceId }

/-! ## Interventions -/

/-- `InterventionRecord`. -/
structure InterventionRecord where
  interventionId : NonemptyStr
  systemId : NonemptyStr
  actorRef : NonemptyStr
  action : NonemptyStr
  decisionRef : Option PyStr
  rationale : Option PyStr
  traceId : Option PyStr

/-- `from_payload(payload)` of an intervention. -/
def InterventionRecord.fromPayload (payload : Json) : Except PyErr InterventionRecord := do
  let members ← requireMembers payload
  let interventionId ← requireNonempty (fieldOf members (Waxseal.str "intervention_id"))
  let systemId ← requireNonempty (fieldOf members (Waxseal.str "system_id"))
  let actorRef ← requireNonempty (fieldOf members (Waxseal.str "actor_ref"))
  let action ← requireNonempty (fieldOf members (Waxseal.str "action"))
  let decisionRef ← optionalStr (fieldOf members (Waxseal.str "decision_ref"))
  let rationale ← optionalStr (fieldOf members (Waxseal.str "rationale"))
  let traceId ← optionalStr (fieldOf members (Waxseal.str "trace_id"))
  return ⟨interventionId, systemId, actorRef, action, decisionRef, rationale, traceId⟩

/-! ## Rows -/

/-- `except (ValueError, TypeError, UnicodeDecodeError)`. -/
def PyErr.isMalformed (e : PyErr) : Bool := e.isValueError || e == .typeError

/-- One row of a kind: its record, or `none` when this build cannot read it.  Any exception but
those of a malformed payload is raised. -/
def readRow {α : Type} (py : PayloadReader) (fromPayload : Json → Except PyErr α) (entry : Entry) :
    Except PyErr (Option α) :=
  match entry.payload with
  | none => .ok none
  | some payload =>
      match py.loads payload >>= fromPayload with
      | .ok record => .ok (some record)
      | .error e => if e.isMalformed then .ok none else .error e

/-- `DECISION_PAYLOAD_TYPE`. -/
def decisionPayloadType : PyStr := Waxseal.str "application/vnd.waxseal.ai-decision.v1+json"

/-- `INCIDENT_PAYLOAD_TYPE`. -/
def incidentPayloadType : PyStr := Waxseal.str "application/vnd.waxseal.ai-incident.v1+json"

/-- `INTERVENTION_PAYLOAD_TYPE`. -/
def interventionPayloadType : PyStr :=
  Waxseal.str "application/vnd.waxseal.human-intervention.v1+json"

/-- The rows of one payload type. -/
def rowsOf (payloadType : PyStr) (entries : List Entry) : List Entry :=
  entries.filter fun entry => entry.header.payloadType = payloadType

/-- The rows of one payload type, each with its seq and its record. -/
def scanRows {α : Type} (py : PayloadReader) (payloadType : PyStr)
    (fromPayload : Json → Except PyErr α) (entries : List Entry) :
    Except PyErr (List (ℤ × Option α)) :=
  (rowsOf payloadType entries).mapM fun entry =>
    (fun record => (entry.header.seq, record)) <$> readRow py fromPayload entry

/-- The seqs of the rows that could not be read. -/
def unreadableRows {α : Type} (rows : List (ℤ × Option α)) : List ℤ :=
  rows.filterMap fun row => if row.2.isNone then some row.1 else none

/-- The rows that could. -/
def readableRows {α : Type} (rows : List (ℤ × Option α)) : List (ℤ × α) :=
  rows.filterMap fun row => row.2.map fun record => (row.1, record)

/-- `IncidentView`. -/
structure IncidentView where
  incidentId : NonemptyStr
  firstSeq : ℤ
  latestSeq : ℤ
  rows : ℕ
  latest : IncidentRecord

/-- Fold one row into the views, which are in the order of first appearance. -/
def foldIncident (views : List IncidentView) (row : ℤ × IncidentRecord) : List IncidentView :=
  if views.any fun view => view.incidentId = row.2.incidentId then
    views.map fun view =>
      if view.incidentId = row.2.incidentId then
        { view with latestSeq := row.1, rows := view.rows + 1, latest := row.2 }
      else view
  else views ++ [⟨row.2.incidentId, row.1, row.1, 1, row.2⟩]

/-- `IncidentScan`. -/
structure IncidentScan where
  views : List IncidentView
  unreadable : List ℤ

/-- `scan_incidents(entries)`. -/
def scanIncidents (py : PayloadReader) (entries : List Entry) : Except PyErr IncidentScan := do
  let rows ← scanRows py incidentPayloadType IncidentRecord.fromPayload entries
  return ⟨(readableRows rows).foldl foldIncident [], unreadableRows rows⟩

/-- `InterventionScan`. -/
structure InterventionScan where
  records : List (ℤ × InterventionRecord)
  unreadable : List ℤ

/-- `scan_interventions(entries)`. -/
def scanInterventions (py : PayloadReader) (entries : List Entry) :
    Except PyErr InterventionScan := do
  let rows ← scanRows py interventionPayloadType InterventionRecord.fromPayload entries
  return ⟨readableRows rows, unreadableRows rows⟩

/-! ## What reading a row raises -/

/-- A call that raises nothing but a `ValueError`. -/
def OnlyValueError {α : Type} (x : Except PyErr α) : Prop := ∀ e, x = .error e → e = .valueError

namespace OnlyValueError

variable {α β : Type}

theorem ok (a : α) : OnlyValueError (.ok a : Except PyErr α) := fun _ => nofun

theorem valueError : OnlyValueError (.error .valueError : Except PyErr α) :=
  fun _ h => (Except.error.inj h).symm

theorem bind {x : Except PyErr α} {f : α → Except PyErr β} (hx : OnlyValueError x)
    (hf : ∀ a, OnlyValueError (f a)) : OnlyValueError (x >>= f) := by
  cases x with
  | error e => exact fun e' h => hx e' (congrArg Except.error (Except.error.inj h))
  | ok a => exact hf a

theorem map {x : Except PyErr α} (hx : OnlyValueError x) (f : α → β) :
    OnlyValueError (f <$> x) := by
  cases x with
  | error e => exact fun e' h => hx e' (congrArg Except.error (Except.error.inj h))
  | ok a => exact ok (f a)

theorem mapM {f : α → Except PyErr β} (hf : ∀ a, OnlyValueError (f a)) (xs : List α) :
    OnlyValueError (xs.mapM f) := by
  induction xs with
  | nil => exact ok []
  | cons x xs ih =>
      rw [List.mapM_cons]
      exact (hf x).bind fun _ => ih.bind fun _ => ok _

end OnlyValueError

theorem requireMembers_raises (value : Json) : OnlyValueError (requireMembers value) := by
  cases value <;> first | exact .ok _ | exact .valueError

theorem requireNonempty_raises (value : Json) : OnlyValueError (requireNonempty value) := by
  unfold requireNonempty
  split
  · exact .ok _
  · exact .valueError

theorem requireDigest_raises (value : Json) : OnlyValueError (requireDigest value) := by
  unfold requireDigest
  split
  · split
    · exact .ok _
    · exact .valueError
  · exact .valueError

theorem optionalStr_raises (value : Json) : OnlyValueError (optionalStr value) := by
  cases value <;> first | exact .ok _ | exact .valueError

theorem whenPresent_raises {α : Type} {check : Json → Except PyErr α}
    (h : ∀ value, OnlyValueError (check value)) (value : Json) :
    OnlyValueError (whenPresent check value) := by
  unfold whenPresent
  split
  · exact .ok none
  · exact (h _).map _

theorem requireUnit_raises (py : PayloadReader) (confidence : Option Confidence) :
    OnlyValueError (requireUnit py confidence) := by
  unfold requireUnit
  split
  · exact .ok ()
  all_goals
    split
    · exact .ok ()
    · exact .valueError

theorem ModelRef.ofMembers_raises (members : List (PyStr × Json)) :
    OnlyValueError (ModelRef.ofMembers members) :=
  .bind (requireNonempty_raises _) fun _ => .bind (requireNonempty_raises _) fun _ =>
    .bind (whenPresent_raises requireDigest_raises _) fun _ => .ok _

theorem HumanOversight.ofMembers_raises (members : List (PyStr × Json)) :
    OnlyValueError (HumanOversight.ofMembers members) :=
  .bind (requireNonempty_raises _) fun _ => .bind (optionalStr_raises _) fun _ =>
    .bind (optionalStr_raises _) fun _ => .ok _

theorem DecisionRecord.ofMembers_raises (py : PayloadReader) (members model : List (PyStr × Json))
    (oversight : Option (List (PyStr × Json))) (confidence : Option Confidence) :
    OnlyValueError (DecisionRecord.ofMembers py members model oversight confidence) := by
  refine .bind (ModelRef.ofMembers_raises _) fun _ => .bind ?_ fun _ =>
    .bind (requireNonempty_raises _) fun _ => .bind (requireNonempty_raises _) fun _ =>
    .bind (requireNonempty_raises _) fun _ => .bind (requireDigest_raises _) fun _ =>
    .bind (requireNonempty_raises _) fun _ => .bind (optionalStr_raises _) fun _ =>
    .bind (optionalStr_raises _) fun _ => .bind (optionalStr_raises _) fun _ =>
    .bind (optionalStr_raises _) fun _ => .bind (optionalStr_raises _) fun _ =>
    .bind (optionalStr_raises _) fun _ => .bind (requireUnit_raises py _) fun _ => .ok _
  cases oversight with
  | none => exact .ok none
  | some members => exact (HumanOversight.ofMembers_raises members).map _

theorem IncidentRecord.fromPayload_raises (payload : Json) :
    OnlyValueError (IncidentRecord.fromPayload payload) := by
  refine .bind (requireMembers_raises _) fun members => .bind ?_ fun kinds =>
    .bind (requireNonempty_raises _) fun _ => .bind (requireNonempty_raises _) fun _ =>
    .bind (requireNonempty_raises _) fun _ => .bind (requireNonempty_raises _) fun _ =>
    .bind (optionalStr_raises _) fun _ => .bind (optionalStr_raises _) fun _ =>
    .bind (optionalStr_raises _) fun _ => .bind (optionalStr_raises _) fun _ =>
    .bind (optionalStr_raises _) fun _ => .bind (optionalStr_raises _) fun _ =>
    .bind (.mapM requireNonempty_raises kinds) fun _ => .ok _
  cases fieldOf members (Waxseal.str "consequence_kinds") <;>
    first | exact .ok _ | exact .valueError

theorem InterventionRecord.fromPayload_raises (payload : Json) :
    OnlyValueError (InterventionRecord.fromPayload payload) :=
  .bind (requireMembers_raises _) fun _ => .bind (requireNonempty_raises _) fun _ =>
    .bind (requireNonempty_raises _) fun _ => .bind (requireNonempty_raises _) fun _ =>
    .bind (requireNonempty_raises _) fun _ => .bind (optionalStr_raises _) fun _ =>
    .bind (optionalStr_raises _) fun _ => .bind (optionalStr_raises _) fun _ => .ok _

/-- A decision whose confidence is an integer that no float holds, behind a `model` and a
`human_oversight` that have been let through. -/
def Oversized (payload : Json) : Prop :=
  ∃ members, payload = .obj members ∧
    (∃ model, fieldOf members (Waxseal.str "model") = .obj model) ∧
    (fieldOf members (Waxseal.str "human_oversight") = .null ∨
      ∃ oversight, fieldOf members (Waxseal.str "human_oversight") = .obj oversight) ∧
    ∃ n, fieldOf members (Waxseal.str "confidence") = .int n ∧ overflowsFloat n = true

theorem requireMembers_eq_ok {value : Json} {members : List (PyStr × Json)} :
    requireMembers value = .ok members ↔ value = .obj members := by
  cases value with
  | obj members' => exact ⟨fun h => congrArg _ (Except.ok.inj h), fun h => congrArg _ (Json.obj.inj h)⟩
  | null | bool b | int n | float lexeme | str s | arr items => exact ⟨nofun, nofun⟩

theorem whenPresent_requireMembers_isOk {value : Json} :
    (∃ out, whenPresent requireMembers value = .ok out) ↔
      value = .null ∨ ∃ members, value = .obj members := by
  cases value with
  | null => exact ⟨fun _ => .inl rfl, fun _ => ⟨none, rfl⟩⟩
  | obj members => exact ⟨fun _ => .inr ⟨members, rfl⟩, fun _ => ⟨some members, rfl⟩⟩
  | bool b | int n | float lexeme | str s | arr items =>
      refine ⟨?_, ?_⟩
      · rintro ⟨out, h⟩
        cases h
      · rintro (h | ⟨members, h⟩) <;> cases h

theorem readConfidence_cases (value : Json) :
    OnlyValueError (readConfidence value) ∨
      ∃ n, value = .int n ∧ overflowsFloat n = true ∧
        readConfidence value = .error .overflowError := by
  cases value with
  | int n =>
      cases hn : overflowsFloat n with
      | false =>
          refine .inl fun e h => ?_
          rw [readConfidence, hn] at h
          cases h
      | true => exact .inr ⟨n, rfl, hn, by rw [readConfidence, hn]; rfl⟩
  | null | float lexeme => exact .inl (.ok _)
  | bool b | str s | arr items | obj members => exact .inl .valueError

/-- **A decision is malformed by a `ValueError`, but for a confidence no float holds.** -/
theorem DecisionRecord.fromPayload_raises (py : PayloadReader) (payload : Json) :
    (Oversized payload ∧ DecisionRecord.fromPayload py payload = .error .overflowError) ∨
      (¬ Oversized payload ∧ OnlyValueError (DecisionRecord.fromPayload py payload)) := by
  by_cases h : Oversized payload
  · obtain ⟨members, rfl, ⟨model, hmodel⟩, hoversight, n, hconfidence, hn⟩ := h
    obtain ⟨oversight, hread⟩ := whenPresent_requireMembers_isOk.mpr hoversight
    refine .inl ⟨⟨members, rfl, ⟨model, hmodel⟩, hoversight, n, hconfidence, hn⟩, ?_⟩
    have hover : readConfidence (.int n) = .error .overflowError := by rw [readConfidence, hn]; rfl
    simp only [DecisionRecord.fromPayload, requireMembers, hmodel, hread, hconfidence, hover, bind,
      Except.bind]
  · refine .inr ⟨h, fun e herr => ?_⟩
    rcases bind_eq_error_iff.mp herr with herr | ⟨members, hmembers, herr⟩
    · exact requireMembers_raises payload e herr
    rcases bind_eq_error_iff.mp herr with herr | ⟨model, hmodel, herr⟩
    · exact requireMembers_raises _ e herr
    rcases bind_eq_error_iff.mp herr with herr | ⟨oversight, hoversight, herr⟩
    · exact whenPresent_raises requireMembers_raises _ e herr
    rcases bind_eq_error_iff.mp herr with herr | ⟨confidence, -, herr⟩
    · refine (readConfidence_cases _).elim (fun hraises => hraises e herr) ?_
      rintro ⟨n, hconfidence, hn, -⟩
      exact absurd ⟨members, requireMembers_eq_ok.mp hmembers, ⟨model, requireMembers_eq_ok.mp hmodel⟩,
        whenPresent_requireMembers_isOk.mp ⟨oversight, hoversight⟩, n, hconfidence, hn⟩ h
    · exact DecisionRecord.ofMembers_raises py _ _ _ _ e herr

/-- The payload of a row is read without an exception, or with one of those a report catches. -/
def PayloadReads (py : PayloadReader) (entry : Entry) : Prop :=
  ∀ payload, entry.payload = some payload → ∀ e, py.loads payload = .error e → e.isMalformed = true

/-- No confidence of the row is beyond the floats. -/
def ConfidenceReads (py : PayloadReader) (entry : Entry) : Prop :=
  ∀ payload, entry.payload = some payload → ∀ value, py.loads payload = .ok value → ¬ Oversized value

theorem readRow_isOk {α : Type} {py : PayloadReader} {fromPayload : Json → Except PyErr α}
    {entry : Entry} :
    (∃ record, readRow py fromPayload entry = .ok record) ↔
      ∀ payload, entry.payload = some payload →
        ∀ e, (py.loads payload >>= fromPayload) = .error e → e.isMalformed = true := by
  unfold readRow
  cases entry.payload with
  | none => exact ⟨fun _ => nofun, fun _ => ⟨none, rfl⟩⟩
  | some payload =>
      cases hread : py.loads payload >>= fromPayload with
      | ok record =>
          refine ⟨fun _ other hother e herr => ?_, fun _ => ⟨some record, by simp only [hread]⟩⟩
          rw [← Option.some.inj hother, hread] at herr
          cases herr
      | error e =>
          cases hmalformed : e.isMalformed with
          | true =>
              refine ⟨fun _ other hother e' herr => ?_, fun _ => ⟨none, by simp only [hread, hmalformed, if_true]⟩⟩
              rw [← Option.some.inj hother, hread] at herr
              exact Except.error.inj herr ▸ hmalformed
          | false =>
              constructor
              · rintro ⟨record, h⟩
                simp only [hread, hmalformed, Bool.false_eq_true, if_false] at h
                cases h
              · intro h
                rw [h payload rfl e hread] at hmalformed
                cases hmalformed

theorem isMalformed_of_onlyValueError {α : Type} {x : Except PyErr α} (h : OnlyValueError x) {e : PyErr}
    (he : x = .error e) : e.isMalformed = true := by
  rw [h e he]
  rfl

/-- A row whose constructor raises only `ValueError` is read if its payload is. -/
theorem readRow_isOk_of_onlyValueError {α : Type} {py : PayloadReader}
    {fromPayload : Json → Except PyErr α} (h : ∀ value, OnlyValueError (fromPayload value))
    {entry : Entry} :
    (∃ record, readRow py fromPayload entry = .ok record) ↔ PayloadReads py entry := by
  rw [readRow_isOk]
  refine forall₂_congr fun payload _ => ⟨fun hread e he => ?_, fun hread e he => ?_⟩
  · exact hread e (bind_eq_error_iff.mpr (.inl he))
  · rcases bind_eq_error_iff.mp he with he | ⟨value, -, he⟩
    · exact hread e he
    · exact isMalformed_of_onlyValueError (h value) he

theorem readRow_decision_isOk {py : PayloadReader} {entry : Entry} :
    (∃ record, readRow py (DecisionRecord.fromPayload py) entry = .ok record) ↔
      PayloadReads py entry ∧ ConfidenceReads py entry := by
  rw [readRow_isOk]
  constructor
  · refine fun hread => ⟨fun payload hpayload e he => ?_, fun payload hpayload value hvalue hover => ?_⟩
    · exact hread payload hpayload e (bind_eq_error_iff.mpr (.inl he))
    · rcases DecisionRecord.fromPayload_raises py value with ⟨-, hraised⟩ | ⟨hnot, -⟩
      · have := hread payload hpayload _ (bind_eq_error_iff.mpr (.inr ⟨value, hvalue, hraised⟩))
        cases this
      · exact hnot hover
  · rintro ⟨hreads, hconfidence⟩ payload hpayload e he
    rcases bind_eq_error_iff.mp he with he | ⟨value, hvalue, he⟩
    · exact hreads payload hpayload e he
    · rcases DecisionRecord.fromPayload_raises py value with ⟨hover, -⟩ | ⟨-, hraises⟩
      · exact absurd hover (hconfidence payload hpayload value hvalue)
      · exact isMalformed_of_onlyValueError hraises he

/-- **A scan returns exactly when each of its rows is read.** -/
theorem scanRows_isOk {α : Type} {py : PayloadReader} {payloadType : PyStr}
    {fromPayload : Json → Except PyErr α} {entries : List Entry} :
    (∃ rows, scanRows py payloadType fromPayload entries = .ok rows) ↔
      ∀ entry ∈ rowsOf payloadType entries, ∃ record, readRow py fromPayload entry = .ok record :=
  isOk_mapM.trans (forall₂_congr fun _ _ => isOk_map)

end Waxseal
