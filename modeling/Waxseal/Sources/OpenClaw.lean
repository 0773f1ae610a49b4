import Mathlib.Data.List.AList
import Mathlib.Data.List.Sort
import Waxseal.Adapters.Redactors
import Waxseal.Log.Facade

/-!
# The OpenClaw source

`sources/openclaw.py`: one run of the ingest.  It takes its resume point from the chain,
pages through the export from the newest record backwards until it meets what it knows, and
appends what is new in ascending order, a gap entry in front of every hole.

Whatever surrounds a run (the ingest lock, the trail, the export, the appends of the log) is
an `IngestIo`.  A row of the chain is what a reader makes of an entry: its payload type, and
what `json.loads` makes of its payload.
-/

namespace Waxseal

open Json

/-! ## The chain -/

/-- `OPENCLAW_AUDIT_PAYLOAD_TYPE`. -/
def auditPayloadType : PyStr := str "application/vnd.openclaw.audit-event+json"

/-- `OPENCLAW_GAP_PAYLOAD_TYPE`. -/
def gapPayloadType : PyStr := str "application/vnd.waxseal.openclaw-ingest-gap+json"

/-- An entry of the chain, as it is read: its payload may be missing, or no JSON. -/
structure ChainRow where
  payloadType : PyStr
  payload : Option (Except PyErr Json)

/-- A value that passes `_is_sequence`; a bool does not. -/
def asSequence : Json → Option ℤ
  | .int n => some n
  | _ => none

/-- `_sequence_of(record)`. -/
def sequenceOf (record : Json) : Option ℤ :=
  match get? record (str "sequence") with
  | .ok value => (asSequence value).filter fun n => 1 ≤ n
  | .error _ => none

/-- What one row of the chain contributes to `last_ingested_sequence`. -/
def rowSequence (row : ChainRow) : Except PyErr (Option ℤ) :=
  if row.payloadType ≠ auditPayloadType then .ok none
  else
    match row.payload with
    | none => .ok none
    | some payload =>
        match payload >>= fun p => get? p (str "sequence") with
        | .ok value => .ok (asSequence value)
        | .error e =>
            if e.isValueError = true ∨ e = .attributeError then .ok none else .error e

/-- `highest`, after a row. -/
def higher (highest : Option ℤ) : Option ℤ → Option ℤ
  | none => highest
  | some sequence => if highest.all (· < sequence) then some sequence else highest

/-- `last_ingested_sequence(log)`. -/
def lastIngestedSequence (chain : List ChainRow) : Except PyErr (Option ℤ) :=
  chain.foldlM (fun highest row => (rowSequence row).map (higher highest)) none

/-! ## The export -/

/-- `MAX_LIMIT`. -/
def maxLimit : ℤ := 500

/-- `KINDS`. -/
def ingestKinds : List PyStr := [str "agent_run", str "tool_action", str "message"]

/-- `_page_args(limit=limit, kind=kind, cursor=cursor)`. -/
def pageArgs (limit : ℤ) (kind : Option PyStr) (cursor : Option ℤ) : List PyStr :=
  [str "audit", str "--json", str "--limit", strInt limit]
    ++ (kind.toList.flatMap fun k => [str "--kind", k])
    ++ (cursor.toList.flatMap fun c => [str "--cursor", strInt c])

/-- A record of the ledger with this sequence. -/
structure LedgerRecord (sequence : ℤ) where
  value : Json
  sequence_eq : sequenceOf value = some sequence

/-- What was read of the export: `fresh` and `unusable`. -/
structure Paged where
  fresh : AList LedgerRecord
  unusable : ℕ

/-- `resume_from is not None and sequence <= resume_from`. -/
def isKnown (resumeFrom : Option ℤ) (sequence : ℤ) : Bool := resumeFrom.any (sequence ≤ ·)

/-- One record of a page, and whether the page reached what is known. -/
def takeRecord (resumeFrom : Option ℤ) (page : Paged × Bool) (record : Json) : Paged × Bool :=
  match h : sequenceOf record with
  | none => ({ page.1 with unusable := page.1.unusable + 1 }, page.2)
  | some sequence =>
      if isKnown resumeFrom sequence then (page.1, true)
      else ({ page.1 with fresh := page.1.fresh.insert sequence ⟨record, h⟩ }, page.2)

/-- The events of a `{events: [...]}` page. -/
def pageEvents (page : Json) : Option (List Json) :=
  match get? page (str "events") with
  | .ok (.arr events) => some events
  | _ => none

/-- The cursor of the next page. -/
def nextCursor (page : Json) : Option ℤ :=
  match get? page (str "nextCursor") with
  | .ok value => asSequence value
  | .error _ => none

/-- What came of paging through the export. -/
inductive Export where
  | arrived (paged : Paged) (truncated : Bool)
  | failed (e : PyErr)
  | notAPage (unusable : ℕ)

section

variable [Interpreter]

/-- The paging loop, with the pages that `max_pages` leaves. -/
def paging (fetch : ℕ → List PyStr → Except PyErr PyStr) (limit : ℤ) (kind : Option PyStr)
    (resumeFrom : Option ℤ) : ℕ → ℕ → Option ℤ → Paged → Export
  | 0, _, _, paged => .arrived paged true
  | left + 1, pages, cursor, paged =>
      match fetch pages (pageArgs limit kind cursor) >>= loads with
      | .error e => .failed e
      | .ok page =>
          match pageEvents page with
          | none => .notAPage paged.unusable
          | some [] => .arrived paged false
          | some (event :: events) =>
              match (event :: events).foldl (takeRecord resumeFrom) (paged, false) with
              | (paged, true) => .arrived paged false
              | (paged, false) =>
                  match nextCursor page with
                  | none => .arrived paged false
                  | some cursor => paging fetch limit kind resumeFrom left (pages + 1)
                      (some cursor) paged

end

/-! ## Gaps -/

/-- What a gap says it comes from. -/
inductive GapCause where
  | pruneOrDrop
  | pageCap
  deriving DecidableEq

/-- `cause`. -/
def GapCause.text : GapCause → PyStr
  | .pruneOrDrop => str "prune_or_drop"
  | .pageCap => str "page_cap"

/-- A hole between two ingested records. -/
structure Gap where
  missingAfter : ℤ
  missingBefore : ℤ
  cause : GapCause
  deriving DecidableEq

/-- The new records, in ascending order. -/
def Paged.ordered (paged : Paged) : List (Sigma LedgerRecord) :=
  paged.fresh.entries.insertionSort fun a b => a.1 ≤ b.1

/-- The hole between two sequences, if there is one. -/
def holeBetween (previous sequence : ℤ) (cause : GapCause) : List Gap :=
  if sequence > previous + 1 then [⟨previous, sequence, cause⟩] else []

/-- The holes behind `previous`. -/
def holesAfter (previous : ℤ) : List ℤ → List Gap
  | [] => []
  | sequence :: rest => holeBetween previous sequence .pruneOrDrop ++ holesAfter sequence rest

/-- `found_gaps` of an export that was not filtered. -/
def foundGaps (resumeFrom : Option ℤ) (truncated : Bool) : List ℤ → List Gap
  | [] => []
  | first :: rest =>
      (resumeFrom.toList.flatMap fun resume =>
        holeBetween resume first (if truncated then .pageCap else .pruneOrDrop))
        ++ holesAfter first rest

/-- `gap_before.get(sequence)`: of two gaps before one record a dict would keep the last. -/
def gapBefore (gaps : List Gap) (sequence : ℤ) : Option Gap :=
  gaps.reverse.find? fun gap => gap.missingBefore = sequence

/-! ## Appending -/

/-- The chain, the number of appends tried, and the counts of the run. -/
structure Appending where
  chain : List ChainRow
  tried : ℕ
  ingested : ℕ
  dropped : ℕ
  lastSequence : Option ℤ

section

variable (redactor : Option (PyStr → PyStr)) (appends : ℕ → AppendOutcome)

/-- The entry of a record. -/
def recordRow (record : Json) : ChainRow :=
  ⟨auditPayloadType, some (.ok (redactPayload redactor record))⟩

/-- The payload of a gap entry. -/
def gapPayload (gap : Gap) : Json :=
  .obj [(str "kind", .str (str "ingest_gap")), (str "missing_after", .int gap.missingAfter),
    (str "missing_before", .int gap.missingBefore), (str "cause", .str gap.cause.text)]

/-- The entry of a gap. -/
def gapRow (gap : Gap) : ChainRow :=
  ⟨gapPayloadType, some (.ok (redactPayload redactor (gapPayload gap)))⟩

/-- `log.try_append(...)`. -/
def tryAppend (row : ChainRow) (st : Appending) : Bool × Appending :=
  ((appends st.tried).returned,
    { st with
      chain := if (appends st.tried).persisted then st.chain ++ [row] else st.chain
      tried := st.tried + 1 })

/-- The gap entry in front of a record. -/
def appendGap (gap : Gap) (st : Appending) : Appending :=
  match tryAppend appends (gapRow redactor gap) st with
  | (true, st) => st
  | (false, st) => { st with dropped := st.dropped + 1 }

/-- The entry of a record. -/
def appendRecord (sequence : ℤ) (record : Json) (st : Appending) : Appending :=
  match tryAppend appends (recordRow redactor record) st with
  | (true, st) => { st with ingested := st.ingested + 1, lastSequence := some sequence }
  | (false, st) => { st with dropped := st.dropped + 1 }

/-- One turn of the appending loop. -/
def ingestRecord (gaps : List Gap) (st : Appending) (record : Sigma LedgerRecord) : Appending :=
  appendRecord redactor appends record.1 record.2.value
    (match gapBefore gaps record.1 with
      | none => st
      | some gap => appendGap redactor appends gap st)

end

/-! ## Runs -/

/-- What a run says beside its counts. -/
inductive IngestNotice where
  | lockHeld (e : PyErr)
  | unreadableTrail (e : PyErr)
  | exportFailed (e : PyErr)
  | notAPage
  | stoppedAt (maxPages : ℤ)
  | unusableRecords (count : ℕ)
  | notAppended (count : ℕ)
  | sequenceGaps (gaps : List Gap)

/-- `IngestResult`; no gaps at all is gap detection that did not run. -/
structure IngestResult where
  ingested : ℕ
  lastSequence : Option ℤ
  dropped : ℕ
  unusable : ℕ
  gaps : Option (List Gap)
  truncated : Bool
  notice : List IngestNotice

/-- What surrounds a run: taking the ingest lock, reading the trail, the text of each page
of the export, and the appends. -/
structure IngestIo where
  lock : Option PyErr
  readTrail : Option PyErr
  fetch : ℕ → List PyStr → Except PyErr PyStr
  appends : ℕ → AppendOutcome

/-- A call of `ingest`. -/
structure IngestCall where
  kind : Option PyStr
  limit : ℤ
  maxPages : ℤ
  io : IngestIo

/-- A result without entries. -/
def nothingIngested (lastSequence : Option ℤ) (unusable : ℕ) (notice : List IngestNotice) :
    IngestResult :=
  ⟨0, lastSequence, 0, unusable, none, false, notice⟩

section

variable [Interpreter]

/-- The export of a run that resumes behind `resumeFrom`. -/
def IngestCall.export (call : IngestCall) (resumeFrom : Option ℤ) : Export :=
  paging call.io.fetch (max 1 (min call.limit maxLimit)) call.kind resumeFrom
    call.maxPages.toNat 0 none ⟨∅, 0⟩

/-- The gaps a run records. -/
def IngestCall.gaps (call : IngestCall) (resumeFrom : Option ℤ) (paged : Paged)
    (truncated : Bool) : List Gap :=
  if call.kind.isSome then [] else foundGaps resumeFrom truncated (paged.ordered.map (·.1))

variable (redactor : Option (PyStr → PyStr))

/-- The appending loop of a run. -/
def IngestCall.append (call : IngestCall) (chain : List ChainRow) (resumeFrom : Option ℤ)
    (gaps : List Gap) (paged : Paged) : Appending :=
  paged.ordered.foldl (ingestRecord redactor call.io.appends gaps) ⟨chain, 0, 0, 0, resumeFrom⟩

/-- `_ingest_run(...)`: the chain it leaves, and its result. -/
def ingestRun (call : IngestCall) (chain : List ChainRow) : List ChainRow × IngestResult :=
  match orFail call.io.readTrail >>= fun _ => lastIngestedSequence chain with
  | .error e => (chain, nothingIngested none 0 [.unreadableTrail e])
  | .ok resumeFrom =>
      match call.export resumeFrom with
      | .failed e => (chain, nothingIngested resumeFrom 0 [.exportFailed e])
      | .notAPage unusable => (chain, nothingIngested resumeFrom unusable [.notAPage])
      | .arrived paged truncated =>
          let unusable := if paged.unusable = 0 then [] else [.unusableRecords paged.unusable]
          if paged.ordered = [] then
            (chain, ⟨0, resumeFrom, 0, paged.unusable,
              if call.kind.isSome then none else some [], truncated, unusable⟩)
          else
            let gaps := call.gaps resumeFrom paged truncated
            let out := call.append redactor chain resumeFrom gaps paged
            (out.chain, ⟨out.ingested, out.lastSequence, out.dropped, paged.unusable,
              if call.kind.isSome then none else some gaps, truncated,
              (if truncated then [.stoppedAt call.maxPages] else []) ++ unusable
                ++ (if out.dropped = 0 then [] else [.notAppended out.dropped])
                ++ (if gaps.isEmpty then [] else [.sequenceGaps gaps])⟩)

/-- `ingest(log, kind=..., limit=..., max_pages=...)`. -/
def ingest (call : IngestCall) (chain : List ChainRow) :
    Except PyErr (List ChainRow × IngestResult) :=
  if call.kind.any fun kind => !ingestKinds.contains kind then .error .valueError
  else
    match call.io.lock with
    | some e => .ok (chain, nothingIngested none 0 [.lockHeld e])
    | none => .ok (ingestRun redactor call chain)

end

end Waxseal
