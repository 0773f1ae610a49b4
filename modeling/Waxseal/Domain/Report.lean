import Waxseal.Domain.Evidence
import Waxseal.Domain.Verify
import Waxseal.Domain.Witnessing

/-!
# The auditor report

`domain/report.py` and `domain/_report_render.py`: what a trail contains and what was checked,
as one document.  `buildReport` reads every decision, incident and intervention on the trail,
and `toMarkdown` renders the report; the JSON form holds the same fields.
-/

namespace Waxseal

/-! ## Separation -/

/-- `separation_degree`. -/
def separationDegree (topology : SeparationTopology) : ℤ :=
  1 + topology.sealEscrow.toNat + topology.anchorSinks + topology.witness.toNat
    + topology.pinSeparate.toNat + (topology.ledger.getD false).toNat

/-- `counted_authorities`. -/
def countedAuthorities (topology : SeparationTopology) : List (PyStr × ℤ) :=
  [(str "writer", 1)]
    ++ (if topology.sealEscrow then [(str "seal_escrow", 1)] else [])
    ++ (if topology.anchorSinks ≠ 0 then [(str "anchor_sinks", topology.anchorSinks)] else [])
    ++ (if topology.witness then [(str "witness", 1)] else [])
    ++ (if topology.pinSeparate then [(str "pin_separate", 1)] else [])
    ++ (if topology.ledger.getD false then [(str "ledger", 1)] else [])

/-- `sep.join(parts)`. -/
def joinStr (sep : PyStr) (parts : List PyStr) : PyStr := (parts.intersperse sep).flatten

/-- `render_counted_authorities`. -/
def renderCountedAuthorities (counted : List (PyStr × ℤ)) : PyStr :=
  joinStr (str " + ") (counted.map fun c => c.1 ++ str "(" ++ strInt c.2 ++ str ")")
    ++ str " = " ++ strInt (counted.map Prod.snd).sum

/-! ## The report -/

/-- `CheckSummary` of any sidecar, with the line `verify` prints for it: `_Check`. -/
structure SidecarCheck where
  ok : Bool
  checked : ℤ
  reason : Option PyStr
  unverifiable : Bool
  notes : List PyStr
  line : PyStr

/-- `RECEIPTS_NOT_RECORDED_REASON`. -/
def receiptsNotRecordedReason : PyStr := str "no_receipts_recorded"

/-- How often each value occurs. -/
abbrev Counts := List (PyStr × ℕ)

/-- `counter[value] += 1`. -/
def Counts.bump (counts : Counts) (value : PyStr) : Counts :=
  match counts with
  | [] => [(value, 1)]
  | (other, n) :: counts =>
      if other = value then (other, n + 1) :: counts else (other, n) :: Counts.bump counts value

/-- `Counter(values)`. -/
def countOf (values : List PyStr) : Counts := values.foldl Counts.bump []

/-- `_ranked(counter)`: the most frequent first, ties by name. -/
def ranked (counts : Counts) : Counts :=
  counts.mergeSort fun a b => b.2 < a.2 ∨ (a.2 = b.2 ∧ a.1 ≤ b.1)

/-- `AuditReport`. -/
structure AuditReport where
  chain : VerifyResult
  entriesTotal : ℕ
  firstTs : Option PyStr
  lastTs : Option PyStr
  byPayloadType : Counts
  byFingerprint : Counts
  decisionsTotal : ℕ
  decisionsMalformed : List ℤ
  byDecisionType : Counts
  byOversightMode : Counts
  oversightUnrecorded : ℕ
  byRiskTier : Counts
  riskTierUnrecorded : ℕ
  incidentsTotal : ℕ
  incidentsNoReportRecorded : ℕ
  byIncidentSeverity : Counts
  incidentsMalformed : List ℤ
  interventionsTotal : ℕ
  byInterventionAction : Counts
  interventionsMalformed : List ℤ
  anchors : Option SidecarCheck
  pin : Option SidecarCheck
  witnesses : Option (List WitnessVerdict)
  receipts : SidecarCheck
  declaredTopology : Option SeparationTopology

/-- The sidecars a report shows. -/
structure SidecarSummaries where
  anchors : Option SidecarCheck
  pin : Option SidecarCheck
  witnesses : Option (List WitnessVerdict)
  receipts : SidecarCheck
  declaredTopology : Option SeparationTopology

/-- `build_report(...)`. -/
def buildReport (py : PayloadReader) (chain : VerifyResult) (entries : List Entry)
    (sidecars : SidecarSummaries) : Except PyErr AuditReport := do
  let decisions ← scanRows py decisionPayloadType (DecisionRecord.fromPayload py) entries
  let incidents ← scanIncidents py (rowsOf incidentPayloadType entries)
  let interventions ← scanInterventions py (rowsOf interventionPayloadType entries)
  let records := (readableRows decisions).map Prod.snd
  return {
    chain := chain
    entriesTotal := entries.length
    firstTs := entries.head?.map fun entry => entry.header.ts
    lastTs := entries.getLast?.map fun entry => entry.header.ts
    byPayloadType := ranked (countOf (entries.map fun entry => entry.header.payloadType))
    byFingerprint := ranked (countOf (entries.map fun entry => entry.header.hashVersion))
    decisionsTotal := records.length
    decisionsMalformed := unreadableRows decisions
    byDecisionType := ranked (countOf (records.map fun record => record.decisionType.val))
    byOversightMode := ranked (countOf (records.filterMap fun record =>
      record.humanOversight.map fun oversight => oversight.mode.val))
    oversightUnrecorded := records.countP fun record => record.humanOversight.isNone
    byRiskTier := ranked (countOf (records.filterMap DecisionRecord.riskTier))
    riskTierUnrecorded := records.countP fun record => record.riskTier.isNone
    incidentsTotal := incidents.views.length
    incidentsNoReportRecorded := incidents.views.countP fun view => view.latest.reportRef.isNone
    byIncidentSeverity := ranked (countOf (incidents.views.map fun view => view.latest.severity.val))
    incidentsMalformed := incidents.unreadable
    interventionsTotal := interventions.records.length
    byInterventionAction := ranked (countOf (interventions.records.map fun row => row.2.action.val))
    interventionsMalformed := interventions.unreadable
    anchors := sidecars.anchors
    pin := sidecars.pin
    witnesses := sidecars.witnesses
    receipts := sidecars.receipts
    declaredTopology := sidecars.declaredTopology }

/-! ## Rendering -/

/-- `_UNPARSEABLE_NOTE`. -/
def unparseableNote : PyStr :=
  str ("rows whose payload this build could not parse as a decision record; "
    ++ "that is a separate question from chain integrity, which `verify` answers")

/-- `", ".join(str(s) for s in seqs)`. -/
def joinSeqs (seqs : List ℤ) : PyStr := joinStr (str ", ") (seqs.map strInt)

/-- `_count_table(label, counts, truncate=...)`. -/
def countTable (label : PyStr) (counts : Counts) (truncate : Option ℕ) : List PyStr :=
  if counts = [] then []
  else [[], str "| " ++ label ++ str " | Count |", str "|---|---:|"]
    ++ counts.map fun c =>
      str "| `" ++ (match truncate with
        | some n => if n < c.1.length then c.1.take n ++ str "…" else c.1
        | none => c.1) ++ str "` | " ++ strNat c.2 ++ str " |"

/-- `_incident_lines(...)`. -/
def incidentLines (report : AuditReport) : List PyStr :=
  [[], str "## Incidents", [],
    str "- Incident records on this trail: **" ++ strNat report.incidentsTotal
      ++ str ("** — a count of RECORDED incidents, not evidence that no others occurred.")]
    ++ countTable (str "Declared severity") report.byIncidentSeverity none
    ++ (if report.incidentsNoReportRecorded ≠ 0 then
      [str "- **No submission recorded** for " ++ strNat report.incidentsNoReportRecorded
        ++ str (" incident(s): the latest row carries no submission reference. That is a fact "
          ++ "about this trail, not about the authority's channel, which this process cannot see. "
          ++ "For the reporting-window reading, run `waxseal incidents`.")]
      else [])
    ++ (if report.incidentsMalformed ≠ [] then
      [str "- Unparseable incident payloads at seq " ++ joinSeqs report.incidentsMalformed
        ++ str " — " ++ unparseableNote ++ str "."]
      else [])

/-- `_intervention_lines(...)`. -/
def interventionLines (report : AuditReport) : List PyStr :=
  [[], str "## Human interventions", [],
    str "- Intervention records on this trail: **" ++ strNat report.interventionsTotal
      ++ str ("** — a count of RECORDED interventions. A supervision mechanism switched off writes "
        ++ "nothing, so no log witnesses its own absence.")]
    ++ countTable (str "Declared action") report.byInterventionAction none
    ++ (if report.interventionsMalformed ≠ [] then
      [str "- Unparseable intervention payloads at seq " ++ joinSeqs report.interventionsMalformed
        ++ str " — " ++ unparseableNote ++ str "."]
      else [])

/-- The `AI decisions` section. -/
def decisionLines (report : AuditReport) : List PyStr :=
  if report.decisionsTotal = 0 ∧ report.decisionsMalformed = [] then []
  else [[], str "## AI decisions", [], str "- Decisions: " ++ strNat report.decisionsTotal]
    ++ countTable (str "Decision type") report.byDecisionType none
    ++ countTable (str "Human oversight") report.byOversightMode none
    ++ (if report.oversightUnrecorded ≠ 0 then
      [str "- Oversight **not recorded**: " ++ strNat report.oversightUnrecorded
        ++ str (" decision(s). This is not the same claim as automated processing — it "
          ++ "means the record is silent on whether a person was involved.")]
      else [])
    ++ countTable (str "Declared risk tier") report.byRiskTier none
    ++ (if report.riskTierUnrecorded ≠ 0 then
      [str "- Risk tier **not declared**: " ++ strNat report.riskTierUnrecorded
        ++ str (" decision(s). The tier is the provider's own classification "
          ++ "under the Law on AI Điều 10(1); a record silent on it is not a low-risk record.")]
      else [])
    ++ (if report.decisionsMalformed ≠ [] then
      [str "- Unparseable decision payloads at seq " ++ joinSeqs report.decisionsMalformed
        ++ str " — " ++ unparseableNote ++ str "."]
      else [])

/-- `str(reason)`, where there may be none. -/
def reasonOr (reason : Option PyStr) : PyStr := reason.getD (str "None")

/-- `_summary_text(summary)`. -/
def summaryText : Option SidecarCheck → PyStr
  | none => str "**not checked** (absence of a check is not a pass)"
  | some summary =>
      if summary.ok then
        (if summary.unverifiable then
          str "**unverifiable**: `" ++ reasonOr summary.reason
            ++ str ("` — this build could not read it by name, which is NOT evidence of tampering")
        else
          str "ok (" ++ strInt summary.checked ++ str " checked)"
            ++ (summary.reason.elim [] fun reason => str " — `" ++ reason ++ str "`"))
          ++ summary.notes.flatMap fun note => str "\n  - note: " ++ note
      else
        str "**BROKEN**: `" ++ reasonOr summary.reason ++ str "` (" ++ strInt summary.checked
          ++ str " checked)"

/-- `_receipts_text(summary)`. -/
def receiptsText (summary : SidecarCheck) : PyStr :=
  if summary.ok ∧ summary.unverifiable = false then
    if summary.reason = some receiptsNotRecordedReason then
      str ("**not recorded** — there is no `.receipts` sidecar beside this trail, so "
        ++ "per-append acknowledgment by a second authority was never measured here. "
        ++ "That is **not** the same claim as measured and clean.")
    else if summary.checked = 0 then
      str ("sidecar present, **0 record(s)** — checked, and it held nothing to check. "
        ++ "Not the same as no sidecar at all, and not coverage of any entry.")
    else summaryText (some summary)
  else summaryText (some summary)

/-- The reasons `verify_checkpoint` gives. -/
def CheckpointReason.code : CheckpointReason → PyStr
  | .malformedCheckpoint => str "malformed_checkpoint"
  | .anchorBeyondHead => str "anchor_beyond_head"
  | .anchorEntryHashMismatch => str "anchor_entry_hash_mismatch"
  | .anchorRootMismatch => str "anchor_root_mismatch"

/-- The `reason` of a `WitnessVerdict`. -/
def WitnessReason.text : WitnessReason → PyStr
  | .checkpoint reason => reason.code
  | .noCheckpointsWitnessed => str "no_checkpoints_witnessed"
  | .unreachable reason => reason

/-- One witness of `_witness_lines`. -/
def witnessLine (verdict : WitnessVerdict) : PyStr :=
  let reason := reasonOr (verdict.reason.map WitnessReason.text)
  match verdict.status with
  | .unreachable =>
      str "  - `" ++ verdict.name ++ str "`: **unreachable** (" ++ reason
        ++ str ") — not checked, which is not a pass"
  | .inconsistent =>
      str "  - `" ++ verdict.name ++ str "`: **INCONSISTENT** at seq="
        ++ (verdict.brokenSeq.elim (str "None") strInt) ++ str " (`" ++ reason
        ++ str "`) — the trail does not extend what this witness saw"
  | .consistent =>
      str "  - `" ++ verdict.name ++ str "`: consistent (checked " ++ strNat verdict.checked
        ++ (verdict.reason.elim [] fun reason =>
          str ", `" ++ reason.text ++ str "` — holds nothing, so covers nothing")
        ++ (if verdict.unreadable ≠ 0 then
          str ", " ++ strNat verdict.unreadable ++ str " record(s) unreadable by this build"
          else []) ++ str ")"

/-- `_witness_lines(verdicts)`. -/
def witnessLines : Option (List WitnessVerdict) → List PyStr
  | none => [str "- Witnesses: **not checked** (absence of a check is not a pass)"]
  | some [] => [str "- Witnesses: none configured"]
  | some verdicts => str "- Witnesses:" :: verdicts.map witnessLine

/-- The reasons of a break. -/
def BreakReason.code : BreakReason → PyStr
  | .seqGap => str "seq_gap"
  | .prevHashMismatch => str "prev_hash_mismatch"
  | .entryHashMismatch => str "entry_hash_mismatch"
  | .payloadHashMismatch => str "payload_hash_mismatch"

/-- The `Chain integrity` section. -/
def chainLines (chain : VerifyResult) : List PyStr :=
  [str "## Chain integrity", [],
    if chain.ok then str "- Chain **intact**: " ++ strNat chain.checked ++ str " row(s) verified"
    else str "- **BROKEN** at seq=" ++ (chain.brokenSeq.elim (str "None") strInt) ++ str ": `"
      ++ reasonOr (chain.reason.map BreakReason.code) ++ str "` (verified " ++ strNat chain.checked
      ++ str " row(s) before the break)"]
    ++ (if chain.unverifiable ≠ [] then
      [str "- " ++ strNat chain.unverifiable.length ++ str " row(s) unverifiable by name at seq "
        ++ joinSeqs chain.unverifiable
        ++ str (" — unknown schema fingerprint, **NOT** evidence of tampering. "
          ++ "This build cannot reproduce the hash those rows were written "
          ++ "with, and reporting them intact would be a claim it cannot make.")]
      else [])

/-- The `Completeness` section. -/
def completenessLines (chain : VerifyResult) : List PyStr :=
  [[], str "## Completeness", [],
    match chain.droppedWrites with
    | none => str ("- Dropped writes: **not measured**. A write lost before it "
        ++ "reached storage leaves no gap for `verify` to find, so this "
        ++ "is a separate dimension from chain integrity and this trail "
        ++ "carries no measurement of it.")
    | some dropped => str "- Dropped writes: **>= " ++ strNat dropped
        ++ str "** (measured minimum, source: " ++ reasonOr chain.dropsSource ++ str ")"]

/-- The `Inventory` section. -/
def inventoryLines (report : AuditReport) : List PyStr :=
  [[], str "## Inventory", [], str "- Entries: " ++ strNat report.entriesTotal]
    ++ (report.firstTs.elim [] fun firstTs =>
      [str "- Period covered: " ++ firstTs ++ str " → " ++ reasonOr report.lastTs])
    ++ countTable (str "Payload type") report.byPayloadType none
    ++ countTable (str "Schema fingerprint") report.byFingerprint (some 12)

/-- `SCOPE_STATEMENT`. -/
def scopeStatement : PyStr :=
  str ("This output attests hash-chain integrity and completeness measurements of "
    ++ "RECORDED entries only. It does not attest that any obligation was met, that "
    ++ "payload content is truthful, or that unrecorded events did not occur.")

/-- `to_markdown()`. -/
def AuditReport.toMarkdown (report : AuditReport) : PyStr :=
  joinStr (str "\n") ([str "# waxseal audit report", []] ++ chainLines report.chain
    ++ completenessLines report.chain ++ inventoryLines report ++ decisionLines report
    ++ incidentLines report ++ interventionLines report
    ++ [[], str "## Sidecar checks", [],
      str "- Anchors: " ++ summaryText report.anchors,
      str "- Attestations: " ++ summaryText none,
      str "- Receipts: " ++ receiptsText report.receipts,
      str "- Pin: " ++ summaryText report.pin]
    ++ witnessLines report.witnesses
    ++ [[], str "## Separation", [],
      match report.declaredTopology with
      | none => str ("- τ (separation degree): **not declared** — two deployments with "
          ++ "identical cryptography and different τ are not comparably secure, "
          ++ "and this trail's pin carries no `declared_topology` to measure it from")
      | some topology => str "- τ (separation degree): **" ++ strInt (separationDegree topology)
          ++ str "** (" ++ renderCountedAuthorities (countedAuthorities topology) ++ str ")",
      [], str "## Scope", [], scopeStatement]) ++ str "\n"

end Waxseal
