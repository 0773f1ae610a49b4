import Waxseal.Cli.Pin
import Waxseal.Domain.Report

/-!
# `waxseal verify` and `waxseal report`

`cli/verify.py` and `cli/report.py`: two drivers over the same checks.  They read the trail,
measure the other dimensions, and check the pin; each joins the verdicts in an order of its own.
Between the checks and the exit code a report reads every decision, incident and intervention on
the trail and prints the document.

What `verify` prints is left out: a run of it is only looked at where it finishes.
-/

namespace Waxseal

/-! ## What a run meets -/

/-- `_Check.verdict`. -/
def SidecarCheck.verdict (check : SidecarCheck) : Verdict :=
  if check.ok then if check.unverifiable then .unverifiable else .ok else .broken

/-- `_witness_exit_code(verdicts)`. -/
def witnessVerdict (verdicts : List WitnessVerdict) : Verdict :=
  if verdicts.any fun verdict => verdict.status = .inconsistent then .broken
  else if verdicts.any fun verdict => verdict.status = .unreachable then .unverifiable
  else .ok

/-- What `_observe` returns. -/
structure Measured where
  anchorCheck : Option SidecarCheck
  anchorSinks : Option ℤ
  anchorRecords : Option (List AnchorRecord)
  anchorUnreadable : Option Bool
  witnessVerdicts : Option (List WitnessVerdict)
  ledgerCheck : Option SidecarCheck

/-- What the pin check sees of it. -/
def Measured.observed (measured : Measured) : Observed where
  anchorCheck := measured.anchorCheck.map SidecarCheck.verdict
  anchorSinks := measured.anchorSinks
  anchorRecords := measured.anchorRecords
  anchorUnreadable := measured.anchorUnreadable
  witnessVerdict := measured.witnessVerdicts.map witnessVerdict
  -- `_observed_witness_consistent`
  witnessConsistent := measured.witnessVerdicts.map fun verdicts =>
    verdicts.any fun verdict => verdict.status = .consistent
  ledgerCheck := measured.ledgerCheck.map SidecarCheck.verdict
  -- `_observed_ledger_ok`
  ledgerOk := measured.ledgerCheck.map fun check => check.verdict = .ok

/-- The reasons a pin check reports, as it spells them. -/
def PinReason.code : PinReason → PyStr
  | .malformedPin => str "malformed_pin"
  | .pinBeyondHead => str "pin_beyond_head"
  | .pinMismatch => str "pin_mismatch"
  | .pinTargetMismatch => str "pin_target_mismatch"
  | .pinVersionUnknown => str "pin_version_unknown"
  | .trustOnFirstUse => str "trust_on_first_use"
  | .emptyTrailNotPinned => str "empty_trail_not_pinned"
  | .anchorStale => str "anchor_stale"
  | .anchorTimestampUnparseable => str "anchor_timestamp_unparseable"
  | .anchorPolicyDowngrade => str "anchor_policy_downgrade"
  | .anchorBindingUnreadable => str "anchor_binding_unreadable"
  | .ledgerShortfall => str "ledger_shortfall"
  | .separationShortfall => str "separation_shortfall"

/-- The summary of a pin check, as a report shows it. -/
def CheckSummary.sidecar (summary : CheckSummary) : SidecarCheck :=
  ⟨summary.ok, summary.checked, summary.reason.map PinReason.code, summary.unverifiable, [], []⟩

/-- The options of `--pin`. -/
structure PinOptions where
  target : PyStr
  chainId : Option PyStr
  now : PyStr
  age : PyStr → Option ℚ
  declareExpectAnchorBinding : Bool
  declareMaxAnchorAgeS : Option ℤ
  declareTopology : Option SeparationTopology
  /-- The pin file, or the failure to open it. -/
  file : Except RunError (Option Bytes)
  /-- Replacing the pin file fails. -/
  replace : Option RunError

/-- Where the trail is: only a path has sidecars. -/
inductive CheckPlace where
  | url
  | missingPath
  | path (drops : Except RunError (Option ℕ)) (receipts : Except RunError SidecarCheck)

/-- What a run of either command meets: its options, the clock, the network and the files. -/
structure CheckRun where
  place : CheckPlace
  /-- Reading the trail. -/
  read : Except RunError (List Entry)
  /-- `_observe`. -/
  observe : Except RunError Measured
  pin : Option PinOptions

/-- What a run has read before it joins the verdicts. -/
structure CheckSeen where
  entries : List Entry
  chain : VerifyResult
  measured : Measured
  pinned : Option (CheckSummary × Option PinState)
  drops : Option ℕ
  receipts : SidecarCheck

/-- The pin that may be saved. -/
def CheckSeen.pending (seen : CheckSeen) : Option PinState := seen.pinned.bind Prod.snd

/-- An exit code, and the pin that was saved. -/
abbrev CheckOutcome := ℕ × Option PinState

namespace CheckRun

/-- `read_drop_count(trail)`. -/
def drops (run : CheckRun) : Except RunError (Option ℕ) :=
  match run.place with
  | .path drops _ => drops
  | .url | .missingPath => .ok none

/-- `_receipts_check(log, trail)`. -/
def receipts (run : CheckRun) : Except RunError SidecarCheck :=
  match run.place with
  | .path _ receipts => receipts
  | .url | .missingPath => .ok ⟨true, 0, some receiptsNotRecordedReason, false, [], []⟩

/-- An exception that is neither an `OSError` nor a `RemoteError`. -/
def raising {α : Type} (x : Except PyErr α) : Except RunError α := x.mapError fun _ => .other

/-- `_combine(codes)`. -/
def combine (verdicts : List Verdict) : Verdict := verdicts.foldl Verdict.join .ok

/-- Save the pin, unless the run is broken. -/
def save (run : CheckRun) (verdict : Verdict) (pending : Option PinState) :
    Except RunError CheckOutcome :=
  match pending, run.pin.bind PinOptions.replace with
  | none, _ => .ok (verdict.toExitCode, none)
  | some state, fault =>
      if verdict.toExitCode = 1 then .ok (1, none)
      else
        match fault with
        | some e => .error e
        | none => .ok (verdict.toExitCode, some state)

variable [Interpreter] [Hashlib]

/-- `observed.pin_check(...)`, with `--pin`. -/
def pinCheck (run : CheckRun) (entries : List Entry) (measured : Measured) :
    Except RunError (Option (CheckSummary × Option PinState)) :=
  match run.pin with
  | none => .ok none
  | some options => do
      let file ← options.file
      let request : PinRequest := {
        target := options.target
        chainId := options.chainId
        now := options.now
        age := options.age
        observed := measured.observed
        declareExpectAnchorBinding := options.declareExpectAnchorBinding
        declareMaxAnchorAgeS := options.declareMaxAnchorAgeS
        declareTopology := options.declareTopology
        hashes := entries.map Entry.entryHash }
      some <$> raising (request.pinCheck (FilePinStore.load file))

/-- The checks of `_verify`, in the order it makes them. -/
def verifyChecks (run : CheckRun) : Except RunError CheckSeen := do
  let entries ← run.read
  let chain ← raising (verifyChain entries .new)
  let drops ← run.drops
  let measured ← run.observe
  let pinned ← run.pinCheck entries measured
  let receipts ← run.receipts
  return { entries, chain, measured, pinned, drops, receipts }

/-- The codes `_verify` combines. -/
def verifyVerdict (seen : CheckSeen) : Verdict :=
  combine ([.ok, seen.chain.verdict] ++ (seen.pinned.map fun pin => pin.1.verdict).toList
    ++ (seen.measured.anchorCheck.map SidecarCheck.verdict).toList
    ++ (seen.measured.witnessVerdicts.map witnessVerdict).toList
    ++ (seen.measured.ledgerCheck.map SidecarCheck.verdict).toList ++ [seen.receipts.verdict])

/-- `_verify(...)`. -/
def verify (run : CheckRun) : Except RunError CheckOutcome := do
  let seen ← run.verifyChecks
  run.save (verifyVerdict seen) seen.pending

/-- The checks of `_report`, in the order it makes them. -/
def reportChecks (run : CheckRun) : Except RunError CheckSeen := do
  let entries ← run.read
  let chain ← raising (verifyChain entries .new)
  let measured ← run.observe
  let pinned ← run.pinCheck entries measured
  let drops ← run.drops
  let receipts ← run.receipts
  return { entries, chain, measured, pinned, drops, receipts }

/-- The codes `_report` combines. -/
def reportVerdict (seen : CheckSeen) : Verdict :=
  combine ([.ok, seen.chain.verdict] ++ (seen.measured.anchorCheck.map SidecarCheck.verdict).toList
    ++ (seen.pinned.map fun pin => pin.1.sidecar.verdict).toList ++ [seen.receipts.verdict]
    ++ (seen.measured.witnessVerdicts.map witnessVerdict).toList
    ++ (seen.measured.ledgerCheck.map SidecarCheck.verdict).toList)

end CheckRun

/-! ## The document -/

/-- How a report is presented: what it reads payloads with, `--json`, and the characters the
console can encode. -/
structure Presentation where
  py : PayloadReader
  asJson : Bool
  console : CodePoint → Bool

namespace CheckSeen

/-- The verdict on the chain, with the drops of the sidecar. -/
def counted (seen : CheckSeen) : VerifyResult :=
  match seen.drops with
  | none => seen.chain
  | some count => { seen.chain with droppedWrites := some count, dropsSource := some (str "sidecar") }

/-- What the document shows of the sidecars. -/
def summaries (seen : CheckSeen) : SidecarSummaries where
  anchors := seen.measured.anchorCheck
  pin := seen.pinned.map fun pin => pin.1.sidecar
  witnesses := seen.measured.witnessVerdicts
  receipts := seen.receipts
  declaredTopology := seen.pending.bind PinState.declaredTopology

/-- `build_report(...)` of what the run has seen. -/
def report (py : PayloadReader) (seen : CheckSeen) : Except PyErr AuditReport :=
  buildReport py seen.counted seen.entries seen.summaries

/-- What is printed without `--json`. -/
def text (seen : CheckSeen) (report : AuditReport) : PyStr :=
  report.toMarkdown
    ++ (seen.measured.ledgerCheck.elim [] fun check =>
      str "\n## Ledger\n\n" ++ check.line ++ str "\n")

/-- Build the document and print it.  The JSON document is ASCII, which every console takes. -/
def present (how : Presentation) (seen : CheckSeen) : Except PyErr Unit := do
  let report ← seen.report how.py
  if how.asJson ∨ (seen.text report).all how.console then return ()
  else .error .unicodeEncodeError

end CheckSeen

namespace CheckRun

variable [Interpreter] [Hashlib]

/-- `_report(...)`. -/
def report (how : Presentation) (run : CheckRun) : Except RunError CheckOutcome := do
  let seen ← run.reportChecks
  raising (seen.present how)
  run.save (reportVerdict seen) seen.pending

/-- `main`, around a command: `none` is an exception that ends the process. -/
def main (run : CheckRun) (command : Except RunError CheckOutcome) : Option CheckOutcome :=
  match run.place, command with
  | .missingPath, _ => some (3, none)
  | _, .ok outcome => some outcome
  | .url, .error .unreachable => some (3, none)
  | _, .error _ => none

/-- `waxseal verify`. -/
def mainVerify (run : CheckRun) : Option CheckOutcome := run.main run.verify

/-- `waxseal report`. -/
def mainReport (how : Presentation) (run : CheckRun) : Option CheckOutcome :=
  run.main (run.report how)

end CheckRun

end Waxseal
