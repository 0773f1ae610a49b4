import Waxseal.Domain.Pinning
import Waxseal.Domain.Verdict
import Waxseal.Domain.Verify

/-!
# `waxseal verify --pin` and `waxseal report --pin`

`cli/pin.py`, `cli/verify.py` and `cli/report.py`: one run reads the trail, takes its other
measurements, loads the pin, checks the trail against it, and saves a new pin unless
anything it measured is broken.
-/

namespace Waxseal

/-- `AnchorRecord`, as far as a pin check looks at it. -/
structure AnchorRecord where
  checkpoint : Checkpoint
  ts : PyStr

/-- `_Observed`: the verdicts of the dimensions a run was asked to measure, and what it saw
there.  `none` is "not measured". -/
structure Observed where
  anchorCheck : Option Verdict
  anchorSinks : Option ℤ
  anchorRecords : Option (List AnchorRecord)
  anchorUnreadable : Option Bool
  /-- `_witness_exit_code` of the verdicts. -/
  witnessVerdict : Option Verdict
  witnessConsistent : Option Bool
  ledgerCheck : Option Verdict
  ledgerOk : Option Bool

/-- What a pin check is asked. -/
structure PinRequest where
  target : PyStr
  chainId : Option PyStr
  /-- `now.isoformat()`. -/
  now : PyStr
  /-- How many seconds before `now` a timestamp is. -/
  age : PyStr → Option ℚ
  observed : Observed
  declareExpectAnchorBinding : Bool
  declareMaxAnchorAgeS : Option ℤ
  declareTopology : Option SeparationTopology
  hashes : List PyStr

/-- `CheckSummary`. -/
structure CheckSummary where
  ok : Bool
  checked : ℤ
  reason : Option PinReason
  unverifiable : Bool

/-- `_Check.verdict`. -/
def CheckSummary.verdict (summary : CheckSummary) : Verdict :=
  if summary.ok then if summary.unverifiable then .unverifiable else .ok else .broken

/-- A finding that is no break. -/
def CheckSummary.unverifiableAt (stored : PinState) (reason : PinReason) : CheckSummary :=
  ⟨true, stored.checkpoint.seq + 1, some reason, true⟩

/-- A break. -/
def CheckSummary.brokenFor (reason : PinReason) : CheckSummary := ⟨false, 0, some reason, false⟩

namespace PinRequest

/-- `effective_expect_anchor_binding`. -/
def effectiveExpectAnchorBinding (request : PinRequest) (stored : Option PinState) : Bool :=
  request.declareExpectAnchorBinding
    || (stored.map fun stored => stored.expectAnchorBinding).getD false

/-- `effective_max_anchor_age_s`. -/
def effectiveMaxAnchorAgeS (request : PinRequest) (stored : Option PinState) : Option ℤ :=
  match request.declareMaxAnchorAgeS with
  | some age => some age
  | none => stored.bind fun stored => stored.maxAnchorAgeS

/-- `effective_declared_topology`. -/
def effectiveDeclaredTopology (request : PinRequest) (stored : Option PinState) :
    Option SeparationTopology :=
  match request.declareTopology with
  | some topology => some topology
  | none => stored.bind fun stored => stored.declaredTopology

/-- The `PinState` that every branch which saves one builds. -/
def pinState (request : PinRequest) (stored : Option PinState) (head : Checkpoint) : PinState where
  target := request.target
  chainId := request.chainId
  checkpoint := head
  pinnedTs := request.now
  declaredTopology := request.effectiveDeclaredTopology stored
  maxAnchorAgeS := request.effectiveMaxAnchorAgeS stored
  expectAnchorBinding := request.effectiveExpectAnchorBinding stored

/-- The aggregate binding the pin expects. -/
def bindingFinding (request : PinRequest) (stored : PinState) : Option PinReason :=
  match request.observed.anchorRecords, request.observed.anchorUnreadable with
  | some records, some anyUnreadable =>
      if stored.expectAnchorBinding then
        anchorPolicyDowngrade stored.checkpoint.seq
          (records.map fun r => (r.checkpoint.seq, r.checkpoint.aggCommit)) anyUnreadable
      else none
  | _, _ => none

/-- The deadline the pin declares. -/
def stalenessFinding (request : PinRequest) (stored : PinState) : Option PinReason :=
  match stored.maxAnchorAgeS, request.observed.anchorRecords with
  | some maxAgeS, some records =>
      anchorStaleness request.age maxAgeS (records.map fun r => (r.checkpoint.seq, r.ts))
  | _, _ => none

/-- The ledger the pin declares. -/
def ledgerFinding (request : PinRequest) (stored : PinState) : Option PinReason :=
  match stored.declaredTopology, request.observed.ledgerOk with
  | some declared, some ok => if ledgerShortfall declared ok then some .ledgerShortfall else none
  | _, _ => none

/-- The anchor sinks and the witness the pin declares. -/
def separationFinding (request : PinRequest) (stored : PinState) : Option PinReason :=
  match stored.declaredTopology, request.observed.anchorSinks,
    request.observed.witnessConsistent with
  | some declared, some sinks, some consistent =>
      if separationShortfall declared sinks consistent then some .separationShortfall else none
  | _, _, _ => none

/-- What this run observed less of than the stored pin declares, in the order the comparisons
are made. -/
def shortfall (request : PinRequest) (stored : PinState) : Option PinReason :=
  request.bindingFinding stored <|> request.stalenessFinding stored
    <|> request.ledgerFinding stored <|> request.separationFinding stored

variable [Hashlib]

/-- `_pin_check`, on what loading the pin gives. -/
def pinCheck (request : PinRequest) (loaded : Except PinError (Option PinState)) :
    Except PyErr (CheckSummary × Option PinState) :=
  match loaded with
  | .error .versionUnknown => .ok (⟨true, 0, some .pinVersionUnknown, true⟩, none)
  | .error .malformed => .ok (.brokenFor .malformedPin, none)
  | .error (.other e) => .error e
  | .ok none =>
      if request.hashes = [] then .ok (⟨true, 0, some .emptyTrailNotPinned, false⟩, none)
      else do
        let head ← checkpointFor request.hashes none none none
        return (⟨true, 0, some .trustOnFirstUse, false⟩, some (request.pinState none head))
  | .ok (some stored) =>
      match checkPinTarget stored request.target request.chainId with
      | some reason => .ok (.brokenFor reason, none)
      | none =>
          match checkPin request.hashes stored.checkpoint with
          | some reason => .ok (.brokenFor reason, none)
          | none => do
              let head ← checkpointFor request.hashes none none none
              match request.shortfall stored with
              | some reason =>
                  return (.unverifiableAt stored reason,
                    some (request.pinState (some stored) head))
              | none =>
                  return (⟨true, stored.checkpoint.seq + 1, none, false⟩,
                    some (request.pinState (some stored) head))

end PinRequest

/-! ## A run -/

/-- An exception that ends a run: `OSError` or `RemoteError`, which `main` catches for a URL,
or any other. -/
inductive RunError where
  | unreachable
  | other

/-- What the trail is. -/
inductive TrailPlace where
  | url
  /-- A local path, which may not exist, and where `_receipts_check` and the other sidecars may
  fail. -/
  | path (present : Bool) (receipts : Except RunError Verdict)

/-- `verify` or `report`. -/
inductive PinCommand where
  | verify
  | report

/-- One run with `--pin`, and what it meets. -/
structure PinRun where
  command : PinCommand
  place : TrailPlace
  /-- Reading the trail. -/
  read : Except RunError (List Entry)
  /-- Measuring the other dimensions. -/
  observe : Except RunError Observed
  /-- Opening the pin file fails. -/
  openPin : Option RunError
  /-- Replacing the pin file fails. -/
  replacePin : Option RunError
  target : PyStr
  chainId : Option PyStr
  now : PyStr
  age : PyStr → Option ℚ
  declareExpectAnchorBinding : Bool
  declareMaxAnchorAgeS : Option ℤ
  declareTopology : Option SeparationTopology

/-- What came of a run. -/
structure PinResult where
  exitCode : ℕ
  /-- The entry hashes it read. -/
  hashes : List PyStr
  /-- The pin it found, if it could read one. -/
  found : Option PinState
  /-- The pin it saved. -/
  saved : Option PinState
  /-- The pin file before and after it. -/
  before : Option Bytes
  after : Option Bytes

/-- The verdict on the chain. -/
def VerifyResult.verdict (result : VerifyResult) : Verdict :=
  if result.ok then if result.unverifiable = [] then .ok else .unverifiable else .broken

namespace PinRun

/-- The exit code of a run that an exception ended. -/
def failCode (run : PinRun) : RunError → ℕ
  | .unreachable =>
      match run.place with
      | .url => 3
      | .path _ _ => 1
  | .other => 1

/-- The entry hashes the run reads. -/
def hashes (run : PinRun) : List PyStr :=
  match run.read with
  | .ok entries => entries.map Entry.entryHash
  | .error _ => []

/-- What the run asks `_pin_check`. -/
def request (run : PinRun) (observed : Observed) : PinRequest where
  target := run.target
  chainId := run.chainId
  now := run.now
  age := run.age
  observed := observed
  declareExpectAnchorBinding := run.declareExpectAnchorBinding
  declareMaxAnchorAgeS := run.declareMaxAnchorAgeS
  declareTopology := run.declareTopology
  hashes := run.hashes

/-- `_receipts_check`.  A URL has no sidecar. -/
def receipts (run : PinRun) : Except RunError Verdict :=
  match run.place with
  | .url => .ok .ok
  | .path _ receipts => receipts

/-- The exit codes of all dimensions, combined. -/
def combined (run : PinRun) (chain : VerifyResult) (observed : Observed) (pin : CheckSummary)
    (receipts : Verdict) : Verdict :=
  List.foldl Verdict.join .ok <|
    match run.command with
    | .verify =>
        [chain.verdict, pin.verdict] ++ observed.anchorCheck.toList
          ++ observed.witnessVerdict.toList ++ observed.ledgerCheck.toList ++ [receipts]
    | .report =>
        [chain.verdict] ++ observed.anchorCheck.toList ++ [pin.verdict, receipts]
          ++ observed.witnessVerdict.toList ++ observed.ledgerCheck.toList

variable [Hashlib]

/-- What a run measures before it opens the pin file. -/
def measure (run : PinRun) : Except RunError (VerifyResult × Observed) :=
  match run.read with
  | .error e => .error e
  | .ok entries =>
      match verifyChain entries .new with
      | .error _ => .error .other
      | .ok chain => run.observe.map fun observed => (chain, observed)

/-- The verdict of a run that has loaded the pin, and the pin it may save. -/
def judge (run : PinRun) (chain : VerifyResult) (observed : Observed)
    (loaded : Except PinError (Option PinState)) : Except RunError (Verdict × Option PinState) :=
  match (run.request observed).pinCheck loaded with
  | .error _ => .error .other
  | .ok (pin, pending) =>
      run.receipts.map fun receipts => (run.combined chain observed pin receipts, pending)

/-- A run that ends without saving. -/
def quit (run : PinRun) (file : Option Bytes) (found : Option PinState) (exitCode : ℕ) :
    PinResult :=
  ⟨exitCode, run.hashes, found, none, file, file⟩

variable [Interpreter]

/-- What a run does once the pin is loaded. -/
def conclude (run : PinRun) (file : Option Bytes) (chain : VerifyResult) (observed : Observed)
    (loaded : Except PinError (Option PinState)) : PinResult :=
  let found := loaded.toOption.join
  match run.judge chain observed loaded with
  | .error e => run.quit file found (run.failCode e)
  | .ok (verdict, none) => run.quit file found verdict.toExitCode
  | .ok (verdict, some pending) =>
      if verdict.toExitCode = 1 then run.quit file found 1
      else
        match run.replacePin with
        | some e => run.quit file found (run.failCode e)
        | none =>
            ⟨verdict.toExitCode, run.hashes, found, some pending, file,
              some (FilePinStore.save pending)⟩

/-- `_verify` or `_report`, on the pin file as it is. -/
def onTrail (run : PinRun) (file : Option Bytes) : PinResult :=
  match run.measure with
  | .error e => run.quit file none (run.failCode e)
  | .ok (chain, observed) =>
      match run.openPin with
      | some e => run.quit file none (run.failCode e)
      | none => run.conclude file chain observed (FilePinStore.load file)

/-- `main`, on the pin file as it is. -/
def exec (run : PinRun) (file : Option Bytes) : PinResult :=
  match run.place with
  | .path false _ => run.quit file none 3
  | _ => run.onTrail file

end PinRun

end Waxseal
