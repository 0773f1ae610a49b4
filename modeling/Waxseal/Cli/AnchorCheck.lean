import Waxseal.Adapters.Rfc3161Verify
import Waxseal.Cli.Report
import Waxseal.Domain.TimestampTokens
import Waxseal.Log.SealedHistory

/-!
# The check of the anchors

`_anchor_check` of `cli/_anchors.py`: every checkpoint of the sidecar against the trail, then the
receipts, then the signatures of the timestamp tokens where the operator named a bundle.

What is said to be broken was checked and found false, and nothing else is
(`anchorCheck_broken_iff`).  `Rfc3161AnchorSink` files a timestamp only if it attests the checkpoint
it was asked for, so what it filed is later found to do so: on a log that is only appended to the
check is ok, whatever the authorities returned (`anchorCheck_history`).
-/

namespace Waxseal

open Json

/-! ## Sinks -/

section Sinks

variable [Hashlib]

/-- `Rfc3161AnchorSink.anchor`.  `nonce` is what `nonce_fn` gives. -/
def rfc3161Anchor (describe : PyErr → PyStr) (url : PyStr) (transport : Transport)
    (nonce : Except SinkFailure (Option ℤ)) [Interpreter] (cp : Checkpoint) :
    Except SinkFailure SinkReceipt := do
  let frame ← (checkpointFrame cp).mapError fun e => SinkFailure.ofPyErr e (describe e)
  let nonce ← nonce
  let request ← (encodeTimestampReq frame nonce true).mapError fun e => .ofPyErr e (describe e)
  let response ← transport ⟨url, request⟩
  if response.status ≠ 200 then
    .error (.runtimeError (str "timestamp request to " ++ url ++ str " failed: HTTP "
      ++ strInt response.status))
  else
    match checkTimestampResp response.body frame nonce with
    | some reason => .error (.runtimeError (str "timestamp response from " ++ url
        ++ str " rejected: " ++ reason.text))
    | none => return ⟨some (encodeReceipt response.body), nonce⟩

end Sinks

/-! ## Receipts -/

/-- What the lines of a check are made with. -/
structure CheckTexts where
  /-- `repr` of a string. -/
  reprStr : PyStr → PyStr
  /-- `SignatureCheck.label`. -/
  label : SignatureCheck → PyStr

/-- The status of a `_ReceiptVerdict`. -/
inductive ReceiptStatus where
  | checked
  | broken
  | unverifiable
  | noted
  | absent
  deriving DecidableEq

/-- `_ReceiptVerdict`. -/
structure ReceiptVerdict where
  status : ReceiptStatus
  note : Option PyStr
  reason : Option PyStr

/-- `ots.RECEIPT_PREFIX`. -/
def otsPrefix : PyStr := str "ots:"

/-- `PENDING_NOTE`. -/
def pendingNote : PyStr :=
  str ("pending OpenTimestamps proof — opaque to this library by design, NOT checked here; "
    ++ "complete and verify it with `ots upgrade` / `ots verify`")

/-- A token this build cannot read. -/
def unreadableToken (seq reason : PyStr) : ReceiptVerdict where
  status := .unverifiable
  note := some (str "seq=" ++ seq ++ str ": RFC 3161 receipt is not readable by this build ("
    ++ reason ++ str ") — unverifiable by name, NOT evidence of tampering")
  reason := some reason

/-- `_RECEIPT_CHECKED_FALSE`. -/
def TokenReason.checkedFalse (reason : TokenReason) : Bool :=
  reason = .receiptImprintMismatch || reason = .nonceMismatch

section Check

variable [Hashlib] [Interpreter]

/-- What is said of a token that was laid against a checkpoint. -/
def tokenVerdict (seq : PyStr) : Except TokenReason TimestampToken → ReceiptVerdict
  | .ok token => {
      status := .checked
      note := some (str "seq=" ++ seq
        ++ str ": attested time (RFC 3161, structural only — signature NOT verified): "
        ++ token.genTimeIso)
      reason := none }
  | .error why =>
      if why.checkedFalse then {
        status := .broken
        note := some (str "seq=" ++ seq
          ++ str ": the RFC 3161 receipt attests different bytes than the record beside it ("
          ++ why.text ++ str ") — note the signature itself is still unverified here")
        reason := some why.text }
      else unreadableToken seq why.text

/-- `_receipt_verdict(record)`. -/
def receiptVerdict (texts : CheckTexts) (record : SidecarRecord) : Except PyErr ReceiptVerdict :=
  let seq := strInt record.checkpoint.seq
  match record.receipt with
  | none => .ok ⟨.absent, none, none⟩
  | some receipt =>
      if rfc3161Prefix.isPrefixOf receipt then
        match decodeReceipt receipt with
        | none => .ok (unreadableToken seq TokenReason.malformedToken.text)
        | some der => do
            let frame ← checkpointFrame record.checkpoint
            return tokenVerdict seq (readTimestampResp der frame record.nonce)
      else if otsPrefix.isPrefixOf receipt then
        .ok ⟨.noted, some (str "seq=" ++ seq ++ str ": " ++ pendingNote), none⟩
      else .ok {
        status := .unverifiable
        note := some (str "seq=" ++ seq ++ str ": receipt type "
          ++ texts.reprStr (receipt.takeWhile (· ≠ .ofChar ':'))
          ++ str " is unknown to this build — unverifiable by name, NOT evidence of tampering")
        reason := some (str "unknown_receipt_type") }

/-- The signatures of the tokens that can be read: the `seq` of the record, and the answer. -/
def signatureChecks [Cryptography] (installed : Bool) (caFile : Option (Except PyErr Bytes))
    (records : List SidecarRecord) : List (ℤ × SignatureCheck) :=
  records.filterMap fun record =>
    (record.receipt.bind decodeReceipt).map fun der =>
      (record.checkpoint.seq, verifyTokenSignature installed caFile der)

/-! ## The check -/

/-- What the check has come to, before the line of an ok one is put together. -/
inductive AnchorFinding where
  | malformed
  | noAnchors
  | contradicted (seq : ℤ) (reason : CheckpointReason)
  | receiptBroken (checked : ℕ) (verdict : ReceiptVerdict)
  | signatureBroken (checked : ℕ) (notes : List PyStr) (label : PyStr)
  | passed (sidecar : AnchorSidecar) (receipts : List ReceiptVerdict)
      (signatures : List (ℤ × SignatureCheck))

/-- The first record the trail contradicts. -/
def firstContradicted (hashes : List PyStr) :
    List SidecarRecord → Option (ℤ × CheckpointReason)
  | [] => none
  | record :: records =>
      match verifyCheckpoint hashes record.checkpoint with
      | some reason => some (record.checkpoint.seq, reason)
      | none => firstContradicted hashes records

/-- The notes on the signatures. -/
def signatureNotes (texts : CheckTexts) (engaged : Bool) (checks : List (ℤ × SignatureCheck)) :
    List PyStr :=
  if engaged then
    checks.map fun c => str "seq=" ++ strInt c.1 ++ str ": " ++ texts.label c.2
  else
    match checks with
    | [] => []
    | (_, first) :: _ =>
        [strNat checks.length ++ str " RFC 3161 receipt(s): " ++ texts.label first]

/-- The join of the verdicts of the signatures. -/
def signatureVerdict (engaged : Bool) (checks : List (ℤ × SignatureCheck)) : Verdict :=
  if engaged then checks.foldl (fun verdict c => verdict.join c.2.verdict) .ok else .ok

/-- The check, up to its line. -/
def anchorFinding [Cryptography] (texts : CheckTexts) (installed : Bool) (file : Option Bytes)
    (hashes : Except PyErr (List PyStr)) (caFile : Option (Except PyErr Bytes)) :
    Except PyErr AnchorFinding := do
  match ← orMalformed (readAnchorRecords file) with
  | none => return .malformed
  | some sidecar =>
      if sidecar.records.isEmpty && sidecar.unreadableVersions.isEmpty then return .noAnchors
      match firstContradicted (← hashes) sidecar.records with
      | some (seq, reason) => return .contradicted seq reason
      | none => do
          let receipts ← sidecar.records.mapM (receiptVerdict texts)
          match receipts.find? (·.status = .broken) with
          | some verdict => return .receiptBroken sidecar.records.length verdict
          | none =>
              let checks := signatureChecks installed caFile sidecar.records
              if signatureVerdict caFile.isSome checks = .broken then
                let notes := receipts.filterMap ReceiptVerdict.note
                  ++ signatureNotes texts caFile.isSome checks
                let first := (checks.find? fun c => c.2.verdict = .broken).map Prod.snd
                return .signatureBroken sidecar.records.length notes
                  ((first.map texts.label).getD [])
              return .passed sidecar receipts checks

/-- The notes on what is not checked here: the bindings, and the versions that cannot be read. -/
def coverageNotes (sidecar : AnchorSidecar) : List PyStr :=
  let bound := sidecar.records.countP SidecarRecord.isBound
  let versions := sidecar.unreadableVersions
  (if bound = 0 then [] else
    [strNat bound ++ str (" record(s) carry a forward-secure aggregate binding, NOT checked "
      ++ "here (no seal key available to the CLI — use AuditLog.verify_anchored_aggregates)")])
  ++ (if versions = [] then [] else
    [strNat versions.length ++ str " record(s) in an unreadable format version ("
      ++ joinStr (str ", ") (versions.dedup.mergeSort fun a b => a ≤ b)
      ++ str ") — unverifiable by name, NOT evidence of tampering"])

/-- The line of an ok check, with its notes. -/
def anchorsLine (sidecar : AnchorSidecar) (notes : List PyStr) : PyStr :=
  (match sidecar.records.getLast? with
    | some latest => str "anchors ok (checked=" ++ strNat sidecar.records.length
        ++ str ", latest=seq " ++ strInt latest.checkpoint.seq ++ str ")"
    | none => str "no readable anchors found (anchor coverage unmeasured)")
  ++ notes.flatMap fun note => str "\n  note: " ++ note

/-- The reason an ok check gives for what it does not cover. -/
def coverageReason (caFile : Option (Except PyErr Bytes)) (sidecar : AnchorSidecar)
    (receipts : List ReceiptVerdict) (checks : List (ℤ × SignatureCheck)) : Option PyStr :=
  if sidecar.unreadableVersions ≠ [] then some (str "unreadable_record_version")
  else
    match receipts.find? (·.status = .unverifiable) with
    | some verdict => verdict.reason
    | none =>
        if signatureVerdict caFile.isSome checks = .unverifiable then
          some (str "signature_unchecked")
        else none

/-- The `_Check` of a finding. -/
def AnchorFinding.check (texts : CheckTexts) (caFile : Option (Except PyErr Bytes)) :
    AnchorFinding → SidecarCheck
  | .malformed => ⟨false, 0, some (str "malformed_anchor"), false, [],
      str "ANCHOR BROKEN: malformed_anchor"⟩
  | .noAnchors => ⟨true, 0, some (str "no_anchors_recorded"), false, [],
      str "no anchors found (anchor coverage unmeasured)"⟩
  | .contradicted seq reason => ⟨false, 0, some reason.code, false, [],
      str "ANCHOR BROKEN at seq=" ++ strInt seq ++ str ": " ++ reason.code⟩
  | .receiptBroken checked verdict => ⟨false, checked, verdict.reason, false, [],
      str "ANCHOR BROKEN: " ++ verdict.note.getD []⟩
  | .signatureBroken checked notes label => ⟨false, checked, some (str "signature_invalid"), false,
      notes, str "ANCHOR BROKEN: " ++ label⟩
  | .passed sidecar receipts checks =>
      let notes := receipts.filterMap ReceiptVerdict.note
        ++ signatureNotes texts caFile.isSome checks ++ coverageNotes sidecar
      let verdict := signatureVerdict caFile.isSome checks
      { ok := true
        checked := sidecar.records.length
        reason := coverageReason caFile sidecar receipts checks
        unverifiable := sidecar.unreadableVersions ≠ []
          || receipts.any (·.status = .unverifiable) || verdict = .unverifiable
        notes := notes
        line := anchorsLine sidecar notes }

/-- `_anchor_check(log, trail, tsa_ca_file=...)`. -/
def anchorCheck [Cryptography] (texts : CheckTexts) (installed : Bool) (file : Option Bytes)
    (hashes : Except PyErr (List PyStr)) (caFile : Option (Except PyErr Bytes)) :
    Except PyErr SidecarCheck :=
  (AnchorFinding.check texts caFile) <$> anchorFinding texts installed file hashes caFile

/-! ## What is broken -/

variable {texts : CheckTexts} {r : SidecarRecord} {hashes : List PyStr}

/-- A record that was checked and is false: the trail contradicts its checkpoint, or its token is
readable and attests other bytes or answers another request. -/
inductive Refuted (hashes : List PyStr) (r : SidecarRecord) : Prop where
  | checkpoint (reason : CheckpointReason) (h : verifyCheckpoint hashes r.checkpoint = some reason)
  | token (der frame : Bytes) (status : ℤ) (token : TimestampToken)
      (hder : r.receipt.bind decodeReceipt = some der)
      (hframe : checkpointFrame r.checkpoint = .ok frame)
      (hparse : parseTimestampResp der = .ok ⟨status, some token⟩)
      (hgranted : status = 0 ∨ status = 1) (halgorithm : token.digestAlgorithm = sha256Oid)
      (hfalse : token.imprint ≠ (sha256 frame).val ∨ ∃ n ∈ r.nonce, token.nonce ≠ some n)

/-- A record with a token whose signature was checked and does not hold. -/
def SignatureRefuted [Cryptography] (installed : Bool) (caFile : Option (Except PyErr Bytes))
    (r : SidecarRecord) : Prop :=
  ∃ der label, r.receipt.bind decodeReceipt = some der ∧
    verifyTokenSignature installed caFile der = .invalid label

omit [Interpreter] in
theorem firstContradicted_eq_none_iff {records : List SidecarRecord} :
    firstContradicted hashes records = none ↔
      ∀ r ∈ records, verifyCheckpoint hashes r.checkpoint = none := by
  induction records with
  | nil => exact ⟨fun _ => List.forall_mem_nil _, fun _ => rfl⟩
  | cons r records ih =>
      rw [List.forall_mem_cons, firstContradicted]
      cases hverify : verifyCheckpoint hashes r.checkpoint with
      | some reason => exact ⟨nofun, fun h => nomatch h.1⟩
      | none => exact ih.trans ⟨fun h => ⟨rfl, h⟩, fun h => h.2⟩

omit [Hashlib] [Interpreter] in
/-- A receipt that can be read is of a timestamp. -/
theorem isPrefixOf_of_decodeReceipt {receipt : PyStr} {der : Bytes}
    (h : decodeReceipt receipt = some der) : rfc3161Prefix.isPrefixOf receipt = true := by
  unfold decodeReceipt at h
  by_contra hfront
  rw [if_neg hfront] at h
  cases h

/-- **When a token was checked and is false.** -/
theorem readTimestampResp_checkedFalse_iff {der message : Bytes} {nonce : Option ℤ} :
    (∃ why, readTimestampResp der message nonce = .error why ∧ why.checkedFalse = true) ↔
      ∃ status token, parseTimestampResp der = .ok ⟨status, some token⟩ ∧
        (status = 0 ∨ status = 1) ∧ token.digestAlgorithm = sha256Oid ∧
        (token.imprint ≠ (sha256 message).val ∨ ∃ n ∈ nonce, token.nonce ≠ some n) := by
  unfold readTimestampResp
  rcases hparse : parseTimestampResp der with e | ⟨status, _ | token⟩
  · constructor
    · rintro ⟨why, h, hfalse⟩
      obtain rfl := Except.error.inj h
      cases hfalse
    · rintro ⟨_, _, h, -⟩
      cases h
  · constructor
    · rintro ⟨why, h, hfalse⟩
      dsimp only at h
      split_ifs at h
      · obtain rfl := Except.error.inj h
        cases hfalse
      · obtain rfl := Except.error.inj h
        cases hfalse
    · rintro ⟨_, _, h, -⟩
      cases h
  · have hnonce : (nonce.isSome = true ∧ token.nonce ≠ nonce) ↔ ∃ n ∈ nonce, token.nonce ≠ some n := by
      constructor
      · rintro ⟨hsome, hne⟩
        obtain ⟨n, rfl⟩ := Option.isSome_iff_exists.mp hsome
        exact ⟨n, rfl, hne⟩
      · rintro ⟨n, rfl, hne⟩
        exact ⟨rfl, hne⟩
    constructor
    · rintro ⟨why, h, hfalse⟩
      refine ⟨status, token, rfl, ?_⟩
      dsimp only at h
      split_ifs at h with hstatus halgorithm himprint hother
      · obtain rfl := Except.error.inj h
        cases hfalse
      · obtain rfl := Except.error.inj h
        cases hfalse
      · exact ⟨by omega, not_not.mp halgorithm, .inl himprint⟩
      · exact ⟨by omega, not_not.mp halgorithm, .inr (hnonce.mp hother)⟩
    · rintro ⟨status', token', h, hstatus, halgorithm, hfalse⟩
      obtain ⟨rfl, rfl⟩ : status = status' ∧ token = token' := by simpa using Except.ok.inj h
      dsimp only
      rw [if_neg (by omega), if_neg (not_not.mpr halgorithm)]
      by_cases himprint : token.imprint = (sha256 message).val
      · have hother := hnonce.mpr (hfalse.resolve_left (not_not.mpr himprint))
        rw [if_neg (not_not.mpr himprint), if_pos hother]
        exact ⟨_, rfl, rfl⟩
      · rw [if_pos himprint]
        exact ⟨_, rfl, rfl⟩

/-- A receipt is found broken only as a token that is false. -/
theorem receiptVerdict_broken_iff {v : ReceiptVerdict} (h : receiptVerdict texts r = .ok v) :
    v.status = .broken ↔ ∃ der frame, r.receipt.bind decodeReceipt = some der ∧
      checkpointFrame r.checkpoint = .ok frame ∧
      ∃ why, readTimestampResp der frame r.nonce = .error why ∧ why.checkedFalse = true := by
  unfold receiptVerdict at h
  cases hreceipt : r.receipt with
  | none =>
      rw [hreceipt] at h
      obtain rfl := Except.ok.inj h
      exact ⟨nofun, fun ⟨_, _, h, _⟩ => nomatch h⟩
  | some receipt =>
      rw [hreceipt] at h
      dsimp only [Option.bind_some] at h ⊢
      cases hder : decodeReceipt receipt with
      | none =>
          -- nothing was laid against the checkpoint
          have hstatus : v.status ≠ .broken := by
            rw [hder] at h
            split_ifs at h
            all_goals
              obtain rfl := Except.ok.inj h
              exact nofun
          exact ⟨fun hbroken => absurd hbroken hstatus, fun ⟨_, _, h, _⟩ => nomatch h⟩
      | some der =>
          rw [if_pos (isPrefixOf_of_decodeReceipt hder), hder] at h
          obtain ⟨frame, hframe, h⟩ := bind_eq_ok_iff.mp h
          obtain rfl := Except.ok.inj h
          have hverdict : (tokenVerdict (strInt r.checkpoint.seq)
              (readTimestampResp der frame r.nonce)).status = .broken ↔
                ∃ why, readTimestampResp der frame r.nonce = .error why ∧ why.checkedFalse = true := by
            cases hread : readTimestampResp der frame r.nonce with
            | ok token => exact ⟨nofun, fun ⟨_, h, _⟩ => nomatch h⟩
            | error why =>
                rw [tokenVerdict]
                split_ifs with hfalse
                · exact ⟨fun _ => ⟨why, rfl, hfalse⟩, fun _ => rfl⟩
                · refine ⟨nofun, ?_⟩
                  rintro ⟨_, h, htrue⟩
                  obtain rfl := Except.error.inj h
                  exact absurd htrue hfalse
          rw [hverdict]
          constructor
          · intro hwhy
            exact ⟨der, frame, rfl, hframe, hwhy⟩
          · rintro ⟨der', frame', hder', hframe', hwhy⟩
            obtain rfl := Option.some.inj hder'
            obtain rfl := Except.ok.inj (hframe.symm.trans hframe')
            exact hwhy

/-- A record is refuted by the trail, or by its receipt. -/
theorem refuted_iff {v : ReceiptVerdict} (h : receiptVerdict texts r = .ok v) :
    Refuted hashes r ↔ verifyCheckpoint hashes r.checkpoint ≠ none ∨ v.status = .broken := by
  rw [receiptVerdict_broken_iff h]
  constructor
  · rintro (⟨reason, hverify⟩ | ⟨der, frame, status, token, hder, hframe, hparse, hgranted,
      halgorithm, hfalse⟩)
    · exact .inl (by rw [hverify]; exact nofun)
    · exact .inr ⟨der, frame, hder, hframe, readTimestampResp_checkedFalse_iff.mpr
        ⟨status, token, hparse, hgranted, halgorithm, hfalse⟩⟩
  · rintro (hverify | ⟨der, frame, hder, hframe, hwhy⟩)
    · obtain ⟨reason, hverify⟩ := Option.ne_none_iff_exists'.mp hverify
      exact .checkpoint reason hverify
    · obtain ⟨status, token, hparse, hgranted, halgorithm, hfalse⟩ :=
        readTimestampResp_checkedFalse_iff.mp hwhy
      exact .token der frame status token hder hframe hparse hgranted halgorithm hfalse

/-! ## The check as a whole -/

variable [Cryptography] {installed : Bool} {caFile : Option (Except PyErr Bytes)} {file : Option Bytes}
  {finding : AnchorFinding}

/-- Where a check ends: the steps that were passed, and what the next one found. -/
inductive EndsAt (texts : CheckTexts) (installed : Bool) (file : Option Bytes) (hashes : List PyStr)
    (caFile : Option (Except PyErr Bytes)) : AnchorFinding → Prop where
  | malformed (h : orMalformed (readAnchorRecords file) = .ok none) :
      EndsAt texts installed file hashes caFile .malformed
  | noAnchors (h : readAnchorRecords file = .ok ⟨[], []⟩) :
      EndsAt texts installed file hashes caFile .noAnchors
  | contradicted (sidecar : AnchorSidecar) (seq : ℤ) (reason : CheckpointReason)
      (hread : readAnchorRecords file = .ok sidecar)
      (hfirst : firstContradicted hashes sidecar.records = some (seq, reason)) :
      EndsAt texts installed file hashes caFile (.contradicted seq reason)
  | receiptBroken (sidecar : AnchorSidecar) (receipts : List ReceiptVerdict) (v : ReceiptVerdict)
      (hread : readAnchorRecords file = .ok sidecar)
      (hreceipts : sidecar.records.mapM (receiptVerdict texts) = .ok receipts)
      (hmem : v ∈ receipts) (hbroken : v.status = .broken) :
      EndsAt texts installed file hashes caFile (.receiptBroken sidecar.records.length v)
  | signatureBroken (sidecar : AnchorSidecar) (notes : List PyStr) (label : PyStr)
      (hread : readAnchorRecords file = .ok sidecar)
      (hbroken : signatureVerdict caFile.isSome (signatureChecks installed caFile sidecar.records) =
        .broken) :
      EndsAt texts installed file hashes caFile (.signatureBroken sidecar.records.length notes label)
  | passed (sidecar : AnchorSidecar) (receipts : List ReceiptVerdict)
      (hread : readAnchorRecords file = .ok sidecar)
      (hfirst : firstContradicted hashes sidecar.records = none)
      (hreceipts : sidecar.records.mapM (receiptVerdict texts) = .ok receipts)
      (hnone : ∀ v ∈ receipts, v.status ≠ .broken)
      (hsigned : signatureVerdict caFile.isSome (signatureChecks installed caFile sidecar.records) ≠
        .broken) :
      EndsAt texts installed file hashes caFile
        (.passed sidecar receipts (signatureChecks installed caFile sidecar.records))

/-- **Every check that returns ends at one of these.** -/
theorem endsAt_of_anchorFinding
    (h : anchorFinding texts installed file (.ok hashes) caFile = .ok finding) :
    EndsAt texts installed file hashes caFile finding := by
  obtain ⟨read, hread, h⟩ := bind_eq_ok_iff.mp h
  cases read with
  | none =>
      obtain rfl := Except.ok.inj h
      exact .malformed hread
  | some sidecar =>
      have hsidecar := orMalformed_eq_ok_some_iff.mp hread
      dsimp only at h
      by_cases hempty : (sidecar.records.isEmpty && sidecar.unreadableVersions.isEmpty) = true
      · rw [if_pos hempty] at h
        obtain rfl := Except.ok.inj h
        obtain ⟨records, versions⟩ := sidecar
        obtain ⟨rfl, rfl⟩ : records = [] ∧ versions = [] := by simpa using hempty
        exact .noAnchors hsidecar
      · rw [if_neg hempty] at h
        obtain ⟨_, hhashes, h⟩ := bind_eq_ok_iff.mp h
        obtain rfl := Except.ok.inj hhashes
        cases hfirst : firstContradicted hashes sidecar.records with
        | some found =>
            obtain ⟨seq, reason⟩ := found
            rw [hfirst] at h
            obtain rfl := Except.ok.inj h
            exact .contradicted sidecar seq reason hsidecar hfirst
        | none =>
            rw [hfirst] at h
            obtain ⟨receipts, hreceipts, h⟩ := bind_eq_ok_iff.mp h
            cases hfind : receipts.find? (·.status = .broken) with
            | some v =>
                rw [hfind] at h
                obtain rfl := Except.ok.inj h
                have hstatus := List.find?_some hfind
                exact .receiptBroken sidecar receipts v hsidecar hreceipts
                  (List.mem_of_find?_eq_some hfind) (of_decide_eq_true hstatus)
            | none =>
                rw [hfind] at h
                dsimp only at h
                split_ifs at h with hbroken
                · obtain rfl := Except.ok.inj h
                  exact .signatureBroken sidecar _ _ hsidecar hbroken
                · obtain rfl := Except.ok.inj h
                  refine .passed sidecar receipts hsidecar hfirst hreceipts ?_ hbroken
                  intro v hv
                  simpa using List.find?_eq_none.mp hfind v hv

/-- What a check says is what it ends at. -/
theorem endsAt_of_anchorCheck {check : SidecarCheck}
    (h : anchorCheck texts installed file (.ok hashes) caFile = .ok check) :
    ∃ finding, EndsAt texts installed file hashes caFile finding ∧
      finding.check texts caFile = check := by
  unfold anchorCheck at h
  rcases hfinding : anchorFinding texts installed file (.ok hashes) caFile with e | finding
  · rw [hfinding] at h
    cases h
  · rw [hfinding] at h
    exact ⟨finding, endsAt_of_anchorFinding hfinding, Except.ok.inj h⟩

/-- A check that can frame its checkpoints returns. -/
theorem exists_anchorCheck (texts : CheckTexts) (installed : Bool) (hashes : List PyStr)
    (caFile : Option (Except PyErr Bytes)) {sidecar : AnchorSidecar}
    (hread : readAnchorRecords file = .ok sidecar)
    (hreceipts : ∀ r ∈ sidecar.records, ∃ v, receiptVerdict texts r = .ok v) :
    ∃ check, anchorCheck texts installed file (.ok hashes) caFile = .ok check := by
  obtain ⟨receipts, hreceipts⟩ := isOk_mapM.mpr hreceipts
  unfold anchorCheck anchorFinding
  rw [hread, orMalformed]
  simp only [bind, Except.bind, pure, Except.pure, hreceipts]
  split_ifs
  · exact ⟨_, rfl⟩
  all_goals
    cases firstContradicted hashes sidecar.records with
    | some found => exact ⟨_, rfl⟩
    | none => cases receipts.find? (·.status = .broken) <;> exact ⟨_, rfl⟩

omit [Hashlib] [Interpreter] [Cryptography] in
/-- The results of a loop are those of its calls. -/
theorem mem_mapM_iff {α β : Type} {f : α → Except PyErr β} {xs : List α} {ys : List β}
    (h : xs.mapM f = .ok ys) {y : β} : y ∈ ys ↔ ∃ x ∈ xs, f x = .ok y := by
  induction xs generalizing ys with
  | nil =>
      obtain rfl := Except.ok.inj h
      exact ⟨nofun, fun ⟨_, hx, _⟩ => nomatch hx⟩
  | cons x xs ih =>
      rw [List.mapM_cons] at h
      obtain ⟨z, hz, h⟩ := bind_eq_ok_iff.mp h
      obtain ⟨zs, hzs, h⟩ := bind_eq_ok_iff.mp h
      obtain rfl := Except.ok.inj h
      rw [List.mem_cons, ih hzs, List.exists_mem_cons_iff, hz, Except.ok.injEq, eq_comm]

/-- The signatures break the check when they are asked for and one of them does not hold. -/
theorem signatureVerdict_eq_broken_iff {records : List SidecarRecord} :
    signatureVerdict caFile.isSome (signatureChecks installed caFile records) = .broken ↔
      caFile.isSome = true ∧ ∃ r ∈ records, SignatureRefuted installed caFile r := by
  have hverdict : ∀ check : SignatureCheck,
      check.verdict = .broken ↔ ∃ label, check = .invalid label := by
    intro check
    cases check with
    | valid => exact ⟨nofun, fun ⟨_, h⟩ => nomatch h⟩
    | invalid label => exact ⟨fun _ => ⟨label, rfl⟩, fun _ => rfl⟩
    | unchecked label => exact ⟨nofun, fun ⟨_, h⟩ => nomatch h⟩
  unfold signatureVerdict
  split_ifs with hengaged
  · rw [← List.foldl_map (f := fun c : ℤ × SignatureCheck => c.2.verdict) (g := Verdict.join),
      Verdict.foldl_join_eq_broken, List.mem_map]
    constructor
    · rintro (h | ⟨c, hc, hbroken⟩)
      · cases h
      · obtain ⟨r, hr, hmap⟩ := List.mem_filterMap.mp hc
        obtain ⟨der, hder, rfl⟩ := Option.map_eq_some_iff.mp hmap
        obtain ⟨label, hlabel⟩ := (hverdict _).mp hbroken
        exact ⟨hengaged, r, hr, der, label, hder, hlabel⟩
    · rintro ⟨-, r, hr, der, label, hder, hlabel⟩
      refine .inr ⟨(r.checkpoint.seq, verifyTokenSignature installed caFile der), ?_,
        (hverdict _).mpr ⟨label, hlabel⟩⟩
      exact List.mem_filterMap.mpr ⟨r, hr, by rw [hder]; rfl⟩
  · exact ⟨nofun, fun h => absurd h.1 hengaged⟩

/-- **The check breaks on what was checked and is false, and on nothing else**: records that cannot
be parsed, a checkpoint the trail contradicts, a token of other bytes or of another request, and,
where a bundle was named, a signature that does not hold.  What is absent, of another format or of
another version breaks nothing. -/
theorem anchorCheck_broken_iff {check : SidecarCheck}
    (h : anchorCheck texts installed file (.ok hashes) caFile = .ok check) :
    check.ok = false ↔ orMalformed (readAnchorRecords file) = .ok none ∨
      ∃ sidecar, readAnchorRecords file = .ok sidecar ∧ ∃ r ∈ sidecar.records,
        Refuted hashes r ∨ (caFile.isSome = true ∧ SignatureRefuted installed caFile r) := by
  obtain ⟨finding, hfinding, rfl⟩ := endsAt_of_anchorCheck h
  have hreads : ∀ {sidecar}, readAnchorRecords file = .ok sidecar →
      orMalformed (readAnchorRecords file) ≠ .ok none := by
    intro sidecar hread
    rw [hread]
    exact nofun
  cases hfinding with
  | malformed hmalformed => exact ⟨fun _ => .inl hmalformed, fun _ => rfl⟩
  | noAnchors hread =>
      refine ⟨nofun, ?_⟩
      rintro (hmalformed | ⟨sidecar, hsidecar, r, hr, -⟩)
      · exact absurd hmalformed (hreads hread)
      · obtain rfl := Except.ok.inj (hread.symm.trans hsidecar)
        cases hr
  | contradicted sidecar seq reason hread hfirst =>
      refine ⟨fun _ => .inr ⟨sidecar, hread, ?_⟩, fun _ => rfl⟩
      have hne : ¬ ∀ r ∈ sidecar.records, verifyCheckpoint hashes r.checkpoint = none := by
        rw [← firstContradicted_eq_none_iff, hfirst]
        exact nofun
      push Not at hne
      obtain ⟨r, hr, hverify⟩ := hne
      obtain ⟨reason, hverify⟩ := Option.ne_none_iff_exists'.mp hverify
      exact ⟨r, hr, .inl (.checkpoint reason hverify)⟩
  | receiptBroken sidecar receipts v hread hreceipts hmem hbroken =>
      refine ⟨fun _ => .inr ⟨sidecar, hread, ?_⟩, fun _ => rfl⟩
      obtain ⟨r, hr, hverdict⟩ := (mem_mapM_iff hreceipts).mp hmem
      exact ⟨r, hr, .inl ((refuted_iff hverdict).mpr (.inr hbroken))⟩
  | signatureBroken sidecar notes label hread hbroken =>
      refine ⟨fun _ => .inr ⟨sidecar, hread, ?_⟩, fun _ => rfl⟩
      obtain ⟨hengaged, r, hr, hrefuted⟩ := signatureVerdict_eq_broken_iff.mp hbroken
      exact ⟨r, hr, .inr ⟨hengaged, hrefuted⟩⟩
  | passed sidecar receipts hread hfirst hreceipts hnone hsigned =>
      refine ⟨nofun, ?_⟩
      rintro (hmalformed | ⟨sidecar', hsidecar, r, hr, hrefuted⟩)
      · exact absurd hmalformed (hreads hread)
      · obtain rfl := Except.ok.inj (hread.symm.trans hsidecar)
        obtain ⟨v, hverdict⟩ := isOk_mapM.mp ⟨receipts, hreceipts⟩ r hr
        have hv := (mem_mapM_iff hreceipts).mpr ⟨r, hr, hverdict⟩
        rcases hrefuted with hrefuted | hsignature
        · rcases (refuted_iff hverdict).mp hrefuted with hverify | hbroken
          · exact absurd (firstContradicted_eq_none_iff.mp hfirst r hr) hverify
          · exact absurd hbroken (hnone v hv)
        · exact absurd (signatureVerdict_eq_broken_iff.mpr ⟨hsignature.1, r, hr, hsignature.2⟩)
            hsigned

/-- Texts for the examples. -/
def CheckTexts.plain : CheckTexts := ⟨id, fun _ => []⟩

omit [Hashlib] [Interpreter] [Cryptography] in
/-- A line that is no record breaks the check. -/
theorem anchorCheck_broken_line :
    letI := Interpreter.plain
    letI := Sha256.hashlib
    letI := crossSigned
    anchorCheck .plain true (some (ascii "[]\n")) (.ok []) none =
        .ok ⟨false, 0, some (str "malformed_anchor"), false, [],
          str "ANCHOR BROKEN: malformed_anchor"⟩ ∧
      orMalformed (readAnchorRecords (some (ascii "[]\n"))) = .ok none := by
  let _ := Interpreter.plain
  let _ := Sha256.hashlib
  let _ := crossSigned
  have hread : orMalformed (readAnchorRecords (some (ascii "[]\n"))) = .ok none := by decide +kernel
  have hcheck : anchorCheck .plain true (some (ascii "[]\n")) (.ok []) none =
      .ok ⟨false, 0, some (str "malformed_anchor"), false, [],
        str "ANCHOR BROKEN: malformed_anchor"⟩ := by
    unfold anchorCheck anchorFinding
    rw [hread]
    rfl
  refine ⟨hcheck, ((anchorCheck_broken_iff hcheck).mp rfl).resolve_right ?_⟩
  rintro ⟨sidecar, hsidecar, -⟩
  rw [hsidecar] at hread
  cases hread

/-! ## The sinks that check what they file -/

/-- The front of the receipt of a ledger. -/
def evmPrefix : PyStr := str "evm:"

/-- What the sinks publish to that file what they have checked or made themselves.  A ledger gives a
receipt that names its chain.  `HTTPAnchorSink` is none of them: it files what its endpoint says. -/
inductive GatedSink : (Checkpoint → Except SinkFailure SinkReceipt) → Prop where
  | file : GatedSink fun _ => .ok ⟨none, none⟩
  | rfc3161 (describe : PyErr → PyStr) (url : PyStr) (transport : Transport)
      (nonce : Except SinkFailure (Option ℤ)) :
      GatedSink (rfc3161Anchor describe url transport nonce)
  | ots (describe : PyErr → PyStr) (calendarUrl : PyStr) (transport : Transport) :
      GatedSink (otsAnchor describe calendarUrl transport)
  | evm (sink : EvmAnchorSink) (describe : PyErr → PyStr) (send : Bytes → Except SinkFailure PyStr)
      (hsend : ∀ calldata receipt, send calldata = .ok receipt → evmPrefix <+: receipt) :
      GatedSink (sink.anchor describe send)

/-- What they file: nothing, a token that was accepted for the frame of the checkpoint and the nonce
beside it, a proof of a calendar, or a receipt of a ledger. -/
inductive GatedReceipt (cp : Checkpoint) : Option PyStr → Option ℤ → Prop where
  | silent : GatedReceipt cp none none
  | timestamp (der frame : Bytes) (nonce : Option ℤ) (hframe : checkpointFrame cp = .ok frame)
      (haccepted : checkTimestampResp der frame nonce = none) :
      GatedReceipt cp (some (encodeReceipt der)) nonce
  | pending (proof : Bytes) : GatedReceipt cp (some (otsPrefix ++ b64encode proof)) none
  | onChain (rest : PyStr) : GatedReceipt cp (some (evmPrefix ++ rest)) none

/-- A record of such a receipt. -/
def Gated (r : SidecarRecord) : Prop := GatedReceipt r.checkpoint r.receipt r.nonce

omit [Cryptography] in
/-- **A sink files what it has accepted.** -/
theorem gatedReceipt_of_gatedSink {external : Checkpoint → Except SinkFailure SinkReceipt}
    (hsink : GatedSink external) {cp : Checkpoint} {result : SinkReceipt}
    (h : external cp = .ok result) : GatedReceipt cp result.receipt result.nonce := by
  cases hsink with
  | file =>
      obtain rfl := Except.ok.inj h
      exact .silent
  | rfc3161 describe url transport nonce =>
      obtain ⟨frame, hframe, h⟩ := bind_eq_ok_iff.mp h
      obtain ⟨n, -, h⟩ := bind_eq_ok_iff.mp h
      obtain ⟨request, -, h⟩ := bind_eq_ok_iff.mp h
      obtain ⟨response, -, h⟩ := bind_eq_ok_iff.mp h
      split_ifs at h
      cases hcheck : checkTimestampResp response.body frame n with
      | some reason =>
          rw [hcheck] at h
          cases h
      | none =>
          rw [hcheck] at h
          obtain rfl := Except.ok.inj h
          exact .timestamp response.body frame n (SealedLog.mapError_eq_ok_iff.mp hframe) hcheck
  | ots describe calendarUrl transport =>
      obtain ⟨frame, -, h⟩ := bind_eq_ok_iff.mp h
      obtain ⟨response, -, h⟩ := bind_eq_ok_iff.mp h
      split_ifs at h
      obtain rfl := Except.ok.inj h
      exact .pending response.body
  | evm sink describe send hsend =>
      obtain ⟨submission, -, h⟩ := bind_eq_ok_iff.mp h
      obtain ⟨receipt, hreceipt, h⟩ := bind_eq_ok_iff.mp h
      obtain rfl := Except.ok.inj h
      obtain ⟨rest, rfl⟩ := hsend _ receipt hreceipt
      exact .onChain rest

omit [Hashlib] [Interpreter] [Cryptography] in
/-- Behind a character that is no surrogate the pairs are joined as they are. -/
theorem joinPairs_cons {c : CodePoint} (h : isHigh c.val = false) (s : PyStr) :
    joinPairs (c :: s) = c :: joinPairs s := by
  cases s with
  | nil => rfl
  | cons d s => rw [joinPairs, if_neg (by rw [h]; exact fun hpair => Bool.false_ne_true hpair.1)]

omit [Hashlib] [Interpreter] [Cryptography] in
theorem joinPairs_append {front : PyStr} (h : front.all (fun c => !isHigh c.val) = true) (s : PyStr) :
    joinPairs (front ++ s) = front ++ joinPairs s := by
  induction front with
  | nil => rfl
  | cons c front ih =>
      rw [List.all_cons, Bool.and_eq_true, Bool.not_eq_true'] at h
      rw [List.cons_append, joinPairs_cons h.1, ih h.2, List.cons_append]

omit [Cryptography] in
/-- A receipt is read back as one of its kind. -/
theorem Gated.joined (h : Gated r)
    (htexts : SidecarRecord.joinedCheckpoint r.checkpoint = r.checkpoint) : Gated r.joined := by
  show GatedReceipt (SidecarRecord.joinedCheckpoint r.checkpoint) (r.receipt.map joinPairs) r.nonce
  rw [htexts]
  unfold Gated at h
  generalize r.receipt = receipt, r.nonce = nonce at h
  cases h with
  | silent => exact .silent
  | timestamp der frame nonce hframe haccepted =>
      rw [Option.map_some, joinPairs_eq_self (noSurrogatePair_encodeReceipt der)]
      exact .timestamp der frame nonce hframe haccepted
  | pending proof =>
      have hascii : isAscii (otsPrefix ++ b64encode proof) = true := by
        rw [isAscii, List.all_append, Bool.and_eq_true]
        exact ⟨rfl, isAscii_b64encode proof⟩
      rw [Option.map_some,
        joinPairs_eq_self (noSurrogatePair_of_encodeUtf8 (encodeUtf8_ascii hascii))]
      exact .pending proof
  | onChain rest =>
      rw [Option.map_some, joinPairs_append (by decide)]
      exact .onChain _

/-- A receipt of a ledger, which the check has no name for. -/
def FromLedger (r : SidecarRecord) : Prop := ∃ rest, r.receipt = some (evmPrefix ++ rest)

omit [Cryptography] in
/-- **What the check says of a receipt a sink filed**: it is not broken, and unverifiable only if it
is of a ledger. -/
theorem Gated.verdict (texts : CheckTexts) (h : Gated r) : ∃ v, receiptVerdict texts r = .ok v ∧
    v.status ≠ .broken ∧ (v.status = .unverifiable ↔ FromLedger r) := by
  obtain ⟨cp, sink, receipt, ts, version, nonce⟩ := r
  -- a front that is not the ledger's
  have hfront : ∀ front rest : PyStr, front.take 4 ≠ evmPrefix → 4 ≤ front.length →
      ¬ ∃ rest', some (front ++ rest) = some (evmPrefix ++ rest') := by
    rintro front rest hne hlength ⟨rest', heq⟩
    have htake := congrArg (List.take 4) (Option.some.inj heq)
    rw [List.take_append_of_le_length hlength] at htake
    exact hne htake
  replace h : GatedReceipt cp receipt nonce := h
  unfold FromLedger
  cases h with
  | silent => exact ⟨_, rfl, nofun, nofun, fun ⟨_, h⟩ => nomatch h⟩
  | timestamp der frame nonce hframe haccepted =>
      obtain ⟨token, hread⟩ := checkTimestampResp_eq_none_iff.mp haccepted
      have hprefix := isPrefixOf_of_decodeReceipt (decodeReceipt_encodeReceipt der)
      refine ⟨tokenVerdict (strInt cp.seq) (.ok token), ?_, nofun, nofun, ?_⟩
      · unfold receiptVerdict
        dsimp only
        rw [if_pos hprefix, decodeReceipt_encodeReceipt, ← hread]
        dsimp only
        rw [hframe]
        rfl
      · intro hledger
        exact absurd hledger (hfront rfc3161Prefix _ (by decide) (by decide))
  | pending proof =>
      have hother : ¬ rfc3161Prefix.isPrefixOf (otsPrefix ++ b64encode proof) = true := nofun
      have hprefix : otsPrefix.isPrefixOf (otsPrefix ++ b64encode proof) = true :=
        List.isPrefixOf_iff_prefix.mpr (List.prefix_append _ _)
      refine ⟨⟨.noted, some (str "seq=" ++ strInt cp.seq ++ str ": " ++ pendingNote), none⟩, ?_, nofun,
        nofun, ?_⟩
      · unfold receiptVerdict
        dsimp only
        rw [if_neg hother, if_pos hprefix]
      · intro hledger
        exact absurd hledger (hfront otsPrefix _ (by decide) (by decide))
  | onChain rest =>
      have hrfc : ¬ rfc3161Prefix.isPrefixOf (evmPrefix ++ rest) = true := nofun
      have hots : ¬ otsPrefix.isPrefixOf (evmPrefix ++ rest) = true := nofun
      have hverdict : ∃ v,
          receiptVerdict texts ⟨cp, sink, some (evmPrefix ++ rest), ts, version, none⟩ = .ok v ∧
            v.status = .unverifiable := by
        unfold receiptVerdict
        dsimp only
        rw [if_neg hrfc, if_neg hots]
        exact ⟨_, rfl, rfl⟩
      obtain ⟨v, hv, hstatus⟩ := hverdict
      refine ⟨v, hv, ?_, fun _ => ⟨rest, rfl⟩, fun _ => hstatus⟩
      rw [hstatus]
      exact nofun

/-! ## The check of a history -/

/-- The sinks of a step check what they file. -/
def SealedLogStep.Gates : SealedLogStep → Prop
  | .opened | .appended _ _ => True
  | .anchored sinks => ∀ s ∈ sinks, GatedSink s.external

omit [Cryptography] in
theorem SealedLogStep.Gates.files {step : SealedLogStep} (h : step.Gates) :
    step.Files Gated := by
  cases step with
  | opened => trivial
  | appended scheme draft => trivial
  | anchored sinks =>
      intro s hs cp r hrecord
      obtain ⟨result, ts, hexternal, -, rfl⟩ := RecordingAnchorSink.record_eq_some hrecord
      exact gatedReceipt_of_gatedSink (h s hs) hexternal

/-- A sidecar that is read is checked in full, if the trail contradicts none of it. -/
theorem checked_of_anchorCheck {records : List SidecarRecord} {check : SidecarCheck}
    (hread : readAnchorRecords file = .ok ⟨records, []⟩)
    (hfirst : firstContradicted hashes records = none)
    (h : anchorCheck texts installed file (.ok hashes) caFile = .ok check) :
    check.checked = records.length := by
  obtain ⟨finding, hends, rfl⟩ := endsAt_of_anchorCheck h
  cases hends with
  | malformed hmalformed =>
      rw [hread] at hmalformed
      cases hmalformed
  | noAnchors hnone =>
      obtain ⟨rfl, -⟩ := AnchorSidecar.mk.inj (Except.ok.inj (hread.symm.trans hnone))
      rfl
  | contradicted sidecar seq reason hsidecar hcontradicted =>
      obtain rfl := Except.ok.inj (hread.symm.trans hsidecar)
      rw [hfirst] at hcontradicted
      cases hcontradicted
  | receiptBroken sidecar receipts v hsidecar =>
      obtain rfl := Except.ok.inj (hread.symm.trans hsidecar)
      rfl
  | signatureBroken sidecar notes label hsidecar =>
      obtain rfl := Except.ok.inj (hread.symm.trans hsidecar)
      rfl
  | passed sidecar receipts hsidecar =>
      obtain rfl := Except.ok.inj (hread.symm.trans hsidecar)
      rfl

/-- Without a bundle, a check that is ok is unverifiable exactly if one of the receipts is. -/
theorem unverifiable_iff_of_anchorCheck {records : List SidecarRecord} {check : SidecarCheck}
    (hread : readAnchorRecords file = .ok ⟨records, []⟩)
    (h : anchorCheck texts installed file (.ok hashes) none = .ok check) (hok : check.ok ≠ false) :
    check.unverifiable = true ↔
      ∃ r ∈ records, ∃ v, receiptVerdict texts r = .ok v ∧ v.status = .unverifiable := by
  obtain ⟨finding, hends, rfl⟩ := endsAt_of_anchorCheck h
  cases hends with
  | malformed => exact absurd rfl hok
  | noAnchors hnone =>
      obtain ⟨rfl, -⟩ := AnchorSidecar.mk.inj (Except.ok.inj (hread.symm.trans hnone))
      exact ⟨nofun, fun ⟨_, hr, _⟩ => nomatch hr⟩
  | contradicted => exact absurd rfl hok
  | receiptBroken => exact absurd rfl hok
  | signatureBroken => exact absurd rfl hok
  | passed sidecar receipts hsidecar hfirst hreceipts =>
      obtain rfl := Except.ok.inj (hread.symm.trans hsidecar)
      -- no version is unknown and no signature is checked, so only the receipts are left
      show (_ || receipts.any (·.status = .unverifiable) || _) = true ↔ _
      simp only [signatureVerdict, Option.isSome_none, Bool.false_eq_true, if_false, ne_eq,
        not_true_eq_false, reduceCtorEq, decide_false, Bool.false_or, Bool.or_false,
        List.any_eq_true]
      constructor
      · rintro ⟨v, hv, hunverifiable⟩
        obtain ⟨r, hr, hverdict⟩ := (mem_mapM_iff hreceipts).mp hv
        exact ⟨r, hr, v, hverdict, of_decide_eq_true hunverifiable⟩
      · rintro ⟨r, hr, v, hverdict, hunverifiable⟩
        exact ⟨v, (mem_mapM_iff hreceipts).mpr ⟨r, hr, hverdict⟩, decide_eq_true hunverifiable⟩

/-- **The check of the anchors, at any moment of the history of a log.**  The log was only appended
to and anchored through sinks that check what they file, whatever the authorities and the calendars returned:
no record is refuted, so the check breaks only on a signature, where a bundle was named; and
without a bundle it is ok of all the records, and unverifiable exactly if one is of a ledger. -/
theorem anchorCheck_history (texts : CheckTexts) (installed : Bool)
    (caFile : Option (Except PyErr Bytes)) (initialKey : Bytes) (steps : List SealedLogStep)
    (log : SealedLog) (hsinks : ∀ step ∈ steps, step.Gates)
    (hrun : (SealedLog.start initialKey).run initialKey steps = .ok log) :
    ∃ records check, readAnchorRecords log.anchors = .ok ⟨records, []⟩ ∧
      anchorCheck texts installed log.anchors (.ok log.hashes) caFile = .ok check ∧
      check.checked = records.length ∧
      (check.ok = false ↔
        caFile.isSome = true ∧ ∃ r ∈ records, SignatureRefuted installed caFile r) ∧
      (caFile = none → (check.unverifiable = true ↔ ∃ r ∈ records, FromLedger r)) := by
  obtain ⟨atts, agg, filed, h⟩ := (SealedLog.honest_start Gated initialKey).run
    (fun step hstep => (hsinks step hstep).files) hrun
  have hread := h.readAnchorRecords
  -- a record reads back as it was filed, but for surrogate pairs, and its checkpoint has none
  have hgated : ∀ r ∈ filed.map SidecarRecord.joined, Gated r ∧
      verifyCheckpoint log.hashes r.checkpoint = none := by
    rw [List.forall_mem_map]
    intro r hr
    refine ⟨(h.kinds r hr).joined (h.texts r hr), ?_⟩
    rw [show r.joined.checkpoint = r.checkpoint from h.texts r hr]
    exact h.verifies r hr
  generalize filed.map SidecarRecord.joined = records at hread hgated
  have hverdicts : ∀ r ∈ records, ∃ v, receiptVerdict texts r = .ok v ∧ v.status ≠ .broken ∧
      (v.status = .unverifiable ↔ FromLedger r) := fun r hr => (hgated r hr).1.verdict texts
  have hreturns : ∀ r ∈ records, ∃ v, receiptVerdict texts r = .ok v := by
    intro r hr
    obtain ⟨v, hv, -⟩ := hverdicts r hr
    exact ⟨v, hv⟩
  have hrefuted : ∀ r ∈ records, ¬ Refuted log.hashes r := by
    intro r hr h
    obtain ⟨v, hv, hne, -⟩ := hverdicts r hr
    rcases (refuted_iff hv).mp h with hverify | hbroken
    · exact hverify (hgated r hr).2
    · exact hne hbroken
  obtain ⟨check, hcheck⟩ := exists_anchorCheck texts installed log.hashes caFile hread hreturns
  have hmalformed : orMalformed (readAnchorRecords log.anchors) ≠ .ok none := by
    rw [hread]
    exact nofun
  have hunrefuted : firstContradicted log.hashes records = none :=
    firstContradicted_eq_none_iff.mpr fun r hr => (hgated r hr).2
  have hbroken := anchorCheck_broken_iff hcheck
  refine ⟨records, check, hread, hcheck, checked_of_anchorCheck hread hunrefuted hcheck, ?_, ?_⟩
  · rw [hbroken]
    constructor
    · rintro (h | ⟨sidecar, hsidecar, r, hr, h | h⟩)
      · exact absurd h hmalformed
      · obtain rfl := Except.ok.inj (hread.symm.trans hsidecar)
        exact absurd h (hrefuted r hr)
      · obtain rfl := Except.ok.inj (hread.symm.trans hsidecar)
        exact ⟨h.1, r, hr, h.2⟩
    · rintro ⟨hengaged, r, hr, h⟩
      exact .inr ⟨_, hread, r, hr, .inr ⟨hengaged, h⟩⟩
  · rintro rfl
    -- without a bundle no signature is checked, so nothing can break the check
    have hok : check.ok ≠ false := by
      intro h
      rcases hbroken.mp h with h | ⟨sidecar, hsidecar, r, hr, h | h⟩
      · exact hmalformed h
      · obtain rfl := Except.ok.inj (hread.symm.trans hsidecar)
        exact hrefuted r hr h
      · exact absurd h.1 Bool.false_ne_true
    rw [unverifiable_iff_of_anchorCheck hread hcheck hok]
    constructor
    · rintro ⟨r, hr, v, hverdict, hunverifiable⟩
      obtain ⟨v', hv', -, hiff⟩ := hverdicts r hr
      obtain rfl := Except.ok.inj (hverdict.symm.trans hv')
      exact ⟨r, hr, hiff.mp hunverifiable⟩
    · rintro ⟨r, hr, hledger⟩
      obtain ⟨v, hv, -, hiff⟩ := hverdicts r hr
      exact ⟨r, hr, v, hv, hiff.mpr hledger⟩

omit [Hashlib] [Interpreter] [Cryptography] in
/-- A log of one entry with one anchor. -/
theorem anchorCheck_history_anchored :
    letI := Sha256.hashlib
    letI := Interpreter.plain
    letI := crossSigned
    ∃ log : SealedLog, log.entries.length = 1 ∧ ∃ check,
      anchorCheck .plain true log.anchors (.ok log.hashes) none = .ok check ∧ check.ok = true := by
  let _ := Sha256.hashlib
  let _ := Interpreter.plain
  let _ := crossSigned
  obtain ⟨log, hrun, hone⟩ := anchoredRun_runs
  have hsinks : ∀ step ∈ anchoredRun, step.Gates := by
    unfold anchoredRun
    simp only [List.forall_mem_cons]
    refine ⟨trivial, ?_, trivial, List.forall_mem_nil _⟩
    exact List.forall_mem_singleton.mpr .file
  obtain ⟨records, check, -, hcheck, -, hok, -⟩ :=
    anchorCheck_history .plain true none [] anchoredRun log hsinks hrun
  refine ⟨log, hone, check, hcheck, ?_⟩
  by_contra hbroken
  exact absurd (hok.mp (Bool.eq_false_of_not_eq_true hbroken)).1 Bool.false_ne_true

end Check

end Waxseal
