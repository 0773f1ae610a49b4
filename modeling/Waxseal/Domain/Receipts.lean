import Waxseal.Base.JsonWriting
import Waxseal.Domain.Handoff
import Waxseal.Domain.Registry
import Waxseal.Domain.Verdict

/-!
# Per-append receipts

`domain/receipts.py`: the `.receipts` sidecar keeps, for every entry a server acknowledged, the
hash it had when it was accepted.  A line of it is read to one of four things, and
`reconcile_receipts` compares all of them with the trail.

The verdict is the join of the verdicts of the lines, and the first break in file order gives the
reason (`reconcile_eq`); a record that was built from valid fields is read back, and records of
a trail agree with all its extensions (`receipts_reconcile`).
-/

namespace Waxseal.Receipts

open Json

/-! ## The identity of the frame -/

/-- `RECEIPT_DESCRIPTOR_PREFIX`. -/
def receiptDescriptorPrefix : Bytes := ascii "waxseal-receipt-descriptor-v1\n"

/-- `RECEIPT_FRAME_FIELDS`. -/
def receiptFrameFields : List PyStr :=
  [str "receipt_seq", str "prev_receipt_head", str "entry_hash"]

/-- The frame `receipt_fingerprint_for(fields)` digests. -/
def receiptDescriptorFrame (fields : List PyStr) : Except PyErr Bytes := do
  let components := algorithmName :: encodingName :: fields
  return receiptDescriptorPrefix ++ (← packQ components.length) ++ (← descriptorLpAll components)

section Fingerprint

variable [Hashlib]

/-- `receipt_fingerprint_for`. -/
def receiptFingerprintFor (fields : List PyStr) : Except PyErr PyStr :=
  (receiptDescriptorFrame fields).map hexdigest

/-- `receipt_fingerprint`. -/
def receiptFingerprint : PyStr :=
  hexdigest ((receiptDescriptorFrame receiptFrameFields).toOption.getD [])

theorem receiptFingerprintFor_fields :
    receiptFingerprintFor receiptFrameFields = .ok receiptFingerprint := by
  have hok : (receiptDescriptorFrame receiptFrameFields).toOption.isSome = true := by
    decide +kernel
  unfold receiptFingerprintFor receiptFingerprint
  cases h : receiptDescriptorFrame receiptFrameFields with
  | error e => rw [h] at hok; cases hok
  | ok b => rfl

/-- A digest has the form `_hex64` asks for. -/
theorem isSha256Hex_digest (b : Bytes) : isSha256Hex (hexdigest b) = true := by
  rw [isSha256Hex, length_hexdigest, hexdigest, isLowerHex_hex]
  rfl

/-- `ReceiptFrameRegistry`: the frames a build knows, its own among them. -/
structure ReceiptFrameRegistry where
  schemas : List (PyStr × List PyStr)
  own : ∃ schema ∈ schemas, schema.1 = receiptFingerprint

namespace ReceiptFrameRegistry

/-- `ReceiptFrameRegistry()`. -/
def new : ReceiptFrameRegistry :=
  ⟨[(receiptFingerprint, receiptFrameFields)], _, List.mem_singleton_self _, rfl⟩

/-- `knows`. -/
def knows (registry : ReceiptFrameRegistry) (fingerprint : PyStr) : Bool :=
  registry.schemas.any (·.1 = fingerprint)

/-- `register`: an identity keeps the fields it was first registered with. -/
def register (registry : ReceiptFrameRegistry) (fields : List PyStr) :
    Except PyErr (PyStr × ReceiptFrameRegistry) := do
  let fingerprint ← receiptFingerprintFor fields
  if registry.knows fingerprint then return (fingerprint, registry)
  else
    return (fingerprint, ⟨registry.schemas ++ [(fingerprint, fields)],
      registry.own.imp fun _ h => ⟨List.mem_append_left _ h.1, h.2⟩⟩)

theorem knows_own (registry : ReceiptFrameRegistry) :
    registry.knows receiptFingerprint = true := by
  obtain ⟨schema, hmem, hown⟩ := registry.own
  exact List.any_eq_true.mpr ⟨schema, hmem, decide_eq_true hown⟩

end ReceiptFrameRegistry

end Fingerprint

/-! ## Lines -/

/-- `ReceiptRecord`, with the sign `_index` has checked. -/
structure ReceiptRecord where
  lineNo : ℕ
  seq : ℤ
  entryHash : PyStr
  receiptSeq : ℤ
  receiptHead : PyStr
  source : PyStr
  ts : PyStr
  receiptFrameFingerprint : PyStr
  seq_nonneg : 0 ≤ seq
  receiptSeq_nonneg : 0 ≤ receiptSeq

/-- What is wrong with a line, and the value a message names. -/
inductive ReceiptFault where
  | notJson (e : PyErr)
  | notObject (value : Json)
  | version (value : Json)
  | fingerprint (value : Json)
  | field (e : PyErr)

/-- `ReceiptLine`. -/
inductive ReceiptLine where
  | record (record : ReceiptRecord)
  | malformed (lineNo : ℕ) (fault : ReceiptFault)
  | unreadable (lineNo : ℕ) (version : PyStr)
  | unrecognized (lineNo : ℕ) (fingerprint : PyStr)

namespace ReceiptLine

/-- `line_no`. -/
def lineNo : ReceiptLine → ℕ
  | .record r => r.lineNo
  | .malformed lineNo _ | .unreadable lineNo _ | .unrecognized lineNo _ => lineNo

end ReceiptLine

/-- The arguments of `build_receipt_record`. -/
structure ReceiptFields where
  seq : ℤ
  entryHash : PyStr
  receiptSeq : ℤ
  receiptHead : PyStr
  source : PyStr
  ts : PyStr
  receiptFrameFingerprint : Option PyStr

section Parsing

variable [Hashlib]

/-- `build_receipt_record`. -/
def buildReceiptRecord (f : ReceiptFields) : List (PyStr × Json) :=
  [(str "entry_hash", .str f.entryHash),
    (str "receipt_frame_fingerprint", .str (f.receiptFrameFingerprint.getD receiptFingerprint)),
    (str "receipt_head", .str f.receiptHead), (str "receipt_seq", .int f.receiptSeq),
    (str "seq", .int f.seq), (str "source", .str f.source), (str "ts", .str f.ts),
    (str "v", .int 1)]

/-- `obj.get(key, default)`. -/
def fieldOr (members : List (PyStr × Json)) (key : PyStr) (default : Json) : Json :=
  (members.find? (·.1 = key)).elim default Prod.snd

/-- `_index`. -/
def receiptIndex (obj : Json) (key : PyStr) : Except PyErr { n : ℤ // 0 ≤ n } := do
  match ← getItem obj key with
  | .int n => if h : 0 ≤ n then return ⟨n, h⟩ else .error .valueError
  | _ => .error .typeError

/-- `_hex64`. -/
def receiptHex64 (obj : Json) (key : PyStr) : Except PyErr PyStr := do
  match ← getItem obj key with
  | .str s => if isSha256Hex s then return s else .error .valueError
  | _ => .error .valueError

variable [Interpreter]

/-- The fields of a record that is read. -/
def readReceiptRecord (lineNo : ℕ) (members : List (PyStr × Json)) (fingerprint : PyStr) :
    Except PyErr ReceiptRecord := do
  let seq ← receiptIndex (.obj members) (str "seq")
  let entryHash ← receiptHex64 (.obj members) (str "entry_hash")
  let receiptSeq ← receiptIndex (.obj members) (str "receipt_seq")
  let receiptHead ← receiptHex64 (.obj members) (str "receipt_head")
  return {
    lineNo, seq, entryHash, receiptSeq, receiptHead
    source := pyStr (fieldOr members (str "source") (.str (str "unknown")))
    ts := pyStr (fieldOr members (str "ts") (.str []))
    receiptFrameFingerprint := fingerprint
    seq_nonneg := seq.2
    receiptSeq_nonneg := receiptSeq.2 }

/-- `parse_receipt_line` of a record whose frame is known. -/
def receiptLineOf (lineNo : ℕ) (members : List (PyStr × Json)) (fingerprint : PyStr) :
    Except PyErr ReceiptLine :=
  match readReceiptRecord lineNo members fingerprint with
  | .ok record => .ok (.record record)
  | .error e =>
      if e = .keyError ∨ e = .typeError ∨ e.isValueError then .ok (.malformed lineNo (.field e))
      else .error e

/-- `parse_receipt_line`, once the version of the record is known. -/
def parseKnownRecord (registry : ReceiptFrameRegistry) (lineNo : ℕ)
    (members : List (PyStr × Json)) : Except PyErr ReceiptLine :=
  let known (fingerprint : PyStr) : Except PyErr ReceiptLine :=
    if registry.knows fingerprint then receiptLineOf lineNo members fingerprint
    else .ok (.unrecognized lineNo fingerprint)
  match fieldOr members (str "receipt_frame_fingerprint") .null with
  -- A record from before the field has the frame of this build.
  | .null => known receiptFingerprint
  | .str fingerprint =>
      if isSha256Hex fingerprint then known fingerprint
      else .ok (.malformed lineNo (.fingerprint (.str fingerprint)))
  | value => .ok (.malformed lineNo (.fingerprint value))

/-- `parse_receipt_line`. -/
def parseReceiptLine (registry : ReceiptFrameRegistry) (lineNo : ℕ) (line : PyStr) :
    Except PyErr ReceiptLine :=
  match loadsTextDigits line with
  | .error e => if e.isValueError then .ok (.malformed lineNo (.notJson e)) else .error e
  | .ok (.obj members) =>
      match fieldOr members (str "v") (.int 1) with
      | .int version =>
          if version ≠ 1 then .ok (.unreadable lineNo (strInt version))
          else parseKnownRecord registry lineNo members
      | value => .ok (.malformed lineNo (.version value))
  | .ok value => .ok (.malformed lineNo (.notObject value))

end Parsing

/-! ## Reconciling -/

/-- The reasons of a reconciliation. -/
inductive ReconcileReason where
  | receiptMismatch
  | receiptBeyondHead
  | malformedReceiptRecord
  | unreadableRecordVersion
  | unrecognizedReceiptFrameFingerprint
  deriving DecidableEq

/-- `ReceiptSidecar`. -/
structure ReceiptSidecar where
  present : Bool
  lines : List ReceiptLine

/-- `ReceiptReconciliation`, and what the loop of `reconcile_receipts` keeps. -/
structure ReceiptReconciliation where
  verdict : Verdict
  reason : Option ReconcileReason
  checked : ℕ
  brokenSeq : Option ℤ
  brokenLine : Option ℕ
  present : Bool
  latestSeq : Option ℤ
  unreadableVersions : List PyStr
  unrecognizedFingerprints : List PyStr

/-- `seq if latest is None else max(latest, seq)`. -/
def laterSeq (latest : Option ℤ) (seq : ℤ) : Option ℤ := some (latest.elim seq (max · seq))

namespace ReceiptReconciliation

/-- Before the first line. -/
def start (present : Bool) : ReceiptReconciliation :=
  ⟨.ok, none, 0, none, none, present, none, [], []⟩

/-- One turn of the loop. -/
def step (entryHashes : List PyStr) (st : ReceiptReconciliation) :
    ReceiptLine → ReceiptReconciliation
  | .unreadable _ version =>
      { st with unreadableVersions := st.unreadableVersions ++ [version] }
  | .unrecognized _ fingerprint =>
      { st with unrecognizedFingerprints := st.unrecognizedFingerprints ++ [fingerprint] }
  | .malformed lineNo _ =>
      if st.verdict ≠ .broken then
        { st with verdict := .broken, reason := some .malformedReceiptRecord,
                  brokenLine := some lineNo }
      else st
  | .record r =>
      let st := { st with checked := st.checked + 1, latestSeq := laterSeq st.latestSeq r.seq }
      if st.verdict = .broken then st
      else if entryHashes.length ≤ r.seq then
        { st with verdict := .broken, reason := some .receiptBeyondHead,
                  brokenSeq := some r.seq, brokenLine := some r.lineNo }
      else if entryHashes[r.seq.toNat]? ≠ some r.entryHash then
        { st with verdict := .broken, reason := some .receiptMismatch,
                  brokenSeq := some r.seq, brokenLine := some r.lineNo }
      else st

/-- After the last line. -/
def finish (st : ReceiptReconciliation) : ReceiptReconciliation :=
  if st.verdict = .ok then
    if st.unreadableVersions ≠ [] then
      { st with verdict := .unverifiable, reason := some .unreadableRecordVersion }
    else if st.unrecognizedFingerprints ≠ [] then
      { st with verdict := .unverifiable, reason := some .unrecognizedReceiptFrameFingerprint }
    else st
  else st

end ReceiptReconciliation

open ReceiptReconciliation

/-- `reconcile_receipts`. -/
def reconcileReceipts (entryHashes : List PyStr) (sidecar : ReceiptSidecar) :
    ReceiptReconciliation :=
  (sidecar.lines.foldl (step entryHashes) (start sidecar.present)).finish

/-! ## One line -/

section Reconciling

variable (entryHashes : List PyStr)

/-- The verdict of a line. -/
def lineVerdict : ReceiptLine → Verdict
  | .unreadable _ _ | .unrecognized _ _ => .unverifiable
  | .malformed _ _ => .broken
  | .record r => if entryHashes[r.seq.toNat]? = some r.entryHash then .ok else .broken

/-- What a broken line says: the reason, and the `seq` it names. -/
def lineBreak : ReceiptLine → Option (ReconcileReason × Option ℤ)
  | .unreadable _ _ | .unrecognized _ _ => none
  | .malformed _ _ => some (.malformedReceiptRecord, none)
  | .record r =>
      if entryHashes.length ≤ r.seq then some (.receiptBeyondHead, some r.seq)
      else if entryHashes[r.seq.toNat]? ≠ some r.entryHash then some (.receiptMismatch, some r.seq)
      else none

/-- `seq` of a readable record. -/
def recordSeq : ReceiptLine → Option ℤ
  | .record r => some r.seq
  | .malformed _ _ | .unreadable _ _ | .unrecognized _ _ => none

/-- The line breaks the trail. -/
theorem lineVerdict_eq_broken_iff {line : ReceiptLine} :
    lineVerdict entryHashes line = .broken ↔ ∃ b, lineBreak entryHashes line = some b := by
  cases line with
  | unreadable n version => simp [lineVerdict, lineBreak]
  | unrecognized n fingerprint => simp [lineVerdict, lineBreak]
  | malformed n fault => simp [lineVerdict, lineBreak]
  | record r =>
      simp only [lineVerdict, lineBreak]
      by_cases hbeyond : (entryHashes.length : ℤ) ≤ r.seq
      · have hnone : entryHashes[r.seq.toNat]? = none :=
          List.getElem?_eq_none (by have := r.seq_nonneg; omega)
        simp [hbeyond, hnone]
      · by_cases hsame : entryHashes[r.seq.toNat]? = some r.entryHash
        · simp [hbeyond, hsame]
        · simp [hbeyond, hsame]

/-! ## The loop -/

variable {entryHashes}

/-- What the loop has found: nothing yet, or the break of one line. -/
inductive Found (st : ReceiptReconciliation) : Option (ReceiptLine × ReconcileReason × Option ℤ) → Prop
  | nothing (verdict : st.verdict = .ok) (reason : st.reason = none) (seq : st.brokenSeq = none)
      (line : st.brokenLine = none) : Found st none
  | aBreak {line : ReceiptLine} {reason : ReconcileReason} {seq : Option ℤ}
      (verdict : st.verdict = .broken) (reason_eq : st.reason = some reason)
      (seq_eq : st.brokenSeq = seq) (line_eq : st.brokenLine = some line.lineNo) :
      Found st (some (line, reason, seq))

/-- The break of a line, with the line. -/
def breakOf (entryHashes : List PyStr) (line : ReceiptLine) :
    Option (ReceiptLine × ReconcileReason × Option ℤ) :=
  (lineBreak entryHashes line).map (Prod.mk line)

/-- **One line**: the first break stays. -/
theorem Found.step {st : ReceiptReconciliation}
    {found : Option (ReceiptLine × ReconcileReason × Option ℤ)} (h : Found st found)
    (line : ReceiptLine) :
    Found (st.step entryHashes line) (found.or (breakOf entryHashes line)) := by
  cases h with
  | nothing verdict reason seq hline =>
      rw [Option.none_or]
      cases line with
      | unreadable n version => exact .nothing verdict reason seq hline
      | unrecognized n fingerprint => exact .nothing verdict reason seq hline
      | malformed n fault =>
          simp only [ReceiptReconciliation.step, verdict]
          exact .aBreak rfl rfl seq rfl
      | record r =>
          simp only [ReceiptReconciliation.step, verdict, breakOf, lineBreak]
          by_cases hbeyond : (entryHashes.length : ℤ) ≤ r.seq
          · simp only [hbeyond, if_true]
            exact .aBreak rfl rfl rfl rfl
          · by_cases hsame : entryHashes[r.seq.toNat]? = some r.entryHash
            · simp only [hbeyond, hsame, if_false, ne_eq, not_true_eq_false]
              exact .nothing rfl reason seq hline
            · simp only [hbeyond, hsame, if_false, ne_eq, not_false_eq_true, if_true]
              exact .aBreak rfl rfl rfl rfl
  | aBreak verdict reason seq hline =>
      rw [Option.some_or]
      cases line with
      | unreadable n version => exact .aBreak verdict reason seq hline
      | unrecognized n fingerprint => exact .aBreak verdict reason seq hline
      | malformed n fault =>
          simp only [ReceiptReconciliation.step, verdict]
          exact .aBreak verdict reason seq hline
      | record r =>
          simp only [ReceiptReconciliation.step, verdict]
          exact .aBreak rfl reason seq hline

/-- **The run**: what the loop has found is the first break in file order. -/
theorem Found.foldl {st : ReceiptReconciliation}
    {found : Option (ReceiptLine × ReconcileReason × Option ℤ)} (h : Found st found)
    (lines : List ReceiptLine) :
    Found (lines.foldl (ReceiptReconciliation.step entryHashes) st)
      (found.or (lines.findSome? (breakOf entryHashes))) := by
  induction lines generalizing st found with
  | nil =>
      rw [List.findSome?_nil, Option.or_none]
      exact h
  | cons line lines ih =>
      have hnext : Found (lines.foldl (ReceiptReconciliation.step entryHashes)
          (st.step entryHashes line)) _ := ih (h.step line)
      rw [Option.or_assoc] at hnext
      rw [List.findSome?_cons]
      cases hbreak : breakOf entryHashes line with
      | none =>
          rw [hbreak, Option.none_or] at hnext
          exact hnext
      | some b =>
          rw [hbreak, Option.some_or] at hnext
          exact hnext

/-- `version` of an unreadable line. -/
def unreadableVersion : ReceiptLine → Option PyStr
  | .unreadable _ version => some version
  | .record _ | .malformed _ _ | .unrecognized _ _ => none

/-- `fingerprint` of a line whose frame is not known. -/
def unrecognizedFingerprint : ReceiptLine → Option PyStr
  | .unrecognized _ fingerprint => some fingerprint
  | .record _ | .malformed _ _ | .unreadable _ _ => none

/-- What the loop counts, whatever it finds. -/
structure Counts (lines : List ReceiptLine) (st st' : ReceiptReconciliation) : Prop where
  checked : st'.checked = st.checked + (lines.filterMap recordSeq).length
  latestSeq : st'.latestSeq = (lines.filterMap recordSeq).foldl laterSeq st.latestSeq
  unreadable : st'.unreadableVersions =
    st.unreadableVersions ++ lines.filterMap unreadableVersion
  unrecognized : st'.unrecognizedFingerprints =
    st.unrecognizedFingerprints ++ lines.filterMap unrecognizedFingerprint

theorem counts_step (st : ReceiptReconciliation) (line : ReceiptLine) :
    Counts [line] st (st.step entryHashes line) := by
  cases line with
  | unreadable n version => exact ⟨rfl, rfl, rfl, (List.append_nil _).symm⟩
  | unrecognized n fingerprint => exact ⟨rfl, rfl, (List.append_nil _).symm, rfl⟩
  | malformed n fault =>
      simp only [ReceiptReconciliation.step]
      split
      · exact ⟨rfl, rfl, (List.append_nil _).symm, (List.append_nil _).symm⟩
      · exact ⟨rfl, rfl, (List.append_nil _).symm, (List.append_nil _).symm⟩
  | record r =>
      simp only [ReceiptReconciliation.step]
      split_ifs <;> exact ⟨rfl, rfl, (List.append_nil _).symm, (List.append_nil _).symm⟩

theorem Counts.trans {lines more : List ReceiptLine} {st st' st'' : ReceiptReconciliation}
    (h : Counts lines st st') (h' : Counts more st' st'') : Counts (lines ++ more) st st'' where
  checked := by rw [h'.checked, h.checked, List.filterMap_append, List.length_append, Nat.add_assoc]
  latestSeq := by rw [h'.latestSeq, h.latestSeq, List.filterMap_append, List.foldl_append]
  unreadable := by rw [h'.unreadable, h.unreadable, List.filterMap_append, List.append_assoc]
  unrecognized := by rw [h'.unrecognized, h.unrecognized, List.filterMap_append, List.append_assoc]

theorem counts_foldl (lines : List ReceiptLine) (st : ReceiptReconciliation) :
    Counts lines st (lines.foldl (ReceiptReconciliation.step entryHashes) st) := by
  induction lines generalizing st with
  | nil => exact ⟨rfl, rfl, (List.append_nil _).symm, (List.append_nil _).symm⟩
  | cons line lines ih => exact (counts_step st line).trans (ih _)

/-- Only unreadable lines have an unverifiable verdict. -/
theorem exists_unverifiable_iff (entryHashes : List PyStr) (lines : List ReceiptLine) :
    (∃ line ∈ lines, lineVerdict entryHashes line = .unverifiable) ↔
      lines.filterMap unreadableVersion ≠ [] ∨ lines.filterMap unrecognizedFingerprint ≠ [] := by
  have hline : ∀ line, lineVerdict entryHashes line = .unverifiable ↔
      (unreadableVersion line).isSome ∨ (unrecognizedFingerprint line).isSome := by
    intro line
    cases line with
    | record r =>
        simp only [lineVerdict]
        split_ifs <;> simp [unreadableVersion, unrecognizedFingerprint]
    | _ => simp [lineVerdict, unreadableVersion, unrecognizedFingerprint]
  simp only [hline, ne_eq, List.filterMap_eq_nil_iff, not_forall, Option.isSome_iff_ne_none,
    exists_prop]
  constructor
  · rintro ⟨line, hmem, h | h⟩
    · exact .inl ⟨line, hmem, h⟩
    · exact .inr ⟨line, hmem, h⟩
  · rintro (⟨line, hmem, h⟩ | ⟨line, hmem, h⟩)
    · exact ⟨line, hmem, .inl h⟩
    · exact ⟨line, hmem, .inr h⟩

/-! ## The result -/

variable (entryHashes) (sidecar : ReceiptSidecar)

/-- **What a reconciliation answers**: the first break in file order, and else whether a line was
left unread. -/
theorem reconcile_eq :
    let result := reconcileReceipts entryHashes sidecar
    (∀ line reason seq, sidecar.lines.findSome? (breakOf entryHashes) = some (line, reason, seq) →
      result.verdict = .broken ∧ result.reason = some reason ∧ result.brokenSeq = seq ∧
        result.brokenLine = some line.lineNo) ∧
    (sidecar.lines.findSome? (breakOf entryHashes) = none →
      result.verdict = (if ∃ line ∈ sidecar.lines, lineVerdict entryHashes line = .unverifiable
        then .unverifiable else .ok) ∧ result.brokenSeq = none ∧ result.brokenLine = none) ∧
    result.checked = (sidecar.lines.filterMap recordSeq).length ∧
    result.latestSeq = (sidecar.lines.filterMap recordSeq).foldl laterSeq none := by
  have hnothing : Found (start sidecar.present) none := .nothing rfl rfl rfl rfl
  have hfound : Found (sidecar.lines.foldl (ReceiptReconciliation.step entryHashes)
      (start sidecar.present)) _ := hnothing.foldl sidecar.lines
  have hcounts : Counts sidecar.lines (start sidecar.present)
      (sidecar.lines.foldl (ReceiptReconciliation.step entryHashes) (start sidecar.present)) :=
    counts_foldl sidecar.lines _
  rw [Option.none_or] at hfound
  dsimp only
  unfold reconcileReceipts
  generalize sidecar.lines.foldl (ReceiptReconciliation.step entryHashes) (start sidecar.present)
    = st at hfound hcounts ⊢
  have hchecked : st.finish.checked = st.checked ∧ st.finish.latestSeq = st.latestSeq := by
    unfold finish
    split_ifs <;> exact ⟨rfl, rfl⟩
  refine ⟨?_, ?_, ?_, ?_⟩
  · intro line reason seq hfirst
    rw [hfirst] at hfound
    obtain _ | ⟨verdict, hreason, hseq, hline⟩ := hfound
    rw [finish, if_neg (by rw [verdict]; decide)]
    exact ⟨verdict, hreason, hseq, hline⟩
  · intro hfirst
    rw [hfirst] at hfound
    obtain ⟨verdict, hreason, hseq, hline⟩ | _ := hfound
    have hunread := exists_unverifiable_iff entryHashes sidecar.lines
    rw [finish, if_pos verdict, hcounts.unreadable, hcounts.unrecognized]
    simp only [start, List.nil_append, hunread]
    by_cases hversions : sidecar.lines.filterMap unreadableVersion = []
    · by_cases hprints : sidecar.lines.filterMap unrecognizedFingerprint = []
      · simp [hversions, hprints, verdict, hseq, hline]
      · simp [hversions, hprints, hseq, hline]
    · simp [hversions, hseq, hline]
  · rw [hchecked.1, hcounts.checked]
    exact Nat.zero_add _
  · rw [hchecked.2, hcounts.latestSeq]
    rfl

theorem findSome?_breakOf_eq_none_iff :
    sidecar.lines.findSome? (breakOf entryHashes) = none ↔
      ∀ line ∈ sidecar.lines, lineVerdict entryHashes line ≠ .broken := by
  rw [List.findSome?_eq_none_iff]
  refine forall₂_congr fun line _ => ?_
  rw [ne_eq, lineVerdict_eq_broken_iff, breakOf, Option.map_eq_none_iff, not_exists,
    Option.eq_none_iff_forall_ne_some]

/-- **The verdict is the join of the verdicts of the lines.** -/
theorem reconcile_verdict : (reconcileReceipts entryHashes sidecar).verdict =
    (sidecar.lines.map (lineVerdict entryHashes)).foldl Verdict.join .ok := by
  obtain ⟨hbroken, hclean, -⟩ := reconcile_eq entryHashes sidecar
  cases hfirst : sidecar.lines.findSome? (breakOf entryHashes) with
  | some found =>
      obtain ⟨line, reason, seq⟩ := found
      obtain ⟨hverdict, -⟩ := hbroken line reason seq hfirst
      rw [hverdict, eq_comm, Verdict.foldl_join_eq_broken]
      have hsome : ¬ ∀ line ∈ sidecar.lines, lineVerdict entryHashes line ≠ .broken := by
        rw [← findSome?_breakOf_eq_none_iff, hfirst]
        exact Option.some_ne_none _
      simp only [not_forall, not_not] at hsome
      obtain ⟨line, hmem, hline⟩ := hsome
      exact .inr (List.mem_map.mpr ⟨line, hmem, hline⟩)
  | none =>
      obtain ⟨hverdict, -⟩ := hclean hfirst
      rw [findSome?_breakOf_eq_none_iff] at hfirst
      have hnot : (sidecar.lines.map (lineVerdict entryHashes)).foldl Verdict.join .ok ≠ .broken := by
        rw [ne_eq, Verdict.foldl_join_eq_broken]
        rintro (h | h)
        · cases h
        · obtain ⟨line, hmem, hline⟩ := List.mem_map.mp h
          exact hfirst line hmem hline
      have hok : (sidecar.lines.map (lineVerdict entryHashes)).foldl Verdict.join .ok = .ok ↔
          ¬ ∃ line ∈ sidecar.lines, lineVerdict entryHashes line = .unverifiable := by
        rw [Verdict.foldl_join_eq_ok, List.forall_mem_map]
        constructor
        · rintro ⟨-, h⟩ ⟨line, hmem, hline⟩
          rw [h line hmem] at hline
          cases hline
        · refine fun h => ⟨rfl, fun line hmem => ?_⟩
          cases hline : lineVerdict entryHashes line with
          | ok => rfl
          | unverifiable => exact absurd ⟨line, hmem, hline⟩ h
          | broken => exact absurd hline (hfirst line hmem)
      rw [hverdict]
      split_ifs with hunread
      · cases hjoin : (sidecar.lines.map (lineVerdict entryHashes)).foldl Verdict.join .ok with
        | ok => exact absurd hunread (hok.mp hjoin)
        | unverifiable => rfl
        | broken => exact absurd hjoin hnot
      · exact (hok.mpr hunread).symm

/-- `max` does not mind the order. -/
theorem laterSeq_right_comm (latest : Option ℤ) (a b : ℤ) :
    laterSeq (laterSeq latest a) b = laterSeq (laterSeq latest b) a := by
  cases latest with
  | none => exact congrArg some (max_comm a b)
  | some m => exact congrArg some (max_right_comm m a b)

/-- **The order of the lines is of no effect** on the verdict and the counts. -/
theorem reconcile_perm {lines : List ReceiptLine} (hperm : sidecar.lines.Perm lines) :
    let other := reconcileReceipts entryHashes ⟨sidecar.present, lines⟩
    (reconcileReceipts entryHashes sidecar).verdict = other.verdict ∧
      (reconcileReceipts entryHashes sidecar).checked = other.checked ∧
      (reconcileReceipts entryHashes sidecar).latestSeq = other.latestSeq := by
  obtain ⟨-, -, hchecked, hlatest⟩ := reconcile_eq entryHashes sidecar
  obtain ⟨-, -, hchecked', hlatest'⟩ := reconcile_eq entryHashes ⟨sidecar.present, lines⟩
  have hseqs := hperm.filterMap recordSeq
  refine ⟨?_, ?_, ?_⟩
  · rw [reconcile_verdict, reconcile_verdict]
    exact Verdict.foldl_join_perm (hperm.map _) .ok
  · rw [hchecked, hchecked']
    exact hseqs.length_eq
  · rw [hlatest, hlatest']
    exact hseqs.foldl_eq' (fun a _ b _ latest => laterSeq_right_comm latest a b) none

/-- **The first broken line** gives the reason and the line number. -/
theorem reconcile_first_break {before after : List ReceiptLine} {line : ReceiptLine}
    (hlines : sidecar.lines = before ++ line :: after)
    (hbefore : ∀ l ∈ before, lineVerdict entryHashes l ≠ .broken) {reason : ReconcileReason}
    {seq : Option ℤ} (hbreak : lineBreak entryHashes line = some (reason, seq)) :
    (reconcileReceipts entryHashes sidecar).reason = some reason ∧
      (reconcileReceipts entryHashes sidecar).brokenSeq = seq ∧
      (reconcileReceipts entryHashes sidecar).brokenLine = some line.lineNo := by
  have hfirst : sidecar.lines.findSome? (breakOf entryHashes) = some (line, reason, seq) := by
    rw [hlines, List.findSome?_append,
      (findSome?_breakOf_eq_none_iff entryHashes ⟨true, before⟩).mpr hbefore, Option.none_or,
      List.findSome?_cons, breakOf, hbreak]
    rfl
  exact ((reconcile_eq entryHashes sidecar).1 line reason seq hfirst).2

end Reconciling

/-! ## Records that were issued -/

section Issuing

variable [Hashlib] [Interpreter] (registry : ReceiptFrameRegistry)

/-- Fields a record may be built from: each passes its own check, and JSON can carry it. -/
structure ReceiptFields.Valid (f : ReceiptFields) : Prop where
  seq_nonneg : 0 ≤ f.seq
  seq_fits : intFits f.seq = true
  entryHash : isSha256Hex f.entryHash = true
  receiptSeq_nonneg : 0 ≤ f.receiptSeq
  receiptSeq_fits : intFits f.receiptSeq = true
  receiptHead : isSha256Hex f.receiptHead = true
  source : NoSurrogatePair f.source
  ts : NoSurrogatePair f.ts
  fingerprint : ∀ fp ∈ f.receiptFrameFingerprint, isSha256Hex fp = true ∧ registry.knows fp = true

variable {registry}

/-- The record of valid fields, as line `lineNo` of a sidecar. -/
def ReceiptFields.toRecord (f : ReceiptFields) (h : f.Valid registry) (lineNo : ℕ) :
    ReceiptRecord where
  lineNo := lineNo
  seq := f.seq
  entryHash := f.entryHash
  receiptSeq := f.receiptSeq
  receiptHead := f.receiptHead
  source := f.source
  ts := f.ts
  receiptFrameFingerprint := f.receiptFrameFingerprint.getD receiptFingerprint
  seq_nonneg := h.seq_nonneg
  receiptSeq_nonneg := h.receiptSeq_nonneg

namespace ReceiptFields.Valid

variable {f : ReceiptFields}

/-- The frame the record declares is known. -/
theorem declared (h : f.Valid registry) :
    isSha256Hex (f.receiptFrameFingerprint.getD receiptFingerprint) = true ∧
      registry.knows (f.receiptFrameFingerprint.getD receiptFingerprint) = true := by
  cases hfp : f.receiptFrameFingerprint with
  | none => exact ⟨isSha256Hex_digest _, registry.knows_own⟩
  | some fp => exact h.fingerprint fp hfp

theorem writable (h : f.Valid registry) :
    Writable recursionLimit (.obj (buildReceiptRecord f)) ∧
      intsFit (.obj (buildReceiptRecord f)) = true := by
  have hhex : ∀ {s : PyStr}, isSha256Hex s = true → NoSurrogatePair s := fun hs =>
    noSurrogatePair_of_isLowerHex (Bool.and_eq_true _ _ ▸ hs).2
  have hkey : ∀ m ∈ buildReceiptRecord f, m.1.all (fun c => IsPrintable c) = true := by
    simp only [buildReceiptRecord, List.forall_mem_cons]
    decide +kernel
  constructor
  · refine writable_flat [str "entry_hash", str "receipt_frame_fingerprint", str "receipt_head",
      str "receipt_seq", str "seq", str "source", str "ts", str "v"] (by decide +kernel) rfl
      fun m hm => ⟨noSurrogatePair_str (hkey m hm), ?_⟩
    revert m
    simp only [buildReceiptRecord, List.forall_mem_cons]
    exact ⟨hhex h.entryHash, hhex h.declared.1, hhex h.receiptHead, trivial, trivial, h.source, h.ts,
      trivial, List.forall_mem_nil _⟩
  · rw [intsFit_obj]
    simp only [buildReceiptRecord, List.forall_mem_cons]
    exact ⟨rfl, rfl, rfl, h.receiptSeq_fits, h.seq_fits, rfl, rfl, intFits_small (by decide),
      List.forall_mem_nil _⟩

/-- The fields of a record are read back from its members. -/
theorem readReceiptRecord (h : f.Valid registry) (lineNo : ℕ) :
    Receipts.readReceiptRecord lineNo (buildReceiptRecord f)
      (f.receiptFrameFingerprint.getD receiptFingerprint) = .ok (f.toRecord h lineNo) := by
  have hindex : ∀ {n : ℤ} {key : PyStr} (hn : 0 ≤ n),
      getItem (.obj (buildReceiptRecord f)) key = .ok (.int n) →
      receiptIndex (.obj (buildReceiptRecord f)) key = .ok ⟨n, hn⟩ := by
    intro n key hn hget
    rw [receiptIndex, hget]
    exact dif_pos hn
  have hhex : ∀ {s key : PyStr}, isSha256Hex s = true →
      getItem (.obj (buildReceiptRecord f)) key = .ok (.str s) →
      receiptHex64 (.obj (buildReceiptRecord f)) key = .ok s := by
    intro s key hs hget
    rw [receiptHex64, hget]
    exact if_pos hs
  rw [Receipts.readReceiptRecord, hindex h.seq_nonneg rfl, hhex h.entryHash rfl,
    hindex h.receiptSeq_nonneg rfl, hhex h.receiptHead rfl]
  rfl

/-- **A record is read back**, from its line and whitespace after it. -/
theorem parse_build (h : f.Valid registry) (sep : Separators) {rest : PyStr}
    (hrest : skipWs rest = []) (lineNo : ℕ) :
    dumpsDigits sep (.obj (buildReceiptRecord f)) = .ok (dumps sep (.obj (buildReceiptRecord f))) ∧
      parseReceiptLine registry lineNo (dumps sep (.obj (buildReceiptRecord f)) ++ rest) =
        .ok (.record (f.toRecord h lineNo)) := by
  obtain ⟨hwritable, hfit⟩ := h.writable
  refine ⟨if_pos hfit, ?_⟩
  have hversion : fieldOr (buildReceiptRecord f) (str "v") (.int 1) = .int 1 := rfl
  have hdeclared : fieldOr (buildReceiptRecord f) (str "receipt_frame_fingerprint") .null =
      .str (f.receiptFrameFingerprint.getD receiptFingerprint) := rfl
  rw [parseReceiptLine, loadsTextDigits_dumps hwritable hfit hrest]
  simp only [hversion, ne_eq, not_true_eq_false, if_false]
  rw [parseKnownRecord, hdeclared]
  simp only [h.declared.1, h.declared.2, if_true]
  rw [receiptLineOf, h.readReceiptRecord lineNo]

end ReceiptFields.Valid

/-- A line of the sidecar that holds the record of the fields. -/
def LineOf (registry : ReceiptFrameRegistry) (sep : Separators) (f : ReceiptFields)
    (line : ReceiptLine) : Prop :=
  ∃ lineNo rest, skipWs rest = [] ∧
    parseReceiptLine registry lineNo (dumps sep (.obj (buildReceiptRecord f)) ++ rest) = .ok line

/-- The fields of a record that was issued for a trail: its `seq` and its hash are of the
trail. -/
def IssuedFor (registry : ReceiptFrameRegistry) (trail : List PyStr) (f : ReceiptFields) : Prop :=
  f.Valid registry ∧ trail[f.seq.toNat]? = some f.entryHash

/-- **Issued records agree with every extension** of their trail. -/
theorem reconcile_issued {trail : List PyStr} {sep : Separators} {fields : List ReceiptFields}
    {lines : List ReceiptLine} (hissued : ∀ f ∈ fields, IssuedFor registry trail f)
    (hlines : List.Forall₂ (LineOf registry sep) fields lines) (more : List PyStr)
    (present : Bool) :
    (reconcileReceipts (trail ++ more) ⟨present, lines⟩).verdict = .ok := by
  rw [reconcile_verdict, Verdict.foldl_join_eq_ok, List.forall_mem_map]
  refine ⟨rfl, ?_⟩
  induction hlines with
  | nil => exact List.forall_mem_nil _
  | @cons f line fields lines hline _ ih =>
      rw [List.forall_mem_cons] at hissued ⊢
      refine ⟨?_, ih hissued.2⟩
      obtain ⟨hvalid, hhash⟩ := hissued.1
      obtain ⟨lineNo, rest, hrest, hparse⟩ := hline
      obtain rfl := Except.ok.inj ((hvalid.parse_build sep hrest lineNo).2.symm.trans hparse)
      have hlt := (List.getElem?_eq_some_iff.mp hhash).1
      refine if_pos ?_
      show (trail ++ more)[f.seq.toNat]? = some f.entryHash
      rw [List.getElem?_append_left hlt, hhash]

end Issuing

/-! ## Receipts -/

/-- The verdict is a join, the order of the lines is of no effect on it and on the counts, and the
first broken line gives the reason and the line number. -/
structure Reconciles (entryHashes : List PyStr) (sidecar : ReceiptSidecar)
    (result : ReceiptReconciliation) : Prop where
  join : result.verdict = (sidecar.lines.map (lineVerdict entryHashes)).foldl Verdict.join .ok
  permuted : ∀ lines, sidecar.lines.Perm lines →
    let other := reconcileReceipts entryHashes ⟨sidecar.present, lines⟩
    result.verdict = other.verdict ∧ result.checked = other.checked ∧
      result.latestSeq = other.latestSeq
  firstBreak : ∀ before line after reason seq, sidecar.lines = before ++ line :: after →
    (∀ l ∈ before, lineVerdict entryHashes l ≠ .broken) →
    lineBreak entryHashes line = some (reason, seq) →
    result.reason = some reason ∧ result.brokenSeq = seq ∧ result.brokenLine = some line.lineNo
  noBreak : (∀ line ∈ sidecar.lines, lineVerdict entryHashes line ≠ .broken) →
    result.brokenSeq = none ∧ result.brokenLine = none

/-- **Reconciling receipts**: a join that does not mind the order, records that are read back, and
agreement with every extension of the trail they were issued for. -/
theorem receipts_reconcile [Hashlib] [Interpreter] :
    (∀ entryHashes sidecar,
      Reconciles entryHashes sidecar (reconcileReceipts entryHashes sidecar)) ∧
    (∀ (registry : ReceiptFrameRegistry) (f : ReceiptFields) (h : f.Valid registry)
      (sep : Separators) (rest : PyStr) (lineNo : ℕ), skipWs rest = [] →
      ∃ text, dumpsDigits sep (.obj (buildReceiptRecord f)) = .ok text ∧
        parseReceiptLine registry lineNo (text ++ rest) = .ok (.record (f.toRecord h lineNo))) ∧
    ∀ (registry : ReceiptFrameRegistry) (trail more : List PyStr) (fields : List ReceiptFields)
      (sep : Separators) (lines : List ReceiptLine) (present : Bool),
      (∀ f ∈ fields, IssuedFor registry trail f) →
      List.Forall₂ (LineOf registry sep) fields lines →
      (reconcileReceipts (trail ++ more) ⟨present, lines⟩).verdict = .ok := by
  refine ⟨fun entryHashes sidecar => ⟨reconcile_verdict _ _, fun lines hperm =>
    reconcile_perm _ _ hperm, ?_, ?_⟩, ?_, ?_⟩
  · intro before line after reason seq hlines hbefore hbreak
    exact reconcile_first_break entryHashes sidecar hlines hbefore hbreak
  · intro hclean
    exact ((reconcile_eq entryHashes sidecar).2.1
      ((findSome?_breakOf_eq_none_iff entryHashes sidecar).mpr hclean)).2
  · intro registry f h sep rest lineNo hrest
    exact ⟨_, h.parse_build sep hrest lineNo⟩
  · intro registry trail more fields sep lines present hissued hlines
    exact reconcile_issued hissued hlines more present

/-- The acknowledgment of a first entry. -/
def firstReceipt : ReceiptFields where
  seq := 0
  entryHash := genesisPrevHash
  receiptSeq := 0
  receiptHead := genesisPrevHash
  source := str "https://log"
  ts := []
  receiptFrameFingerprint := none

theorem firstReceipt_valid [Hashlib] [Interpreter] (registry : ReceiptFrameRegistry) :
    firstReceipt.Valid registry where
  seq_nonneg := by decide
  seq_fits := intFits_small (by decide)
  entryHash := by decide +kernel
  receiptSeq_nonneg := by decide
  receiptSeq_fits := intFits_small (by decide)
  receiptHead := by decide +kernel
  source := noSurrogatePair_str (by decide +kernel)
  ts := .nil
  fingerprint := nofun

/-- It is read back from its line, and agrees with a trail that has grown. -/
theorem receipts_reconcile_first :
    letI := Sha256.hashlib
    letI := Interpreter.plain
    ∃ line, LineOf ReceiptFrameRegistry.new .compact firstReceipt line ∧
      (reconcileReceipts ([genesisPrevHash] ++ [[]]) ⟨true, [line]⟩).verdict = .ok := by
  let _ := Sha256.hashlib
  let _ := Interpreter.plain
  obtain ⟨text, htext, hparse⟩ := receipts_reconcile.2.1 ReceiptFrameRegistry.new firstReceipt
    (firstReceipt_valid _) .compact [0x0A] 1 rfl
  rw [dumpsDigits, if_pos (firstReceipt_valid ReceiptFrameRegistry.new).writable.2] at htext
  obtain rfl := Except.ok.inj htext
  have hline : LineOf ReceiptFrameRegistry.new .compact firstReceipt _ := ⟨1, [0x0A], rfl, hparse⟩
  refine ⟨_, hline, receipts_reconcile.2.2 ReceiptFrameRegistry.new [genesisPrevHash] [[]]
    [firstReceipt] .compact _ true ?_ (.cons hline .nil)⟩
  exact List.forall_mem_singleton.mpr ⟨firstReceipt_valid _, rfl⟩

end Waxseal.Receipts
