import Waxseal.Base.JsonLines
import Waxseal.Server.ReceiptChecks
import Waxseal.Server.Receipts

/-!
# The receipt log

`verify_receipt_log` of `storage/_chain_receipts.py`: the acknowledgements are recomputed from
the records, line after line.

A log that is in order is a chain (`links_of_verify`), and a chain is bound by each of its
heads: two logs with one head at a sequence number are the same up to there
(`links_agree`).
-/

namespace Waxseal

open Json

/-- What the check reads in a record. -/
structure StoredReceipt where
  seq : ℤ
  head : PyStr
  entryHash : PyStr
  deriving DecidableEq

/-- `ReceiptLogReport`. -/
structure ReceiptLogReport where
  verdict : Verdict
  checked : Option ℕ
  reason : Option ReceiptReason
  brokenReceiptSeq : Option ℤ
  deriving DecidableEq

section Verify

variable [Interpreter]

/-- The fields of a record. -/
def storedReceiptOf (record : Json) : Except PyErr StoredReceipt := do
  let seq ← pyInt (← getItem record (Waxseal.str "receipt_seq"))
  let head ← getItem record (Waxseal.str "receipt_head")
  let entryHash ← getItem record (Waxseal.str "entry_hash")
  return ⟨seq, pyStr head, pyStr entryHash⟩

/-- A record and its version. -/
def versionedRecord (line : PyStr) : Except PyErr (Json × Json) := do
  let record ← loads line
  return (record, ← getItem record (Waxseal.str "v"))

variable [Hashlib]

/-- A record's fields, and what the chain answers for its entry. -/
def acknowledgeRecord (chain : ReceiptChain) (record : Json) :
    Except PyErr (StoredReceipt × ReceiptChain) := do
  let receipt ← storedReceiptOf record
  return (receipt, ← chain.acknowledge receipt.entryHash)

/-- The check of one line: the chain after it, or what is reported. -/
def verifyReceiptLine (chain : ReceiptChain) (line : PyStr) :
    Except PyErr (Verdict × ReceiptReason × Option ℤ ⊕ ReceiptChain) :=
  match versionedRecord line with
  | .error e =>
      if e = .jsonDecodeError ∨ e = .typeError ∨ e = .keyError then
        .ok (.inl (.broken, .malformedReceiptRecord, none))
      else .error e
  | .ok (record, version) =>
      if !version.eqNat receiptVersion then
        .ok (.inl (.unverifiable, .unreadableRecordVersion, none))
      else
        match acknowledgeRecord chain record with
        | .error e =>
            if isFieldError e then .ok (.inl (.broken, .malformedReceiptRecord, none)) else .error e
        | .ok (receipt, computed) =>
            if receipt.seq ≠ computed.seq then
              .ok (.inl (.broken, .receiptSeqGap, some receipt.seq))
            else if receipt.head ≠ computed.head then
              .ok (.inl (.broken, .receiptHeadMismatch, some receipt.seq))
            else .ok (.inr computed)

/-- The loop over the lines. -/
def verifyReceiptLines (chain : ReceiptChain) (checked : ℕ) :
    List PyStr → Except PyErr ReceiptLogReport
  | [] => .ok ⟨.ok, some checked, none, none⟩
  | line :: lines =>
      if isBlank line then verifyReceiptLines chain checked lines
      else do
        match ← verifyReceiptLine chain line with
        | .inl (verdict, reason, seq) => return ⟨verdict, some checked, some reason, seq⟩
        | .inr chain => verifyReceiptLines chain (checked + 1) lines

/-- `verify_receipt_log`; `none` is a log that does not exist. -/
def verifyReceiptLog (log : Option Bytes) : Except PyErr ReceiptLogReport :=
  match log with
  | none => .ok ⟨.ok, none, some .notRecorded, none⟩
  | some file =>
      match textFileLines file with
      | none => .error .unicodeDecodeError
      | some lines => verifyReceiptLines .empty 0 lines

end Verify

/-! ## Chains of receipts -/

section Links

variable [Hashlib]

/-- Each receipt acknowledges its entry after the ones before it. -/
def Links : ReceiptChain → List StoredReceipt → Prop
  | _, [] => True
  | chain, r :: receipts =>
      chain.acknowledge r.entryHash = .ok ⟨r.seq, r.head⟩ ∧ Links ⟨r.seq, r.head⟩ receipts

omit [Hashlib] in
/-- What is hashed along a chain. -/
def linkFrames : PyStr → List StoredReceipt → List Bytes
  | _, [] => []
  | prev, r :: receipts =>
      (receiptFrame r.seq prev r.entryHash).toOption.toList ++ linkFrames r.head receipts

variable {chain : ReceiptChain} {receipts receipts' : List StoredReceipt}

theorem acknowledge_eq_ok {entryHash : PyStr} {after : ReceiptChain}
    (h : chain.acknowledge entryHash = .ok after) :
    after.seq = chain.seq + 1 ∧ ∃ b, receiptFrame (chain.seq + 1) chain.head entryHash = .ok b ∧
      after.head = hexdigest b := by
  obtain ⟨entryHash', hhex, h⟩ := bind_eq_ok_iff.mp h
  obtain ⟨head, hhead, hafter⟩ := bind_eq_ok_iff.mp h
  rw [ReceiptChain.requireHex64] at hhex
  split_ifs at hhex
  obtain rfl : entryHash = entryHash' := Except.ok.inj hhex
  obtain rfl := Except.ok.inj hafter
  rcases hframe : receiptFrame (chain.seq + 1) chain.head entryHash with e | b
  · rw [receiptHead, hframe] at hhead
    cases hhead
  · rw [receiptHead, hframe] at hhead
    exact ⟨rfl, b, rfl, (Except.ok.inj hhead).symm⟩

/-- The head before a receipt. -/
def headBefore (chain : ReceiptChain) (receipts : List StoredReceipt) : ℕ → PyStr
  | 0 => chain.head
  | k + 1 => (receipts[k]?.map (·.head)).getD chain.head

/-- **One link**, at its place. -/
theorem Links.getElem? (h : Links chain receipts) {k : ℕ} {r : StoredReceipt}
    (hr : receipts[k]? = some r) :
    r.seq = chain.seq + (k + 1 : ℕ) ∧ ∃ b,
      receiptFrame r.seq (headBefore chain receipts k) r.entryHash = .ok b ∧
      r.head = hexdigest b ∧ b ∈ linkFrames chain.head receipts := by
  induction receipts generalizing chain k with
  | nil => cases hr
  | cons r₀ receipts ih =>
      obtain ⟨hseq, b₀, hframe, hhead⟩ := acknowledge_eq_ok h.1
      simp only at hseq hhead
      cases k with
      | zero =>
          obtain rfl : r₀ = r := Option.some.inj hr
          refine ⟨hseq, b₀, by rw [hseq]; exact hframe, hhead, List.mem_append_left _ ?_⟩
          rw [hseq, hframe]
          exact List.mem_singleton.mpr rfl
      | succ k =>
          obtain ⟨hseqr, b, hb, hheadr, hmem⟩ := ih h.2 hr
          refine ⟨?_, b, ?_, hheadr, List.mem_append_right _ hmem⟩
          · rw [hseqr, hseq]
            push_cast
            omega
          · rw [← hb]
            cases k with
            | zero => rfl
            | succ k =>
                simp only [headBefore, List.getElem?_cons_succ]
                have hk : k < receipts.length := by
                  have hlt : k + 1 + 1 < receipts.length + 1 :=
                    (List.getElem?_eq_some_iff.mp hr).1
                  omega
                rw [List.getElem?_eq_getElem hk]
                rfl

/-- The receipts of a chain from the start are numbered by their places. -/
theorem Links.seq_eq {receipts : List StoredReceipt} (h : Links .empty receipts) {k : ℕ}
    {r : StoredReceipt} (hr : receipts[k]? = some r) : r.seq = k := by
  rw [(h.getElem? hr).1, ReceiptChain.empty]
  push_cast
  omega

/-- Two receipts with one head at one place are one receipt, after one head. -/
theorem Links.eq_of_head_eq (h : Links chain receipts) (h' : Links chain receipts')
    (hcf : CollisionFree (linkFrames chain.head receipts ++ linkFrames chain.head receipts'))
    {k : ℕ} {r r' : StoredReceipt} (hr : receipts[k]? = some r) (hr' : receipts'[k]? = some r')
    (hhead : r.head = r'.head) :
    r = r' ∧ headBefore chain receipts k = headBefore chain receipts' k := by
  obtain ⟨hseq, b, hframe, hdigest, hmem⟩ := h.getElem? hr
  obtain ⟨hseq', b', hframe', hdigest', hmem'⟩ := h'.getElem? hr'
  have hsame : sha256 b = sha256 b' :=
    hexdigest_eq_iff.mp (hdigest.symm.trans (hhead.trans hdigest'))
  obtain rfl := hcf b (List.mem_append_left _ hmem) b' (List.mem_append_right _ hmem') hsame
  obtain ⟨hseqs, hprev, hentry⟩ := receiptFrame_inj hframe hframe'
  obtain ⟨seq, head, entryHash⟩ := r
  obtain ⟨seq', head', entryHash'⟩ := r'
  obtain rfl : seq = seq' := hseqs
  obtain rfl : head = head' := hhead
  obtain rfl : entryHash = entryHash' := hentry
  exact ⟨rfl, hprev⟩

/-- **Two chains with one head are one chain** up to it. -/
theorem links_agree (h : Links chain receipts) (h' : Links chain receipts')
    (hcf : CollisionFree (linkFrames chain.head receipts ++ linkFrames chain.head receipts'))
    {k : ℕ} {r r' : StoredReceipt} (hr : receipts[k]? = some r) (hr' : receipts'[k]? = some r')
    (hhead : r.head = r'.head) {j : ℕ} (hj : j ≤ k) : receipts[j]? = receipts'[j]? := by
  induction k generalizing r r' with
  | zero =>
      obtain rfl := Nat.le_zero.mp hj
      rw [hr, hr', (h.eq_of_head_eq h' hcf hr hr' hhead).1]
  | succ k ih =>
      obtain ⟨rfl, hbefore⟩ := h.eq_of_head_eq h' hcf hr hr' hhead
      rcases Nat.lt_or_eq_of_le hj with hlt | rfl
      · have hk : k < receipts.length := by
          have hlt : k + 1 < receipts.length := (List.getElem?_eq_some_iff.mp hr).1
          omega
        have hk' : k < receipts'.length := by
          have hlt : k + 1 < receipts'.length := (List.getElem?_eq_some_iff.mp hr').1
          omega
        have hget := List.getElem?_eq_getElem hk
        have hget' := List.getElem?_eq_getElem hk'
        refine ih hget hget' ?_ (Nat.le_of_lt_succ hlt)
        simpa only [headBefore, hget, hget', Option.map_some, Option.getD_some] using hbefore
      · rw [hr, hr']

end Links

/-! ## Logs in order -/

section InOrder

variable [Interpreter]

/-- The receipts of the lines that hold one. -/
def receiptsOf (lines : List PyStr) : List StoredReceipt :=
  lines.filterMap fun line =>
    if isBlank line then none else (loads line >>= storedReceiptOf).toOption

/-- The receipts of a log. -/
def receiptsIn (log : Option Bytes) : List StoredReceipt :=
  receiptsOf ((log.bind textFileLines).getD [])

variable [Hashlib] {chain after : ReceiptChain} {line : PyStr}

/-- **A line that passes** is a link. -/
theorem verifyReceiptLine_eq_inr (h : verifyReceiptLine chain line = .ok (.inr after)) :
    ∃ r, loads line >>= storedReceiptOf = .ok r ∧
      chain.acknowledge r.entryHash = .ok ⟨r.seq, r.head⟩ ∧ after = ⟨r.seq, r.head⟩ := by
  rw [verifyReceiptLine] at h
  split at h
  · split_ifs at h
    cases h
  · rename_i record version hversioned
    split_ifs at h
    · cases h
    split at h
    · split_ifs at h
      cases h
    · rename_i receipt computed hfields
      split_ifs at h with hseq hhead
      · cases h
      · cases h
      obtain rfl : computed = after := Sum.inr.inj (Except.ok.inj h)
      obtain ⟨r, hr, hfields⟩ := bind_eq_ok_iff.mp hfields
      obtain ⟨computed', hack, heq⟩ := bind_eq_ok_iff.mp hfields
      obtain ⟨rfl, rfl⟩ := Prod.mk.inj (Except.ok.inj heq)
      obtain ⟨record', hload, hversion⟩ := bind_eq_ok_iff.mp hversioned
      obtain ⟨version', -, heq⟩ := bind_eq_ok_iff.mp hversion
      obtain ⟨rfl, -⟩ := Prod.mk.inj (Except.ok.inj heq)
      have hafter : computed' = ⟨r.seq, r.head⟩ := by
        rw [not_not.mp hseq, not_not.mp hhead]
      exact ⟨r, bind_eq_ok_iff.mpr ⟨record', hload, hr⟩, by rw [hack, hafter], hafter⟩

/-- A line that does not pass is a finding. -/
theorem verifyReceiptLine_ne_ok {reason : ReceiptReason} {seq : Option ℤ} :
    verifyReceiptLine chain line ≠ .ok (.inl (.ok, reason, seq)) := by
  intro h
  rw [verifyReceiptLine] at h
  split at h
  · split_ifs at h
    cases h
  · split_ifs at h
    · cases h
    split at h
    · split_ifs at h
      cases h
    · split_ifs at h <;> cases h

/-- **A log that is in order is a chain.** -/
theorem links_of_verifyReceiptLines {lines : List PyStr} {checked : ℕ} {report : ReceiptLogReport}
    (h : verifyReceiptLines chain checked lines = .ok report) (hok : report.verdict = .ok) :
    Links chain (receiptsOf lines) ∧
      report.checked = some (checked + (receiptsOf lines).length) := by
  induction lines generalizing chain checked with
  | nil =>
      obtain rfl := Except.ok.inj h
      exact ⟨trivial, rfl⟩
  | cons line lines ih =>
      rw [verifyReceiptLines] at h
      rw [receiptsOf, List.filterMap_cons]
      split_ifs at h with hblank
      · rw [if_pos hblank]
        exact ih h
      · rw [if_neg hblank]
        obtain ⟨outcome, houtcome, h⟩ := bind_eq_ok_iff.mp h
        rcases outcome with ⟨verdict, reason, seq⟩ | after
        · obtain rfl := Except.ok.inj h
          obtain rfl : verdict = .ok := hok
          exact absurd houtcome verifyReceiptLine_ne_ok
        · obtain ⟨r, hread, hack, rfl⟩ := verifyReceiptLine_eq_inr houtcome
          obtain ⟨hlinks, hchecked⟩ := ih h
          rw [hread]
          refine ⟨⟨hack, hlinks⟩, ?_⟩
          rw [hchecked]
          simp only [receiptsOf, Except.toOption, List.length_cons, Option.some.injEq]
          omega

theorem links_of_verify {log : Option Bytes} {report : ReceiptLogReport}
    (h : verifyReceiptLog log = .ok report) (hok : report.verdict = .ok) :
    Links .empty (receiptsIn log) := by
  rcases log with - | file
  · exact trivial
  · rw [verifyReceiptLog] at h
    rcases hlines : textFileLines file with - | lines
    · simp only [hlines] at h
      cases h
    · simp only [hlines] at h
      rw [receiptsIn, Option.bind_some, hlines]
      exact (links_of_verifyReceiptLines h hok).1

/-- **A head binds the log before it.**  Two logs that verify, with one head at one sequence
number, hold the same receipts up to there. -/
theorem receipts_bound {log log' : Option Bytes} {report report' : ReceiptLogReport}
    (h : verifyReceiptLog log = .ok report) (hok : report.verdict = .ok)
    (h' : verifyReceiptLog log' = .ok report') (hok' : report'.verdict = .ok)
    (hcf : CollisionFree (linkFrames receiptGenesis (receiptsIn log)
      ++ linkFrames receiptGenesis (receiptsIn log')))
    {r r' : StoredReceipt} (hr : r ∈ receiptsIn log) (hr' : r' ∈ receiptsIn log')
    (hseq : r.seq = r'.seq) (hhead : r.head = r'.head) (s : StoredReceipt) (hs : s.seq ≤ r.seq) :
    s ∈ receiptsIn log ↔ s ∈ receiptsIn log' := by
  have hlinks := links_of_verify h hok
  have hlinks' := links_of_verify h' hok'
  obtain ⟨k, hk⟩ := List.mem_iff_getElem?.mp hr
  obtain ⟨k', hk'⟩ := List.mem_iff_getElem?.mp hr'
  have hkseq := hlinks.seq_eq hk
  have hkseq' := hlinks'.seq_eq hk'
  obtain rfl : k = k' := by omega
  have hsame : ∀ j ≤ k, (receiptsIn log)[j]? = (receiptsIn log')[j]? := fun j hj =>
    links_agree hlinks hlinks' hcf hk hk' hhead hj
  constructor
  · intro hmem
    obtain ⟨j, hj⟩ := List.mem_iff_getElem?.mp hmem
    have hjseq := hlinks.seq_eq hj
    exact List.mem_iff_getElem?.mpr ⟨j, (hsame j (by omega)).symm.trans hj⟩
  · intro hmem
    obtain ⟨j, hj⟩ := List.mem_iff_getElem?.mp hmem
    have hjseq := hlinks'.seq_eq hj
    exact List.mem_iff_getElem?.mpr ⟨j, (hsame j (by omega)).trans hj⟩

end InOrder

end Waxseal
