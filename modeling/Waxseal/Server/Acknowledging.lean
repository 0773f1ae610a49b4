import Waxseal.Adapters.Jsonl
import Waxseal.Base.JsonRecords
import Waxseal.Base.SurrogatePairs
import Waxseal.Server.ReceiptLog

/-!
# Acknowledging entries

`acknowledge` of `storage/_chain_receipts.py`, called by any number of threads on one receipt
log.  A call waits for the lock of the log; its holder reads the last line, continues the
chain from it, and appends a record (`ReceiptStore.work`).  Writes are complete: no call ends
in the middle of one.

The invariant is `Recorded`: the log holds one linked record for each receipt issued, and the
holder of the lock is about to append the next link.
-/

namespace Waxseal

open Json

/-! ## The records -/

/-- A line of the log. -/
structure ReceiptRecord where
  entryHash : PyStr
  receiptHead : PyStr
  receiptSeq : ℤ
  seq : ℤ
  ts : PyStr
  deriving DecidableEq

namespace ReceiptRecord

/-- The record as `json.dumps(record, sort_keys=True)` orders it. -/
def members (r : ReceiptRecord) : List (PyStr × Json) := [
  (str "entry_hash", .str r.entryHash), (str "receipt_head", .str r.receiptHead),
  (str "receipt_seq", .int r.receiptSeq), (str "seq", .int r.seq), (str "ts", .str r.ts),
  (str "v", .int receiptVersion)]

/-- What `verify_receipt_log` reads of a record. -/
def stored (r : ReceiptRecord) : StoredReceipt := ⟨r.receiptSeq, r.receiptHead, r.entryHash⟩

/-- The chain after a record. -/
def chain (r : ReceiptRecord) : ReceiptChain := ⟨r.receiptSeq, r.receiptHead⟩

/-- A record whose line can be read back. -/
structure Storable (r : ReceiptRecord) : Prop where
  entryHash : NoSurrogatePair r.entryHash
  receiptHead : NoSurrogatePair r.receiptHead
  ts : NoSurrogatePair r.ts

variable [Interpreter]

theorem writable_members {r : ReceiptRecord} (h : r.Storable) :
    Writable recursionLimit (.obj r.members) := by
  refine writable_flat [str "entry_hash", str "receipt_head", str "receipt_seq", str "seq",
    str "ts", str "v"] (by decide) rfl ?_
  simp only [members, List.forall_mem_cons, List.not_mem_nil, false_imp_iff, implies_true,
    and_true]
  exact ⟨⟨noSurrogatePair_str rfl, h.entryHash⟩, ⟨noSurrogatePair_str rfl, h.receiptHead⟩,
    ⟨noSurrogatePair_str rfl, trivial⟩, ⟨noSurrogatePair_str rfl, trivial⟩,
    ⟨noSurrogatePair_str rfl, h.ts⟩, noSurrogatePair_str rfl, trivial⟩

/-- The fields of a record. -/
def read (record : Json) : Except PyErr ReceiptRecord := do
  let receipt ← storedReceiptOf record
  let seq ← pyInt (← getItem record (str "seq"))
  let ts ← getItem record (str "ts")
  return ⟨receipt.entryHash, receipt.head, receipt.seq, seq, pyStr ts⟩

/-- The format of the receipt log. -/
def format : RecordFormat ReceiptRecord where
  members := members
  read := read
  Storable := Storable
  writable := writable_members
  read_members _ := rfl

end ReceiptRecord

/-! ## The calls -/

/-- What the holder of the lock is about to do. -/
inductive AckWork where
  | reading (entry : Entry)
  | writing (entry : Entry) (receipt : ReceiptChain)

/-- Where a call is. -/
inductive AckState where
  /-- Waiting for the lock. -/
  | waiting (entry : Entry)
  /-- Holding the lock. -/
  | inside
  /-- The call returned `(receipt_seq, receipt_head)`. -/
  | issued (receipt : ReceiptChain)
  | failed (e : PyErr)

/-- What a call has been issued. -/
def AckState.receipt? : AckState → Option ReceiptChain
  | .issued receipt => some receipt
  | _ => none

/-- The receipt log, who holds its lock, and the calls so far. -/
structure ReceiptStore where
  log : Option Bytes
  holder : Option (ℕ × AckWork)
  calls : List AckState

/-- What one of the calls can do next. -/
inductive AckStep where
  | call (entry : Entry)
  | enter (i : ℕ)
  | work

section Run

variable [Interpreter]

/-- The chain the last line of the log leaves. -/
def resumeChain (log : Option Bytes) : Except PyErr ReceiptChain :=
  match log.bind readLastLine with
  | none => .ok .empty
  | some last => do
      let prior ← loadsBytes last
      let receiptSeq ← pyInt (← getItem prior (str "receipt_seq"))
      let head ← getItem prior (str "receipt_head")
      ReceiptChain.resume receiptSeq (pyStr head)

/-- The record of a receipt. -/
def receiptLine (entry : Entry) (receipt : ReceiptChain) : Bytes :=
  asciiBytes (dumps .compact (.obj (ReceiptRecord.members
    ⟨entry.entryHash, receipt.head, receipt.seq, entry.header.seq, entry.header.ts⟩))) ++ [LF]

variable [Hashlib]

namespace ReceiptStore

omit [Interpreter] [Hashlib] in
/-- A call gives up the lock. -/
def leave (w : ReceiptStore) (i : ℕ) (log : Option Bytes) (state : AckState) : ReceiptStore :=
  ⟨log, none, w.calls.set i state⟩

/-- The next step of the holder of the lock. -/
def work (w : ReceiptStore) (i : ℕ) : AckWork → ReceiptStore
  | .reading entry =>
      match resumeChain w.log >>= (·.acknowledge entry.entryHash) with
      | .error e => w.leave i w.log (.failed e)
      | .ok receipt => { w with holder := some (i, .writing entry receipt) }
  | .writing entry receipt =>
      w.leave i (some (w.log.getD [] ++ receiptLine entry receipt)) (.issued receipt)

/-- One step; a step that is not possible changes nothing. -/
def step (w : ReceiptStore) : AckStep → ReceiptStore
  | .call entry => { w with calls := w.calls ++ [.waiting entry] }
  | .enter i =>
      match w.holder, w.calls[i]? with
      | none, some (.waiting entry) => ⟨w.log, some (i, .reading entry), w.calls.set i .inside⟩
      | _, _ => w
  | .work =>
      match w.holder with
      | none => w
      | some (i, work) => w.work i work

/-- A run of the calls. -/
def run (w : ReceiptStore) (steps : List AckStep) : ReceiptStore := steps.foldl step w

omit [Interpreter] [Hashlib] in
/-- Before the first call. -/
def fresh : ReceiptStore := ⟨none, none, []⟩

omit [Interpreter] [Hashlib] in
/-- The receipts issued so far. -/
def issued (w : ReceiptStore) : List ReceiptChain := w.calls.filterMap AckState.receipt?

end ReceiptStore

end Run

/-! ## Logs of records -/

/-- The chain a list of receipts leaves. -/
def chainAfter (chain : ReceiptChain) : List StoredReceipt → ReceiptChain
  | [] => chain
  | r :: receipts => chainAfter ⟨r.seq, r.head⟩ receipts

theorem chainAfter_snoc (chain : ReceiptChain) (receipts : List StoredReceipt) (r : StoredReceipt) :
    chainAfter chain (receipts ++ [r]) = ⟨r.seq, r.head⟩ := by
  induction receipts generalizing chain with
  | nil => rfl
  | cons r₀ receipts ih => exact ih _

theorem links_snoc [Hashlib] {chain : ReceiptChain} {receipts : List StoredReceipt}
    {r : StoredReceipt} :
    Links chain (receipts ++ [r]) ↔ Links chain receipts ∧
      (chainAfter chain receipts).acknowledge r.entryHash = .ok ⟨r.seq, r.head⟩ := by
  induction receipts generalizing chain with
  | nil => exact ⟨fun h => ⟨trivial, h.1⟩, fun h => ⟨h.2, trivial⟩⟩
  | cons r₀ receipts ih => rw [List.cons_append, Links, ih, Links, chainAfter, and_assoc]

section Logs

variable [Interpreter]

/-- The log that holds some records; it is created with the first of them. -/
def logOf (records : List ReceiptRecord) : Option Bytes :=
  if records = [] then none else some (ReceiptRecord.format.fileBytes records)

theorem getD_logOf (records : List ReceiptRecord) :
    (logOf records).getD [] = ReceiptRecord.format.fileBytes records := by
  rw [logOf]
  split_ifs with h
  · rw [h]
    rfl
  · rfl

theorem logOf_snoc (records : List ReceiptRecord) (r : ReceiptRecord) :
    logOf (records ++ [r])
      = some ((logOf records).getD [] ++ (ReceiptRecord.format.bytes r ++ [LF])) := by
  rw [getD_logOf, logOf, if_neg (by simp), RecordFormat.fileBytes_snoc]

/-- **A call writes the record of its receipt**, with the surrogate pairs of the time stamp
joined. -/
theorem receiptLine_eq (entry : Entry) (receipt : ReceiptChain) :
    receiptLine entry receipt = ReceiptRecord.format.bytes
      ⟨entry.entryHash, receipt.head, receipt.seq, entry.header.seq, joinPairs entry.header.ts⟩
        ++ [LF] := by
  have htext : dumps .compact (.obj (ReceiptRecord.members
        ⟨entry.entryHash, receipt.head, receipt.seq, entry.header.seq, entry.header.ts⟩))
      = dumps .compact (.obj (ReceiptRecord.members
        ⟨entry.entryHash, receipt.head, receipt.seq, entry.header.seq,
          joinPairs entry.header.ts⟩)) := by
    simp only [ReceiptRecord.members, dumps, dumpsMembers, dumpsStr_joinPairs]
  rw [receiptLine, htext]
  rfl

variable {records : List ReceiptRecord} {r : ReceiptRecord}

theorem loads_text (h : r.Storable) :
    loads (ReceiptRecord.format.text r) = .ok (.obj r.members) := by
  have hread := @decode_dumps_append _ .compact _ (ReceiptRecord.writable_members h) []
  rw [List.append_nil] at hread
  rw [loads_eq_decode (.inr (ReceiptRecord.format.opensObject_text r))]
  exact hread

theorem not_isBlank_text (r : ReceiptRecord) : ¬ isBlank (ReceiptRecord.format.text r) = true := by
  rw [isBlank_opensObject (ReceiptRecord.format.opensObject_text r)]
  exact Bool.false_ne_true

/-- The receipts of such a log. -/
theorem receiptsIn_logOf (h : ∀ r ∈ records, r.Storable) :
    receiptsIn (logOf records) = records.map (·.stored) := by
  rw [logOf]
  split_ifs with hnil
  · rw [hnil]
    rfl
  · rw [receiptsIn, Option.bind_some, RecordFormat.textFileLines_fileBytes h, Option.getD_some,
      receiptsOf]
    clear hnil
    induction records with
    | nil => rfl
    | cons r records ih =>
        rw [List.map_cons, List.filterMap_cons, if_neg (not_isBlank_text r),
          loads_text (h r List.mem_cons_self), ih fun r hr => h r (List.mem_cons_of_mem _ hr)]
        rfl

variable [Hashlib]

/-- **A linked record passes.** -/
theorem verifyReceiptLine_text {chain : ReceiptChain} (h : r.Storable)
    (hack : chain.acknowledge r.entryHash = .ok r.chain) :
    verifyReceiptLine chain (ReceiptRecord.format.text r) = .ok (.inr r.chain) := by
  have hversion : versionedRecord (ReceiptRecord.format.text r)
      = .ok (.obj r.members, .int receiptVersion) := by
    rw [versionedRecord, loads_text h]
    rfl
  have hfields : acknowledgeRecord chain (.obj r.members) = .ok (r.stored, r.chain) := by
    rw [acknowledgeRecord, show storedReceiptOf (.obj r.members) = .ok r.stored from rfl]
    exact bind_eq_ok_iff.mpr ⟨r.stored, rfl, bind_eq_ok_iff.mpr ⟨r.chain, hack, rfl⟩⟩
  simp only [verifyReceiptLine, hversion, hfields]
  simp [eqNat, ReceiptRecord.stored, ReceiptRecord.chain]

theorem verifyReceiptLines_text {chain : ReceiptChain} (h : ∀ r ∈ records, r.Storable)
    (hlinks : Links chain (records.map (·.stored))) (checked : ℕ) :
    verifyReceiptLines chain checked (records.map ReceiptRecord.format.text)
      = .ok ⟨.ok, some (checked + records.length), none, none⟩ := by
  induction records generalizing chain checked with
  | nil => rfl
  | cons r records ih =>
      rw [List.map_cons, Links] at hlinks
      rw [List.map_cons, verifyReceiptLines, if_neg (not_isBlank_text r),
        verifyReceiptLine_text (h r List.mem_cons_self) hlinks.1]
      have hrest := ih (fun r hr => h r (List.mem_cons_of_mem _ hr)) hlinks.2 (checked + 1)
      rw [List.length_cons, ← Nat.add_assoc, Nat.add_right_comm]
      exact hrest

/-- **A log of linked records verifies**; without records there is no log. -/
theorem verifyReceiptLog_logOf (h : ∀ r ∈ records, r.Storable)
    (hlinks : Links .empty (records.map (·.stored))) :
    verifyReceiptLog (logOf records)
      = .ok (if records = [] then ⟨.ok, none, some .notRecorded, none⟩
        else ⟨.ok, some records.length, none, none⟩) := by
  rw [logOf]
  split_ifs with hnil
  · rfl
  · rw [verifyReceiptLog, RecordFormat.textFileLines_fileBytes h]
    have hlines := verifyReceiptLines_text h hlinks 0
    rwa [Nat.zero_add] at hlines

omit [Interpreter] [Hashlib] in
theorem requireHex64_eq_ok {value value' : PyStr} (h : ReceiptChain.requireHex64 value = .ok value') :
    value.length = 64 ∧ isLowerHex value = true := by
  rw [ReceiptChain.requireHex64] at h
  split_ifs at h with hbad
  simpa using hbad

/-- **The last line continues the chain** where it stands. -/
theorem resumeChain_logOf (h : ∀ r ∈ records, r.Storable)
    (hlinks : Links .empty (records.map (·.stored))) :
    resumeChain (logOf records) = .ok (chainAfter .empty (records.map (·.stored))) := by
  rcases List.eq_nil_or_concat' records with rfl | ⟨before, r, rfl⟩
  · rfl
  · have hr : r.Storable := h r (List.mem_append_right _ (List.mem_singleton.mpr rfl))
    have hlast : readLastLine (ReceiptRecord.format.fileBytes (before ++ [r]))
        = some (ReceiptRecord.format.bytes r) := by
      rw [readLastLine_eq, RecordFormat.fileBytes_snoc]
      exact lastLine_line (RecordFormat.unbroken_bytes hr) (ReceiptRecord.format.bytes_ne_nil r)
        (ReceiptRecord.format.fileBytes_eq before)
    have hload : loadsBytes (ReceiptRecord.format.bytes r) = .ok (.obj r.members) := by
      have hread := @decode_dumps_append _ .compact _ (ReceiptRecord.writable_members hr) []
      rw [List.append_nil] at hread
      rw [RecordFormat.bytes, loadsBytes_printable (RecordFormat.isPrintable_text hr)]
      exact hread
    rw [List.map_append, List.map_singleton] at hlinks ⊢
    have hack := (links_snoc.mp hlinks).2
    obtain ⟨hseq, b, -, hhead⟩ := acknowledge_eq_ok hack
    have hpos : ¬ r.receiptSeq < 0 := by
      have hplace : r.stored.seq = (before.map (·.stored)).length := by
        refine hlinks.seq_eq ?_
        rw [List.getElem?_append_right le_rfl, Nat.sub_self]
        rfl
      simp only [ReceiptRecord.stored] at hplace
      omega
    have hhex : ReceiptChain.requireHex64 r.receiptHead = .ok r.receiptHead := by
      have hdigest : r.receiptHead = hexdigest b := hhead
      rw [ReceiptChain.requireHex64, if_neg]
      rw [hdigest, length_hexdigest, hexdigest, isLowerHex_hex]
      simp
    rw [logOf, if_neg (by simp), resumeChain, Option.bind_some, hlast, chainAfter_snoc]
    simp only [hload]
    refine bind_eq_ok_iff.mpr ⟨_, rfl, bind_eq_ok_iff.mpr ⟨.int r.receiptSeq, rfl,
      bind_eq_ok_iff.mpr ⟨r.receiptSeq, rfl, bind_eq_ok_iff.mpr ⟨.str r.receiptHead, rfl, ?_⟩⟩⟩⟩
    rw [ReceiptChain.resume, if_neg hpos]
    exact bind_eq_ok_iff.mpr ⟨r.receiptHead, hhex, rfl⟩

end Logs

/-! ## Runs -/

section Runs

/-- A call that has no receipt yet gets one. -/
theorem filterMap_set_perm {calls : List AckState} {i : ℕ} {before : AckState}
    (h : calls[i]? = some before) (hbefore : before.receipt? = none) (state : AckState) :
    ((calls.set i state).filterMap AckState.receipt?).Perm
      (calls.filterMap AckState.receipt? ++ state.receipt?.toList) := by
  induction calls generalizing i with
  | nil => cases h
  | cons call calls ih =>
      cases i with
      | zero =>
          obtain rfl : call = before := Option.some.inj h
          rw [List.set_cons_zero, List.filterMap_cons, List.filterMap_cons, hbefore]
          cases state.receipt? with
          | none => simp
          | some receipt => exact (List.perm_append_singleton receipt _).symm
      | succ i =>
          have hrest := ih h
          rw [List.set_cons_succ, List.filterMap_cons, List.filterMap_cons]
          cases call.receipt? with
          | none => exact hrest
          | some receipt => exact hrest.cons receipt

theorem getElem?_set_issued {calls : List AckState} {i j : ℕ} {before state : AckState}
    {receipt : ReceiptChain} (h : calls[i]? = some before) (hbefore : before.receipt? = none)
    (hj : calls[j]? = some (.issued receipt)) : (calls.set i state)[j]? = some (.issued receipt) := by
  have hne : i ≠ j := by
    rintro rfl
    obtain rfl : before = .issued receipt := Option.some.inj (h.symm.trans hj)
    cases hbefore
  rw [List.getElem?_set_ne hne]
  exact hj

variable [Interpreter] [Hashlib]

/-- The log holds these records, one for each receipt that was issued, and the holder of the
lock is about to add the next link. -/
structure Recorded (w : ReceiptStore) (records : List ReceiptRecord) : Prop where
  log : w.log = logOf records
  storable : ∀ r ∈ records, r.Storable
  links : Links .empty (records.map (·.stored))
  issued : w.issued.Perm (records.map (·.chain))
  inside : ∀ i work, w.holder = some (i, work) → w.calls[i]? = some .inside
  next : ∀ i entry receipt, w.holder = some (i, .writing entry receipt) →
    (chainAfter .empty (records.map (·.stored))).acknowledge entry.entryHash = .ok receipt

/-- Nothing that was issued changes. -/
def KeepsIssued (w w' : ReceiptStore) : Prop :=
  ∀ (i : ℕ) (receipt : ReceiptChain),
    w.calls[i]? = some (.issued receipt) → w'.calls[i]? = some (.issued receipt)

variable {w : ReceiptStore} {records : List ReceiptRecord}

theorem Recorded.leave_failed (h : Recorded w records) {i : ℕ} {work : AckWork}
    (hholder : w.holder = some (i, work)) (e : PyErr) :
    Recorded (w.leave i w.log (.failed e)) records := by
  have hinside := h.inside i work hholder
  refine ⟨h.log, h.storable, h.links, ?_, nofun, nofun⟩
  have hperm := filterMap_set_perm hinside rfl (.failed e)
  rw [show (AckState.failed e).receipt?.toList = [] from rfl, List.append_nil] at hperm
  exact hperm.trans h.issued

/-- **The write** adds the next link. -/
theorem Recorded.write (h : Recorded w records) {i : ℕ} {entry : Entry} {receipt : ReceiptChain}
    (hholder : w.holder = some (i, .writing entry receipt)) :
    Recorded (w.leave i (some (w.log.getD [] ++ receiptLine entry receipt)) (.issued receipt))
      (records ++ [⟨entry.entryHash, receipt.head, receipt.seq, entry.header.seq,
        joinPairs entry.header.ts⟩]) := by
  have hinside := h.inside i _ hholder
  have hack := h.next i entry receipt hholder
  obtain ⟨entryHash', hhex, -⟩ := bind_eq_ok_iff.mp hack
  obtain ⟨-, b, -, hhead⟩ := acknowledge_eq_ok hack
  refine ⟨?_, ?_, ?_, ?_, nofun, nofun⟩
  · rw [ReceiptStore.leave, logOf_snoc, h.log, receiptLine_eq]
  · refine List.forall_mem_append.mpr ⟨h.storable, List.forall_mem_singleton.mpr ⟨?_, ?_, ?_⟩⟩
    · exact noSurrogatePair_of_isLowerHex (requireHex64_eq_ok hhex).2
    · rw [hhead]
      exact noSurrogatePair_of_isLowerHex (isLowerHex_hex _)
    · exact noSurrogatePair_joinPairs _
  · rw [List.map_append, List.map_singleton, links_snoc]
    exact ⟨h.links, hack⟩
  · have hperm := filterMap_set_perm hinside rfl (.issued receipt)
    rw [List.map_append, List.map_singleton]
    exact hperm.trans (h.issued.append_right _)

/-- **One step** adds at most one record, and changes nothing that was issued. -/
theorem Recorded.step (h : Recorded w records) (s : AckStep) :
    ∃ more, Recorded (w.step s) (records ++ more) ∧ KeepsIssued w (w.step s) := by
  have hsame : ∃ more, Recorded w (records ++ more) ∧ KeepsIssued w w :=
    ⟨[], by rwa [List.append_nil], fun i receipt hi => hi⟩
  cases s with
  | call entry =>
      refine ⟨[], ?_, fun i receipt hi => ?_⟩
      · rw [List.append_nil]
        refine ⟨h.log, h.storable, h.links, ?_, fun i work hholder => ?_, h.next⟩
        · have hissued : (w.step (.call entry)).issued = w.issued := by
            simp [ReceiptStore.step, ReceiptStore.issued, AckState.receipt?]
          rw [hissued]
          exact h.issued
        · exact List.getElem?_append_left
            (List.getElem?_eq_some_iff.mp (h.inside i work hholder)).1 |>.trans
            (h.inside i work hholder)
      · exact (List.getElem?_append_left (List.getElem?_eq_some_iff.mp hi).1).trans hi
  | enter i =>
      rcases hholder : w.holder with - | held
      · rcases hcall : w.calls[i]? with - | (entry | - | receipt | e)
        · simpa only [ReceiptStore.step, hholder, hcall] using hsame
        · refine ⟨[], ?_, ?_⟩
          · simp only [ReceiptStore.step, hholder, hcall, List.append_nil]
            refine ⟨h.log, h.storable, h.links, ?_, ?_, nofun⟩
            · have hperm := filterMap_set_perm hcall rfl .inside
              rw [show AckState.inside.receipt?.toList = [] from rfl, List.append_nil] at hperm
              exact hperm.trans h.issued
            · intro j work hj
              obtain ⟨rfl, -⟩ := Prod.mk.inj (Option.some.inj hj)
              exact List.getElem?_set_self (List.getElem?_eq_some_iff.mp hcall).1
          · intro j receipt hj
            simp only [ReceiptStore.step, hholder, hcall]
            exact getElem?_set_issued hcall rfl hj
        all_goals simpa only [ReceiptStore.step, hholder, hcall] using hsame
      · simpa only [ReceiptStore.step, hholder] using hsame
  | work =>
      rcases hholder : w.holder with - | ⟨i, entry | ⟨entry, receipt⟩⟩
      · simpa only [ReceiptStore.step, hholder] using hsame
      · have hinside := h.inside i _ hholder
        rcases hack : resumeChain w.log >>= (·.acknowledge entry.entryHash) with e | receipt
        · simp only [ReceiptStore.step, hholder, ReceiptStore.work, hack]
          refine ⟨[], ?_, fun j receipt hj => getElem?_set_issued hinside rfl hj⟩
          rw [List.append_nil]
          exact h.leave_failed hholder e
        · simp only [ReceiptStore.step, hholder, ReceiptStore.work, hack]
          refine ⟨[], ?_, fun j receipt hj => hj⟩
          rw [List.append_nil]
          refine ⟨h.log, h.storable, h.links, h.issued, ?_, ?_⟩
          · intro j work hj
            obtain ⟨rfl, -⟩ := Prod.mk.inj (Option.some.inj hj)
            exact hinside
          · intro j entry' receipt' hj
            obtain ⟨-, heq⟩ := Prod.mk.inj (Option.some.inj hj)
            obtain ⟨rfl, rfl⟩ := AckWork.writing.inj heq
            rw [h.log, resumeChain_logOf h.storable h.links] at hack
            exact hack
      · have hinside := h.inside i _ hholder
        simp only [ReceiptStore.step, hholder, ReceiptStore.work]
        exact ⟨_, h.write hholder, fun j receipt hj => getElem?_set_issued hinside rfl hj⟩

/-- **A run** of the calls. -/
theorem Recorded.run (h : Recorded w records) (steps : List AckStep) :
    ∃ more, Recorded (w.run steps) (records ++ more) ∧ KeepsIssued w (w.run steps) := by
  induction steps generalizing w records with
  | nil => exact ⟨[], by rwa [List.append_nil], fun i receipt hi => hi⟩
  | cons s steps ih =>
      obtain ⟨more, hstep, hkeeps⟩ := h.step s
      obtain ⟨more', hrun, hkeeps'⟩ := ih hstep
      refine ⟨more ++ more', ?_, fun i receipt hi => hkeeps' i receipt (hkeeps i receipt hi)⟩
      rw [← List.append_assoc]
      exact hrun

theorem recorded_fresh : Recorded .fresh [] :=
  ⟨rfl, nofun, trivial, List.Perm.nil, nofun, nofun⟩

/-- The receipts of a store: numbered from 0 on, in the log in order, each issued once, and in
the log as they were issued.  The log verifies, once there is one. -/
structure ReceiptsInOrder (w : ReceiptStore) : Prop where
  stored : (receiptsIn w.log).map (·.seq) = (List.range w.issued.length).map Int.ofNat
  once : (w.issued.map (·.seq)).Perm ((List.range w.issued.length).map Int.ofNat)
  verifies : verifyReceiptLog w.log
    = .ok (if w.issued = [] then ⟨.ok, none, some .notRecorded, none⟩
      else ⟨.ok, some w.issued.length, none, none⟩)
  recorded : ∀ receipt ∈ w.issued, ∃ r ∈ receiptsIn w.log, r.seq = receipt.seq ∧ r.head = receipt.head

omit [Interpreter] in
theorem map_seq_eq_range {receipts : List StoredReceipt} (h : Links .empty receipts) :
    receipts.map (·.seq) = (List.range receipts.length).map Int.ofNat := by
  refine List.ext_getElem? fun k => ?_
  rw [List.getElem?_map, List.getElem?_map]
  rcases hr : receipts[k]? with - | r
  · have hlen := List.getElem?_eq_none_iff.mp hr
    rw [List.getElem?_eq_none (by rwa [List.length_range])]
    rfl
  · have hlt := (List.getElem?_eq_some_iff.mp hr).1
    rw [List.getElem?_range hlt, Option.map_some, Option.map_some, h.seq_eq hr]
    rfl

theorem Recorded.inOrder (h : Recorded w records) : ReceiptsInOrder w := by
  have hlen : w.issued.length = records.length := by
    rw [h.issued.length_eq, List.length_map]
  have hstored : receiptsIn w.log = records.map (·.stored) := by
    rw [h.log, receiptsIn_logOf h.storable]
  have hseqs := map_seq_eq_range h.links
  rw [List.length_map, ← hlen] at hseqs
  refine ⟨by rw [hstored, hseqs], ?_, ?_, fun receipt hreceipt => ?_⟩
  · rw [← hseqs, List.map_map]
    exact (h.issued.map _).trans (List.Perm.of_eq (List.map_map.trans rfl))
  · rw [h.log, verifyReceiptLog_logOf h.storable h.links, hlen]
    have hnil : records = [] ↔ w.issued = [] := by
      rw [← List.length_eq_zero_iff, ← hlen, List.length_eq_zero_iff]
    simp only [hnil]
  · obtain ⟨r, hr, rfl⟩ := List.mem_map.mp (h.issued.mem_iff.mp hreceipt)
    exact ⟨r.stored, hstored ▸ List.mem_map_of_mem hr, rfl, rfl⟩

end Runs

/-! ## Two and three calls -/

section Example

/-- An entry with a hash. -/
def hashedEntry (seq : ℤ) (digit : Char) : Entry where
  header := ⟨seq, str "2025-01-01T00:00:00+00:00", str "v1", str "note", [], []⟩
  entryHash := List.replicate 64 (CodePoint.ofChar digit)
  payload := none

/-- Two calls, the second of which gets the lock first. -/
def twoCalls : List AckStep :=
  [.call (hashedEntry 0 'a'), .call (hashedEntry 1 'b'), .enter 1, .enter 0, .work, .work, .enter 0,
    .work, .work]

/-- A third call. -/
def thirdCall : List AckStep := [.call (hashedEntry 2 'c'), .enter 2, .work, .work]

end Example

end Waxseal
