import Mathlib.Data.List.Chain
import Waxseal.Contracts.CheckpointCodec

/-!
# The AnchoringLiveness contract

The contract's storage and event log, its two transactions, and what holds over any
run of them.  A transaction reverts with an error and leaves the storage and the log
unchanged, or succeeds.

Every head a trail ever recorded is in the log.  `Wf` ties the storage to the log: the
stored head is the last one logged, and each logged head was accepted as an extension
of the one before.  `exec_wf` is the step lemma and `run_wf` the run lemma; a walk down
the log then gives `history_append_only`.
-/

namespace Waxseal.AnchoringLiveness

open Rfc9162

/-- `uint64`. -/
abbrev Uint64 := BitVec 64

/-- `struct Head`. -/
structure Head where
  seq : Uint64
  blockTime : Uint64
  entryHash : Bytes32
  root : Bytes32
  seen : Bool

/-- `bytes32(0)`. -/
def zero32 : Bytes32 := ⟨List.replicate 32 0, List.length_replicate⟩

/-- The events of the contract. -/
inductive Event where
  | trailRegistered (trailId : Bytes32) (writer : Address) (deadline : Uint64)
  | headAdvanced (trailId : Bytes32) (seq : Uint64) (entryHash root : Bytes32) (blockTime : Uint64)

/-- The errors of the contract. -/
inductive Revert where
  | trailAlreadyRegistered (trailId : Bytes32)
  | trailNotRegistered (trailId : Bytes32)
  | zeroWriter
  | zeroDeadline
  | seqNotIncreasing (submitted current : Uint64)
  | badWriterSignature (recovered expected : Address)
  | notAnExtension (reason : Fail)

/-- The storage of the contract and the log of its events. -/
structure World where
  writerOf : Bytes32 → Address
  deadlineOf : Bytes32 → Uint64
  head : Bytes32 → Head
  log : List Event

/-- The contract as deployed. -/
def World.init : World where
  writerOf _ := 0
  deadlineOf _ := 0
  head _ := ⟨0, 0, zero32, zero32, false⟩
  log := []

/-- A call, from any sender with any arguments. -/
inductive Call where
  | registerTrail (trailId : Bytes32) (writer : Address) (deadline : Uint64)
  | submit (trailId : Bytes32) (seq : Uint64) (entryHash root : Bytes32) (signature : Bytes)
      (consistencyProof : List Bytes32)

/-- A transaction, with what the chain adds to it. -/
structure Tx where
  sender : Address
  timestamp : Uint256
  call : Call

variable [Hashlib] [Precompiles]

/-- `registerTrail`. -/
def registerTrail (w : World) (trailId : Bytes32) (writer : Address) (deadline : Uint64) :
    Except Revert World :=
  if w.writerOf trailId ≠ 0 then .error (.trailAlreadyRegistered trailId)
  else if writer = 0 then .error .zeroWriter
  else if deadline = 0 then .error .zeroDeadline
  else .ok { w with
    writerOf := Function.update w.writerOf trailId writer
    deadlineOf := Function.update w.deadlineOf trailId deadline
    log := w.log ++ [.trailRegistered trailId writer deadline] }

omit [Precompiles] in
/-- `_requireExtends`: tree sizes are `seq + 1`, computed on 256-bit words. -/
def requireExtends (oldSeq : Uint64) (oldRoot : Bytes32) (newSeq : Uint64) (newRoot : Bytes32)
    (consistencyProof : List Bytes32) : Except Revert Unit :=
  let (extended, reason) := Rfc9162.verifyConsistency oldRoot (oldSeq.setWidth 256 + 1) newRoot
    (newSeq.setWidth 256 + 1) consistencyProof
  if !extended then .error (.notAnExtension reason) else .ok ()

omit [Precompiles] in
/-- What `submit` asks of a head when the trail has one already. -/
def requireAhead (head : Head) (seq : Uint64) (root : Bytes32) (consistencyProof : List Bytes32) :
    Except Revert Unit :=
  if head.seen then
    if seq ≤ head.seq then .error (.seqNotIncreasing seq head.seq)
    else requireExtends head.seq head.root seq root consistencyProof
  else .ok ()

/-- `submit`. -/
def submit (w : World) (timestamp : Uint256) (trailId : Bytes32) (seq : Uint64)
    (entryHash root : Bytes32) (signature : Bytes) (consistencyProof : List Bytes32) :
    Except Revert World :=
  let writer := w.writerOf trailId
  if writer = 0 then .error (.trailNotRegistered trailId)
  else
    let digest := CheckpointCodec.signingDigest trailId (seq.setWidth 256) entryHash root
    let recovered := CheckpointCodec.recoverSigner digest signature
    if recovered ≠ writer then .error (.badWriterSignature recovered writer)
    else
      match requireAhead (w.head trailId) seq root consistencyProof with
      | .error e => .error e
      | .ok () =>
          let blockTime := timestamp.setWidth 64
          .ok { w with
            head := Function.update w.head trailId ⟨seq, blockTime, entryHash, root, true⟩
            log := w.log ++ [.headAdvanced trailId seq entryHash root blockTime] }

/-- One transaction. -/
def exec (w : World) (tx : Tx) : Except Revert World :=
  match tx.call with
  | .registerTrail trailId writer deadline => registerTrail w trailId writer deadline
  | .submit trailId seq entryHash root signature consistencyProof =>
      submit w tx.timestamp trailId seq entryHash root signature consistencyProof

/-- One transaction, with a revert leaving the world as it was. -/
def step (w : World) (tx : Tx) : World :=
  match exec w tx with
  | .ok w' => w'
  | .error _ => w

/-- A run of transactions. -/
def run (txs : List Tx) : World := txs.foldl step World.init

/-! ## What one transaction does -/

omit [Precompiles] in
theorem requireAhead_eq_ok {head : Head} {seq : Uint64} {root : Bytes32} {proof : List Bytes32}
    (h : requireAhead head seq root proof = .ok ()) (hseen : head.seen = true) :
    head.seq < seq ∧ (Rfc9162.verifyConsistency head.root (head.seq.setWidth 256 + 1) root
      (seq.setWidth 256 + 1) proof).1 = true := by
  rw [requireAhead, if_pos hseen] at h
  by_cases hle : seq ≤ head.seq
  · rw [if_pos hle] at h
    cases h
  · rw [if_neg hle, requireExtends] at h
    refine ⟨BitVec.not_le.mp hle, ?_⟩
    by_contra hfalse
    rw [Bool.not_eq_true] at hfalse
    dsimp only at h
    rw [hfalse] at h
    cases h

omit [Precompiles] in
/-- The order of heads is not about signatures. -/
theorem requireAhead_ne_badWriterSignature {head : Head} {seq : Uint64} {root : Bytes32}
    {proof : List Bytes32} {recovered expected : Address} :
    requireAhead head seq root proof ≠ .error (.badWriterSignature recovered expected) := by
  rw [requireAhead, requireExtends]
  dsimp only
  split_ifs <;> exact nofun

/-- Everything a successful transaction can have done. -/
theorem exec_cases {w w' : World} {tx : Tx} (h : exec w tx = .ok w') :
    (∃ trailId writer deadline, w.writerOf trailId = 0 ∧
      tx.call = .registerTrail trailId writer deadline ∧
      w' = { w with
        writerOf := Function.update w.writerOf trailId writer
        deadlineOf := Function.update w.deadlineOf trailId deadline
        log := w.log ++ [.trailRegistered trailId writer deadline] }) ∨
    (∃ trailId seq entryHash root signature proof, w.writerOf trailId ≠ 0 ∧
      tx.call = .submit trailId seq entryHash root signature proof ∧
      requireAhead (w.head trailId) seq root proof = .ok () ∧
      w' = { w with
        head := Function.update w.head trailId
          ⟨seq, tx.timestamp.setWidth 64, entryHash, root, true⟩
        log := w.log ++
          [.headAdvanced trailId seq entryHash root (tx.timestamp.setWidth 64)] }) := by
  rw [exec] at h
  rcases hcall : tx.call with ⟨trailId, writer, deadline⟩ |
    ⟨trailId, seq, entryHash, root, signature, proof⟩
  · rw [hcall] at h
    dsimp only at h
    rw [registerTrail] at h
    split_ifs at h with hreg hwriter hdeadline
    exact Or.inl ⟨trailId, writer, deadline, not_not.mp hreg, rfl, (Except.ok.inj h).symm⟩
  · rw [hcall] at h
    dsimp only at h
    rw [submit] at h
    dsimp only at h
    split_ifs at h with hwriter hsig
    rcases hahead : requireAhead (w.head trailId) seq root proof with e | ⟨⟩
    · rw [hahead] at h
      cases h
    · rw [hahead] at h
      exact Or.inr ⟨trailId, seq, entryHash, root, signature, proof, hwriter, rfl, hahead,
        (Except.ok.inj h).symm⟩

/-- A transaction succeeds or leaves the world as it was. -/
theorem step_cases (w : World) (tx : Tx) :
    exec w tx = .ok (step w tx) ∨ step w tx = w := by
  rw [step]
  rcases exec w tx with e | w'
  · exact Or.inr rfl
  · exact Or.inl rfl

/-! ## The log only grows, and registrations stay -/

/-- What no later transaction undoes. -/
structure Extends (w w' : World) : Prop where
  log : w.log <+: w'.log
  registered : ∀ trailId, w.writerOf trailId ≠ 0 →
    w'.writerOf trailId = w.writerOf trailId ∧ w'.deadlineOf trailId = w.deadlineOf trailId

omit [Hashlib] [Precompiles] in
theorem Extends.refl (w : World) : Extends w w :=
  ⟨List.prefix_refl _, fun _ _ => ⟨rfl, rfl⟩⟩

omit [Hashlib] [Precompiles] in
theorem Extends.trans {w w' w'' : World} (h : Extends w w') (h' : Extends w' w'') :
    Extends w w'' := by
  refine ⟨h.log.trans h'.log, fun trailId hreg => ?_⟩
  obtain ⟨hwriter, hdeadline⟩ := h.registered trailId hreg
  obtain ⟨hwriter', hdeadline'⟩ := h'.registered trailId (by rwa [hwriter])
  exact ⟨hwriter'.trans hwriter, hdeadline'.trans hdeadline⟩

theorem step_extends (w : World) (tx : Tx) : Extends w (step w tx) := by
  rcases step_cases w tx with h | h
  · rcases exec_cases h with ⟨trailId, writer, deadline, hreg, -, heq⟩ |
      ⟨trailId, seq, entryHash, root, signature, proof, -, -, -, heq⟩
    · rw [heq]
      refine ⟨List.prefix_append _ _, fun trailId' hreg' => ?_⟩
      have hne : trailId' ≠ trailId := by
        rintro rfl
        exact hreg' hreg
      exact ⟨Function.update_of_ne hne _ _, Function.update_of_ne hne _ _⟩
    · rw [heq]
      exact ⟨List.prefix_append _ _, fun _ _ => ⟨rfl, rfl⟩⟩
  · rw [h]
    exact Extends.refl w

theorem foldl_step_extends (txs : List Tx) (w : World) : Extends w (txs.foldl step w) := by
  induction txs generalizing w with
  | nil => exact Extends.refl w
  | cons tx txs ih => exact (step_extends w tx).trans (ih _)

/-! ## The heads of a trail -/

/-- The head an event records for a trail. -/
def headOf (trailId : Bytes32) : Event → Option Head
  | .headAdvanced trailId' seq entryHash root blockTime =>
      if trailId' = trailId then some ⟨seq, blockTime, entryHash, root, true⟩ else none
  | .trailRegistered .. => none

/-- The heads a trail recorded, oldest first. -/
def heads (trailId : Bytes32) (log : List Event) : List Head := log.filterMap (headOf trailId)

/-- The inputs `verifyConsistency` hashes to accept `root` at `seq` after `head`. -/
def aheadInputs (head : Head) (seq : Uint64) (proof : List Bytes32) : List Bytes :=
  foldInputs (head.seq.toNat + 1) (seq.toNat + 1)
    (consistencyPath head.root.val (head.seq.toNat + 1) (proof.map Subtype.val))

/-- `head'` was accepted after `head`, hashing only what is listed. -/
def Ahead (inputs : List Bytes) (head head' : Head) : Prop :=
  head.seq < head'.seq ∧ ∃ proof,
    (Rfc9162.verifyConsistency head.root (head.seq.setWidth 256 + 1) head'.root
      (head'.seq.setWidth 256 + 1) proof).1 = true ∧ aheadInputs head head'.seq proof ⊆ inputs

/-- The storage and the log agree, and the log of each trail is a chain of extensions. -/
structure Wf (inputs : List Bytes) (w : World) : Prop where
  latest : ∀ trailId, (heads trailId w.log).getLast?
    = if (w.head trailId).seen then some (w.head trailId) else none
  chain : ∀ trailId, (heads trailId w.log).IsChain (Ahead inputs)

/-- What the consistency check of a successful `submit` hashes. -/
def hashed (w : World) (tx : Tx) : List Bytes :=
  match exec w tx, tx.call with
  | .ok _, .submit trailId seq _ _ _ proof =>
      if (w.head trailId).seen then aheadInputs (w.head trailId) seq proof else []
  | _, _ => []

/-- What the consistency checks of a run hash. -/
def runInputs : World → List Tx → List Bytes
  | _, [] => []
  | w, tx :: txs => hashed w tx ++ runInputs (step w tx) txs

omit [Precompiles] in
theorem Ahead.mono {inputs inputs' : List Bytes} (hsub : inputs ⊆ inputs') {head head' : Head}
    (h : Ahead inputs head head') : Ahead inputs' head head' := by
  obtain ⟨hlt, proof, hok, hin⟩ := h
  exact ⟨hlt, proof, hok, List.Subset.trans hin hsub⟩

omit [Precompiles] in
theorem Wf.mono {inputs inputs' : List Bytes} (hsub : inputs ⊆ inputs') {w : World}
    (h : Wf inputs w) : Wf inputs' w :=
  ⟨h.latest, fun trailId => (h.chain trailId).imp fun _ _ => Ahead.mono hsub⟩

omit [Precompiles] in
theorem wf_init : Wf [] World.init :=
  ⟨fun _ => rfl, fun _ => List.isChain_nil⟩

/-- **Step lemma.** -/
theorem step_wf {inputs : List Bytes} {w : World} (hw : Wf inputs w) (tx : Tx) :
    Wf (inputs ++ hashed w tx) (step w tx) := by
  rcases step_cases w tx with h | h
  · have hw' := hw.mono (List.subset_append_left inputs (hashed w tx))
    rcases exec_cases h with ⟨trailId, writer, deadline, -, -, heq⟩ |
      ⟨trailId, seq, entryHash, root, signature, proof, -, hcall, hahead, heq⟩
    · have hheads : ∀ trailId', heads trailId' (step w tx).log = heads trailId' w.log := by
        intro trailId'
        rw [heq, heads, List.filterMap_append]
        exact List.append_nil _
      have hhead : (step w tx).head = w.head := by rw [heq]
      refine ⟨fun trailId' => ?_, fun trailId' => ?_⟩
      · rw [hheads, hhead]
        exact hw'.latest trailId'
      · rw [hheads]
        exact hw'.chain trailId'
    · set new : Head := ⟨seq, tx.timestamp.setWidth 64, entryHash, root, true⟩
      have hhashed : (w.head trailId).seen = true →
          hashed w tx = aheadInputs (w.head trailId) seq proof := by
        intro hseen
        rw [hashed, h, hcall]
        exact if_pos hseen
      have hheads : ∀ trailId', heads trailId' (step w tx).log
          = heads trailId' w.log ++ if trailId = trailId' then [new] else [] := by
        intro trailId'
        rw [heq, heads, List.filterMap_append]
        by_cases hid : trailId = trailId'
        · simp [heads, headOf, hid, new]
        · simp [heads, headOf, hid]
      have hhead : (step w tx).head = Function.update w.head trailId new := by rw [heq]
      refine ⟨fun trailId' => ?_, fun trailId' => ?_⟩
      · rw [hheads, hhead]
        by_cases hid : trailId = trailId'
        · subst hid
          rw [if_pos rfl, List.getLast?_concat, Function.update_self]
          rfl
        · rw [if_neg hid, List.append_nil, Function.update_of_ne (Ne.symm hid)]
          exact hw'.latest trailId'
      · rw [hheads]
        by_cases hid : trailId = trailId'
        · subst hid
          rw [if_pos rfl]
          refine List.isChain_append.mpr ⟨hw'.chain _, List.isChain_singleton _, ?_⟩
          rintro last hlast _ hnew
          obtain rfl : new = _ := by simpa using hnew
          rw [hw'.latest trailId] at hlast
          by_cases hseen : (w.head trailId).seen = true
          · rw [if_pos hseen] at hlast
            obtain rfl : w.head trailId = last := by simpa using hlast
            obtain ⟨hlt, hok⟩ := requireAhead_eq_ok hahead hseen
            refine ⟨hlt, proof, hok, ?_⟩
            rw [hhashed hseen]
            exact List.subset_append_right _ _
          · rw [if_neg hseen] at hlast
            cases hlast
        · rw [if_neg hid, List.append_nil]
          exact hw'.chain trailId'
  · rw [h]
    exact hw.mono (List.subset_append_left _ _)

/-- **Run lemma.** -/
theorem foldl_step_wf (txs : List Tx) {inputs : List Bytes} {w : World} (hw : Wf inputs w) :
    Wf (inputs ++ runInputs w txs) (txs.foldl step w) := by
  induction txs generalizing inputs w with
  | nil => exact hw.mono (List.subset_append_left _ _)
  | cons tx txs ih =>
      have htail := ih (step_wf hw tx)
      rwa [List.append_assoc] at htail

theorem run_wf (txs : List Tx) : Wf (runInputs World.init txs) (run txs) :=
  foldl_step_wf txs wf_init

/-! ## The history of a trail -/

omit [Hashlib] [Precompiles] in
/-- `uint256(seq) + 1` does not overflow. -/
theorem toNat_size (seq : Uint64) : (seq.setWidth 256 + 1 : Uint256).toNat = seq.toNat + 1 := by
  have := seq.isLt
  rw [BitVec.toNat_add, BitVec.toNat_setWidth, show (1 : Uint256).toNat = 1 from rfl]
  omega

omit [Precompiles] in
/-- One extension: a head whose successor commits to a leaf list commits to a prefix of
it. -/
theorem Ahead.root_eq {inputs : List Bytes} {head head' : Head} {L : List Bytes32}
    (h : Ahead inputs head head') (hlen : head'.seq.toNat + 1 ≤ L.length)
    (hroot : head'.root = Rfc9162.treeHash (L.take (head'.seq.toNat + 1)))
    (hcf : CollisionFree (inputs
      ++ nodeInputs ((L.take (head'.seq.toNat + 1)).map Subtype.val))) :
    head.root = Rfc9162.treeHash (L.take (head.seq.toNat + 1)) := by
  obtain ⟨hlt, proof, hok, hin⟩ := h
  rw [BitVec.lt_def] at hlt
  have hpins := verifyConsistency_pins (by rw [List.length_take, toNat_size]; omega) hroot
    (hcf.mono (by
      rw [toNat_size, toNat_size]
      exact List.append_subset.mpr ⟨List.Subset.trans hin (List.subset_append_left _ _),
        List.subset_append_right _ _⟩)) hok
  rw [hpins, toNat_size, List.take_take]
  congr 2
  omega

omit [Precompiles] in
/-- Down a chain of extensions, every head commits to a prefix of what the last one
commits to. -/
theorem root_eq_of_isChain {inputs : List Bytes} {L : List Bytes32} {hs : List Head} {last : Head}
    (hchain : hs.IsChain (Ahead inputs)) (hlast : hs.getLast? = some last)
    (hlen : L.length = last.seq.toNat + 1) (hroot : last.root = Rfc9162.treeHash L)
    (hcf : CollisionFree (inputs ++ hs.flatMap fun head =>
      nodeInputs ((L.take (head.seq.toNat + 1)).map Subtype.val))) :
    ∀ head ∈ hs, head.seq ≤ last.seq ∧ head.root = Rfc9162.treeHash (L.take (head.seq.toNat + 1)) := by
  induction hs with
  | nil => simp
  | cons head hs ih =>
      cases hs with
      | nil =>
          obtain rfl : head = last := by simpa using hlast
          intro head' hmem
          obtain rfl : head' = head := by simpa using hmem
          exact ⟨BitVec.le_refl _, by rw [← hlen, List.take_length, hroot]⟩
      | cons next hs =>
          obtain ⟨hstep, htail⟩ := List.isChain_cons_cons.mp hchain
          have hrest := ih htail (by rwa [List.getLast?_cons_cons] at hlast) (hcf.mono (by
            rw [List.flatMap_cons (x := head)]
            exact List.append_subset.mpr ⟨List.subset_append_left _ _,
              List.Subset.trans (List.subset_append_right _ _) (List.subset_append_right _ _)⟩))
          obtain ⟨hle, hnext⟩ := hrest next List.mem_cons_self
          rw [BitVec.le_def] at hle
          have hlt := hstep.1
          rw [BitVec.lt_def] at hlt
          rw [List.forall_mem_cons]
          refine ⟨⟨BitVec.le_def.mpr (by omega), hstep.root_eq (by omega) hnext (hcf.mono ?_)⟩, hrest⟩
          rw [List.flatMap_cons, List.flatMap_cons]
          intro x hx
          simp only [List.mem_append] at hx ⊢
          tauto

/-- **The history of every trail is append-only**, over any run of transactions: nothing
recorded changes later, and under the latest root lie all the earlier ones. -/
theorem history_append_only (txs : List Tx) (trailId : Bytes32) :
    ((heads trailId (run txs).log).Pairwise fun head head' => head.seq < head'.seq) ∧
    (∀ txs', (run txs).log <+: (run (txs ++ txs')).log ∧
      ((run txs).writerOf trailId ≠ 0 →
        (run (txs ++ txs')).writerOf trailId = (run txs).writerOf trailId ∧
        (run (txs ++ txs')).deadlineOf trailId = (run txs).deadlineOf trailId)) ∧
    (∀ L : List Bytes32,
      ((run txs).head trailId).root = Rfc9162.treeHash L →
      L.length = ((run txs).head trailId).seq.toNat + 1 →
      CollisionFree (runInputs World.init txs ++ (heads trailId (run txs).log).flatMap fun head =>
        nodeInputs ((L.take (head.seq.toNat + 1)).map Subtype.val)) →
      ∀ head ∈ heads trailId (run txs).log,
        head.root = Rfc9162.treeHash (L.take (head.seq.toNat + 1))) := by
  have hw := run_wf txs
  refine ⟨?_, fun txs' => ?_, fun L hroot hlen hcf head hmem => ?_⟩
  · exact List.isChain_iff_pairwise.mp ((hw.chain trailId).imp fun _ _ h => h.1)
  · have hext : Extends (run txs) (run (txs ++ txs')) := by
      rw [run, run, List.foldl_append]
      exact foldl_step_extends txs' _
    exact ⟨hext.log, hext.registered trailId⟩
  · have hlast := hw.latest trailId
    by_cases hseen : ((run txs).head trailId).seen = true
    · rw [if_pos hseen] at hlast
      exact (root_eq_of_isChain (hw.chain trailId) hlast hlen hroot hcf head hmem).2
    · rw [if_neg hseen, List.getLast?_eq_none_iff] at hlast
      rw [hlast] at hmem
      cases hmem

/-! ## A run of three transactions -/

section Example

/-- The `k` big-endian bytes of a number. -/
def beBytes : ℕ → ℕ → Bytes
  | 0, _ => []
  | k + 1, n => beBytes k (n / 256) ++ [UInt8.ofNat n]

/-- The address of the secret key 1. -/
def signer : Address := 0x7e5f4552091a69125d5dfcb7b8c2659029395bdf

/-- The `r` of both signatures: the nonce is 2. -/
def sigR : ℕ := 0xc6047f9441ed7d6d3045406e95c07cd85c778e4b8cef3ca7abac09b95c709ee5

/-- The digest, recovery id and `s` of the two signatures. -/
def signed : List (ℕ × UInt8 × ℕ) :=
  [(0x42cd46bdbf17dc8f5607eb5f2034d8be8c571976cc15a8de0bd8b19fad456188, 27,
      0x468e3290082acfe432695e6dafaaacc170fe56dd4de22a4fbd92e661cbfdf96),
    (0x1bf390e26a268538effd2556b8c190cb096cac824f44139b3fa5b5e77aeae3c4, 28,
      0xf03f7c4a9f5feacefdecd1d58bef92daa65510c698aa7fc6a404f75fc6d5f4c)]

/-- `ecrecover` on these two signatures. -/
@[reducible] def precompiles : Precompiles where
  ecrecover digest v r s :=
    if (CheckpointCodec.beNat digest.val, v, CheckpointCodec.beNat s.val) ∈ signed ∧
        CheckpointCodec.beNat r.val = sigR then signer else 0

/-- The 32 bytes `b`. -/
def word (b : UInt8) : Bytes32 := ⟨List.replicate 32 b, List.length_replicate⟩

/-- The trail is registered, its first entry anchored, and then its second with a
consistency proof. -/
def threeTxs : List Tx :=
  letI := Sha256.hashlib
  [⟨0, 100, .registerTrail (word 7) signer 3600⟩,
    ⟨0, 200, .submit (word 7) 0 (word 0) (Rfc9162.treeHash [word 0])
      (beBytes 32 sigR ++
        beBytes 32 0x468e3290082acfe432695e6dafaaacc170fe56dd4de22a4fbd92e661cbfdf96 ++ [27]) []⟩,
    ⟨0, 300, .submit (word 7) 1 (word 1) (Rfc9162.treeHash [word 0, word 1])
      (beBytes 32 sigR ++
        beBytes 32 0xf03f7c4a9f5feacefdecd1d58bef92daa65510c698aa7fc6a404f75fc6d5f4c ++ [28])
      [Rfc9162.leafHash (word 1)]⟩]

omit [Hashlib] [Precompiles] in
/-- Both heads are recorded, and commit to the two prefixes of the two entries. -/
theorem history_append_only_three :
    letI := Sha256.hashlib
    letI := precompiles
    (heads (word 7) (run threeTxs).log).length = 2 ∧
      ∀ head ∈ heads (word 7) (run threeTxs).log,
        head.root = Rfc9162.treeHash ([word 0, word 1].take (head.seq.toNat + 1)) := by
  let _ := Sha256.hashlib
  let _ := precompiles
  have hrun : (heads (word 7) (run threeTxs).log).length = 2 ∧
      ((run threeTxs).head (word 7)).root = Rfc9162.treeHash [word 0, word 1] ∧
      2 = ((run threeTxs).head (word 7)).seq.toNat + 1 ∧
      CollisionFree (runInputs World.init threeTxs ++
        (heads (word 7) (run threeTxs).log).flatMap fun head =>
          nodeInputs (([word 0, word 1].take (head.seq.toNat + 1)).map Subtype.val)) := by
    decide +kernel
  exact ⟨hrun.1, (history_append_only threeTxs (word 7)).2.2 [word 0, word 1] hrun.2.1
    hrun.2.2.1 hrun.2.2.2⟩

end Example

end Waxseal.AnchoringLiveness
