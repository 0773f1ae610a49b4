import Waxseal.Contracts.Calldata
import Waxseal.Contracts.SigningDigest
import Waxseal.Log.Checkpoints

/-!
# Anchoring on the chain

`EvmAnchorSink.anchor`: the digest of a checkpoint is signed and the checkpoint is submitted
to the liveness contract, which rebuilds the digest from the call data.

The call data carries the sequence number and the two hashes as words.  What a checkpoint
holds beyond that, an aggregate binding or a spelling of the entry hash that is not the
lowercase one, is signed and not submitted, so the contract rebuilds other bytes
(`EvmAnchorSink.digest_agrees_iff`).
-/

namespace Waxseal

open CheckpointCodec Calldata

variable [Hashlib]

/-- `EvmAnchorSink`: the trail's name, the digest signer, and the source of consistency
proofs where there is one. -/
structure EvmAnchorSink where
  chainId : PyStr
  sign : Bytes32 → Except PyErr Bytes
  proofFn : Option (Checkpoint → List PyStr)

/-- The call data of `submit_checkpoint_receipt`. -/
def submitCalldata (chainId : PyStr) (cp : Checkpoint) (signature : Bytes)
    (consistencyProof : List PyStr) : Except PyErr Bytes := do
  let trailId ← trailIdFor chainId
  let trailId ← encodeBytes32 (.bytes trailId.val)
  let seq ← encodeUint cp.seq 64
  let entryHash ← encodeBytes32 (.text cp.entryHash)
  let root ← encodeBytes32 (.text cp.root)
  let signature ← encodeBytes signature
  let proof ← encodeBytes32Array consistencyProof
  encodeCall selectorSubmit
    [.word trailId, .word seq, .word entryHash, .word root, .dynamic signature, .dynamic proof]

/-- What `EvmAnchorSink.anchor` signs and submits: the digest, its signature and the call
data.  `LedgerError` is a `RuntimeError`. -/
def EvmAnchorSink.submission (sink : EvmAnchorSink) (cp : Checkpoint) :
    Except PyErr (Bytes32 × Bytes × Bytes) := do
  let digest ← checkpointSigningDigest sink.chainId cp
  let signature ← sink.sign digest
  if signature.length ≠ 65 then .error .runtimeError
  else do
    let proof := match sink.proofFn with
      | none => []
      | some proofFn => proofFn cp
    return (digest, signature, ← submitCalldata sink.chainId cp signature proof)

/-! ## What the contract reads -/

omit [Hashlib] in
theorem fromhex_of_encodeBytes32 {s : PyStr} {b : Bytes} (h : encodeBytes32 (.text s) = .ok b) :
    fromhex (stripHexMark s) = some b := by
  rw [encodeBytes32] at h
  rcases hraw : fromhex (stripHexMark s) with - | raw
  · rw [hraw] at h
    cases h
  · simp only [hraw] at h
    split_ifs at h
    rw [Except.ok.inj h]

/-- **The contract reads the submitted checkpoint**: every word is the one the library
encoded. -/
theorem decodeSubmit_submitCalldata {chainId : PyStr} {cp : Checkpoint} {signature data : Bytes}
    {consistencyProof : List PyStr}
    (h : submitCalldata chainId cp signature consistencyProof = .ok data) :
    ∃ args, decodeSubmit data = some args ∧ trailIdFor chainId = .ok args.trailId ∧
      (args.seq.toNat : ℤ) = cp.seq ∧
      fromhex (stripHexMark cp.entryHash) = some args.entryHash.val ∧
      fromhex (stripHexMark cp.root) = some args.root.val ∧ args.signature = signature ∧
      args.consistencyProof.length = consistencyProof.length := by
  obtain ⟨trailId, htrail, h⟩ := bind_eq_ok_iff.mp h
  obtain ⟨trailWord, htrailWord, h⟩ := bind_eq_ok_iff.mp h
  obtain ⟨seq, hseq, h⟩ := bind_eq_ok_iff.mp h
  obtain ⟨entryHash, hentry, h⟩ := bind_eq_ok_iff.mp h
  obtain ⟨root, hroot, h⟩ := bind_eq_ok_iff.mp h
  obtain ⟨sigTail, hsig, h⟩ := bind_eq_ok_iff.mp h
  obtain ⟨proofTail, hproof, h⟩ := bind_eq_ok_iff.mp h
  have htrail32 : trailWord = trailId.val := by
    rw [encodeBytes32, if_neg (by simp)] at htrailWord
    exact (Except.ok.inj htrailWord).symm
  subst htrail32
  have hlen := length_of_encodeBytes32 hentry
  have hlen' := length_of_encodeBytes32 hroot
  obtain ⟨htake, -⟩ := drop_selector h
  -- the place of each argument, by the arguments before it
  obtain ⟨-, r₀, h₀⟩ := @encodeCall_word _ _ [] _ _ h
  obtain ⟨-, r₁, h₁⟩ := @encodeCall_word _ _ [.word trailId.val] _ _ h
  obtain ⟨-, r₂, h₂⟩ := @encodeCall_word _ _ [.word trailId.val, .word seq] _ _ h
  obtain ⟨-, r₃, h₃⟩ := @encodeCall_word _ _ [.word trailId.val, .word seq, .word entryHash] _ _ h
  obtain ⟨o₄, w₄, r₄, a₄, -, he₄, h₄, hle₄, ht₄⟩ := @encodeCall_dynamic _ _
    [.word trailId.val, .word seq, .word entryHash, .word root] _ _ h
  obtain ⟨o₅, w₅, r₅, a₅, -, he₅, h₅, hle₅, ht₅⟩ := @encodeCall_dynamic _ _
    [.word trailId.val, .word seq, .word entryHash, .word root, .dynamic sigTail] _ _ h
  have htrailAt : wordAt (data.drop 4) 0 = some trailId := wordAt_of_drop h₀ trailId.length_val
  obtain ⟨seqWord, hseqAt, hseqVal⟩ : ∃ seqWord, uint64At (data.drop 4) 32 = some seqWord ∧
      (seqWord.toNat : ℤ) = cp.seq := uint64At_of_drop h₁ hseq
  have hentryAt : wordAt (data.drop 4) 64 = some ⟨entryHash, hlen⟩ := wordAt_of_drop h₂ hlen
  have hrootAt : wordAt (data.drop 4) 96 = some ⟨root, hlen'⟩ := wordAt_of_drop h₃ hlen'
  have hsigAt : bytesAt (data.drop 4) 128 = some signature :=
    bytesAt_of_tail (tailAt_of_drop h₄ he₄ hle₄ ht₄) hsig
  obtain ⟨proof, hproofAt, hcount⟩ : ∃ proof, bytes32ArrayAt (data.drop 4) 160 = some proof ∧
      proof.length = consistencyProof.length :=
    bytes32ArrayAt_of_tail (tailAt_of_drop h₅ he₅ hle₅ ht₅) hproof
  refine ⟨⟨trailId, seqWord, ⟨entryHash, hlen⟩, ⟨root, hlen'⟩, signature, proof⟩, ?_, htrail,
    hseqVal, fromhex_of_encodeBytes32 hentry, fromhex_of_encodeBytes32 hroot, rfl, hcount⟩
  rw [decodeSubmit, if_pos htake]
  simp only [htrailAt, hseqAt, hentryAt, hrootAt, hsigAt, hproofAt, Option.bind_some,
    Option.map_some]

/-! ## The two digests -/

/-- What the signer's digest and the contract's digest are taken of. -/
def signingInputs (chainId : PyStr) (cp : Checkpoint) (data : Bytes) : List Bytes :=
  (checkpointSigningFrame chainId cp).toOption.toList
    ++ (decodeSubmit data).toList.map fun args =>
        signingFrame args.trailId (args.seq.setWidth 256) args.entryHash args.root

omit [Hashlib] in
/-- A checkpoint with the submitted fields is the bare one with lowercase hashes exactly when
it has no binding and its entry hash is in lowercase. -/
theorem eq_bare_iff {cp : Checkpoint} {args : SubmitArgs} (hseq : (args.seq.toNat : ℤ) = cp.seq)
    (hentry : fromhex (stripHexMark cp.entryHash) = some args.entryHash.val)
    (hroot : fromhex (stripHexMark cp.root) = some args.root.val) {b : Bytes}
    (hlow : cp.root = hex b) :
    cp = .bare args.seq.toNat (hex args.entryHash.val) (hex args.root.val) ↔
      cp.aggCommit = none ∧ isLowerHex cp.entryHash = true := by
  constructor
  · intro h
    rw [h]
    exact ⟨rfl, isLowerHex_hex _⟩
  · rintro ⟨hbare, hentrylow⟩
    have hrootlow : isLowerHex cp.root = true := hlow ▸ isLowerHex_hex b
    rw [stripHexMark_of_isLowerHex hentrylow] at hentry
    rw [stripHexMark_of_isLowerHex hrootlow] at hroot
    obtain ⟨seq, entryHash, root, aggCommit, aggEpoch, both⟩ := cp
    obtain rfl : aggCommit = none := hbare
    obtain rfl : aggEpoch = none := by simpa using both.symm
    rw [Checkpoint.bare, hex_of_fromhex hentrylow hentry, hex_of_fromhex hrootlow hroot, hseq]

variable [Precompiles]

/-- A submission whose signature recovers to the trail's writer is not refused for it. -/
theorem submit_of_recovered {w : AnchoringLiveness.World} {timestamp : Rfc9162.Uint256}
    {args : SubmitArgs}
    (h : w.writerOf args.trailId = recoverSigner (signingDigest args.trailId
      (args.seq.setWidth 256) args.entryHash args.root) args.signature)
    (recovered expected : Address) :
    AnchoringLiveness.submit w timestamp args.trailId args.seq args.entryHash args.root
      args.signature args.consistencyProof ≠ .error (.badWriterSignature recovered expected) := by
  rw [AnchoringLiveness.submit]
  by_cases hwriter : w.writerOf args.trailId = 0
  · simp [hwriter]
  · simp only [if_neg hwriter, ← h, ne_eq, not_true_eq_false, if_false]
    rcases hahead : AnchoringLiveness.requireAhead (w.head args.trailId) args.seq args.root
        args.consistencyProof with e | ⟨⟩
    · intro heq
      obtain rfl := Except.error.inj heq
      exact AnchoringLiveness.requireAhead_ne_badWriterSignature hahead
    · intro heq
      cases heq

/-- **When the contract accepts what the library signed.**  For a checkpoint that
`AuditLog.anchor` hands over, the digest the contract rebuilds from the call data is the
signed one, and the checkpoint is taken for the writer's, exactly if the checkpoint carries
no aggregate binding and its entry hash is in lowercase hex. -/
theorem EvmAnchorSink.digest_agrees_iff (sink : EvmAnchorSink)
    {read : Except PyErr (List PyStr)} {source : AggregateSource} {merkle : IncrementalMerkle}
    {cp : Checkpoint} (hcp : (anchorCheckpoint read source merkle).1 = .ok cp)
    {digest : Bytes32} {signature data : Bytes}
    (hsubmit : sink.submission cp = .ok (digest, signature, data))
    (hcf : CollisionFree (signingInputs sink.chainId cp data)) :
    ∃ args, decodeSubmit data = some args ∧ args.signature = signature ∧
      ((signingDigest args.trailId (args.seq.setWidth 256) args.entryHash args.root = digest ∧
          ∀ (w : AnchoringLiveness.World) (timestamp : Rfc9162.Uint256),
            w.writerOf args.trailId = recoverSigner digest signature →
            ∀ recovered expected,
              AnchoringLiveness.submit w timestamp args.trailId args.seq args.entryHash args.root
                args.signature args.consistencyProof
              ≠ .error (.badWriterSignature recovered expected)) ↔
        cp.aggCommit = none ∧ isLowerHex cp.entryHash = true) := by
  obtain ⟨digest', hdigest, h⟩ := bind_eq_ok_iff.mp hsubmit
  obtain ⟨signature', -, h⟩ := bind_eq_ok_iff.mp h
  split_ifs at h
  obtain ⟨data', hdata, h⟩ := bind_eq_ok_iff.mp h
  obtain ⟨rfl, rfl, rfl⟩ : digest' = digest ∧ signature' = signature ∧ data' = data := by
    simpa using Except.ok.inj h
  obtain ⟨args, hargs, htrail, hseq, hentry, hroot, hsig, -⟩ := decodeSubmit_submitCalldata hdata
  refine ⟨args, hargs, hsig, ?_⟩
  obtain ⟨frame, hframe, rfl⟩ : ∃ b, checkpointSigningFrame sink.chainId cp = .ok b ∧
      sha256 b = digest' := by
    rw [checkpointSigningDigest] at hdigest
    rcases hb : checkpointSigningFrame sink.chainId cp with e | b
    · rw [hb] at hdigest
      cases hdigest
    · rw [hb] at hdigest
      exact ⟨b, rfl, Except.ok.inj hdigest⟩
  obtain ⟨hashes, binding, root, merkle', -, hbinding, hrootFor, hfor⟩ := anchorCheckpoint_eq_ok hcp
  obtain ⟨b, hlow⟩ := merkleRootFor_eq_hex hrootFor
  have hcproot : cp.root = hex b := by
    obtain ⟨tip, -, rfl⟩ := (checkpointFor_eq_ok_iff (aggregateBinding_both hbinding)).mp hfor
    exact hlow
  rw [← eq_bare_iff hseq hentry hroot hcproot, ← signingFrame_eq_iff htrail hframe]
  have hinputs : signingInputs sink.chainId cp data'
      = [frame, signingFrame args.trailId (args.seq.setWidth 256) args.entryHash args.root] := by
    rw [signingInputs, hframe, hargs]
    rfl
  rw [hinputs] at hcf
  constructor
  · rintro ⟨hdigest, -⟩
    exact (hcf _ (List.mem_cons_of_mem _ List.mem_cons_self) _ List.mem_cons_self hdigest).symm
  · intro heq
    have hsame : signingDigest args.trailId (args.seq.setWidth 256) args.entryHash args.root
        = sha256 frame := by
      rw [heq]
      rfl
    refine ⟨hsame, fun w timestamp hwriter => submit_of_recovered ?_⟩
    rw [hwriter, hsig, hsame]

/-! ## A trail of one entry -/

section Example

/-- The entry hashes of a trail. -/
def oneEntry : List PyStr := [hex (List.replicate 32 0xAB)]

/-- An accumulator after one row. -/
def oneRowAggregate : AggregateSource := some (.ok (some (0, 1, hex (List.replicate 32 0x0A))))

/-- A sink with a signer. -/
def signingSink : EvmAnchorSink where
  chainId := str "trail"
  sign := fun _ => .ok (List.replicate 65 1)
  proofFn := none

omit [Hashlib] [Precompiles] in
/-- Anchored with its aggregate, the trail's checkpoint is signed under one digest and
rebuilt by the contract under another. -/
theorem digest_differs_bound :
    letI := Sha256.hashlib
    ∃ cp digest signature data args,
      (anchorCheckpoint (.ok oneEntry) oneRowAggregate {}).1 = .ok cp ∧
      signingSink.submission cp = .ok (digest, signature, data) ∧ decodeSubmit data = some args ∧
      signingDigest args.trailId (args.seq.setWidth 256) args.entryHash args.root ≠ digest := by
  let _ := Sha256.hashlib
  obtain ⟨cp, hcp⟩ : ∃ cp, (anchorCheckpoint (.ok oneEntry) oneRowAggregate {}).1 = .ok cp :=
    exists_eq_ok_of_isSome (by decide +kernel)
  have hrun : ((anchorCheckpoint (.ok oneEntry) oneRowAggregate {}).1.bind fun cp =>
      (signingSink.submission cp).map fun (digest, _, data) =>
        (decodeSubmit data).map fun args => decide
          (signingDigest args.trailId (args.seq.setWidth 256) args.entryHash args.root = digest))
      = .ok (some false) := by
    decide +kernel
  rw [hcp] at hrun
  rcases hsubmit : signingSink.submission cp with e | ⟨digest, signature, data⟩
  · simp [Except.bind, hsubmit, Except.map] at hrun
  · rcases hargs : decodeSubmit data with - | args
    · simp [Except.bind, hsubmit, Except.map, hargs] at hrun
    · refine ⟨cp, digest, signature, data, args, hcp, hsubmit, hargs, ?_⟩
      simpa [Except.bind, hsubmit, Except.map, hargs] using hrun

omit [Hashlib] [Precompiles] in
/-- Without it, the two are the same. -/
theorem digest_agrees_iff_bare :
    letI := Sha256.hashlib
    ∃ cp digest signature data args,
      (anchorCheckpoint (.ok oneEntry) none {}).1 = .ok cp ∧
      signingSink.submission cp = .ok (digest, signature, data) ∧ decodeSubmit data = some args ∧
      signingDigest args.trailId (args.seq.setWidth 256) args.entryHash args.root = digest := by
  let _ := Sha256.hashlib
  let _ : Precompiles := ⟨fun _ _ _ _ => 0⟩
  obtain ⟨cp, hcp⟩ : ∃ cp, (anchorCheckpoint (.ok oneEntry) none {}).1 = .ok cp :=
    exists_eq_ok_of_isSome (by decide +kernel)
  have hrun : ((anchorCheckpoint (.ok oneEntry) none {}).1.bind fun cp =>
      (signingSink.submission cp).map fun (_, _, data) =>
        (decide (CollisionFree (signingInputs signingSink.chainId cp data)),
          decide (cp.aggCommit = none ∧ isLowerHex cp.entryHash = true))) = .ok (true, true) := by
    decide +kernel
  rw [hcp] at hrun
  rcases hsubmit : signingSink.submission cp with e | ⟨digest, signature, data⟩
  · simp [Except.bind, hsubmit, Except.map] at hrun
  · simp only [Except.bind, hsubmit, Except.map, Except.ok.injEq, Prod.mk.injEq,
      decide_eq_true_eq] at hrun
    obtain ⟨args, hargs, -, hiff⟩ := signingSink.digest_agrees_iff hcp hsubmit hrun.1
    exact ⟨cp, digest, signature, data, args, hcp, hsubmit, hargs, (hiff.mpr hrun.2).1⟩

end Example

end Waxseal
