import Waxseal.Domain.Checkpoint
import Waxseal.Domain.Membership

/-!
# Bonded checkpoints

What a writer can be slashed for: the evidence that a newer tree contradicts an older
one is one position at which the two signed roots prove different entries.

`validate` compares the two entry hashes as strings and `divergence_holds` decodes them.
So evidence against a single growing chain exists after all: the same entry, spelled
twice.  `NonExtensionProof.sound_iff` says that there is no other.
-/

namespace Waxseal

variable [Hashlib]

/-- `LEDGER_CHECKPOINT_SIG_PREFIX`. -/
def ledgerCheckpointSigPrefix : Bytes := ascii "waxseal-ledger-checkpoint-sig-v1\n"

/-- `trail_id_for`. -/
def trailIdFor (chainId : PyStr) : Except PyErr Bytes32 :=
  match encodeUtf8 chainId with
  | none => .error .lpEncodingError
  | some encoded => .ok (sha256 encoded)

/-- The bytes `checkpoint_signing_digest` hashes. -/
def checkpointSigningFrame (chainId : PyStr) (cp : Checkpoint) : Except PyErr Bytes := do
  let trailId ← trailIdFor chainId
  let field ← lp (some (hex trailId.val))
  let frame ← checkpointFrame cp
  return ledgerCheckpointSigPrefix ++ be64 2 ++ field ++ frame

/-- `checkpoint_signing_digest`. -/
def checkpointSigningDigest (chainId : PyStr) (cp : Checkpoint) : Except PyErr Bytes32 :=
  (checkpointSigningFrame chainId cp).map sha256

/-! ## Evidence of a divergence -/

/-- `DivergentLeaf`. -/
structure DivergentLeaf where
  index : ℤ
  entryHash : PyStr
  proof : List PyStr

/-- `NonExtensionProof`. -/
structure NonExtensionProof where
  chainId : PyStr
  older : Checkpoint
  newer : Checkpoint
  olderSignature : Bytes
  newerSignature : Bytes
  inOlder : DivergentLeaf
  inNewer : DivergentLeaf

/-- The reasons `NonExtensionProof.validate` gives. -/
inductive NonExtensionReason where
  | missingSignature
  | seqNotAdvancing
  | leafIndexDiffers
  | leafOutsideOlderTree
  | leavesAgree
  deriving DecidableEq, Repr

namespace NonExtensionProof

variable (p : NonExtensionProof) {leaves : List Bytes}

/-- `validate`. -/
def validate : Option NonExtensionReason :=
  if p.olderSignature = [] ∨ p.newerSignature = [] then some .missingSignature
  else if p.newer.seq ≤ p.older.seq then some .seqNotAdvancing
  else if p.inOlder.index ≠ p.inNewer.index then some .leafIndexDiffers
  else if p.inOlder.index > p.older.seq then some .leafOutsideOlderTree
  else if p.inOlder.entryHash = p.inNewer.entryHash then some .leavesAgree
  else none

/-- `divergence_holds`. -/
def divergenceHolds : Bool :=
  verifyMembership p.inOlder.entryHash p.inOlder.index (p.older.seq + 1) p.inOlder.proof
      p.older.root &&
    verifyMembership p.inNewer.entryHash p.inNewer.index (p.newer.seq + 1) p.inNewer.proof
      p.newer.root

/-- The two checkpoints are of one growing chain: its roots at their two sizes are
theirs. -/
structure OneChain (leaves : List Bytes) : Prop where
  olderSize : p.older.seq + 1 ≤ leaves.length
  newerSize : p.newer.seq + 1 ≤ leaves.length
  olderRoot : p.older.root = hex (treeHash (leaves.take (p.older.seq + 1).toNat))
  newerRoot : p.newer.root = hex (treeHash (leaves.take (p.newer.seq + 1).toNat))

/-- The evidence names one entry of a growing chain twice, in two spellings, each time
with the audit path it has in that tree. -/
structure SpelledTwice (leaves : List Bytes) : Prop extends p.OneChain leaves where
  olderSignature : p.olderSignature ≠ []
  newerSignature : p.newerSignature ≠ []
  seq : p.older.seq < p.newer.seq
  spelling : p.inOlder.entryHash ≠ p.inNewer.entryHash
  leaf : ∃ (i : ℕ) (leaf : Bytes), p.inOlder.index = i ∧ p.inNewer.index = i ∧
    (i : ℤ) ≤ p.older.seq ∧ leaves[i]? = some leaf ∧
    fromhex p.inOlder.entryHash = some leaf ∧ fromhex p.inNewer.entryHash = some leaf ∧
    p.inOlder.proof.mapM fromhex = some (auditPath i (leaves.take (p.older.seq + 1).toNat)) ∧
    p.inNewer.proof.mapM fromhex = some (auditPath i (leaves.take (p.newer.seq + 1).toNat))

/-- What one of the two membership checks hashes, and what the tree it checks against
hashed. -/
def claimInputs (cp : Checkpoint) (claim : DivergentLeaf) (leaves : List Bytes) : List Bytes :=
  membershipInputs claim.entryHash claim.index (cp.seq + 1) claim.proof
    ++ treeInputs (leaves.take (cp.seq + 1).toNat)

omit [Hashlib] in
theorem validate_eq_none_iff :
    p.validate = none ↔ p.olderSignature ≠ [] ∧ p.newerSignature ≠ [] ∧
      p.older.seq < p.newer.seq ∧ p.inOlder.index = p.inNewer.index ∧
      p.inOlder.index ≤ p.older.seq ∧ p.inOlder.entryHash ≠ p.inNewer.entryHash := by
  rw [validate]
  constructor
  · intro h
    split_ifs at h with hsig hseq hindex hout hagree
    obtain ⟨hsig, hsig'⟩ := not_or.mp hsig
    exact ⟨hsig, hsig', by omega, not_not.mp hindex, by omega, hagree⟩
  · rintro ⟨hsig, hsig', hseq, hindex, hin, hne⟩
    rw [if_neg (not_or.mpr ⟨hsig, hsig'⟩), if_neg (by omega), if_neg (not_not.mpr hindex),
      if_neg (by omega), if_neg hne]

omit p in
/-- One membership check against the checkpoint of a chain. -/
theorem claim_iff {cp : Checkpoint} {claim : DivergentLeaf}
    (hsize : cp.seq + 1 ≤ leaves.length)
    (hroot : cp.root = hex (treeHash (leaves.take (cp.seq + 1).toNat)))
    (hcf : CollisionFree (claimInputs cp claim leaves)) :
    verifyMembership claim.entryHash claim.index (cp.seq + 1) claim.proof cp.root = true ↔
      ∃ (i : ℕ) (leaf : Bytes), claim.index = i ∧ (i : ℤ) ≤ cp.seq ∧ leaves[i]? = some leaf ∧
        fromhex claim.entryHash = some leaf ∧
        claim.proof.mapM fromhex = some (auditPath i (leaves.take (cp.seq + 1).toNat)) := by
  by_cases hneg : cp.seq < 0
  · -- a tree of no leaves holds nothing
    constructor
    · intro h
      rw [hroot, verifyMembership_eq_true] at h
      omega
    · rintro ⟨i, leaf, -, hi, -⟩
      omega
  · have hlen : ((leaves.take (cp.seq + 1).toNat).length : ℤ) = cp.seq + 1 := by
      rw [List.length_take]
      omega
    rw [claimInputs] at hcf
    have hiff := @verifyMembership_iff _ (leaves.take (cp.seq + 1).toNat) claim.entryHash
      claim.index claim.proof (by rwa [hlen])
    rw [hlen, ← hroot] at hiff
    rw [hiff]
    refine exists_congr fun i => exists_congr fun leaf => and_congr_right fun _ => ?_
    constructor
    · rintro ⟨hleaf, hspell⟩
      obtain ⟨hlt, -⟩ := List.getElem?_eq_some_iff.mp hleaf
      refine ⟨by omega, ?_, hspell⟩
      rwa [List.getElem?_take_of_lt (by omega)] at hleaf
    · rintro ⟨hi, hleaf, hspell⟩
      refine ⟨?_, hspell⟩
      rwa [List.getElem?_take_of_lt (by omega)]

/-- **When the evidence is sound.**  What `validate` admits and `divergence_holds` confirms
shows two chains, unless it is one entry of one chain in two spellings. -/
theorem sound_iff
    (hcf : CollisionFree (claimInputs p.older p.inOlder leaves))
    (hcf' : CollisionFree (claimInputs p.newer p.inNewer leaves)) :
    (p.validate = none → p.divergenceHolds = true → ¬p.OneChain leaves) ↔
      ¬p.SpelledTwice leaves := by
  constructor
  · intro hsound htwice
    obtain ⟨i, leaf, hindex, hindex', hi, hleaf, hspell, hspell', hpath, hpath'⟩ := htwice.leaf
    refine hsound (p.validate_eq_none_iff.mpr ⟨htwice.olderSignature, htwice.newerSignature,
      htwice.seq, hindex.trans hindex'.symm, by omega, htwice.spelling⟩) ?_ htwice.toOneChain
    have hseq := htwice.seq
    rw [divergenceHolds, Bool.and_eq_true,
      claim_iff htwice.olderSize htwice.olderRoot hcf,
      claim_iff htwice.newerSize htwice.newerRoot hcf']
    exact ⟨⟨i, leaf, hindex, hi, hleaf, hspell, hpath⟩,
      ⟨i, leaf, hindex', by omega, hleaf, hspell', hpath'⟩⟩
  · intro hspelled hvalid hdiverges hchain
    obtain ⟨hsig, hsig', hseq, hindex, -, hne⟩ := p.validate_eq_none_iff.mp hvalid
    rw [divergenceHolds, Bool.and_eq_true,
      claim_iff hchain.olderSize hchain.olderRoot hcf,
      claim_iff hchain.newerSize hchain.newerRoot hcf'] at hdiverges
    obtain ⟨⟨i, leaf, hi, hle, hleaf, hspell, hpath⟩, ⟨j, leaf', hj, -, hleaf', hspell', hpath'⟩⟩ :=
      hdiverges
    obtain rfl : i = j := by omega
    obtain rfl : leaf = leaf' := Option.some.inj (hleaf.symm.trans hleaf')
    exact hspelled { hchain with
      olderSignature := hsig
      newerSignature := hsig'
      seq := hseq
      spelling := hne
      leaf := ⟨i, leaf, hi, hj, hle, hleaf, hspell, hspell', hpath, hpath'⟩ }

end NonExtensionProof

/-! ## One entry in two spellings -/

section Example

/-- Two entry hashes, the first one with a letter in its spelling. -/
def letterLeaves : List Bytes := [List.replicate 32 0xAB, List.replicate 32 1]

/-- The first entry of the chain against itself: lowercase in the older tree, uppercase in
the newer one. -/
def respelledLeaf : NonExtensionProof :=
  letI := Sha256.hashlib
  { chainId := str "trail"
    older := .bare 0 (hex (List.replicate 32 0xAB)) (hex (treeHash (letterLeaves.take 1)))
    newer := .bare 1 (hex (List.replicate 32 1)) (hex (treeHash letterLeaves))
    olderSignature := List.replicate 65 1
    newerSignature := List.replicate 65 2
    inOlder := ⟨0, hex (List.replicate 32 0xAB), []⟩
    inNewer := ⟨0, (List.replicate 32 (str "AB")).flatten, [hex (leafHash (List.replicate 32 1))]⟩ }

omit [Hashlib] in
/-- It is admitted and confirmed, although both checkpoints are of one chain. -/
theorem divergenceHolds_respelled :
    letI := Sha256.hashlib
    respelledLeaf.validate = none ∧ respelledLeaf.divergenceHolds = true ∧
      respelledLeaf.OneChain letterLeaves := by
  let _ := Sha256.hashlib
  refine ⟨by decide +kernel, by decide +kernel, ?_⟩
  constructor <;> decide +kernel

omit [Hashlib] in
/-- By the characterization, it was the spelling. -/
theorem sound_iff_respelled :
    letI := Sha256.hashlib
    respelledLeaf.SpelledTwice letterLeaves := by
  let _ := Sha256.hashlib
  by_contra hspelled
  have hsound := (@NonExtensionProof.sound_iff _ respelledLeaf letterLeaves (by decide +kernel)
    (by decide +kernel)).mpr hspelled
  refine hsound (by decide +kernel) (by decide +kernel) ?_
  constructor <;> decide +kernel

end Example

end Waxseal
