import Waxseal.Domain.Anchoring
import Waxseal.Domain.Hashing

/-!
# Checkpoints

A checkpoint pins the tip of a trail and the batch root over all its entry hashes, and
may commit to the forward-secure aggregate.  `checkpointFrame` gives it its bytes, in one
of two shapes picked by what it holds.

`verifyCheckpoint_eq_none_iff` reads the check off: a checkpoint verifies exactly against
the trails that carry its entry hash at its position and its root below.
-/

namespace Waxseal

/-- `Checkpoint`.  `__post_init__` refuses half an aggregate binding. -/
structure Checkpoint where
  seq : ℤ
  entryHash : PyStr
  root : PyStr
  aggCommit : Option PyStr
  aggEpoch : Option ℤ
  both : aggCommit.isSome = aggEpoch.isSome
  deriving DecidableEq

/-- A checkpoint without an aggregate binding. -/
def Checkpoint.bare (seq : ℤ) (entryHash root : PyStr) : Checkpoint :=
  ⟨seq, entryHash, root, none, none, rfl⟩

/-! ## Frames -/

/-- `CHECKPOINT_FRAME_PREFIX_BARE`. -/
def checkpointFramePrefixBare : Bytes := ascii "waxseal-checkpoint-v1\n"

/-- `CHECKPOINT_FRAME_PREFIX_AGG_BOUND`. -/
def checkpointFramePrefixAggBound : Bytes := ascii "waxseal-checkpoint-v2\n"

/-- `str(checkpoint.agg_epoch)`. -/
def Checkpoint.epochText (cp : Checkpoint) : PyStr := (cp.aggEpoch.map strInt).getD (str "None")

/-- `checkpoint_frame`. -/
def checkpointFrame (cp : Checkpoint) : Except PyErr Bytes :=
  match cp.aggCommit with
  | none => do
      return checkpointFramePrefixBare ++ be64 3
        ++ (← lpAll [strInt cp.seq, cp.entryHash, cp.root])
  | some commit => do
      return checkpointFramePrefixAggBound ++ be64 5
        ++ (← lpAll [strInt cp.seq, cp.entryHash, cp.root, cp.epochText, commit])

/-- The two shapes start differently. -/
theorem checkpointFramePrefix_ne (a b : Bytes) :
    checkpointFramePrefixBare ++ be64 3 ++ a ≠ checkpointFramePrefixAggBound ++ be64 5 ++ b := by
  intro h
  rw [List.append_assoc, List.append_assoc] at h
  exact absurd (List.append_inj_left h (by decide)) (by decide)

/-- **The frame determines the checkpoint**, its shape included. -/
theorem checkpointFrame_inj {cp cp' : Checkpoint} {b : Bytes} (h : checkpointFrame cp = .ok b)
    (h' : checkpointFrame cp' = .ok b) : cp = cp' := by
  obtain ⟨seq, entryHash, root, aggCommit, aggEpoch, both⟩ := cp
  obtain ⟨seq', entryHash', root', aggCommit', aggEpoch', both'⟩ := cp'
  cases aggCommit with
  | none =>
      cases aggCommit' with
      | none =>
          obtain ⟨fields, hfields, hb⟩ := bind_eq_ok_iff.mp h
          obtain ⟨fields', hfields', hb'⟩ := bind_eq_ok_iff.mp h'
          obtain rfl := List.append_cancel_left (Except.ok.inj (hb.trans hb'.symm))
          have heq := lpAll_inj (by simp) hfields hfields'
          simp only [List.cons.injEq, and_true] at heq
          obtain ⟨hseq, rfl, rfl⟩ := heq
          obtain rfl := strInt_injective hseq
          obtain rfl : aggEpoch = none := by simpa using both.symm
          obtain rfl : aggEpoch' = none := by simpa using both'.symm
          rfl
      | some commit' =>
          obtain ⟨fields, -, hb⟩ := bind_eq_ok_iff.mp h
          obtain ⟨fields', -, hb'⟩ := bind_eq_ok_iff.mp h'
          exact absurd (Except.ok.inj (hb.trans hb'.symm)) (checkpointFramePrefix_ne _ _)
  | some commit =>
      cases aggCommit' with
      | none =>
          obtain ⟨fields, -, hb⟩ := bind_eq_ok_iff.mp h
          obtain ⟨fields', -, hb'⟩ := bind_eq_ok_iff.mp h'
          exact absurd (Except.ok.inj (hb'.trans hb.symm)) (checkpointFramePrefix_ne _ _)
      | some commit' =>
          obtain ⟨fields, hfields, hb⟩ := bind_eq_ok_iff.mp h
          obtain ⟨fields', hfields', hb'⟩ := bind_eq_ok_iff.mp h'
          obtain rfl := List.append_cancel_left (Except.ok.inj (hb.trans hb'.symm))
          have heq := lpAll_inj (by simp) hfields hfields'
          simp only [List.cons.injEq, and_true] at heq
          obtain ⟨hseq, rfl, rfl, hepoch, rfl⟩ := heq
          obtain rfl := strInt_injective hseq
          obtain ⟨epoch, rfl⟩ := Option.isSome_iff_exists.mp both.symm
          obtain ⟨epoch', rfl⟩ := Option.isSome_iff_exists.mp both'.symm
          obtain rfl := strInt_injective hepoch
          rfl

section Checks

variable [Hashlib]

/-- `checkpoint_for`; `root = none` recomputes the root. -/
def checkpointFor (entryHashes : List PyStr) (aggCommit : Option PyStr) (aggEpoch : Option ℤ)
    (root : Option PyStr) : Except PyErr Checkpoint :=
  match entryHashes.getLast? with
  | none => .error .valueError
  | some tip => do
      let root ← match root with
        | none => batchRoot entryHashes
        | some root => .ok root
      if both : aggCommit.isSome = aggEpoch.isSome then
        .ok ⟨entryHashes.length - 1, tip, root, aggCommit, aggEpoch, both⟩
      else .error .valueError

/-- What `verify_checkpoint` reports. -/
inductive CheckpointReason where
  | malformedCheckpoint
  | anchorBeyondHead
  | anchorEntryHashMismatch
  | anchorRootMismatch
  deriving DecidableEq, Repr

/-- `verify_checkpoint`. -/
def verifyCheckpoint (entryHashes : List PyStr) (cp : Checkpoint) : Option CheckpointReason :=
  if cp.seq < 0 then some .malformedCheckpoint
  else
    match entryHashes[cp.seq.toNat]? with
    | none => some .anchorBeyondHead
    | some entryHash =>
        if entryHash ≠ cp.entryHash then some .anchorEntryHashMismatch
        else
          match batchRoot (entryHashes.take (cp.seq.toNat + 1)) with
          | .error _ => some .anchorRootMismatch
          | .ok root => if root ≠ cp.root then some .anchorRootMismatch else none

/-- **What a checkpoint verifies against**: the trails with its entry hash at its
position and its root up to there. -/
theorem verifyCheckpoint_eq_none_iff {entryHashes : List PyStr} {cp : Checkpoint} :
    verifyCheckpoint entryHashes cp = none ↔
      ∃ i : ℕ, cp.seq = i ∧ entryHashes[i]? = some cp.entryHash ∧
        batchRoot (entryHashes.take (i + 1)) = .ok cp.root := by
  rw [verifyCheckpoint]
  by_cases hneg : cp.seq < 0
  · rw [if_pos hneg]
    constructor
    · intro h
      cases h
    · rintro ⟨i, hi, -⟩
      omega
  · rw [if_neg hneg]
    obtain ⟨i, hi⟩ := Int.eq_ofNat_of_zero_le (Int.not_lt.mp hneg)
    have hiff : ∀ P : ℕ → Prop, (∃ j : ℕ, cp.seq = j ∧ P j) ↔ P i := by
      intro P
      constructor
      · rintro ⟨j, hj, h⟩
        obtain rfl : j = i := by omega
        exact h
      · intro h
        exact ⟨i, hi, h⟩
    rw [hiff fun i => entryHashes[i]? = some cp.entryHash ∧
        batchRoot (entryHashes.take (i + 1)) = .ok cp.root, hi, Int.toNat_natCast]
    rcases htip : entryHashes[i]? with - | tip
    · simp
    · rcases hroot : batchRoot (entryHashes.take (i + 1)) with e | root
      · by_cases heq : tip = cp.entryHash <;> simp [heq]
      · by_cases heq : tip = cp.entryHash <;> simp [heq]

/-- A checkpoint that verifies against a trail verifies against all its extensions. -/
theorem verifyCheckpoint_extends {entryHashes more : List PyStr} {cp : Checkpoint}
    (h : verifyCheckpoint entryHashes cp = none) :
    verifyCheckpoint (entryHashes ++ more) cp = none := by
  obtain ⟨i, hi, htip, hroot⟩ := verifyCheckpoint_eq_none_iff.mp h
  obtain ⟨hlt, -⟩ := List.getElem?_eq_some_iff.mp htip
  refine verifyCheckpoint_eq_none_iff.mpr ⟨i, hi, ?_, ?_⟩
  · rwa [List.getElem?_append_left hlt]
  · rwa [List.take_append_of_le_length hlt]

end Checks

end Waxseal
