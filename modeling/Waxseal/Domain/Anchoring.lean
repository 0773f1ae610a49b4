import Waxseal.Base.Sha256
import Waxseal.Merkle.Consistency

/-!
# Anchoring

The Merkle code of the log: batch roots, the incremental forest, membership and
consistency proofs and their verifiers.  Entry hashes and proof nodes come in as hex
strings and are decoded first, so nodes are byte strings, of any width a caller
chooses to spell.

`treeHash` splits at the largest power of two below the length; `treeHash_eq_root`
connects it to the level-by-level tree of the library, and with it everything the
library knows about proofs.
-/

namespace Waxseal

open Merkle

/-- The loop of `_split_point`.  Its `k` starts at 1 and doubles, so `0 < k` always
holds. -/
def splitLoop (n k : ℕ) : ℕ :=
  if 0 < k ∧ k * 2 < n then splitLoop n (k * 2) else k
termination_by n - k

/-- `_split_point`: the largest power of two strictly below `n`. -/
def splitPoint (n : ℕ) : ℕ := splitLoop n 1

theorem splitLoop_spec {n : ℕ} (i : ℕ) (h : 2 ^ i < n) :
    ∃ j, splitLoop n (2 ^ i) = 2 ^ j ∧ IsSplit j n := by
  generalize hk : 2 ^ i = k at h
  induction k using splitLoop.induct n generalizing i with
  | case1 k hcond ih =>
      rw [splitLoop, if_pos hcond]
      exact ih (i + 1) (by rw [pow_succ, hk]) hcond.2
  | case2 k hcond =>
      rw [splitLoop, if_neg hcond, ← hk]
      refine ⟨i, rfl, hk ▸ h, ?_⟩
      have := Nat.two_pow_pos i
      rw [pow_succ, hk]
      omega

theorem splitPoint_spec {n : ℕ} (h : 2 ≤ n) : ∃ j, splitPoint n = 2 ^ j ∧ IsSplit j n :=
  splitLoop_spec 0 h

theorem splitPoint_lt {n : ℕ} (h : 2 ≤ n) : splitPoint n < n := by
  obtain ⟨j, hk, hsplit⟩ := splitPoint_spec h
  exact hk ▸ hsplit.1

theorem splitPoint_pos {n : ℕ} (h : 2 ≤ n) : 0 < splitPoint n := by
  obtain ⟨j, hk, -⟩ := splitPoint_spec h
  exact hk ▸ Nat.two_pow_pos j

section Trees

variable [Hashlib]

/-- `_leaf_hash`. -/
def leafHash (leaf : Bytes) : Bytes := (sha256 (0x00 :: leaf)).val

/-- `_pair_hash`. -/
def pairHash (left right : Bytes) : Bytes := (sha256 (0x01 :: (left ++ right))).val

/-- The digest of the empty tree, `sha256(b"")`. -/
def emptyHash : Bytes := (sha256 []).val

@[simp] theorem length_leafHash (leaf : Bytes) : (leafHash leaf).length = 32 :=
  (sha256 _).length_val

@[simp] theorem length_pairHash (left right : Bytes) : (pairHash left right).length = 32 :=
  (sha256 _).length_val

/-- `_tree_hash`. -/
def treeHash (leaves : List Bytes) : Bytes :=
  match leaves with
  | [] => emptyHash
  | [leaf] => leafHash leaf
  | a :: b :: rest =>
      let k := splitPoint (a :: b :: rest).length
      pairHash (treeHash ((a :: b :: rest).take k)) (treeHash ((a :: b :: rest).drop k))
termination_by leaves.length
decreasing_by
  · have := splitPoint_lt (by simp : 2 ≤ (a :: b :: rest).length)
    simp only [List.length_take]
    omega
  · have := splitPoint_pos (by simp : 2 ≤ (a :: b :: rest).length)
    rw [List.length_drop]
    exact Nat.sub_lt (by simp) this

/-- **The recursive tree is the level-by-level tree** over the leaf hashes. -/
theorem treeHash_eq_root (leaves : List Bytes) :
    treeHash leaves = root pairHash emptyHash (leaves.map leafHash) := by
  induction leaves using treeHash.induct with
  | case1 => simp [treeHash]
  | case2 leaf => simp [treeHash]
  | case3 a b rest k ihl ihr =>
      obtain ⟨j, hk, hsplit⟩ := @splitPoint_spec (a :: b :: rest).length (by simp)
      have hmap : IsSplit j ((a :: b :: rest).map leafHash).length := by
        rwa [List.length_map]
      rw [treeHash, ihl, ihr, root_split hmap, List.map_take, List.map_drop,
        show k = 2 ^ j from hk]

/-- `_audit_path`. -/
def auditPath (m : ℕ) (leaves : List Bytes) : List Bytes :=
  if leaves.length < 2 then []
  else
    let k := splitPoint leaves.length
    if m < k then auditPath m (leaves.take k) ++ [treeHash (leaves.drop k)]
    else auditPath (m - k) (leaves.drop k) ++ [treeHash (leaves.take k)]
termination_by leaves.length
decreasing_by
  · have := splitPoint_lt (by omega : 2 ≤ leaves.length)
    simp only [List.length_take]
    omega
  · have := splitPoint_pos (by omega : 2 ≤ leaves.length)
    simp only [List.length_drop]
    omega

/-- `_consistency_subproof`: SUBPROOF of RFC 9162 section 2.1.4.1.  Its caller asks
for `1 ≤ m ≤ n`, so the recursion ends at `m = n` before the list is too short to
split. -/
def consistencySubproof (m : ℕ) (leaves : List Bytes) (complete : Bool) : List Bytes :=
  if m = leaves.length then if complete then [] else [treeHash leaves]
  else if leaves.length < 2 then []
  else
    let k := splitPoint leaves.length
    if m ≤ k then consistencySubproof m (leaves.take k) complete ++ [treeHash (leaves.drop k)]
    else consistencySubproof (m - k) (leaves.drop k) false ++ [treeHash (leaves.take k)]
termination_by leaves.length
decreasing_by
  · have := splitPoint_lt (by omega : 2 ≤ leaves.length)
    simp only [List.length_take]
    omega
  · have := splitPoint_pos (by omega : 2 ≤ leaves.length)
    simp only [List.length_drop]
    omega

/-- `batch_root`; the error is the `ValueError` of `bytes.fromhex`. -/
def batchRoot (entryHashes : List PyStr) : Except PyErr PyStr :=
  match entryHashes.mapM fromhex with
  | some leaves => .ok (hex (treeHash leaves))
  | none => .error .valueError

/-- `membership_proof`. -/
def membershipProof (entryHashes : List PyStr) (index : ℤ) : Except PyErr (List PyStr) :=
  if 0 ≤ index ∧ index < entryHashes.length then
    match entryHashes.mapM fromhex with
    | some leaves => .ok ((auditPath index.toNat leaves).map hex)
    | none => .error .valueError
  else .error .indexError

/-- `consistency_proof`. -/
def consistencyProof (entryHashes : List PyStr) (oldSize : ℤ) : Except PyErr (List PyStr) :=
  if 1 ≤ oldSize ∧ oldSize ≤ entryHashes.length then
    match entryHashes.mapM fromhex with
    | some leaves => .ok ((consistencySubproof oldSize.toNat leaves true).map hex)
    | none => .error .valueError
  else .error .indexError

/-- `path = [old_hash, *path]`, for an old size that is a power of two. -/
def consistencyPath (oldHash : Bytes) (m : ℕ) (path : List Bytes) : List Bytes :=
  if m &&& (m - 1) = 0 then oldHash :: path else path

/-- The end of `verify_consistency`, from the seed of the fold on. -/
def consistencyFold (oldHash newHash : Bytes) (m n : ℕ) : List Bytes → Bool
  | [] => false
  | seed :: path =>
      let (fn, sn) := stripOnes (m - 1) (n - 1)
      match consistencyWalk pairHash fn sn seed seed path with
      | some (fr, sr, sn) => fr == oldHash && sr == newHash && sn == 0
      | none => false

/-- `verify_consistency`. -/
def verifyConsistency (oldRoot : PyStr) (oldSize : ℤ) (newRoot : PyStr) (newSize : ℤ)
    (proof : List PyStr) : Bool :=
  if oldSize < 1 ∨ newSize < oldSize then false
  else
    match fromhex oldRoot, fromhex newRoot, proof.mapM fromhex with
    | some oldHash, some newHash, some path =>
        if oldSize = newSize then path.isEmpty && oldHash == newHash
        else if path.isEmpty then false
        else consistencyFold oldHash newHash oldSize.toNat newSize.toNat
          (consistencyPath oldHash oldSize.toNat path)
    | _, _, _ => false

/-- `verify_membership`. -/
def verifyMembership (entryHash : PyStr) (index batchSize : ℤ) (proof : List PyStr)
    (root : PyStr) : Bool :=
  if index < 0 ∨ batchSize < 1 ∨ index ≥ batchSize then false
  else
    match fromhex entryHash, proof.mapM fromhex with
    | some leaf, some siblings =>
        match membershipWalk pairHash index.toNat (batchSize.toNat - 1) (leafHash leaf) siblings with
        | some (node, sn) => sn == 0 && hex node == root
        | none => false
    | _, _ => false

/-! ## The incremental forest -/

/-- `IncrementalMerkle`: the peaks, smallest last, each with its height. -/
structure IncrementalMerkle where
  peaks : List (ℕ × Bytes) := []
  size : ℕ := 0
  lastLeaf : Option PyStr := none

/-- The loop of `push`: peaks of the new node's height are merged into it.  The
peaks are listed last first. -/
def mergePeaks : List (ℕ × Bytes) → ℕ → Bytes → List (ℕ × Bytes)
  | (height', left) :: peaks, height, node =>
      if height' = height then mergePeaks peaks (height + 1) (pairHash left node)
      else (height, node) :: (height', left) :: peaks
  | [], height, node => [(height, node)]

/-- `push`; the error is the `ValueError` of `bytes.fromhex`. -/
def IncrementalMerkle.push (tree : IncrementalMerkle) (entryHash : PyStr) :
    Except PyErr IncrementalMerkle :=
  match fromhex entryHash with
  | some leaf =>
      .ok { peaks := (mergePeaks tree.peaks.reverse 0 (leafHash leaf)).reverse
            size := tree.size + 1
            lastLeaf := some entryHash }
  | none => .error .valueError

/-- `from_hashes`. -/
def IncrementalMerkle.fromHashes (entryHashes : List PyStr) : Except PyErr IncrementalMerkle :=
  entryHashes.foldlM IncrementalMerkle.push {}

/-- `root`. -/
def IncrementalMerkle.root (tree : IncrementalMerkle) : PyStr :=
  match (tree.peaks.map Prod.snd).reverse with
  | [] => hex emptyHash
  | acc :: lefts => hex (lefts.foldl (fun acc left => pairHash left acc) acc)

end Trees

end Waxseal
