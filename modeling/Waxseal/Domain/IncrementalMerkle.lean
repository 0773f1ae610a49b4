import Mathlib.Data.List.Induction
import Waxseal.Domain.Anchoring
import Waxseal.Merkle.Forest

/-!
# The incremental forest

`IncrementalMerkle` keeps the peaks of the hashes it was given (`covers_fromHashes`), so its
root is the batch root of them, however it was built (`IncrementalMerkle.root_eq_batchRoot`).
-/

namespace Waxseal

open Merkle

variable [Hashlib]

/-- **`push` merges a block into the forest.** -/
theorem forest_mergePeaks {peaks : List (ℕ × Bytes)} :
    ∀ {ls rs : List Bytes} {height : ℕ}, Forest pairHash emptyHash peaks ls →
      (∀ p ∈ peaks, height ≤ p.1) → rs.length = 2 ^ height →
        Forest pairHash emptyHash (mergePeaks peaks height (root pairHash emptyHash rs))
          (ls ++ rs) := by
  induction peaks with
  | nil =>
      intro ls rs height h _ hlength
      exact .cons h nofun hlength
  | cons peak peaks ih =>
      intro ls rs height h hhigher hlength
      obtain ⟨height', left⟩ := peak
      rw [mergePeaks]
      split_ifs with heq
      · subst heq
        obtain ⟨ls', rs', hrest, happend, hlength', hroot, hhigher'⟩ := h.merge hlength
        rw [← hroot, happend]
        exact ih hrest hhigher' hlength'
      · refine .cons h ?_ hlength
        have hlow : height < height' :=
          lt_of_le_of_ne (hhigher _ List.mem_cons_self) fun h => heq h.symm
        cases h with
        | cons rest higher hblock =>
            rw [List.forall_mem_cons]
            exact ⟨hlow, fun p hp => hlow.trans (higher p hp)⟩

/-- What a forest holds about the hashes it was given. -/
structure Covers (tree : IncrementalMerkle) (hashes : List PyStr) (leaves : List Bytes) : Prop where
  decoded : hashes.mapM fromhex = some leaves
  forest : Forest pairHash emptyHash tree.peaks.reverse (leaves.map leafHash)
  size : tree.size = hashes.length
  lastLeaf : tree.lastLeaf = hashes.getLast?

/-- **Every forest covers the hashes it was built from.** -/
theorem covers_fromHashes {hashes : List PyStr} {tree : IncrementalMerkle}
    (h : IncrementalMerkle.fromHashes hashes = .ok tree) : ∃ leaves, Covers tree hashes leaves := by
  induction hashes using List.reverseRecOn generalizing tree with
  | nil =>
      obtain rfl := Except.ok.inj h
      exact ⟨[], rfl, .nil, rfl, rfl⟩
  | append_singleton hashes hash ih =>
      rw [IncrementalMerkle.fromHashes, List.foldlM_append, bind_eq_ok_iff] at h
      obtain ⟨before, hbefore, h⟩ := h
      obtain ⟨leaves, hleaves, hforest, hsize, -⟩ := ih hbefore
      rw [List.foldlM_cons, bind_eq_ok_iff] at h
      obtain ⟨after, hpush, h⟩ := h
      obtain rfl : after = tree := Except.ok.inj h
      unfold IncrementalMerkle.push at hpush
      split at hpush
      · next leaf hleaf =>
          obtain rfl := Except.ok.inj hpush
          refine ⟨leaves ++ [leaf], ?_, ?_, ?_, ?_⟩
          · rw [List.mapM_append, hleaves, List.mapM_cons, hleaf]
            rfl
          · have hmerge := @forest_mergePeaks _ _ _ [leafHash leaf] 0 hforest
              (fun _ _ => Nat.zero_le _) rfl
            rw [root_singleton] at hmerge
            rwa [List.reverse_reverse, List.map_append, List.map_singleton]
          · rw [List.length_append, List.length_singleton, hsize]
          · rw [List.getLast?_concat]
      · cases hpush

/-- **The root of a forest is the batch root** of the hashes it was built from. -/
theorem batchRoot_of_fromHashes {hashes : List PyStr} {tree : IncrementalMerkle}
    (h : IncrementalMerkle.fromHashes hashes = .ok tree) : batchRoot hashes = .ok tree.root := by
  obtain ⟨leaves, hleaves, hforest, -⟩ := covers_fromHashes h
  rw [batchRoot, hleaves]
  dsimp only
  rw [treeHash_eq_root, IncrementalMerkle.root, ← List.map_reverse]
  generalize tree.peaks.reverse = peaks at hforest
  cases peaks with
  | nil =>
      cases hleaf : leaves.map leafHash with
      | nil =>
          rw [root_nil]
          rfl
      | cons leaf rest =>
          rw [hleaf] at hforest
          cases hforest
  | cons peak peaks =>
      obtain ⟨height, peak⟩ := peak
      rw [← hforest.root_eq]
      rfl

/-- A hash more. -/
theorem fromHashes_append_singleton (hashes : List PyStr) (hash : PyStr) :
    IncrementalMerkle.fromHashes (hashes ++ [hash]) = (do
      let tree ← IncrementalMerkle.fromHashes hashes
      tree.push hash) := by
  rw [IncrementalMerkle.fromHashes, List.foldlM_append, IncrementalMerkle.fromHashes]
  exact bind_congr fun tree => by rw [List.foldlM_cons]; exact bind_pure _

/-- A hash that cannot be decoded stops both ways of computing the root. -/
theorem batchRoot_of_fromHashes_error {hashes : List PyStr} {e : PyErr}
    (h : IncrementalMerkle.fromHashes hashes = .error e) : batchRoot hashes = .error e := by
  induction hashes using List.reverseRecOn generalizing e with
  | nil => cases h
  | append_singleton hashes hash ih =>
      rw [fromHashes_append_singleton] at h
      rw [batchRoot, List.mapM_append]
      rcases hbefore : IncrementalMerkle.fromHashes hashes with e' | before
      · have hbatch := ih hbefore
        rw [hbefore] at h
        obtain rfl : e' = e := Except.error.inj h
        rw [batchRoot] at hbatch
        rcases hleaves : hashes.mapM fromhex with - | leaves
        · rwa [hleaves] at hbatch
        · rw [hleaves] at hbatch
          cases hbatch
      · obtain ⟨leaves, hleaves, -⟩ := covers_fromHashes hbefore
        rw [hbefore] at h
        rw [hleaves, List.mapM_cons]
        rcases hleaf : fromhex hash with - | leaf
        · have hpush : before.push hash = .error .valueError := by
            rw [IncrementalMerkle.push, hleaf]
          exact congrArg Except.error (Except.error.inj (hpush.symm.trans h))
        · have hpush : before.push hash = .error e := h
          rw [IncrementalMerkle.push, hleaf] at hpush
          cases hpush

/-- **The root of a forest built from a list is its batch root**, errors included. -/
theorem map_root_fromHashes (hashes : List PyStr) :
    (IncrementalMerkle.fromHashes hashes).map IncrementalMerkle.root = batchRoot hashes := by
  rcases h : IncrementalMerkle.fromHashes hashes with e | tree
  · exact (batchRoot_of_fromHashes_error h).symm
  · exact (batchRoot_of_fromHashes h).symm

theorem fromHashes_append (start pushed : List PyStr) :
    IncrementalMerkle.fromHashes (start ++ pushed)
      = IncrementalMerkle.fromHashes start >>= pushed.foldlM IncrementalMerkle.push :=
  List.foldlM_append

/-- The tree after a call of `push`; one that raised has changed nothing. -/
def IncrementalMerkle.afterPush (tree : IncrementalMerkle) (entryHash : PyStr) :
    IncrementalMerkle :=
  match tree.push entryHash with
  | .ok after => after
  | .error _ => tree

/-- Pushes whose errors are caught are the pushes that raised none. -/
theorem foldlM_push_filter (pushed : List PyStr) (tree : IncrementalMerkle) :
    (pushed.filter fun hash => (fromhex hash).isSome).foldlM IncrementalMerkle.push tree
      = .ok (pushed.foldl IncrementalMerkle.afterPush tree) := by
  induction pushed generalizing tree with
  | nil => rfl
  | cons hash pushed ih =>
      rw [List.foldl_cons, IncrementalMerkle.afterPush, IncrementalMerkle.push]
      rcases hleaf : fromhex hash with - | leaf
      · rw [List.filter_cons_of_neg (by rw [hleaf]; decide)]
        exact ih tree
      · rw [List.filter_cons_of_pos (by rw [hleaf]; rfl), List.foldlM_cons,
          IncrementalMerkle.push, hleaf]
        exact ih _

/-- **The incremental root is the batch root** of all leaves pushed so far, whichever prefix
the tree was built from: where a push raises, so does the batch; and where the caller catches
what a push raises, the leaves are those whose push raised nothing. -/
theorem IncrementalMerkle.root_eq_batchRoot (start pushed : List PyStr) :
    (IncrementalMerkle.fromHashes start >>= pushed.foldlM IncrementalMerkle.push).map
        IncrementalMerkle.root = batchRoot (start ++ pushed) ∧
      (IncrementalMerkle.fromHashes start).map (fun tree =>
          (pushed.foldl IncrementalMerkle.afterPush tree).root)
        = batchRoot (start ++ pushed.filter fun hash => (fromhex hash).isSome) := by
  constructor
  · rw [← fromHashes_append]
    exact map_root_fromHashes _
  · rw [← map_root_fromHashes, fromHashes_append]
    rcases IncrementalMerkle.fromHashes start with e | tree
    · rfl
    · exact (congrArg (Except.map IncrementalMerkle.root) (foldlM_push_filter pushed tree)).symm

end Waxseal
