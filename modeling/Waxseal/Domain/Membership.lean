import Waxseal.Domain.Consistency

/-!
# Membership proofs

What `verify_membership` accepts.  The generator recurses from the root down
(`auditPath`), the verifier climbs from the leaf up along the `siblings` of the leaf, and
`auditPath_eq_siblings` says they mean the same nodes.

The walk starts from a leaf hash, which has 32 bytes, so one half of every pair it hashes
has 32 bytes and no seam can be moved: on a tree whose root is given, only the leaf at the
position with its own audit path is accepted (`verifyMembership_iff`).  What stays open is
the spelling: leaf and path are hex strings, and a byte string has many of those.
-/

namespace Waxseal

open Merkle

variable [Hashlib] {leaves : List Bytes}

/-- One unfolding of PATH on a list it splits. -/
theorem auditPath_split {m j : ℕ} (h : IsSplit j leaves.length)
    (hk : splitPoint leaves.length = 2 ^ j) :
    auditPath m leaves
      = if m < 2 ^ j then auditPath m (leaves.take (2 ^ j)) ++ [treeHash (leaves.drop (2 ^ j))]
        else auditPath (m - 2 ^ j) (leaves.drop (2 ^ j)) ++ [treeHash (leaves.take (2 ^ j))] := by
  have hlt := h.1
  have hpos := Nat.two_pow_pos j
  rw [auditPath, if_neg (by omega), hk]

/-- The audit path of a leaf is its siblings, bottom up. -/
theorem auditPath_eq_siblings (leaves : List Bytes) {m : ℕ} (h : m < leaves.length) :
    auditPath m leaves = siblings pairHash (leaves.map leafHash) m := by
  induction hn : leaves.length using Nat.strong_induction_on generalizing leaves m with
  | _ n ih =>
      by_cases hlen : leaves.length < 2
      · rw [auditPath, if_pos hlen, siblings, if_pos (by rw [List.length_map]; omega)]
      · obtain ⟨j, hk, hsplit⟩ := @splitPoint_spec leaves.length (by omega)
        have hmap : IsSplit j (leaves.map leafHash).length := by rwa [List.length_map]
        have hj := hsplit.1
        have hpos := Nat.two_pow_pos j
        rw [auditPath_split hsplit hk]
        by_cases hm : m < 2 ^ j
        · have htake : (leaves.take (2 ^ j)).length = 2 ^ j := by
            rw [List.length_take]
            omega
          rw [if_pos hm, ih (2 ^ j) (by omega) _ (by omega) htake,
            @siblings_split_left _ pairHash emptyHash j m _ hmap hm, List.map_take,
            ← List.map_drop, treeHash_eq_root]
        · have hdrop : (leaves.drop (2 ^ j)).length = leaves.length - 2 ^ j := List.length_drop
          rw [if_neg hm, ih (leaves.length - 2 ^ j) (by omega) _ (by omega) hdrop,
            @siblings_split_right _ pairHash emptyHash j m _ hmap (by omega)
              (by rwa [List.length_map]),
            List.map_drop, ← List.map_take, treeHash_eq_root]

/-! ## What is hashed -/

/-- Everything a tree hashes: its leaves and its pairs. -/
def treeInputs (leaves : List Bytes) : List Bytes :=
  leaves.map (0x00 :: ·) ++ nodeInputs leaves

/-- Everything `verify_membership` hashes. -/
def membershipInputs (entryHash : PyStr) (index batchSize : ℤ) (proof : List PyStr) :
    List Bytes :=
  match fromhex entryHash, proof.mapM fromhex with
  | some leaf, some path =>
      (0x00 :: leaf) ::
        (srPairs pairHash index.toNat (batchSize.toNat - 1) (leafHash leaf) path).map pairInput
  | _, _ => []

theorem leafHash_inj {inputs : List Bytes} (hcf : CollisionFree inputs) {a b : Bytes}
    (ha : 0x00 :: a ∈ inputs) (hb : 0x00 :: b ∈ inputs) (h : leafHash a = leafHash b) : a = b :=
  (List.cons.inj (hcf _ ha _ hb (Subtype.ext h))).2

/-- **The tree hash determines the leaves** of two batches of one size. -/
theorem treeHash_inj {leaves leaves' : List Bytes} (hlength : leaves.length = leaves'.length)
    (hcf : CollisionFree (treeInputs leaves ++ treeInputs leaves'))
    (h : treeHash leaves = treeHash leaves') : leaves = leaves' := by
  have hroot : leaves.map leafHash = leaves'.map leafHash := by
    rw [treeHash_eq_root, treeHash_eq_root] at h
    refine root_inj (by rw [List.length_map, List.length_map, hlength]) ?_ h
    intro x hx y hy hxy
    exact pair_eq_of_append_eq
      (pairHash_inj hcf
        (List.mem_append_left _ (List.mem_append_right _ (List.mem_map_of_mem hx)))
        (List.mem_append_right _ (List.mem_append_right _ (List.mem_map_of_mem hy))) hxy)
      (.inl (length_of_mem_treePairs hx).1) (length_of_mem_treePairs hy)
  refine List.ext_getElem hlength fun i hi hi' => ?_
  refine leafHash_inj hcf
    (List.mem_append_left _ (List.mem_append_left _ (List.mem_map_of_mem (List.getElem_mem hi))))
    (List.mem_append_right _ (List.mem_append_left _ (List.mem_map_of_mem (List.getElem_mem hi'))))
    ?_
  have hleaf := congrArg (·[i]?) hroot
  simpa [hi, hi'] using hleaf

/-! ## The verifier -/

/-- The tests `verify_membership` makes, on the decoded strings. -/
theorem verifyMembership_eq_true {entryHash : PyStr} {index batchSize : ℤ} {proof : List PyStr}
    {root : Bytes} :
    verifyMembership entryHash index batchSize proof (hex root) = true ↔
      0 ≤ index ∧ index < batchSize ∧ ∃ leaf path, fromhex entryHash = some leaf ∧
        proof.mapM fromhex = some path ∧
        membershipWalk pairHash index.toNat (batchSize.toNat - 1) (leafHash leaf) path
          = some (root, 0) := by
  rw [verifyMembership]
  by_cases hrange : index < 0 ∨ batchSize < 1 ∨ index ≥ batchSize
  · rw [if_pos hrange]
    constructor
    · intro h
      cases h
    · rintro ⟨h0, hlt, -⟩
      omega
  · have h0 : 0 ≤ index := by omega
    have hlt : index < batchSize := by omega
    rw [if_neg hrange]
    rcases hleaf : fromhex entryHash with - | leaf
    · simp
    · rcases hpath : proof.mapM fromhex with - | path
      · simp
      · rcases hwalk : membershipWalk pairHash index.toNat (batchSize.toNat - 1) (leafHash leaf)
            path with - | ⟨node, sn⟩
        · simp [hwalk]
        · simp [hwalk, h0, hlt, and_comm]

/-- The leaves around the one at a position. -/
theorem map_leafHash_split {i : ℕ} (h : i < leaves.length) :
    leaves.map leafHash = (leaves.take i).map leafHash
      ++ leafHash leaves[i] :: (leaves.drop (i + 1)).map leafHash := by
  rw [← List.map_cons, ← List.map_append, ← List.drop_eq_getElem_cons h, List.take_append_drop]

/-- The walk along the audit path of a leaf ends at the root. -/
theorem membershipWalk_auditPath {i : ℕ} (h : i < leaves.length) :
    membershipWalk pairHash i (leaves.length - 1) (leafHash leaves[i]) (auditPath i leaves)
      = some (treeHash leaves, 0) := by
  have hcomplete := @membershipWalk_siblings _ pairHash emptyHash ((leaves.take i).map leafHash)
    (leafHash leaves[i]) ((leaves.drop (i + 1)).map leafHash)
  have hi : ((leaves.take i).map leafHash).length = i := by
    rw [List.length_map, List.length_take]
    omega
  have hsize : i + ((leaves.drop (i + 1)).map leafHash).length = leaves.length - 1 := by
    rw [List.length_map, List.length_drop]
    omega
  rw [← map_leafHash_split h, hi, hsize] at hcomplete
  rw [auditPath_eq_siblings leaves h, treeHash_eq_root]
  exact hcomplete

/-- The walk on a tree, around the leaf it starts from. -/
theorem membershipWalk_tree_iff {leaf leaf' : Bytes} {path : List Bytes} {i : ℕ}
    (hi : leaves[i]? = some leaf')
    (hcf : CollisionFree ((0x00 :: leaf) ::
      (srPairs pairHash i (leaves.length - 1) (leafHash leaf) path).map pairInput
        ++ treeInputs leaves)) :
    membershipWalk pairHash i (leaves.length - 1) (leafHash leaf) path
        = some (treeHash leaves, 0) ↔
      leaf = leaf' ∧ path = auditPath i leaves := by
  obtain ⟨hlt, rfl⟩ := List.getElem?_eq_some_iff.mp hi
  have hmem : leaves[i] ∈ leaves := List.getElem_mem hlt
  constructor
  · intro hwalk
    have hi : ((leaves.take i).map leafHash).length = i := by
      rw [List.length_map, List.length_take]
      omega
    have hsize : i + ((leaves.drop (i + 1)).map leafHash).length = leaves.length - 1 := by
      rw [List.length_map, List.length_drop]
      omega
    have hsound := @membershipWalk_sound _ pairHash emptyHash ((leaves.take i).map leafHash)
      (leafHash leaves[i]) ((leaves.drop (i + 1)).map leafHash) (leafHash leaf) path
    rw [← map_leafHash_split hlt, hi, hsize, ← treeHash_eq_root,
      ← auditPath_eq_siblings leaves hlt] at hsound
    obtain ⟨hleaf, hpath⟩ := hsound (fun x hx y hy hxy =>
      pair_eq_of_append_eq
        (pairHash_inj hcf
          (List.mem_append_left _ (List.mem_cons_of_mem _ (List.mem_map_of_mem hx)))
          (List.mem_append_right _ (List.mem_append_right _ (List.mem_map_of_mem hy))) hxy)
        (length_of_mem_srPairs (length_leafHash _) hx)
        (length_of_mem_treePairs hy)) hwalk
    refine ⟨leafHash_inj hcf (List.mem_append_left _ List.mem_cons_self) ?_ hleaf, hpath⟩
    exact List.mem_append_right _ (List.mem_append_left _ (List.mem_map_of_mem hmem))
  · rintro ⟨rfl, rfl⟩
    exact membershipWalk_auditPath hlt

/-- **What `verify_membership` accepts**, on a tree whose root it is given: the leaf at the
position with its audit path, each in any spelling. -/
theorem verifyMembership_iff {entryHash : PyStr} {index : ℤ} {proof : List PyStr}
    (hcf : CollisionFree (membershipInputs entryHash index leaves.length proof
      ++ treeInputs leaves)) :
    verifyMembership entryHash index leaves.length proof (hex (treeHash leaves)) = true ↔
      ∃ (i : ℕ) (leaf : Bytes), index = i ∧ leaves[i]? = some leaf ∧
        fromhex entryHash = some leaf ∧ proof.mapM fromhex = some (auditPath i leaves) := by
  rw [verifyMembership_eq_true]
  constructor
  · rintro ⟨h0, hlt, leaf, path, hleaf, hpath, hwalk⟩
    obtain ⟨i, rfl⟩ := Int.eq_ofNat_of_zero_le h0
    have hi : leaves[i]? = some (leaves.get ⟨i, by omega⟩) :=
      List.getElem?_eq_getElem (by omega)
    rw [membershipInputs, hleaf, hpath] at hcf
    obtain ⟨rfl, rfl⟩ := (membershipWalk_tree_iff hi hcf).mp hwalk
    exact ⟨i, _, rfl, hi, hleaf, hpath⟩
  · rintro ⟨i, leaf, rfl, hi, hleaf, hpath⟩
    obtain ⟨hlt, -⟩ := List.getElem?_eq_some_iff.mp hi
    rw [membershipInputs, hleaf, hpath] at hcf
    exact ⟨by omega, by omega, leaf, _, hleaf, hpath,
      (membershipWalk_tree_iff hi hcf).mpr ⟨rfl, rfl⟩⟩

/-- **Membership proofs are complete and sound.**  What `membership_proof` returns for a
position, `verify_membership` accepts for the entry hash there; and whatever proof it accepts
for an entry hash, the position is in the batch and the entry hash a spelling of the one
there. -/
theorem verifyMembership_complete_and_sound (hs : List PyStr) (leaves : List Bytes)
    (hleaves : hs.mapM fromhex = some leaves) :
    (∀ (i : ℕ) (h : i < hs.length), ∃ proof root, membershipProof hs i = .ok proof ∧
        batchRoot hs = .ok root ∧ verifyMembership hs[i] i hs.length proof root = true) ∧
      ∀ (entryHash : PyStr) (index : ℤ) (proof : List PyStr) (root : PyStr),
        batchRoot hs = .ok root →
        CollisionFree (membershipInputs entryHash index hs.length proof ++ treeInputs leaves) →
        verifyMembership entryHash index hs.length proof root = true →
          ∃ (i : ℕ) (h : i < hs.length), index = i ∧ (fromhex entryHash).isSome ∧
            fromhex entryHash = fromhex hs[i] := by
  have hlength := length_of_mapM_fromhex hleaves
  constructor
  · intro i h
    have hi : i < leaves.length := hlength ▸ h
    refine ⟨(auditPath i leaves).map hex, hex (treeHash leaves), ?_, batchRoot_eq hleaves, ?_⟩
    · rw [membershipProof, if_pos (by omega), hleaves, Int.toNat_natCast]
    · rw [hlength]
      refine verifyMembership_eq_true.mpr ⟨by omega, by omega, leaves[i], auditPath i leaves,
        fromhex_getElem hleaves h, mapM_fromhex_hex _, ?_⟩
      exact membershipWalk_auditPath hi
  · intro entryHash index proof root hroot hcf haccept
    rw [batchRoot_eq hleaves, Except.ok.injEq] at hroot
    subst hroot
    rw [hlength] at hcf haccept
    obtain ⟨i, leaf, rfl, hi, hleaf, -⟩ := (verifyMembership_iff hcf).mp haccept
    obtain ⟨hlt, rfl⟩ := List.getElem?_eq_some_iff.mp hi
    refine ⟨i, hlength ▸ hlt, rfl, by rw [hleaf]; rfl, ?_⟩
    exact hleaf.trans (fromhex_getElem hleaves _).symm

omit [Hashlib] in
/-- The second of two entries, under its own audit path. -/
theorem verifyMembership_complete_and_sound_two :
    letI := Sha256.hashlib
    ∃ (i : ℕ) (h : i < (twoLeaves.map hex).length), (1 : ℤ) = i ∧
      (fromhex (hex (List.replicate 32 1))).isSome ∧
      fromhex (hex (List.replicate 32 1)) = fromhex (twoLeaves.map hex)[i] := by
  let _ := Sha256.hashlib
  exact (verifyMembership_complete_and_sound (twoLeaves.map hex) twoLeaves
    (mapM_fromhex_hex twoLeaves)).2 (hex (List.replicate 32 1)) 1
      [hex (leafHash (List.replicate 32 0))] (hex (treeHash twoLeaves))
      (batchRoot_eq (mapM_fromhex_hex twoLeaves)) (by decide +kernel) (by decide +kernel)

end Waxseal
