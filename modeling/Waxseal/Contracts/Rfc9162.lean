import Waxseal.Domain.Consistency

/-!
# The Rfc9162 library contract

The Solidity Merkle code, over `bytes32` nodes and `uint256` sizes, and its agreement
with the Python code of `Domain.Anchoring`.

`treeHash` folds the levels in place in one array; `foldLevel_spec` is the invariant of
that loop, by which one pass over the array is `Merkle.pairUp`.  The verifiers run the
same loops as the Python ones, on 256-bit words.
-/

namespace Waxseal.Rfc9162

open Merkle

/-- `uint256`. -/
abbrev Uint256 := BitVec 256

/-- `enum Fail`. -/
inductive Fail where
  | none
  | sizeRange
  | equalSizeMismatch
  | emptyProof
  | proofTooLong
  | oldRootMismatch
  | newRootMismatch
  | proofTooShort
  deriving DecidableEq, Repr

section Loops

theorem toNat_shiftRight_one (x : Uint256) : (x >>> 1).toNat = x.toNat / 2 := by
  rw [BitVec.toNat_ushiftRight, Nat.shiftRight_one]

theorem toNat_and_one (x : Uint256) : (x &&& 1).toNat = x.toNat % 2 := by
  rw [BitVec.toNat_and, show (1 : Uint256).toNat = 1 from rfl, Nat.and_one_is_mod]

theorem and_one_eq_one_iff {x : Uint256} : x &&& 1 = 1 ↔ x.toNat % 2 = 1 := by
  rw [← toNat_and_one, BitVec.toNat_eq, show (1 : Uint256).toNat = 1 from rfl]

theorem and_one_eq_zero_iff {x : Uint256} : x &&& 1 = 0 ↔ x.toNat % 2 = 0 := by
  rw [← toNat_and_one, BitVec.toNat_eq, show (0 : Uint256).toNat = 0 from rfl]

theorem ne_zero_iff {x : Uint256} : x ≠ 0 ↔ x.toNat ≠ 0 := by
  rw [Ne, BitVec.toNat_eq, show (0 : Uint256).toNat = 0 from rfl]

/-- `while (fn & 1 == 1) { fn >>= 1; sn >>= 1; }`. -/
def stripOnes (fn sn : Uint256) : Uint256 × Uint256 :=
  if fn &&& 1 = 1 then stripOnes (fn >>> 1) (sn >>> 1) else (fn, sn)
termination_by fn.toNat
decreasing_by
  rename_i h
  rw [and_one_eq_one_iff] at h
  rw [toNat_shiftRight_one]
  omega

/-- `while (fn & 1 == 0 && fn != 0) { fn >>= 1; sn >>= 1; }`. -/
def stripZeros (fn sn : Uint256) : Uint256 × Uint256 :=
  if fn &&& 1 = 0 ∧ fn ≠ 0 then stripZeros (fn >>> 1) (sn >>> 1) else (fn, sn)
termination_by fn.toNat
decreasing_by
  rename_i h
  rw [ne_zero_iff] at h
  rw [toNat_shiftRight_one]
  omega

theorem toNat_div_two (x : Uint256) : (x / 2).toNat = x.toNat / 2 := BitVec.toNat_udiv

theorem mod_two_eq_one_iff {x : Uint256} : x % 2 = 1 ↔ x.toNat % 2 = 1 := by
  rw [BitVec.toNat_eq, BitVec.toNat_umod]
  rfl

/-- The inner loop of `verifyInclusion`: halve both until `fn` is odd or zero. -/
def halveOut (fn sn : Uint256) : Uint256 × Uint256 :=
  if fn / 2 % 2 = 1 ∨ fn / 2 = 0 then (fn / 2, sn / 2) else halveOut (fn / 2) (sn / 2)
termination_by fn.toNat
decreasing_by
  rename_i h
  have h0 := ne_zero_iff.mp (not_or.mp h).2
  rw [toNat_div_two] at h0 ⊢
  omega

/-- A pair of words as numbers. -/
def toNats (x : Uint256 × Uint256) : ℕ × ℕ := (x.1.toNat, x.2.toNat)

theorem toNats_stripOnes (fn sn : Uint256) :
    toNats (stripOnes fn sn) = Merkle.stripOnes fn.toNat sn.toNat := by
  induction fn, sn using stripOnes.induct with
  | case1 fn sn hodd ih =>
      rw [stripOnes, if_pos hodd, ih, Merkle.stripOnes.eq_def fn.toNat,
        if_pos (and_one_eq_one_iff.mp hodd), toNat_shiftRight_one, toNat_shiftRight_one]
  | case2 fn sn heven =>
      rw [stripOnes, if_neg heven, Merkle.stripOnes, if_neg (mt and_one_eq_one_iff.mpr heven)]
      rfl

theorem toNats_stripZeros (fn sn : Uint256) :
    toNats (stripZeros fn sn) = Merkle.stripZeros fn.toNat sn.toNat := by
  induction fn, sn using stripZeros.induct with
  | case1 fn sn h ih =>
      rw [stripZeros, if_pos h, ih, Merkle.stripZeros.eq_def fn.toNat,
        if_pos ⟨and_one_eq_zero_iff.mp h.1, ne_zero_iff.mp h.2⟩, toNat_shiftRight_one,
        toNat_shiftRight_one]
  | case2 fn sn h =>
      rw [stripZeros, if_neg h, Merkle.stripZeros,
        if_neg fun h' => h ⟨and_one_eq_zero_iff.mpr h'.1, ne_zero_iff.mpr h'.2⟩]
      rfl

theorem toNats_halveOut (fn sn : Uint256) :
    toNats (halveOut fn sn) = Merkle.stripZeros (fn.toNat / 2) (sn.toNat / 2) := by
  induction fn, sn using halveOut.induct with
  | case1 fn sn h =>
      have h0 : ¬((fn / 2).toNat % 2 = 0 ∧ (fn / 2).toNat ≠ 0) := by
        rw [← ne_zero_iff]
        rintro ⟨heven, hne⟩
        rcases h with hodd | hzero
        · rw [mod_two_eq_one_iff] at hodd
          omega
        · exact hne hzero
      rw [halveOut, if_pos h, toNats, toNat_div_two, toNat_div_two]
      rw [toNat_div_two] at h0
      rw [Merkle.stripZeros, if_neg h0]
  | case2 fn sn h ih =>
      obtain ⟨heven, hne⟩ := not_or.mp h
      rw [mod_two_eq_one_iff, toNat_div_two] at heven
      rw [← Ne, ne_zero_iff, toNat_div_two] at hne
      rw [halveOut, if_neg h, ih, toNat_div_two, toNat_div_two,
        @stripZeros_even (fn.toNat / 2) _ (by omega) hne]

end Loops

section Library

variable [Hashlib]

/-- `leafHash`. -/
def leafHash (leaf : Bytes32) : Bytes32 := sha256 (0x00 :: leaf.val)

/-- `pairHash`. -/
def pairHash (left right : Bytes32) : Bytes32 := sha256 (0x01 :: (left.val ++ right.val))

/-- `level[i]`; the loops stay within the array. -/
def nodeAt (level : List Bytes32) (i : ℕ) : Bytes32 :=
  level.getD i ⟨List.replicate 32 0, rfl⟩

/-- The node above positions `i` and `i + 1` of a level of `n` nodes: an odd node is
promoted, not paired with itself. -/
def nextNode (n : ℕ) (level : List Bytes32) (i : ℕ) : Bytes32 :=
  if i + 1 < n then pairHash (nodeAt level i) (nodeAt level (i + 1)) else nodeAt level i

/-- The inner loop of `treeHash`: one pass over the array, which writes the next level
over the one it reads. -/
def foldLevel (n : ℕ) (level : List Bytes32) (i out : ℕ) : List Bytes32 × ℕ :=
  if i < n then foldLevel n (level.set out (nextNode n level i)) (i + 2) (out + 1)
  else (level, out)
termination_by n - i

theorem foldLevel_snd (n : ℕ) (level : List Bytes32) (i out : ℕ) :
    (foldLevel n level i out).2 = out + (n - i + 1) / 2 := by
  induction level, i, out using foldLevel.induct n with
  | case1 level i out hlt ih =>
      rw [foldLevel, if_pos hlt, ih]
      omega
  | case2 level i out hge =>
      rw [foldLevel, if_neg hge]
      omega

/-- The outer loop of `treeHash`. -/
def foldLevels (n : ℕ) (level : List Bytes32) : Bytes32 :=
  if n > 1 then foldLevels (foldLevel n level 0 0).2 (foldLevel n level 0 0).1 else nodeAt level 0
termination_by n
decreasing_by
  rw [foldLevel_snd]
  omega

/-- `treeHash`. -/
def treeHash (leaves : List Bytes32) : Bytes32 :=
  if leaves.length = 0 then sha256 []
  else foldLevels leaves.length (leaves.map leafHash)

/-- The loop of `verifyConsistencyTraced`; the result is the accumulators, what is left of
`sn`, and the two traces, or the traces alone when the proof is too long. -/
def foldProof (fn sn : Uint256) (fr sr : Bytes32) (frTrace srTrace : List Bytes32) :
    List Bytes32 → Option (Bytes32 × Bytes32 × Uint256) × List Bytes32 × List Bytes32
  | [] => (some (fr, sr, sn), frTrace, srTrace)
  | sibling :: path =>
      if sn = 0 then (none, frTrace, srTrace)
      else if fn &&& 1 = 1 ∨ fn = sn then
        let fr := pairHash sibling fr
        let sr := pairHash sibling sr
        let (fn, sn) := stripZeros fn sn
        foldProof (fn >>> 1) (sn >>> 1) fr sr (frTrace ++ [fr]) (srTrace ++ [sr]) path
      else
        let sr := pairHash sr sibling
        foldProof (fn >>> 1) (sn >>> 1) fr sr (frTrace ++ [fr]) (srTrace ++ [sr]) path

/-- `verifyConsistencyTraced`. -/
def verifyConsistencyTraced (oldRoot : Bytes32) (oldSize : Uint256) (newRoot : Bytes32)
    (newSize : Uint256) (proof : List Bytes32) :
    Bool × Fail × List Bytes32 × List Bytes32 :=
  if oldSize < 1 ∨ newSize < oldSize then (false, .sizeRange, [], [])
  else if oldSize = newSize then
    if proof.length = 0 ∧ oldRoot = newRoot then (true, .none, [], [])
    else (false, .equalSizeMismatch, [], [])
  else
    match proof with
    | [] => (false, .emptyProof, [], [])
    | first :: rest =>
        let (seed, path) :=
          if oldSize &&& (oldSize - 1) = 0 then (oldRoot, first :: rest) else (first, rest)
        let (fn, sn) := stripOnes (oldSize - 1) (newSize - 1)
        match foldProof fn sn seed seed [seed] [seed] path with
        | (none, frTrace, srTrace) => (false, .proofTooLong, frTrace, srTrace)
        | (some (fr, sr, sn), frTrace, srTrace) =>
            if fr ≠ oldRoot then (false, .oldRootMismatch, frTrace, srTrace)
            else if sr ≠ newRoot then (false, .newRootMismatch, frTrace, srTrace)
            else if sn ≠ 0 then (false, .proofTooShort, frTrace, srTrace)
            else (true, .none, frTrace, srTrace)

/-- `verifyConsistency`. -/
def verifyConsistency (oldRoot : Bytes32) (oldSize : Uint256) (newRoot : Bytes32)
    (newSize : Uint256) (proof : List Bytes32) : Bool × Fail :=
  let (ok, reason, _, _) := verifyConsistencyTraced oldRoot oldSize newRoot newSize proof
  (ok, reason)

/-- The loop of `verifyInclusion`; `none` is its early `return false`. -/
def foldInclusion (fn sn : Uint256) (node : Bytes32) : List Bytes32 → Option (Bytes32 × Uint256)
  | [] => some (node, sn)
  | sibling :: proof =>
      if sn = 0 then none
      else if fn % 2 = 1 ∨ fn = sn then
        let (fn', sn') := if fn % 2 = 0 then halveOut fn sn else (fn, sn)
        foldInclusion (fn' / 2) (sn' / 2) (pairHash sibling node) proof
      else foldInclusion (fn / 2) (sn / 2) (pairHash node sibling) proof

/-- `verifyInclusion`. -/
def verifyInclusion (entryHash : Bytes32) (index batchSize : Uint256) (proof : List Bytes32)
    (root : Bytes32) : Bool :=
  if batchSize < 1 ∨ index ≥ batchSize then false
  else
    match foldInclusion index (batchSize - 1) (leafHash entryHash) proof with
    | some (node, sn) => sn == 0 && node == root
    | none => false

/-! ## `treeHash` -/

omit [Hashlib] in
theorem nodeAt_eq {level : List Bytes32} {i : ℕ} (h : i < level.length) :
    nodeAt level i = level[i] := by
  rw [nodeAt, List.getD_eq_getElem?_getD, List.getElem?_eq_getElem h, Option.getD_some]

/-- One step of `Merkle.pairUp` at position `i`. -/
theorem pairUp_drop_step {n i : ℕ} (level : List Bytes32) (hn : n ≤ level.length) (hi : i < n) :
    pairUp pairHash ((level.take n).drop i)
      = nextNode n level i :: pairUp pairHash ((level.take n).drop (i + 2)) := by
  have hlen : (level.take n).length = n := by
    rw [List.length_take]
    omega
  rw [List.drop_eq_getElem_cons (by omega), List.getElem_take, nextNode,
    nodeAt_eq (by omega : i < level.length)]
  by_cases hpair : i + 1 < n
  · rw [List.drop_eq_getElem_cons (by omega), List.getElem_take, if_pos hpair,
      nodeAt_eq (by omega : i + 1 < level.length), pairUp_cons_cons]
  · rw [if_neg hpair, List.drop_eq_nil_of_le (by omega), List.drop_eq_nil_of_le (by omega)]
    rfl

/-- **The loop invariant of the inner loop.**  What it leaves in the array up to `out` is
what it found there, followed by the pairs of what it had still to read: the writes stay
behind the reads. -/
theorem foldLevel_spec {n : ℕ} (level : List Bytes32) (i out : ℕ) (hn : n ≤ level.length)
    (hout : out ≤ i) :
    (foldLevel n level i out).1.length = level.length ∧
      (foldLevel n level i out).1.take (foldLevel n level i out).2
        = level.take out ++ pairUp pairHash ((level.take n).drop i) := by
  induction level, i, out using foldLevel.induct n with
  | case1 level i out hlt ih =>
      obtain ⟨hlen, htake⟩ := ih (by rwa [List.length_set]) (by omega)
      rw [foldLevel, if_pos hlt]
      refine ⟨hlen.trans List.length_set, htake.trans ?_⟩
      have hset : (level.set out (nextNode n level i)).take (out + 1)
          = level.take out ++ [nextNode n level i] := by
        rw [List.set_eq_take_append_cons_drop, if_pos (by omega), List.append_cons,
          List.take_left' (by simp; omega)]
      have hrest : ((level.set out (nextNode n level i)).take n).drop (i + 2)
          = (level.take n).drop (i + 2) := by
        rw [List.take_set, List.drop_set_of_lt (by omega)]
      rw [hset, hrest, pairUp_drop_step level hn hlt, List.append_assoc]
      rfl
  | case2 level i out hge =>
      rw [foldLevel, if_neg hge, List.drop_eq_nil_of_le (by rw [List.length_take]; omega)]
      simp

/-- The outer loop climbs to the root. -/
theorem foldLevels_eq_root {n : ℕ} (e : Bytes32) (level : List Bytes32) (hpos : 0 < n)
    (hn : n ≤ level.length) : foldLevels n level = root pairHash e (level.take n) := by
  induction n, level using foldLevels.induct with
  | case1 n level hgt ih =>
      obtain ⟨hlen, htake⟩ := foldLevel_spec level 0 0 hn le_rfl
      have hout := foldLevel_snd n level 0 0
      rw [foldLevels, if_pos hgt, ih (by omega) (by omega), htake]
      exact root_pairUp _
  | case2 n level hle =>
      obtain rfl : n = 1 := by omega
      obtain ⟨a, rest, rfl⟩ := List.exists_cons_of_length_pos hn
      rw [foldLevels, if_neg hle]
      simp [nodeAt]

/-- **`treeHash` is the level-by-level tree** over the leaf hashes. -/
theorem treeHash_eq_root (leaves : List Bytes32) :
    treeHash leaves = root pairHash (sha256 []) (leaves.map leafHash) := by
  rw [treeHash]
  by_cases h : leaves.length = 0
  · rw [if_pos h, List.length_eq_zero_iff.mp h]
    simp
  · rw [if_neg h, foldLevels_eq_root (sha256 []) _ (by omega) (by rw [List.length_map]),
      List.take_of_length_le (by rw [List.length_map])]

/-! ## Agreement with the Python code -/

theorem val_pairHash (left right : Bytes32) :
    (pairHash left right).val = Waxseal.pairHash left.val right.val := rfl

theorem treeHash_val (leaves : List Bytes32) :
    (treeHash leaves).val = Waxseal.treeHash (leaves.map Subtype.val) := by
  rw [treeHash_eq_root, Waxseal.treeHash_eq_root, map_root Subtype.val val_pairHash,
    List.map_map, List.map_map]
  rfl

/-- The accumulators and the rest of `sn`, as byte strings and a number. -/
def walkVal (x : Bytes32 × Bytes32 × Uint256) : Bytes × Bytes × ℕ :=
  (x.1.val, x.2.1.val, x.2.2.toNat)

omit [Hashlib] in
theorem sn_eq_zero_iff {x : Uint256} : x = 0 ↔ x.toNat = 0 := not_iff_not.mp ne_zero_iff

/-- The consistency loop is the library's walk. -/
theorem foldProof_eq_walk (path : List Bytes32) (fn sn : Uint256) (fr sr : Bytes32)
    (frTrace srTrace : List Bytes32) :
    (foldProof fn sn fr sr frTrace srTrace path).1.map walkVal
      = consistencyWalk Waxseal.pairHash fn.toNat sn.toNat fr.val sr.val
          (path.map Subtype.val) := by
  induction path generalizing fn sn fr sr frTrace srTrace with
  | nil => rfl
  | cons sibling path ih =>
      rw [foldProof, List.map_cons, consistencyWalk]
      by_cases hsn : sn = 0
      · rw [if_pos hsn, if_pos (sn_eq_zero_iff.mp hsn)]
        rfl
      · rw [if_neg hsn, if_neg (mt sn_eq_zero_iff.mpr hsn)]
        have hbranch : (fn &&& 1 = 1 ∨ fn = sn) ↔ (fn.toNat % 2 = 1 ∨ fn.toNat = sn.toNat) := by
          rw [and_one_eq_one_iff, BitVec.toNat_eq]
        by_cases hright : fn &&& 1 = 1 ∨ fn = sn
        · have hstrip := toNats_stripZeros fn sn
          rw [if_pos hright, if_pos (hbranch.mp hright)]
          dsimp only
          rw [ih, ← hstrip, toNat_shiftRight_one, toNat_shiftRight_one]
          rfl
        · rw [if_neg hright, if_neg (mt hbranch.mpr hright)]
          dsimp only
          rw [ih, toNat_shiftRight_one, toNat_shiftRight_one]
          rfl

/-- The inclusion loop is the library's walk. -/
theorem foldInclusion_eq_walk (proof : List Bytes32) (fn sn : Uint256) (node : Bytes32) :
    (foldInclusion fn sn node proof).map (fun x => (x.1.val, x.2.toNat))
      = membershipWalk Waxseal.pairHash fn.toNat sn.toNat node.val (proof.map Subtype.val) := by
  induction proof generalizing fn sn node with
  | nil => rfl
  | cons sibling proof ih =>
      rw [foldInclusion, List.map_cons, membershipWalk]
      by_cases hsn : sn = 0
      · rw [if_pos hsn, if_pos (sn_eq_zero_iff.mp hsn)]
        rfl
      · rw [if_neg hsn, if_neg (mt sn_eq_zero_iff.mpr hsn)]
        have hbranch : (fn % 2 = 1 ∨ fn = sn) ↔ (fn.toNat % 2 = 1 ∨ fn.toNat = sn.toNat) := by
          rw [mod_two_eq_one_iff, BitVec.toNat_eq]
        by_cases hright : fn % 2 = 1 ∨ fn = sn
        · rw [if_pos hright, if_pos (hbranch.mp hright)]
          have heven : fn % 2 = 0 ↔ fn.toNat % 2 = 0 := by
            rw [BitVec.toNat_eq, BitVec.toNat_umod]
            rfl
          by_cases hzero : fn % 2 = 0
          · have hhalve := toNats_halveOut fn sn
            rw [if_pos hzero, if_pos (heven.mp hzero)]
            dsimp only
            rw [ih, ← hhalve, toNat_div_two, toNat_div_two]
            rfl
          · rw [if_neg hzero, if_neg (mt heven.mpr hzero)]
            dsimp only
            rw [ih, toNat_div_two, toNat_div_two]
            rfl
        · rw [if_neg hright, if_neg (mt hbranch.mpr hright)]
          rw [ih, toNat_div_two, toNat_div_two]
          rfl

omit [Hashlib] in
theorem mapM_fromhex_val (proof : List Bytes32) :
    (proof.map fun b => hex b.val).mapM fromhex = some (proof.map Subtype.val) := by
  have h := mapM_fromhex_hex (proof.map Subtype.val)
  rwa [List.map_map] at h

omit [Hashlib] in
theorem toNat_sub_one {x : Uint256} (h : 1 ≤ x.toNat) : (x - 1).toNat = x.toNat - 1 :=
  BitVec.toNat_sub_of_le (BitVec.le_def.mpr h)

omit [Hashlib] in
theorem and_pred_eq_zero_iff {x : Uint256} (h : 1 ≤ x.toNat) :
    x &&& (x - 1) = 0 ↔ x.toNat &&& (x.toNat - 1) = 0 := by
  rw [BitVec.toNat_eq, BitVec.toNat_and, toNat_sub_one h]
  rfl

/-- The end of `verifyConsistencyTraced`, from the seed of the fold on. -/
theorem foldProof_accepts (oldRoot newRoot : Bytes32) {oldSize newSize : Uint256}
    (hold : 1 ≤ oldSize.toNat) (hnew : 1 ≤ newSize.toNat) (seed : Bytes32) (path : List Bytes32) :
    (match foldProof (stripOnes (oldSize - 1) (newSize - 1)).1
        (stripOnes (oldSize - 1) (newSize - 1)).2 seed seed [seed] [seed] path with
      | (none, frTrace, srTrace) => (false, Fail.proofTooLong, frTrace, srTrace)
      | (some (fr, sr, sn), frTrace, srTrace) =>
          if fr ≠ oldRoot then (false, .oldRootMismatch, frTrace, srTrace)
          else if sr ≠ newRoot then (false, .newRootMismatch, frTrace, srTrace)
          else if sn ≠ 0 then (false, .proofTooShort, frTrace, srTrace)
          else (true, .none, frTrace, srTrace)).1
      = consistencyFold oldRoot.val newRoot.val oldSize.toNat newSize.toNat
          ((seed :: path).map Subtype.val) := by
  have hwalk := foldProof_eq_walk path (stripOnes (oldSize - 1) (newSize - 1)).1
    (stripOnes (oldSize - 1) (newSize - 1)).2 seed seed [seed] [seed]
  have hstrip := toNats_stripOnes (oldSize - 1) (newSize - 1)
  rw [toNat_sub_one hold, toNat_sub_one hnew, toNats] at hstrip
  rw [List.map_cons, consistencyFold, ← hstrip]
  dsimp only
  rw [← hwalk]
  rcases foldProof (stripOnes (oldSize - 1) (newSize - 1)).1
    (stripOnes (oldSize - 1) (newSize - 1)).2 seed seed [seed] [seed] path
    with ⟨- | ⟨fr, sr, sn⟩, frTrace, srTrace⟩
  · rfl
  · dsimp only [Option.map_some, walkVal]
    by_cases hfr : fr = oldRoot
    · rw [if_neg (not_not.mpr hfr), hfr, beq_self_eq_true, Bool.true_and]
      by_cases hsr : sr = newRoot
      · rw [if_neg (not_not.mpr hsr), hsr, beq_self_eq_true, Bool.true_and]
        by_cases hsn : sn = 0
        · rw [if_neg (not_not.mpr hsn), hsn]
          rfl
        · rw [if_pos hsn, beq_eq_false_iff_ne.mpr (ne_zero_iff.mp hsn)]
      · rw [if_pos hsr, beq_eq_false_iff_ne.mpr (mt Subtype.ext hsr)]
        rfl
    · rw [if_pos hfr, beq_eq_false_iff_ne.mpr (mt Subtype.ext hfr)]
      rfl

theorem verifyConsistency_agrees (oldRoot newRoot : Bytes32) (oldSize newSize : Uint256)
    (proof : List Bytes32) :
    (verifyConsistency oldRoot oldSize newRoot newSize proof).1
      = Waxseal.verifyConsistency (hex oldRoot.val) oldSize.toNat (hex newRoot.val) newSize.toNat
          (proof.map fun b => hex b.val) := by
  rw [verifyConsistency, verifyConsistencyTraced.eq_def, Waxseal.verifyConsistency, fromhex_hex,
    fromhex_hex, mapM_fromhex_val]
  have hrange : (oldSize < 1 ∨ newSize < oldSize) ↔
      ((oldSize.toNat : ℤ) < 1 ∨ (newSize.toNat : ℤ) < oldSize.toNat) := by
    rw [BitVec.lt_def, BitVec.lt_def, show (1 : Uint256).toNat = 1 from rfl]
    omega
  by_cases hsize : oldSize < 1 ∨ newSize < oldSize
  · rw [if_pos hsize, if_pos (hrange.mp hsize)]
  · have hold : 1 ≤ oldSize.toNat := by
      have := mt hrange.mpr hsize
      omega
    have hnew : 1 ≤ newSize.toNat := by
      have := mt hrange.mpr hsize
      omega
    rw [if_neg hsize, if_neg (mt hrange.mpr hsize)]
    have heq : oldSize = newSize ↔ (oldSize.toNat : ℤ) = newSize.toNat := by
      rw [BitVec.toNat_eq]
      omega
    by_cases hsame : oldSize = newSize
    · rw [if_pos hsame]
      dsimp only
      rw [if_pos (heq.mp hsame)]
      by_cases hroots : proof.length = 0 ∧ oldRoot = newRoot
      · rw [if_pos hroots, List.length_eq_zero_iff.mp hroots.1, hroots.2]
        simp
      · rw [if_neg hroots]
        rw [List.length_eq_zero_iff] at hroots
        by_cases hnil : proof = []
        · have hne : oldRoot.val ≠ newRoot.val := fun h => hroots ⟨hnil, Subtype.ext h⟩
          simp [hne]
        · have hempty : (proof.map Subtype.val).isEmpty = false := by
            rw [List.isEmpty_eq_false_iff, Ne, List.map_eq_nil_iff]
            exact hnil
          rw [hempty, Bool.false_and]
    · rw [if_neg hsame]
      dsimp only
      rw [if_neg (mt heq.mpr hsame)]
      cases proof with
      | nil => rfl
      | cons first rest =>
          have hempty : ((first :: rest).map Subtype.val).isEmpty = false := rfl
          rw [hempty, if_neg Bool.false_ne_true, consistencyPath, Int.toNat_natCast, Int.toNat_natCast]
          dsimp only
          by_cases hpow : oldSize &&& (oldSize - 1) = 0
          · rw [if_pos hpow, if_pos ((and_pred_eq_zero_iff hold).mp hpow)]
            exact foldProof_accepts oldRoot newRoot hold hnew oldRoot (first :: rest)
          · rw [if_neg hpow, if_neg (mt (and_pred_eq_zero_iff hold).mpr hpow)]
            exact foldProof_accepts oldRoot newRoot hold hnew first rest

theorem verifyInclusion_agrees (entryHash root : Bytes32) (index batchSize : Uint256)
    (proof : List Bytes32) :
    verifyInclusion entryHash index batchSize proof root
      = verifyMembership (hex entryHash.val) index.toNat batchSize.toNat
          (proof.map fun b => hex b.val) (hex root.val) := by
  rw [verifyInclusion, verifyMembership, fromhex_hex, mapM_fromhex_val]
  have hrange : (batchSize < 1 ∨ index ≥ batchSize) ↔
      ((index.toNat : ℤ) < 0 ∨ (batchSize.toNat : ℤ) < 1 ∨
        (index.toNat : ℤ) ≥ batchSize.toNat) := by
    rw [ge_iff_le, BitVec.lt_def, BitVec.le_def, show (1 : Uint256).toNat = 1 from rfl]
    omega
  by_cases hsize : batchSize < 1 ∨ index ≥ batchSize
  · rw [if_pos hsize, if_pos (hrange.mp hsize)]
  · have hbatch : 1 ≤ batchSize.toNat := by
      have := mt hrange.mpr hsize
      omega
    have hwalk := foldInclusion_eq_walk proof index (batchSize - 1) (leafHash entryHash)
    rw [toNat_sub_one hbatch] at hwalk
    rw [if_neg hsize, if_neg (mt hrange.mpr hsize)]
    dsimp only
    rw [Int.toNat_natCast, Int.toNat_natCast]
    have hleaf : Waxseal.leafHash entryHash.val = (leafHash entryHash).val := rfl
    rw [hleaf, ← hwalk]
    rcases foldInclusion index (batchSize - 1) (leafHash entryHash) proof with - | ⟨node, sn⟩
    · rfl
    · have hzero : (sn == 0) = (sn.toNat == 0) := by
        rw [Bool.eq_iff_iff, beq_iff_eq, beq_iff_eq, sn_eq_zero_iff]
      have hroot : (node == root) = (hex node.val == hex root.val) := by
        rw [Bool.eq_iff_iff, beq_iff_eq, beq_iff_eq, hex_inj, Subtype.val_inj]
      dsimp only [Option.map_some]
      rw [hzero, hroot]

/-- **The contract library and the Python code agree**, on every verdict and on every
tree. -/
theorem agrees_with_python :
    (∀ (oldRoot newRoot : Bytes32) (oldSize newSize : Uint256) (proof : List Bytes32),
      (verifyConsistency oldRoot oldSize newRoot newSize proof).1
        = Waxseal.verifyConsistency (hex oldRoot.val) oldSize.toNat (hex newRoot.val)
            newSize.toNat (proof.map fun b => hex b.val)) ∧
    (∀ (entryHash root : Bytes32) (index batchSize : Uint256) (proof : List Bytes32),
      verifyInclusion entryHash index batchSize proof root
        = verifyMembership (hex entryHash.val) index.toNat batchSize.toNat
            (proof.map fun b => hex b.val) (hex root.val)) ∧
    (∀ leaves : List Bytes32,
      batchRoot (leaves.map fun b => hex b.val) = .ok (hex (treeHash leaves).val)) := by
  refine ⟨verifyConsistency_agrees, verifyInclusion_agrees, fun leaves => ?_⟩
  rw [batchRoot_eq (mapM_fromhex_val leaves), treeHash_val]

/-- **An accepted proof pins the old root**, where nodes are words of 32 bytes. -/
theorem verifyConsistency_pins {oldRoot newRoot : Bytes32} {oldSize newSize : Uint256}
    {proof L : List Bytes32} (hlen : L.length = newSize.toNat) (hroot : newRoot = treeHash L)
    (hcf : CollisionFree (foldInputs oldSize.toNat newSize.toNat
      (consistencyPath oldRoot.val oldSize.toNat (proof.map Subtype.val))
        ++ nodeInputs (L.map Subtype.val)))
    (h : (verifyConsistency oldRoot oldSize newRoot newSize proof).1 = true) :
    oldRoot = treeHash (L.take oldSize.toNat) := by
  have hleaves : (L.map Subtype.val).length = newSize.toNat := by rw [List.length_map, hlen]
  have hinputs : consistencyInputs (hex oldRoot.val) oldSize.toNat (L.map Subtype.val).length
      (proof.map fun b => hex b.val) = foldInputs oldSize.toNat newSize.toNat
        (consistencyPath oldRoot.val oldSize.toNat (proof.map Subtype.val)) := by
    rw [consistencyInputs, fromhex_hex, mapM_fromhex_val, hleaves]
    rfl
  rw [← hinputs] at hcf
  rw [verifyConsistency_agrees, hroot, treeHash_val, ← hleaves, verifyConsistency_iff hcf] at h
  obtain ⟨hm, -, oldHash, path, hold, hpath, hcase⟩ := h
  rw [fromhex_hex, Option.some.injEq] at hold
  rw [mapM_fromhex_val, Option.some.injEq] at hpath
  subst hold hpath
  apply Subtype.ext
  rw [treeHash_val]
  rcases hcase with ⟨hsize, -, hsame⟩ | ⟨hlt, w, hw⟩
  · rw [hsame, List.take_of_length_le]
    rw [List.length_map] at hsize
    omega
  · have hnodes : ∀ b ∈ consistencyPath oldRoot.val oldSize.toNat (proof.map Subtype.val),
        b.length = 32 := by
      have hproof : ∀ b ∈ proof.map Subtype.val, b.length = 32 := by
        intro b hb
        obtain ⟨b, -, rfl⟩ := List.mem_map.mp hb
        exact b.property
      unfold consistencyPath
      split
      · exact List.forall_mem_cons.mpr ⟨oldRoot.property, hproof⟩
      · exact hproof
    obtain rfl := hw.eq_seam hnodes
    rw [Int.toNat_natCast] at hw
    rw [List.map_take, ((recutAt_seam_iff (by omega) (by omega)).mp hw).1]

end Library

end Waxseal.Rfc9162
