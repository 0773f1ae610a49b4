import Mathlib.Data.List.Infix
import Waxseal.Domain.Handoff
import Waxseal.Domain.Membership
import Waxseal.Domain.Pinning

/-!
# Witnesses, and what a checkpoint says of a chain

`domain/witnessing.py` checks the checkpoints a witness holds against the local trail, one
after another.  What one of them says is a matter of prefixes: a checkpoint that holds of a
chain holds of exactly the chains that start like it (`verifyCheckpoint_iff_starts`), and
the checkpoint of a whole chain of exactly its extensions
(`verifyCheckpoint_checkpointFor_iff`).  `statement_holds_iff_prefix` says it of checkpoints,
pins and witnesses.
-/

namespace Waxseal

/-- `WitnessObservation`. -/
structure WitnessObservation where
  checkpoints : List Checkpoint
  unreadable : ℕ := 0

/-- The statuses of a `WitnessVerdict`. -/
inductive WitnessStatus where
  | consistent
  | inconsistent
  | unreachable
  deriving DecidableEq

/-- The reasons of a `WitnessVerdict`. -/
inductive WitnessReason where
  | checkpoint (reason : CheckpointReason)
  | noCheckpointsWitnessed
  | unreachable (reason : PyStr)
  deriving DecidableEq

/-- `WitnessVerdict`. -/
structure WitnessVerdict where
  name : PyStr
  status : WitnessStatus
  checked : ℕ
  reason : Option WitnessReason := none
  brokenSeq : Option ℤ := none
  unreadable : ℕ := 0

/-- `unreachable_witness`. -/
def unreachableWitness (name reason : PyStr) : WitnessVerdict where
  name := name
  status := .unreachable
  checked := 0
  reason := some (.unreachable reason)

variable [Hashlib]

/-- The loop of `check_witnessed`, after `checked` checkpoints. -/
def checkWitnessedLoop (entryHashes : List PyStr) (name : PyStr) (unreadable checked : ℕ) :
    List Checkpoint → WitnessVerdict
  | [] =>
      { name := name
        status := .consistent
        checked := checked
        reason := if checked = 0 then some .noCheckpointsWitnessed else none
        unreadable := unreadable }
  | cp :: checkpoints =>
      match verifyCheckpoint entryHashes cp with
      | some reason =>
          { name := name
            status := .inconsistent
            checked := checked
            reason := some (.checkpoint reason)
            brokenSeq := some cp.seq
            unreadable := unreadable }
      | none => checkWitnessedLoop entryHashes name unreadable (checked + 1) checkpoints

/-- `check_witnessed`. -/
def checkWitnessed (entryHashes : List PyStr) (observation : WitnessObservation)
    (name : PyStr) : WitnessVerdict :=
  checkWitnessedLoop entryHashes name observation.unreadable 0 observation.checkpoints

theorem checkWitnessedLoop_consistent_iff {entryHashes : List PyStr} {name : PyStr}
    {unreadable : ℕ} (checkpoints : List Checkpoint) (checked : ℕ) :
    (checkWitnessedLoop entryHashes name unreadable checked checkpoints).status = .consistent ↔
      ∀ cp ∈ checkpoints, verifyCheckpoint entryHashes cp = none := by
  induction checkpoints generalizing checked with
  | nil => exact ⟨fun _ => List.forall_mem_nil _, fun _ => rfl⟩
  | cons cp checkpoints ih =>
      rw [checkWitnessedLoop, List.forall_mem_cons]
      rcases hcp : verifyCheckpoint entryHashes cp with - | reason
      · rw [← ih (checked + 1)]
        exact ⟨fun h => ⟨rfl, h⟩, fun h => h.2⟩
      · constructor
        · intro h
          cases h
        · rintro ⟨h, -⟩
          cases h

/-- **A witness is consistent with a trail** when all it holds is. -/
theorem checkWitnessed_consistent_iff {entryHashes : List PyStr}
    {observation : WitnessObservation} {name : PyStr} :
    (checkWitnessed entryHashes observation name).status = .consistent ↔
      ∀ cp ∈ observation.checkpoints, verifyCheckpoint entryHashes cp = none :=
  checkWitnessedLoop_consistent_iff _ _

theorem checkPin_eq_none_iff {entryHashes : List PyStr} {pin : Checkpoint} :
    checkPin entryHashes pin = none ↔ verifyCheckpoint entryHashes pin = none :=
  Option.map_eq_none_iff

/-! ## What is hashed, and how it is written -/

/-- Everything the trees over the beginnings of a trail hash. -/
def prefixInputs (hashes : List PyStr) : List Bytes :=
  hashes.inits.flatMap fun hs => ((hs.mapM fromhex).map treeInputs).getD []

theorem treeInputs_subset_prefixInputs {hs hashes : List PyStr} {leaves : List Bytes}
    (h : hs <+: hashes) (hleaves : hs.mapM fromhex = some leaves) :
    treeInputs leaves ⊆ prefixInputs hashes := by
  intro x hx
  refine List.mem_flatMap.mpr ⟨hs, (List.mem_inits _ _).mpr h, ?_⟩
  rw [hleaves]
  exact hx

omit [Hashlib] in
/-- Hex digits in lowercase are what their bytes are written with. -/
theorem map_hex_of_mapM_fromhex {hs : List PyStr} {leaves : List Bytes}
    (hhex : ∀ h ∈ hs, isSha256Hex h = true) (h : hs.mapM fromhex = some leaves) :
    leaves.map hex = hs := by
  induction hs generalizing leaves with
  | nil =>
      rw [mapM_fromhex_nil.mp h]
      rfl
  | cons x hs ih =>
      obtain ⟨b, leaves, hb, hrest, rfl⟩ := mapM_fromhex_cons.mp h
      have hlow := hhex x List.mem_cons_self
      rw [isSha256Hex, Bool.and_eq_true] at hlow
      rw [List.map_cons, hex_of_fromhex hlow.2 hb,
        ih (fun y hy => hhex y (List.mem_cons_of_mem x hy)) hrest]

/-- **The batch root determines the batch**, at one length. -/
theorem batchRoot_inj {hs hs' : List PyStr} {root : PyStr} (hlength : hs.length = hs'.length)
    (hhex : ∀ h ∈ hs, isSha256Hex h = true) (hhex' : ∀ h ∈ hs', isSha256Hex h = true)
    (hcf : CollisionFree (prefixInputs hs ++ prefixInputs hs'))
    (h : batchRoot hs = .ok root) (h' : batchRoot hs' = .ok root) : hs = hs' := by
  rcases hleaves : hs.mapM fromhex with - | leaves
  · rw [batchRoot, hleaves] at h
    cases h
  · rcases hleaves' : hs'.mapM fromhex with - | leaves'
    · rw [batchRoot, hleaves'] at h'
      cases h'
    · rw [batchRoot_eq hleaves] at h
      rw [batchRoot_eq hleaves'] at h'
      have hroot : treeHash leaves = treeHash leaves' :=
        hex_injective (Except.ok.inj (h.trans h'.symm))
      have hsame : leaves = leaves' := by
        refine treeHash_inj ?_ (hcf.mono ?_) hroot
        · rw [← length_of_mapM_fromhex hleaves, ← length_of_mapM_fromhex hleaves', hlength]
        · exact List.append_subset.mpr
            ⟨List.subset_append_of_subset_left _
              (treeInputs_subset_prefixInputs List.prefix_rfl hleaves),
            List.subset_append_of_subset_right _
              (treeInputs_subset_prefixInputs List.prefix_rfl hleaves')⟩
      rw [← map_hex_of_mapM_fromhex hhex hleaves, hsame, map_hex_of_mapM_fromhex hhex' hleaves']

theorem prefixInputs_take_subset (hashes : List PyStr) (k : ℕ) :
    prefixInputs (hashes.take k) ⊆ prefixInputs hashes := by
  intro x hx
  obtain ⟨hs, hmem, hx⟩ := List.mem_flatMap.mp hx
  have hs' : hs <+: hashes := ((List.mem_inits _ _).mp hmem).trans (List.take_prefix _ _)
  exact List.mem_flatMap.mpr ⟨hs, (List.mem_inits _ _).mpr hs', hx⟩

/-! ## Checkpoints and prefixes -/

/-- How many entries a checkpoint is about. -/
def Checkpoint.covered (cp : Checkpoint) : ℕ := cp.seq.toNat + 1

/-- **A checkpoint that holds of a chain** holds of exactly the chains that start with the
entries it covers. -/
theorem verifyCheckpoint_iff_starts {chain chain' : List PyStr} {cp : Checkpoint}
    (hhex : ∀ h ∈ chain, isSha256Hex h = true) (hhex' : ∀ h ∈ chain', isSha256Hex h = true)
    (hcf : CollisionFree (prefixInputs chain ++ prefixInputs chain'))
    (h : verifyCheckpoint chain cp = none) :
    verifyCheckpoint chain' cp = none ↔ chain.take cp.covered <+: chain' := by
  obtain ⟨i, hi, htip, hroot⟩ := verifyCheckpoint_eq_none_iff.mp h
  obtain ⟨hlt, -⟩ := List.getElem?_eq_some_iff.mp htip
  have hcovered : cp.covered = i + 1 := by rw [Checkpoint.covered, hi, Int.toNat_natCast]
  rw [hcovered]
  constructor
  · intro h'
    obtain ⟨i', hi', htip', hroot'⟩ := verifyCheckpoint_eq_none_iff.mp h'
    obtain rfl : i = i' := by omega
    obtain ⟨hlt', -⟩ := List.getElem?_eq_some_iff.mp htip'
    have hlength : (chain.take (i + 1)).length = (chain'.take (i + 1)).length := by
      rw [List.length_take, List.length_take]
      omega
    have hsub : prefixInputs (chain.take (i + 1)) ++ prefixInputs (chain'.take (i + 1))
        ⊆ prefixInputs chain ++ prefixInputs chain' :=
      List.append_subset.mpr
        ⟨List.subset_append_of_subset_left _ (prefixInputs_take_subset _ _),
          List.subset_append_of_subset_right _ (prefixInputs_take_subset _ _)⟩
    rw [batchRoot_inj hlength (fun h hh => hhex h (List.mem_of_mem_take hh))
      (fun h hh => hhex' h (List.mem_of_mem_take hh)) (hcf.mono hsub) hroot hroot']
    exact List.take_prefix _ _
  · rintro ⟨more, rfl⟩
    refine verifyCheckpoint_extends (verifyCheckpoint_eq_none_iff.mpr ⟨i, hi, ?_, ?_⟩)
    · rwa [List.getElem?_take_of_lt (Nat.lt_succ_self i)]
    · rwa [List.take_take, Nat.min_self]

/-- The checkpoint of a chain holds of it. -/
theorem verifyCheckpoint_checkpointFor {chain : List PyStr} {aggCommit : Option PyStr}
    {aggEpoch : Option ℤ} {cp : Checkpoint}
    (h : checkpointFor chain aggCommit aggEpoch none = .ok cp) :
    verifyCheckpoint chain cp = none ∧ cp.covered = chain.length := by
  rw [checkpointFor] at h
  rcases htip : chain.getLast? with - | tip
  · rw [htip] at h
    cases h
  · rw [htip] at h
    obtain ⟨root, hroot, h⟩ := bind_eq_ok_iff.mp h
    split_ifs at h with hboth
    obtain rfl := Except.ok.inj h
    have hpos : 0 < chain.length := by
      refine List.length_pos_iff.mpr ?_
      rintro rfl
      cases htip
    refine ⟨verifyCheckpoint_eq_none_iff.mpr ⟨chain.length - 1, ?_, ?_, ?_⟩, ?_⟩
    · dsimp only
      omega
    · rw [← List.getLast?_eq_getElem?, htip]
    · rwa [Nat.sub_add_cancel hpos, List.take_length]
    · dsimp only [Checkpoint.covered]
      omega

/-- **The checkpoint of a chain holds of exactly its extensions.** -/
theorem verifyCheckpoint_checkpointFor_iff {chain chain' : List PyStr}
    {aggCommit : Option PyStr} {aggEpoch : Option ℤ} {cp : Checkpoint}
    (hhex : ∀ h ∈ chain, isSha256Hex h = true) (hhex' : ∀ h ∈ chain', isSha256Hex h = true)
    (hcf : CollisionFree (prefixInputs chain ++ prefixInputs chain'))
    (h : checkpointFor chain aggCommit aggEpoch none = .ok cp) :
    verifyCheckpoint chain' cp = none ↔ chain <+: chain' := by
  obtain ⟨hholds, hcovered⟩ := verifyCheckpoint_checkpointFor h
  rw [verifyCheckpoint_iff_starts hhex hhex' hcf hholds, hcovered, List.take_length]

/-- A chain of entry hashes has a checkpoint. -/
theorem exists_checkpointFor {chain : List PyStr} (hne : chain ≠ [])
    (hhex : ∀ h ∈ chain, isSha256Hex h = true) {aggCommit : Option PyStr} {aggEpoch : Option ℤ}
    (hboth : aggCommit.isSome = aggEpoch.isSome) :
    ∃ cp, checkpointFor chain aggCommit aggEpoch none = .ok cp := by
  have hsome : ∀ h ∈ chain, (fromhex h).isSome := by
    intro h hh
    have hsha := hhex h hh
    rw [isSha256Hex, Bool.and_eq_true, decide_eq_true_eq] at hsha
    exact isSome_fromhex_of_isLowerHex hsha.2 (by rw [hsha.1])
  obtain ⟨leaves, hleaves⟩ := exists_mapM_fromhex hsome
  have htip := List.getLast?_eq_some_getLast hne
  refine ⟨⟨chain.length - 1, chain.getLast hne, hex (treeHash leaves), aggCommit, aggEpoch, hboth⟩, ?_⟩
  rw [checkpointFor, htip, batchRoot_eq hleaves]
  exact dif_pos hboth

/-- **What a statement about a chain is worth.**  The checkpoint of a chain holds, as a
checkpoint and as a pin, of exactly the extensions of the chain; and every checkpoint, pin or
witness that holds of a chain holds of exactly the chains that start with what it covers. -/
theorem statement_holds_iff_prefix (chain chain' : List PyStr)
    (hhex : ∀ h ∈ chain, isSha256Hex h = true) (hhex' : ∀ h ∈ chain', isSha256Hex h = true)
    (hcf : CollisionFree (prefixInputs chain ++ prefixInputs chain')) :
    (chain ≠ [] → ∀ (aggCommit : Option PyStr) (aggEpoch : Option ℤ),
        aggCommit.isSome = aggEpoch.isSome →
        ∃ cp, checkpointFor chain aggCommit aggEpoch none = .ok cp ∧
          (verifyCheckpoint chain' cp = none ↔ chain <+: chain') ∧
          (checkPin chain' cp = none ↔ chain <+: chain')) ∧
      (∀ cp, verifyCheckpoint chain cp = none →
        (verifyCheckpoint chain' cp = none ↔ chain.take cp.covered <+: chain')) ∧
      (∀ pin, checkPin chain pin = none →
        (checkPin chain' pin = none ↔ chain.take pin.covered <+: chain')) ∧
      ∀ observation name, (checkWitnessed chain observation name).status = .consistent →
        ((checkWitnessed chain' observation name).status = .consistent ↔
          ∀ cp ∈ observation.checkpoints, chain.take cp.covered <+: chain') := by
  have hiff : ∀ cp, verifyCheckpoint chain cp = none →
      (verifyCheckpoint chain' cp = none ↔ chain.take cp.covered <+: chain') :=
    fun cp => verifyCheckpoint_iff_starts hhex hhex' hcf
  refine ⟨?_, hiff, ?_, ?_⟩
  · intro hne aggCommit aggEpoch hboth
    obtain ⟨cp, hcp⟩ := exists_checkpointFor hne hhex hboth
    have hprefix := verifyCheckpoint_checkpointFor_iff hhex hhex' hcf hcp
    exact ⟨cp, hcp, hprefix, checkPin_eq_none_iff.trans hprefix⟩
  · intro pin hpin
    rw [checkPin_eq_none_iff] at hpin ⊢
    exact hiff pin hpin
  · intro observation name hholds
    rw [checkWitnessed_consistent_iff] at hholds ⊢
    exact forall₂_congr fun cp hcp => hiff cp (hholds cp hcp)

omit [Hashlib] in
/-- The checkpoint of the first of two entries holds of both. -/
theorem statement_holds_iff_prefix_two :
    letI := Sha256.hashlib
    ∃ cp, checkpointFor ((twoLeaves.map hex).take 1) none none none = .ok cp ∧
      (verifyCheckpoint (twoLeaves.map hex) cp = none ↔
        (twoLeaves.map hex).take 1 <+: twoLeaves.map hex) ∧
      (checkPin (twoLeaves.map hex) cp = none ↔
        (twoLeaves.map hex).take 1 <+: twoLeaves.map hex) := by
  let _ := Sha256.hashlib
  have h :=
    statement_holds_iff_prefix ((twoLeaves.map hex).take 1) (twoLeaves.map hex)
      (by decide +kernel) (by decide +kernel) (by decide +kernel)
  exact h.1 (by decide) none none rfl

end Waxseal
