import Waxseal.Base.JsonWriting
import Waxseal.Base.SurrogatePairs
import Waxseal.Domain.Export
import Waxseal.Domain.Membership
import Waxseal.Domain.Verify

/-!
# Proof bundles

The other half of `domain/export.py`: a bundle is built from the entries of a trail, checked
offline, and kept as a text.  `bundle_from_json` is in `Waxseal.Domain.Export`.

A bundle that was built from a verified trail passes, and a bundle that passes against the root
of a batch is about the entry at its position (`Passes.entryHash_eq`).  The text of a bundle
reads back as the bundle with the surrogate pairs of its strings joined, if it can be written at
all (`roundTrips_iff`).
-/

namespace Waxseal

open Json Merkle

/-! ## The text of a bundle -/

namespace ProofBundle

/-- `"payload_b64"`: the payload, or `null` where a bundle has none. -/
def payloadB64 (bundle : ProofBundle) : Json :=
  bundle.payload.elim .null fun payload => .str (b64encode payload)

/-- The object `bundle_to_json` writes. -/
def toJson (bundle : ProofBundle) : Json :=
  .obj [(str "bundle_version", .str bundleVersion), (str "header", headerToObj bundle.header),
    (str "entry_hash", .str bundle.entryHash), (str "payload_b64", bundle.payloadB64),
    (str "batch_size", .int bundle.batchSize), (str "proof", .arr (bundle.proof.map .str)),
    (str "root", .str bundle.root)]

end ProofBundle

/-- `bundle_to_json(bundle)`. -/
def bundleToJson [Interpreter] (bundle : ProofBundle) : Except PyErr PyStr :=
  dumpsIndentDigits 2 (sortKeys bundle.toJson)

/-! ## Building and checking -/

/-- The reasons of a `BundleResult`. -/
inductive BundleReason where
  | malformedBundle
  | entryHashMismatch
  | payloadHashMismatch
  | membershipNotProven
  deriving DecidableEq

/-- `BundleResult`. -/
structure BundleResult where
  ok : Bool
  reason : Option BundleReason
  unverifiable : Bool
  deriving DecidableEq

section

variable [Hashlib]

/-- `build_proof_bundle(entries, seq)`. -/
def buildProofBundle (entries : List Entry) (seq : ℤ) : Except PyErr ProofBundle :=
  if 0 ≤ seq ∧ seq < entries.length then
    match entries[seq.toNat]? with
    | none => .error .indexError
    | some entry => do
        let hashes := entries.map Entry.entryHash
        return {
          header := entry.header
          entryHash := entry.entryHash
          payload := entry.payload
          batchSize := hashes.length
          proof := ← membershipProof hashes seq
          root := ← batchRoot hashes }
  else .error .indexError

/-- The end of `verify_proof_bundle`: membership, once the entry itself has passed. -/
def ProofBundle.membershipResult (bundle : ProofBundle) (unverifiable : Bool) : BundleResult :=
  if verifyMembership bundle.entryHash bundle.header.seq bundle.batchSize bundle.proof bundle.root
  then { ok := true, reason := none, unverifiable }
  else { ok := false, reason := some .membershipNotProven, unverifiable }

/-- `verify_proof_bundle(bundle, registry)`. -/
def verifyProofBundle (bundle : ProofBundle) (registry : VersionRegistry) :
    Except PyErr BundleResult :=
  let rejected (reason : BundleReason) : BundleResult :=
    { ok := false, reason := some reason, unverifiable := false }
  let seq := bundle.header.seq
  if bundle.batchSize < 1 ∨ ¬ (0 ≤ seq ∧ seq < bundle.batchSize) then .ok (rejected .malformedBundle)
  else if ¬ isSha256Hex bundle.entryHash ∨ ¬ isSha256Hex bundle.root then
    .ok (rejected .malformedBundle)
  else
    match registry.encoderFor bundle.header.hashVersion with
    | none => .ok (bundle.membershipResult true)
    | some encoder =>
        match computeEntryHash encoder bundle.header with
        -- a header with no UTF-8 form can never reproduce the stored hash
        | .error .lpEncodingError => .ok (rejected .entryHashMismatch)
        | .error e => .error e
        | .ok recomputed =>
            if recomputed ≠ bundle.entryHash then .ok (rejected .entryHashMismatch)
            else if ∃ payload ∈ bundle.payload,
                computePayloadHash payload ≠ bundle.header.payloadHash then
              .ok (rejected .payloadHashMismatch)
            else .ok (bundle.membershipResult false)

/-! ## What passes -/

/-- The entry of a bundle is what it says it is: its header hashes to the entry hash, and its
payload, if it has one, to the payload hash of the header. -/
def ProofBundle.SelfConsistent (bundle : ProofBundle) : Prop :=
  computeEntryHash headerFrame bundle.header = .ok bundle.entryHash ∧
    ∀ payload ∈ bundle.payload, computePayloadHash payload = bundle.header.payloadHash

/-- What a bundle has passed when `verify_proof_bundle` answers `ok` for it. -/
structure Passes (bundle : ProofBundle) (registry : VersionRegistry) : Prop where
  inBatch : 0 ≤ bundle.header.seq ∧ bundle.header.seq < bundle.batchSize
  entryHash : isSha256Hex bundle.entryHash = true
  root : isSha256Hex bundle.root = true
  entry : registry.recomputable bundle.header.hashVersion = true → bundle.SelfConsistent
  member : verifyMembership bundle.entryHash bundle.header.seq bundle.batchSize bundle.proof
    bundle.root = true

theorem membershipResult_ok_iff {bundle : ProofBundle} {unverifiable : Bool}
    {result : BundleResult} :
    (bundle.membershipResult unverifiable = result ∧ result.ok = true) ↔
      verifyMembership bundle.entryHash bundle.header.seq bundle.batchSize bundle.proof
        bundle.root = true ∧ result = ⟨true, none, unverifiable⟩ := by
  unfold ProofBundle.membershipResult
  split_ifs with hmember
  · refine ⟨fun h => ⟨hmember, h.1.symm⟩, fun h => ⟨h.2.symm, ?_⟩⟩
    rw [h.2]
  · refine ⟨?_, fun h => absurd h.1 hmember⟩
    rintro ⟨rfl, hok⟩
    cases hok

variable {bundle : ProofBundle} {registry : VersionRegistry} {result : BundleResult}

/-- The entry of a bundle is recomputed under the released frame, or not at all. -/
theorem verifyProofBundle_recompute
    (hrecompute : registry.recomputable bundle.header.hashVersion = true)
    (hbatch : 0 ≤ bundle.header.seq ∧ bundle.header.seq < bundle.batchSize)
    (hhash : isSha256Hex bundle.entryHash = true) (hroot : isSha256Hex bundle.root = true) :
    (verifyProofBundle bundle registry = .ok result ∧ result.ok = true) ↔
      bundle.SelfConsistent ∧ bundle.membershipResult false = result ∧ result.ok = true := by
  obtain ⟨encoder, hencoder⟩ := Option.isSome_iff_exists.mp hrecompute
  obtain rfl := VersionRegistry.eq_headerFrame_of_encoderFor hencoder
  rw [verifyProofBundle, if_neg (by omega), if_neg (by simp [hhash, hroot])]
  simp only [hencoder]
  unfold ProofBundle.SelfConsistent
  cases hcompute : computeEntryHash headerFrame bundle.header with
  | error e =>
      constructor
      · rintro ⟨h, hok⟩
        cases e <;> cases h
        cases hok
      · rintro ⟨⟨h, -⟩, -⟩
        cases h
  | ok recomputed =>
      dsimp only
      by_cases hsame : recomputed = bundle.entryHash
      · by_cases hpayload : ∃ payload ∈ bundle.payload,
          computePayloadHash payload ≠ bundle.header.payloadHash
        · rw [if_neg (not_not.mpr hsame), if_pos hpayload]
          obtain ⟨payload, hmem, hne⟩ := hpayload
          refine ⟨?_, fun h => absurd (h.1.2 payload hmem) hne⟩
          rintro ⟨h, hok⟩
          cases h
          cases hok
        · rw [if_neg (not_not.mpr hsame), if_neg hpayload]
          push Not at hpayload
          rw [hsame, Except.ok.injEq]
          exact ⟨fun h => ⟨⟨rfl, hpayload⟩, h⟩, fun h => h.2⟩
      · rw [if_pos hsame]
        refine ⟨?_, fun h => absurd (Except.ok.inj h.1.1) hsame⟩
        rintro ⟨h, hok⟩
        cases h
        cases hok

/-- **When a bundle passes**, and what the answer says besides. -/
theorem verifyProofBundle_ok_iff :
    (verifyProofBundle bundle registry = .ok result ∧ result.ok = true) ↔
      Passes bundle registry ∧
        result = ⟨true, none, !registry.recomputable bundle.header.hashVersion⟩ := by
  by_cases hwell : (0 ≤ bundle.header.seq ∧ bundle.header.seq < bundle.batchSize) ∧
      isSha256Hex bundle.entryHash = true ∧ isSha256Hex bundle.root = true
  · obtain ⟨hbatch, hhash, hroot⟩ := hwell
    cases hrecompute : registry.recomputable bundle.header.hashVersion with
    | true =>
        rw [verifyProofBundle_recompute hrecompute hbatch hhash hroot, membershipResult_ok_iff]
        constructor
        · rintro ⟨hentry, hmember, hresult⟩
          exact ⟨⟨hbatch, hhash, hroot, fun _ => hentry, hmember⟩, hresult⟩
        · rintro ⟨h, hresult⟩
          exact ⟨h.entry hrecompute, h.member, hresult⟩
    | false =>
        have hencoder : registry.encoderFor bundle.header.hashVersion = none :=
          Option.isSome_eq_false_iff.mp hrecompute |> Option.isNone_iff_eq_none.mp
        have hverify : verifyProofBundle bundle registry = .ok (bundle.membershipResult true) := by
          rw [verifyProofBundle, if_neg (by omega), if_neg (by simp [hhash, hroot])]
          simp only [hencoder]
        rw [hverify, Except.ok.injEq, membershipResult_ok_iff]
        constructor
        · rintro ⟨hmember, hresult⟩
          refine ⟨⟨hbatch, hhash, hroot, fun h => ?_, hmember⟩, hresult⟩
          rw [hrecompute] at h
          cases h
        · rintro ⟨h, hresult⟩
          exact ⟨h.member, hresult⟩
  · -- A malformed bundle is turned away before anything is recomputed.
    have hverify : verifyProofBundle bundle registry = .ok ⟨false, some .malformedBundle, false⟩ := by
      rw [verifyProofBundle]
      by_cases hbatch : 0 ≤ bundle.header.seq ∧ bundle.header.seq < bundle.batchSize
      · have hhex : ¬ (isSha256Hex bundle.entryHash = true ∧ isSha256Hex bundle.root = true) :=
          fun hhex => hwell ⟨hbatch, hhex⟩
        rw [if_neg (by omega), if_pos (not_and_or.mp hhex)]
      · exact if_pos (.inr hbatch)
    constructor
    · rintro ⟨h, hok⟩
      obtain rfl := Except.ok.inj (hverify.symm.trans h)
      cases hok
    · rintro ⟨h, -⟩
      exact absurd ⟨h.inBatch, h.entryHash, h.root⟩ hwell

/-! ## A bundle of a verified trail -/

/-- A row of a list that was accepted is at its position, and was recomputed where it could be. -/
theorem verifyLoop_row {entries : List Entry} {n : ℕ} {prev : PyStr} {checked : ℕ}
    {unverifiable : List ℤ} {r : VerifyResult}
    (h : verifyLoop registry n prev checked unverifiable entries = .ok r) (hok : r.ok = true)
    {i : ℕ} {entry : Entry} (hi : entries[i]? = some entry) :
    entry.header.seq = (n + i : ℕ) ∧
      (registry.recomputable entry.header.hashVersion = true →
        computeEntryHash headerFrame entry.header = .ok entry.entryHash ∧
          ∀ payload ∈ entry.payload, computePayloadHash payload = entry.header.payloadHash) := by
  induction entries generalizing n prev checked unverifiable i with
  | nil => cases hi
  | cons first entries ih =>
      rw [verifyLoop] at h
      cases hrow : verifyRow registry n prev first with
      | error e =>
          rw [hrow] at h
          cases h
      | ok outcome =>
          rw [hrow] at h
          cases outcome with
          | broken reason =>
              obtain rfl := Except.ok.inj h
              cases hok
          | unverifiable =>
              cases i with
              | zero =>
                  obtain rfl := Option.some.inj hi
                  obtain ⟨⟨hseq, -⟩, hnone⟩ := verifyRow_eq_unverifiable_iff.mp hrow
                  refine ⟨hseq, fun hrecompute => ?_⟩
                  rw [VersionRegistry.recomputable, hnone] at hrecompute
                  cases hrecompute
              | succ i =>
                  obtain ⟨hseq, hentry⟩ := ih h hi
                  exact ⟨by omega, hentry⟩
          | checked =>
              cases i with
              | zero =>
                  obtain rfl := Option.some.inj hi
                  have hchecked := verifyRow_eq_checked_iff.mp hrow
                  exact ⟨hchecked.seq, fun _ => ⟨hchecked.hash, hchecked.payload⟩⟩
              | succ i =>
                  obtain ⟨hseq, hentry⟩ := ih h hi
                  exact ⟨by omega, hentry⟩

omit [Hashlib] in
theorem exists_leaves {hashes : List PyStr} (h : ∀ hash ∈ hashes, isSha256Hex hash = true) :
    ∃ leaves, hashes.mapM fromhex = some leaves := by
  refine exists_mapM_fromhex fun hash hmem => ?_
  obtain ⟨hlength, hlower⟩ := Bool.and_eq_true_iff.mp (h hash hmem)
  exact isSome_fromhex_of_isLowerHex hlower (by rw [of_decide_eq_true hlength])

theorem length_treeHash (leaves : List Bytes) : (treeHash leaves).length = 32 := by
  rcases leaves with - | ⟨leaf, - | ⟨second, rest⟩⟩
  · rw [treeHash]
    exact (sha256 []).length_val
  · rw [treeHash]
    exact length_leafHash leaf
  · rw [treeHash]
    exact length_pairHash _ _

/-- The bundle of an entry of a batch. -/
def bundleOf (entry : Entry) (leaves : List Bytes) (i : ℕ) : ProofBundle where
  header := entry.header
  entryHash := entry.entryHash
  payload := entry.payload
  batchSize := leaves.length
  proof := (auditPath i leaves).map hex
  root := hex (treeHash leaves)

theorem buildProofBundle_eq {entries : List Entry} {leaves : List Bytes}
    (hleaves : (entries.map Entry.entryHash).mapM fromhex = some leaves) {i : ℕ} {entry : Entry}
    (hi : entries[i]? = some entry) :
    buildProofBundle entries i = .ok (bundleOf entry leaves i) := by
  obtain ⟨hlt, -⟩ := List.getElem?_eq_some_iff.mp hi
  have hlength := length_of_mapM_fromhex hleaves
  rw [List.length_map] at hlength
  have hproof : membershipProof (entries.map Entry.entryHash) i =
      .ok ((auditPath i leaves).map hex) := by
    rw [membershipProof, List.length_map, if_pos (by omega), hleaves, Int.toNat_natCast]
  rw [buildProofBundle, if_pos (by omega), Int.toNat_natCast, hi]
  simp only [hproof, batchRoot_eq hleaves, bind, Except.bind, pure, Except.pure, bundleOf,
    List.length_map, hlength]

/-- **A bundle of a verified trail passes.** -/
theorem buildProofBundle_passes {entries : List Entry} {r : VerifyResult}
    (hhex : ∀ entry ∈ entries, isSha256Hex entry.entryHash = true)
    (hverify : verifyChain entries registry = .ok r) (hok : r.ok = true) {entry : Entry}
    (hmem : entry ∈ entries) :
    ∃ bundle, buildProofBundle entries entry.header.seq = .ok bundle ∧
      bundle.header = entry.header ∧ Passes bundle registry := by
  obtain ⟨leaves, hleaves⟩ := exists_leaves (List.forall_mem_map.mpr hhex)
  have hlength := length_of_mapM_fromhex hleaves
  rw [List.length_map] at hlength
  obtain ⟨i, hlt, hi⟩ := List.getElem_of_mem hmem
  have hi : entries[i]? = some entry := hi ▸ List.getElem?_eq_getElem hlt
  obtain ⟨hseq, hentry⟩ := verifyLoop_row hverify hok hi
  rw [zero_add] at hseq
  refine ⟨bundleOf entry leaves i, hseq ▸ buildProofBundle_eq hleaves hi, rfl, ?_⟩
  have hleaf : fromhex entry.entryHash = some (leaves.get ⟨i, by omega⟩) := by
    have hfrom := fromhex_getElem hleaves (show i < (entries.map Entry.entryHash).length by
      rw [List.length_map]
      exact hlt)
    obtain ⟨hlt', hget⟩ := List.getElem?_eq_some_iff.mp hi
    rw [List.getElem_map, hget] at hfrom
    exact hfrom
  exact
    { inBatch := by
        rw [show (bundleOf entry leaves i).header.seq = i from hseq]
        exact ⟨by omega, Int.ofNat_lt.mpr (by omega)⟩
      entryHash := hhex entry hmem
      root := by
        rw [show (bundleOf entry leaves i).root = hex (treeHash leaves) from rfl, isSha256Hex,
          length_hex, length_treeHash, isLowerHex_hex]
        rfl
      entry := hentry
      member := by
        rw [show (bundleOf entry leaves i).header.seq = i from hseq]
        refine verifyMembership_eq_true.mpr ⟨by omega, Int.ofNat_lt.mpr (by omega), _, _, hleaf,
          mapM_fromhex_hex _, ?_⟩
        exact membershipWalk_auditPath (by omega) }

/-! ## What a bundle that passes is about -/

/-- **A bundle that passes against the root of a batch is about the entry at its position.** -/
theorem Passes.entryHash_eq (h : Passes bundle registry) {hashes : List PyStr}
    {leaves : List Bytes} (hleaves : hashes.mapM fromhex = some leaves)
    (hhex : ∀ hash ∈ hashes, isSha256Hex hash = true) (hroot : batchRoot hashes = .ok bundle.root)
    (hsize : bundle.batchSize = hashes.length)
    (hcf : CollisionFree (membershipInputs bundle.entryHash bundle.header.seq bundle.batchSize
      bundle.proof ++ treeInputs leaves)) :
    ∃ i : ℕ, bundle.header.seq = i ∧ hashes[i]? = some bundle.entryHash := by
  have hmember := h.member
  have hlength := length_of_mapM_fromhex hleaves
  rw [batchRoot_eq hleaves, Except.ok.injEq] at hroot
  rw [hsize, hlength] at hcf hmember
  rw [← hroot] at hmember
  obtain ⟨i, leaf, hseq, hi, hleaf, -⟩ := (verifyMembership_iff hcf).mp hmember
  obtain ⟨hlt, rfl⟩ := List.getElem?_eq_some_iff.mp hi
  have hi' : i < hashes.length := hlength ▸ hlt
  refine ⟨i, hseq, ?_⟩
  -- Both spellings are in lowercase, so equal bytes are equal strings.
  have hsame : hex leaves[i] = hashes[i] :=
    hex_of_fromhex (Bool.and_eq_true_iff.mp (hhex _ (List.getElem_mem hi'))).2
      (fromhex_getElem hleaves hi')
  rw [List.getElem?_eq_getElem hi', ← hsame,
    hex_of_fromhex (Bool.and_eq_true_iff.mp h.entryHash).2 hleaf]

end

/-! ## What is written is read back -/

namespace ProofBundle

/-- The members of a written bundle, in the order of their keys. -/
def members (bundle : ProofBundle) : List (PyStr × Json) :=
  [(str "batch_size", .int bundle.batchSize), (str "bundle_version", .str bundleVersion),
    (str "entry_hash", .str bundle.entryHash),
    (str "header", .obj [(str "hash_version", .str bundle.header.hashVersion),
      (str "payload_hash", .str bundle.header.payloadHash),
      (str "payload_type", .str bundle.header.payloadType),
      (str "prev_hash", .str bundle.header.prevHash), (str "seq", .int bundle.header.seq),
      (str "ts", .str bundle.header.ts)]),
    (str "payload_b64", bundle.payloadB64), (str "proof", .arr (bundle.proof.map .str)),
    (str "root", .str bundle.root)]

theorem sortItems_strs (ss : List PyStr) : sortItems (ss.map .str) = ss.map .str := by
  induction ss with
  | nil => rfl
  | cons s ss ih => exact congrArg (Json.str s :: ·) ih

theorem sortKeys_toJson (bundle : ProofBundle) : sortKeys bundle.toJson = .obj bundle.members := by
  obtain ⟨header, entryHash, - | payload, batchSize, proof, root⟩ := bundle
  · rw [members, ← sortItems_strs]
    rfl
  · rw [members, ← sortItems_strs]
    rfl

/-- The bundle with the surrogate pairs of its strings joined. -/
def joined (bundle : ProofBundle) : ProofBundle :=
  { bundle with
    header := {
      seq := bundle.header.seq
      ts := joinPairs bundle.header.ts
      hashVersion := joinPairs bundle.header.hashVersion
      payloadType := joinPairs bundle.header.payloadType
      payloadHash := joinPairs bundle.header.payloadHash
      prevHash := joinPairs bundle.header.prevHash }
    entryHash := joinPairs bundle.entryHash
    proof := bundle.proof.map joinPairs
    root := joinPairs bundle.root }

theorem decodePayload_payloadB64 (bundle : ProofBundle) :
    decodePayload bundle.payloadB64 = .ok bundle.payload := by
  obtain ⟨header, entryHash, - | payload, batchSize, proof, root⟩ := bundle
  · rfl
  · rw [payloadB64, Option.elim_some, decodePayload, b64decodeValidate_b64encode]

theorem requireProof_strs (proof : List PyStr) :
    requireProof (.arr (proof.map .str)) = .ok proof := by
  have hitems : (proof.map Json.str).mapM requireProofHash = .ok proof := by
    induction proof with
    | nil => rfl
    | cons s proof ih =>
        rw [List.map_cons, List.mapM_cons, ih]
        rfl
  exact hitems

/-- A joined bundle can be written: it is two containers deep. -/
theorem writable_joined (bundle : ProofBundle) : Writable 2 (.obj bundle.joined.members) := by
  have hpayload : Writable 1 bundle.joined.payloadB64 := by
    obtain ⟨header, entryHash, - | payload, batchSize, proof, root⟩ := bundle
    · trivial
    · exact noSurrogatePair_of_printable (b64encode_val payload)
  have hproof : Writable 1 (.arr (bundle.joined.proof.map .str)) := by
    refine List.forall_mem_map.mpr fun s hs => ?_
    obtain ⟨s, -, rfl⟩ := List.mem_map.mp hs
    exact noSurrogatePair_joinPairs s
  have hheader : Writable 1 (.obj [(str "hash_version", .str bundle.joined.header.hashVersion),
      (str "payload_hash", .str bundle.joined.header.payloadHash),
      (str "payload_type", .str bundle.joined.header.payloadType),
      (str "prev_hash", .str bundle.joined.header.prevHash),
      (str "seq", .int bundle.joined.header.seq), (str "ts", .str bundle.joined.header.ts)]) := by
    refine @writable_obj 0 [str "hash_version", str "payload_hash", str "payload_type",
      str "prev_hash", str "seq", str "ts"] _ (by decide +kernel) (by decide +kernel) (.refl _) ?_
    simp only [List.forall_mem_cons]
    exact ⟨noSurrogatePair_joinPairs _, noSurrogatePair_joinPairs _, noSurrogatePair_joinPairs _,
      noSurrogatePair_joinPairs _, trivial, noSurrogatePair_joinPairs _, List.forall_mem_nil _⟩
  refine @writable_obj 1 [str "batch_size", str "bundle_version", str "entry_hash", str "header",
    str "payload_b64", str "proof", str "root"] _ (by decide +kernel) (by decide +kernel) (.refl _) ?_
  simp only [members, List.forall_mem_cons]
  exact ⟨trivial, noSurrogatePair_str (by decide +kernel), noSurrogatePair_joinPairs _, hheader,
    hpayload, hproof, noSurrogatePair_joinPairs _, List.forall_mem_nil _⟩

variable [Interpreter]

theorem dumpsIndentItems_joined (level : ℕ) (ss : List PyStr) :
    dumpsIndentItems 2 level ((ss.map joinPairs).map .str) = dumpsIndentItems 2 level (ss.map .str) := by
  induction ss with
  | nil => rfl
  | cons s ss ih =>
      simp only [List.map_cons, dumpsIndentItems, dumpsIndent, dumps, dumpsStr_joinPairs, ih]

/-- A list of strings is written as the list of the joined ones. -/
theorem dumpsIndent_joined (level : ℕ) (ss : List PyStr) :
    dumpsIndent 2 level (.arr ((ss.map joinPairs).map .str)) =
      dumpsIndent 2 level (.arr (ss.map .str)) := by
  cases ss with
  | nil => rfl
  | cons s ss =>
      simp only [List.map_cons, dumpsIndent, dumps, dumpsStr_joinPairs, dumpsIndentItems_joined]

/-- The joined bundle is written the same way. -/
theorem dumpsIndent_members_joined (bundle : ProofBundle) :
    dumpsIndent 2 0 (.obj bundle.joined.members) = dumpsIndent 2 0 (.obj bundle.members) := by
  simp only [members, dumpsIndent, dumpsIndentMembers, joined, dumps, dumpsStr_joinPairs,
    dumpsIndent_joined, payloadB64]

/-- The fields of a bundle are read back from its members. -/
theorem ofMembers_members (bundle : ProofBundle) : ofMembers bundle.members = .ok bundle := by
  have hproof : requireProof (fieldOf bundle.members (str "proof")) = .ok bundle.proof :=
    requireProof_strs bundle.proof
  have hpayload : decodePayload (fieldOf bundle.members (str "payload_b64")) = .ok bundle.payload :=
    decodePayload_payloadB64 bundle
  have hheader : headerFromObj (fieldOf bundle.members (str "header")) = .ok bundle.header := rfl
  have hbatch : requireBatchSize (fieldOf bundle.members (str "batch_size")) = .ok bundle.batchSize :=
    rfl
  have hversion : requireVersion (fieldOf bundle.members (str "bundle_version")) = .ok () := rfl
  have hfields : requireFields bundle.members = .ok () := rfl
  simp only [ofMembers, hversion, hfields, hproof, hbatch, hheader, hpayload, bind, Except.bind, pure, Except.pure]
  rfl

/-- The integers of a bundle. -/
theorem intsFit_members (bundle : ProofBundle) : intsFit (.obj bundle.members) = true ↔
    intFits bundle.batchSize = true ∧ intFits bundle.header.seq = true := by
  obtain ⟨header, entryHash, - | payload, batchSize, proof, root⟩ := bundle <;>
    simp [members, payloadB64, intsFit, intsFitItems_iff, intsFitMembers_iff]

/-- What is written is read back with its surrogate pairs joined. -/
theorem fromJson_toJson {bundle : ProofBundle} (hfit : intsFit (.obj bundle.members) = true) :
    bundleToJson bundle = .ok (dumpsIndent 2 0 (.obj bundle.members)) ∧
      bundleFromJson (dumpsIndent 2 0 (.obj bundle.members)) = .ok bundle.joined := by
  have hwritable : Writable recursionLimit (.obj bundle.joined.members) :=
    (writable_joined bundle).mono (le_trans (by decide) Interpreter.recursionLimit_large)
  have hjoined : intsFit (.obj bundle.joined.members) = true := by
    rw [intsFit_members] at hfit ⊢
    exact hfit
  constructor
  · rw [bundleToJson, sortKeys_toJson]
    exact if_pos hfit
  · have hloads : loadsBundle (dumpsIndent 2 0 (.obj bundle.members)) =
        .ok (.obj bundle.joined.members) := by
      rw [loadsBundle_eq_ok, ← dumpsIndent_members_joined]
      exact loadsTextDigits_dumpsIndent hwritable hjoined
    rw [bundleFromJson, hloads]
    exact ofMembers_members bundle.joined

/-- A bundle whose strings hold no surrogate pair and whose integers are not too long. -/
structure Plain (bundle : ProofBundle) : Prop where
  ts : NoSurrogatePair bundle.header.ts
  hashVersion : NoSurrogatePair bundle.header.hashVersion
  payloadType : NoSurrogatePair bundle.header.payloadType
  payloadHash : NoSurrogatePair bundle.header.payloadHash
  prevHash : NoSurrogatePair bundle.header.prevHash
  entryHash : NoSurrogatePair bundle.entryHash
  proof : ∀ s ∈ bundle.proof, NoSurrogatePair s
  root : NoSurrogatePair bundle.root
  seq : intFits bundle.header.seq = true
  batchSize : intFits bundle.batchSize = true

/-- The bundle comes back from the text it is written as. -/
def RoundTrips (bundle : ProofBundle) : Prop :=
  ∃ text, bundleToJson bundle = .ok text ∧ bundleFromJson text = .ok bundle

omit [Interpreter] in
/-- Joining changes nothing just where there is no pair. -/
theorem joined_eq_self_iff {bundle : ProofBundle} : bundle.joined = bundle ↔
    (NoSurrogatePair bundle.header.ts ∧ NoSurrogatePair bundle.header.hashVersion ∧
      NoSurrogatePair bundle.header.payloadType ∧ NoSurrogatePair bundle.header.payloadHash ∧
      NoSurrogatePair bundle.header.prevHash) ∧ NoSurrogatePair bundle.entryHash ∧
      (∀ s ∈ bundle.proof, NoSurrogatePair s) ∧ NoSurrogatePair bundle.root := by
  obtain ⟨⟨seq, ts, hashVersion, payloadType, payloadHash, prevHash⟩, entryHash, payload, batchSize,
    proof, root⟩ := bundle
  have hproof : proof.map joinPairs = proof ↔ ∀ s ∈ proof, NoSurrogatePair s := by
    refine Iff.trans ?_ (forall₂_congr fun s _ => joinPairs_eq_self_iff)
    have hmap := @List.map_inj_left _ _ proof joinPairs id
    rwa [List.map_id] at hmap
  simp only [joined, ProofBundle.mk.injEq, EntryHeader.mk.injEq, joinPairs_eq_self_iff, hproof,
    true_and]

/-- **When a bundle round-trips.** -/
theorem roundTrips_iff {bundle : ProofBundle} : bundle.RoundTrips ↔ bundle.Plain := by
  constructor
  · rintro ⟨text, hwrite, hread⟩
    have hfit : intsFit (.obj bundle.members) = true := by
      by_contra hlong
      rw [bundleToJson, sortKeys_toJson, dumpsIndentDigits, if_neg hlong] at hwrite
      cases hwrite
    obtain ⟨hwrite', hjoined⟩ := fromJson_toJson hfit
    obtain rfl := Except.ok.inj (hwrite.symm.trans hwrite')
    have hsame := Except.ok.inj (hjoined.symm.trans hread)
    obtain ⟨⟨hts, hversion, htype, hpayload, hprev⟩, hhash, hproof, hroot⟩ :=
      joined_eq_self_iff.mp hsame
    obtain ⟨hbatch, hseq⟩ := (intsFit_members bundle).mp hfit
    exact ⟨hts, hversion, htype, hpayload, hprev, hhash, hproof, hroot, hseq, hbatch⟩
  · intro h
    obtain ⟨hwrite, hread⟩ := fromJson_toJson ((intsFit_members bundle).mpr ⟨h.batchSize, h.seq⟩)
    have hsame : bundle.joined = bundle := joined_eq_self_iff.mpr
      ⟨⟨h.ts, h.hashVersion, h.payloadType, h.payloadHash, h.prevHash⟩, h.entryHash, h.proof, h.root⟩
    exact ⟨_, hwrite, hread.trans (congrArg _ hsame)⟩

end ProofBundle

section

variable [Interpreter] [Hashlib]

/-- **Proof bundles.**  Which of them round-trip; every entry of a verified trail has a bundle
that passes; and a bundle that passes against the root of a batch carries the entry hash at its
position and, where its entry could be recomputed, the header and the payload of that hash. -/
theorem bundles_faithful :
    (∀ bundle : ProofBundle, bundle.RoundTrips ↔ bundle.Plain) ∧
    (∀ (registry : VersionRegistry) (entries : List Entry) (r : VerifyResult),
      (∀ entry ∈ entries, isSha256Hex entry.entryHash = true) →
      verifyChain entries registry = .ok r → r.ok = true →
      ∀ entry ∈ entries, ∃ bundle result, buildProofBundle entries entry.header.seq = .ok bundle ∧
        bundle.header = entry.header ∧ verifyProofBundle bundle registry = .ok result ∧
        result.ok = true) ∧
    ∀ (registry : VersionRegistry) (bundle : ProofBundle) (result : BundleResult)
      (hashes : List PyStr) (leaves : List Bytes),
      (∀ hash ∈ hashes, isSha256Hex hash = true) → hashes.mapM fromhex = some leaves →
      batchRoot hashes = .ok bundle.root → bundle.batchSize = hashes.length →
      CollisionFree (membershipInputs bundle.entryHash bundle.header.seq bundle.batchSize
        bundle.proof ++ treeInputs leaves) →
      verifyProofBundle bundle registry = .ok result → result.ok = true →
      (∃ i : ℕ, bundle.header.seq = i ∧ hashes[i]? = some bundle.entryHash) ∧
        (result.unverifiable = false → bundle.SelfConsistent) := by
  refine ⟨fun bundle => ProofBundle.roundTrips_iff, ?_, ?_⟩
  · intro registry entries r hhex hverify hok entry hmem
    obtain ⟨bundle, hbuild, hheader, hpasses⟩ := buildProofBundle_passes hhex hverify hok hmem
    obtain ⟨hresult, hresultOk⟩ := verifyProofBundle_ok_iff.mpr ⟨hpasses, rfl⟩
    exact ⟨bundle, _, hbuild, hheader, hresult, hresultOk⟩
  · intro registry bundle result hashes leaves hhex hleaves hroot hsize hcf hverify hok
    obtain ⟨hpasses, hresult⟩ := verifyProofBundle_ok_iff.mp ⟨hverify, hok⟩
    refine ⟨hpasses.entryHash_eq hleaves hhex hroot hsize hcf, fun hverifiable => ?_⟩
    rw [hresult, Bool.not_eq_false'] at hverifiable
    exact hpasses.entry hverifiable

end

/-- The bundle of a trail of one entry. -/
def oneRowBundle : ProofBundle :=
  letI := Sha256.hashlib
  let row := tamperEvidentRow (some [1, 2])
  bundleOf row [(fromhex row.entryHash).getD []] 0

theorem bundles_faithful_row :
    letI := Interpreter.plain
    letI := Sha256.hashlib
    (∃ bundle result, buildProofBundle [tamperEvidentRow (some [1, 2])]
        (tamperEvidentRow (some [1, 2])).header.seq = .ok bundle ∧
      bundle.header = (tamperEvidentRow (some [1, 2])).header ∧
      verifyProofBundle bundle .new = .ok result ∧ result.ok = true) ∧
    ((∃ i : ℕ, oneRowBundle.header.seq = i ∧
      [(tamperEvidentRow (some [1, 2])).entryHash][i]? = some oneRowBundle.entryHash) ∧
        oneRowBundle.SelfConsistent) := by
  let _ := Interpreter.plain
  let _ := Sha256.hashlib
  have hverify : verifyChain [tamperEvidentRow (some [1, 2])] .new =
      .ok ⟨true, 1, none, none, [], none, none⟩ := by decide +kernel
  have hhex : isSha256Hex (tamperEvidentRow (some [1, 2])).entryHash = true := by decide +kernel
  constructor
  · exact bundles_faithful.2.1 .new [tamperEvidentRow (some [1, 2])]
      ⟨true, 1, none, none, [], none, none⟩ (List.forall_mem_singleton.mpr hhex) hverify rfl
      (tamperEvidentRow (some [1, 2])) (List.mem_singleton_self _)
  · obtain ⟨hentry, hself⟩ := bundles_faithful.2.2 .new oneRowBundle ⟨true, none, false⟩
      [(tamperEvidentRow (some [1, 2])).entryHash]
      [(fromhex (tamperEvidentRow (some [1, 2])).entryHash).getD []]
      (List.forall_mem_singleton.mpr hhex) (by decide +kernel) (by decide +kernel)
      (by decide +kernel) (by decide +kernel) (by decide +kernel) rfl
    exact ⟨hentry, hself rfl⟩

/-- A bundle whose entry type holds the two halves of a surrogate pair. -/
def pairedBundle : ProofBundle where
  header := {
    seq := 0
    ts := []
    hashVersion := []
    payloadType := [0xD83D, 0xDE00]
    payloadHash := []
    prevHash := [] }
  entryHash := []
  payload := none
  batchSize := 1
  proof := []
  root := []

/-- A bundle is read back with the pair joined. -/
theorem bundles_faithful_paired :
    letI := Interpreter.plain
    ¬ pairedBundle.RoundTrips := by
  let _ := Interpreter.plain
  intro h
  have hpair := (ProofBundle.roundTrips_iff.mp h).payloadType
  exact (List.isChain_cons_cons.mp hpair).1 (by decide)

end Waxseal
