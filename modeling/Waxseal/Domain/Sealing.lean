import Waxseal.Domain.Hashing

/-!
# Forward-secure sealing

`domain/sealing.py`.  The epoch key evolves one way, `A_{j+1} = SHA-256(A_j)`, one step an
entry.  A seal is an HMAC of the entry hash under the key of its epoch; the aggregate scheme
also folds each seal into one running accumulator.

`verifySeals` walks the epochs forward from the initial key.  A report that is ok and leaves
nothing unverifiable has found at each position the seal of that position's key
(`verifySeals_clean`).
-/

namespace Waxseal

/-- `FS_HMAC_SCHEME`. -/
def fsHmacScheme : PyStr := str "fs-hmac-sha256-v1"

/-- `FS_HMAC_AGG_SCHEME`. -/
def fsHmacAggScheme : PyStr := str "fs-hmac-agg-sha256-v1"

/-- `SEAL_FRAME_PREFIX`. -/
def sealFramePrefix : Bytes := ascii "waxseal-seal-v1\n"

/-- `AGG_FRAME_PREFIX`. -/
def aggFramePrefix : Bytes := ascii "waxseal-agg-v1\n"

/-- `AGG_COMMIT_FRAME_PREFIX`. -/
def aggCommitFramePrefix : Bytes := ascii "waxseal-aggcommit-v1\n"

/-- `AGG_GENESIS`. -/
def aggGenesis : PyStr := List.replicate 64 (CodePoint.ofChar '0')

/-- `Attestation`, with the type of its key id left open: the file may hold any JSON there,
and `None` where there is none. -/
structure Attestation (κ : Type) where
  seq : ℤ
  entryHash : PyStr
  scheme : PyStr
  /-- The MAC in hex, or a signature. -/
  value : PyStr
  keyId : κ

/-- The `reason` of an `AttestResult`. -/
inductive AttestReason where
  | sealSequenceMismatch
  | malformedAttestation
  | sealMismatch
  | malformedAggregate
  | aggregateEpochMismatch
  | aggregateMismatch
  | aggregateMissing
  | attestTrailMismatch
  | attestationGap
  | keyfileMissing
  | keyfileEpochMismatch
  | keyfileKeyMismatch
  | malformedKeyfile
  | signatureInvalid
  | malformedAnchoredAggregate
  | anchoredAggregateEpochMismatch
  | anchoredAggregateMismatch
  | malformedAnchor
  | noAnchorsRecorded
  | unreadableRecordVersion
  deriving DecidableEq, Repr

/-- `AttestResult`. -/
structure AttestResult where
  ok : Bool
  checked : ℕ
  brokenSeq : Option ℤ
  reason : Option AttestReason
  unverifiable : List ℤ
  deriving DecidableEq

/-- A report of a break. -/
def AttestResult.broken (reason : AttestReason) (brokenSeq : Option ℤ) (checked : ℕ)
    (unverifiable : List ℤ) : AttestResult :=
  ⟨false, checked, brokenSeq, some reason, unverifiable⟩

/-- A report without a break. -/
def AttestResult.passed (checked : ℕ) (unverifiable : List ℤ) : AttestResult :=
  ⟨true, checked, none, none, unverifiable⟩

/-! ## Keys and seals -/

section Seals

variable [Hashlib]

/-- `evolve_key(key)`. -/
def evolveKey (key : Bytes) : Bytes := (sha256 key).val

/-- The key of an epoch, counted from the initial key. -/
def epochKey (initialKey : Bytes) (epoch : ℕ) : Bytes := evolveKey^[epoch] initialKey

/-- What a seal authenticates. -/
def sealFrame (entryHash : PyStr) : Except PyErr Bytes :=
  match encodeAscii entryHash with
  | none => .error .unicodeEncodeError
  | some b => .ok (sealFramePrefix ++ b)

/-- `seal_entry(epoch_key, entry_hash)`. -/
def sealEntry (epochKey : Bytes) (entryHash : PyStr) : Except PyErr PyStr := do
  return hex (hmacSha256 epochKey (← sealFrame entryHash)).val

/-- `hmac.compare_digest(a, b)` of two strings, which have to be ASCII. -/
def compareDigest (a b : PyStr) : Except PyErr Bool :=
  if isAscii a && isAscii b then .ok (a = b) else .error .typeError

variable {κ : Type}

/-- The schemes `verify_seals` has a key for. -/
def knownScheme (scheme : PyStr) : Bool := scheme = fsHmacScheme || scheme = fsHmacAggScheme

/-- Whether an attestation holds the seal of an epoch key. -/
def sealMatches (key : Bytes) (att : Attestation κ) : Except PyErr Bool := do
  compareDigest (← sealEntry key att.entryHash) att.value

/-- The loop of `verify_seals`, with the position, the key and the accumulators. -/
def verifySealsLoop : ℕ → Bytes → ℕ → List ℤ → List (Attestation κ) → AttestResult
  | _, _, checked, unverifiable, [] => .passed checked unverifiable
  | position, key, checked, unverifiable, att :: atts =>
      if att.seq ≠ position then
        .broken .sealSequenceMismatch (some att.seq) checked unverifiable
      else if knownScheme att.scheme then
        match sealMatches key att with
        | .error _ => .broken .malformedAttestation (some att.seq) checked unverifiable
        | .ok false => .broken .sealMismatch (some att.seq) checked unverifiable
        | .ok true => verifySealsLoop (position + 1) (evolveKey key) (checked + 1) unverifiable atts
      -- the epoch clock is positional: it advances through opaque rows too
      else
        verifySealsLoop (position + 1) (evolveKey key) checked (unverifiable ++ [att.seq]) atts

/-- `verify_seals(attestations, initial_key)`. -/
def verifySeals (atts : List (Attestation κ)) (initialKey : Bytes) : AttestResult :=
  verifySealsLoop 0 initialKey 0 [] atts

/-! ## The aggregate -/

/-- `aggregate_step(epoch_key, prev_agg, value)`. -/
def aggregateStep (epochKey : Bytes) (prevAgg value : PyStr) : Except PyErr PyStr :=
  match fromhex prevAgg with
  | none => .error .valueError
  | some prev => do
      return hex (hmacSha256 epochKey (aggFramePrefix ++ prev ++ (← lp (some value)))).val

/-- The loop of `verify_aggregate`: the accumulator over the rows from `aggStart` to
`epoch`. -/
def aggregateLoop (aggStart epoch : ℤ) :
    ℕ → Bytes → PyStr → List (Attestation κ) → Except PyErr PyStr
  | _, _, running, [] => .ok running
  | position, key, running, att :: atts =>
      if epoch ≤ position then .ok running
      else if aggStart ≤ position ∧ att.scheme = fsHmacAggScheme then do
        let running ← aggregateStep key running att.value
        aggregateLoop aggStart epoch (position + 1) (evolveKey key) running atts
      else aggregateLoop aggStart epoch (position + 1) (evolveKey key) running atts

/-- `verify_aggregate(attestations, initial_key, agg_start=..., epoch=..., agg=...)`. -/
def verifyAggregate (atts : List (Attestation κ)) (initialKey : Bytes) (aggStart epoch : ℤ)
    (agg : PyStr) : Except PyErr (Option AttestReason) :=
  if ¬ (0 ≤ aggStart ∧ aggStart ≤ epoch) then .ok (some .malformedAggregate)
  else if (atts.length : ℤ) < epoch then .ok (some .aggregateEpochMismatch)
  else if (fromhex agg).isNone then .ok (some .malformedAggregate)
  else if (atts.drop epoch.toNat).any (·.scheme = fsHmacAggScheme) then
    .ok (some .aggregateEpochMismatch)
  else
    match aggregateLoop aggStart epoch 0 initialKey aggGenesis atts with
    | .error e => if e.isValueError then .ok (some .malformedAggregate) else .error e
    | .ok running => .ok (if running ≠ agg then some .aggregateMismatch else none)

/-- `aggregate_commit(epoch, agg)`. -/
def aggregateCommit (epoch : ℤ) (agg : PyStr) : Except PyErr PyStr :=
  match fromhex agg with
  | none => .error .valueError
  | some _ => do
      return hexdigest (aggCommitFramePrefix ++ be64 2 ++ (← lpAll [strInt epoch, agg]))

/-- `verify_anchored_aggregate(attestations, initial_key, agg_start=..., anchored_epoch=...,
anchored_commit=...)`. -/
def verifyAnchoredAggregate (atts : List (Attestation κ)) (initialKey : Bytes)
    (aggStart anchoredEpoch : ℤ) (anchoredCommit : PyStr) :
    Except PyErr (Option AttestReason) :=
  if ¬ (0 ≤ aggStart ∧ aggStart ≤ anchoredEpoch) then .ok (some .malformedAnchoredAggregate)
  else if (fromhex anchoredCommit).isNone then .ok (some .malformedAnchoredAggregate)
  else if (atts.length : ℤ) < anchoredEpoch then .ok (some .anchoredAggregateEpochMismatch)
  else
    match aggregateLoop aggStart anchoredEpoch 0 initialKey aggGenesis atts with
    | .error e => if e.isValueError then .ok (some .malformedAnchoredAggregate) else .error e
    | .ok running => do
        let same ← compareDigest (← aggregateCommit anchoredEpoch running) anchoredCommit
        return if same then none else some .anchoredAggregateMismatch

/-! ## What a clean report says -/

theorem epochKey_succ (initialKey : Bytes) (epoch : ℕ) :
    epochKey initialKey (epoch + 1) = evolveKey (epochKey initialKey epoch) :=
  Function.iterate_succ_apply' evolveKey epoch initialKey

omit [Hashlib] in
theorem sealFrame_eq_ok_iff {entryHash : PyStr} {b : Bytes} :
    sealFrame entryHash = .ok b ↔ ∃ u, encodeAscii entryHash = some u ∧ b = sealFramePrefix ++ u := by
  rw [sealFrame]
  cases encodeAscii entryHash with
  | none => exact ⟨nofun, fun ⟨_, h, _⟩ => nomatch h⟩
  | some u =>
      refine ⟨fun h => ⟨u, rfl, (Except.ok.inj h).symm⟩, ?_⟩
      rintro ⟨u', hu, rfl⟩
      rw [Option.some.inj hu]

omit [Hashlib] in
/-- The frame of a seal determines the entry hash. -/
theorem sealFrame_inj {s t : PyStr} {b : Bytes} (hs : sealFrame s = .ok b)
    (ht : sealFrame t = .ok b) : s = t := by
  obtain ⟨u, hu, rfl⟩ := sealFrame_eq_ok_iff.mp hs
  obtain ⟨v, hv, heq⟩ := sealFrame_eq_ok_iff.mp ht
  exact encodeAscii_inj hu (List.append_cancel_left heq ▸ hv)

theorem sealEntry_eq_ok_iff {key : Bytes} {entryHash value : PyStr} :
    sealEntry key entryHash = .ok value ↔
      ∃ b, sealFrame entryHash = .ok b ∧ value = hex (hmacSha256 key b).val := by
  rw [sealEntry]
  constructor
  · intro h
    obtain ⟨b, hb, hvalue⟩ := bind_eq_ok_iff.mp h
    exact ⟨b, hb, (Except.ok.inj hvalue).symm⟩
  · rintro ⟨b, hb, rfl⟩
    exact bind_eq_ok_iff.mpr ⟨b, hb, rfl⟩

theorem sealMatches_eq_ok_true {key : Bytes} {att : Attestation κ}
    (h : sealMatches key att = .ok true) : sealEntry key att.entryHash = .ok att.value := by
  obtain ⟨expected, hseal, hcompare⟩ := bind_eq_ok_iff.mp h
  unfold compareDigest at hcompare
  split_ifs at hcompare
  rw [hseal, of_decide_eq_true (Except.ok.inj hcompare)]

/-- The loop never forgets a row it called unverifiable. -/
theorem verifySealsLoop_unverifiable {position : ℕ} {key : Bytes} {checked : ℕ}
    {unverifiable : List ℤ} {atts : List (Attestation κ)} :
    unverifiable ⊆ (verifySealsLoop position key checked unverifiable atts).unverifiable := by
  induction atts generalizing position key checked unverifiable with
  | nil => exact List.Subset.refl _
  | cons att atts ih =>
      rw [verifySealsLoop]
      split_ifs
      · exact List.Subset.refl _
      · split
        · exact List.Subset.refl _
        · exact List.Subset.refl _
        · exact ih
      · exact List.Subset.trans (List.subset_append_left _ _) ih

/-- A row of a clean report: in its place, with the seal of its epoch. -/
structure Sealed (initialKey : Bytes) (position : ℕ) (att : Attestation κ) : Prop where
  seq : att.seq = position
  value : sealEntry (epochKey initialKey position) att.entryHash = .ok att.value

theorem verifySealsLoop_clean {initialKey : Bytes} {position checked : ℕ}
    {atts : List (Attestation κ)}
    (h : (verifySealsLoop position (epochKey initialKey position) checked [] atts).ok = true)
    (hclean : (verifySealsLoop position (epochKey initialKey position) checked [] atts).unverifiable
      = []) :
    ∀ i, ∀ hi : i < atts.length, Sealed initialKey (position + i) atts[i] := by
  induction atts generalizing position checked with
  | nil => exact fun i hi => absurd hi (Nat.not_lt_zero i)
  | cons att atts ih =>
      rw [verifySealsLoop] at h hclean
      split_ifs at h hclean with hseq hscheme
      · cases h
      · split at h
        · cases h
        · cases h
        · next hmatch =>
            rw [hmatch] at hclean
            simp only [← epochKey_succ] at h hclean
            have hrest := ih h hclean
            intro i hi
            cases i with
            | zero => exact ⟨not_not.mp hseq, sealMatches_eq_ok_true hmatch⟩
            | succ i =>
                have := hrest i (Nat.lt_of_succ_lt_succ hi)
                rwa [Nat.add_right_comm] at this
      · have hmem := (hclean ▸ verifySealsLoop_unverifiable) (List.mem_singleton_self att.seq)
        cases hmem

/-- **A clean report has found every seal**: each row is in its place and holds the seal of
the epoch key of that place. -/
theorem verifySeals_clean {initialKey : Bytes} {atts : List (Attestation κ)}
    (h : (verifySeals atts initialKey).ok = true)
    (hclean : (verifySeals atts initialKey).unverifiable = []) :
    ∀ i, ∀ hi : i < atts.length, Sealed initialKey i atts[i] := by
  intro i hi
  have := @verifySealsLoop_clean _ κ initialKey 0 0 atts h hclean i hi
  rwa [Nat.zero_add] at this

/-! ## What an honest trail reports -/

omit [Hashlib] in
theorem compareDigest_hex (a : Bytes) : compareDigest (hex a) (hex a) = .ok true := by
  unfold compareDigest
  rw [isAscii_hex, Bool.and_self, if_pos rfl, decide_eq_true rfl]

theorem sealMatches_of_sealEntry {key : Bytes} {att : Attestation κ}
    (h : sealEntry key att.entryHash = .ok att.value) : sealMatches key att = .ok true := by
  obtain ⟨b, -, hvalue⟩ := sealEntry_eq_ok_iff.mp h
  refine bind_eq_ok_iff.mpr ⟨att.value, h, ?_⟩
  rw [hvalue]
  exact compareDigest_hex _

theorem verifySealsLoop_sealed {initialKey : Bytes} {position checked : ℕ}
    {unverifiable : List ℤ} {atts : List (Attestation κ)}
    (hsealed : ∀ i, ∀ hi : i < atts.length, Sealed initialKey (position + i) atts[i])
    (hscheme : ∀ att ∈ atts, knownScheme att.scheme = true) :
    verifySealsLoop position (epochKey initialKey position) checked unverifiable atts =
      .passed (checked + atts.length) unverifiable := by
  induction atts generalizing position checked with
  | nil => rfl
  | cons att atts ih =>
      have hfirst : Sealed initialKey position att := hsealed 0 (Nat.zero_lt_succ _)
      have hrest : ∀ i, ∀ hi : i < atts.length, Sealed initialKey (position + 1 + i) atts[i] := by
        intro i hi
        have := hsealed (i + 1) (Nat.succ_lt_succ hi)
        rwa [Nat.add_right_comm]
      rw [List.forall_mem_cons] at hscheme
      have hmatch := sealMatches_of_sealEntry hfirst.value
      have hnext := @ih (position + 1) (checked + 1) hrest hscheme.2
      rw [verifySealsLoop, if_neg (not_not.mpr hfirst.seq), if_pos hscheme.1]
      simp only [hmatch]
      rw [← epochKey_succ, hnext, List.length_cons, Nat.add_right_comm, Nat.add_assoc]

/-- **A trail of genuine seals is reported clean.** -/
theorem verifySeals_sealed {initialKey : Bytes} {atts : List (Attestation κ)}
    (hsealed : ∀ i, ∀ hi : i < atts.length, Sealed initialKey i atts[i])
    (hscheme : ∀ att ∈ atts, knownScheme att.scheme = true) :
    verifySeals atts initialKey = .passed atts.length [] := by
  have hloop := @verifySealsLoop_sealed _ κ initialKey 0 0 [] atts
    (fun i hi => by rw [Nat.zero_add]; exact hsealed i hi) hscheme
  rwa [Nat.zero_add] at hloop

end Seals

end Waxseal
