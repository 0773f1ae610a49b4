import Waxseal.Domain.Aggregates
import Waxseal.Domain.Bond
import Waxseal.Server.Receipts

/-!
# Domain separation

Everything that is hashed behind a length-prefixed frame, of the library and of the server, by
kind.  No prefix of a kind starts with that of another (`prefix_separates`), so a frame tells
its kind; within a kind the frame determines the fields (`FrameKind.frame_inj`).  Hence no
digest of one kind is one of another kind (`frames_separate`).
-/

namespace Waxseal

/-- The kinds of frames. -/
inductive FrameKind where
  | header
  | bareCheckpoint
  | boundCheckpoint
  | aggregateCommit
  | receipt
  | signing
  deriving DecidableEq

/-- What a server's receipt is made from. -/
structure ReceiptFields where
  receiptSeq : ℤ
  prevReceiptHead : PyStr
  entryHash : PyStr

namespace FrameKind

/-- What a frame of a kind is made from. -/
def Fields : FrameKind → Type
  | header => EntryHeader
  | bareCheckpoint => { cp : Checkpoint // cp.aggCommit = none }
  | boundCheckpoint => { cp : Checkpoint // cp.aggCommit ≠ none }
  | aggregateCommit => ℤ × PyStr
  | receipt => ReceiptFields
  | signing => PyStr × Checkpoint

/-- The prefix of a kind. -/
def framePrefix : FrameKind → Bytes
  | header => Waxseal.framePrefix
  | bareCheckpoint => checkpointFramePrefixBare
  | boundCheckpoint => checkpointFramePrefixAggBound
  | aggregateCommit => aggCommitFramePrefix
  | receipt => receiptFramePrefix
  | signing => ledgerCheckpointSigPrefix

/-- The chain ids a frame holds the digests of. -/
def names : (k : FrameKind) → k.Fields → List Bytes
  | signing, (chainId, _) => (encodeUtf8 chainId).toList
  | header, _ | bareCheckpoint, _ | boundCheckpoint, _ | aggregateCommit, _ | receipt, _ => []

/-- **No prefix starts with another one.** -/
theorem prefix_separates {k k' : FrameKind} (h : k.framePrefix <+: k'.framePrefix) : k = k' := by
  revert h
  cases k <;> cases k' <;> decide

/-- A byte string has the prefix of one kind at most. -/
theorem kind_unique {k k' : FrameKind} {b : Bytes} (h : k.framePrefix <+: b)
    (h' : k'.framePrefix <+: b) : k = k' := by
  rcases List.prefix_or_prefix_of_prefix h h' with h | h
  · exact prefix_separates h
  · exact (prefix_separates h).symm

variable [Hashlib]

/-- The bytes of a frame. -/
def frame : (k : FrameKind) → k.Fields → Except PyErr Bytes
  | header, v => headerFrame v
  | bareCheckpoint, cp => checkpointFrame cp.val
  | boundCheckpoint, cp => checkpointFrame cp.val
  | aggregateCommit, (epoch, agg) => aggregateCommitFrame epoch agg
  | receipt, link => receiptFrame link.receiptSeq link.prevReceiptHead link.entryHash
  | signing, (chainId, cp) => checkpointSigningFrame chainId cp

/-- Two frames of a kind have the same fields.  A signing frame holds the chain by its trail
id. -/
def SameFields : (k : FrameKind) → k.Fields → k.Fields → Prop
  | signing, (chainId, cp), (chainId', cp') => trailIdFor chainId = trailIdFor chainId' ∧ cp = cp'
  | header, v, v' | bareCheckpoint, v, v' | boundCheckpoint, v, v' | aggregateCommit, v, v'
  | receipt, v, v' => v = v'

/-- A frame has the prefix of its kind. -/
theorem framePrefix_frame {k : FrameKind} {v : k.Fields} {b : Bytes} (h : k.frame v = .ok b) :
    k.framePrefix <+: b := by
  cases k with
  | header =>
      obtain ⟨fields, -, rfl⟩ := @headerFrame_eq_ok v b h
      rw [List.append_assoc]
      exact List.prefix_append _ _
  | bareCheckpoint =>
      obtain ⟨⟨seq, entryHash, root, aggCommit, aggEpoch, both⟩, hbare⟩ := v
      obtain rfl : aggCommit = none := hbare
      obtain ⟨fields, -, hb⟩ := bind_eq_ok_iff.mp
        (show checkpointFrame ⟨seq, entryHash, root, none, aggEpoch, both⟩ = .ok b from h)
      obtain rfl := Except.ok.inj hb
      rw [List.append_assoc]
      exact List.prefix_append _ _
  | boundCheckpoint =>
      obtain ⟨⟨seq, entryHash, root, aggCommit, aggEpoch, both⟩, hbound⟩ := v
      obtain ⟨commit, rfl⟩ := Option.ne_none_iff_exists'.mp hbound
      obtain ⟨fields, -, hb⟩ := bind_eq_ok_iff.mp
        (show checkpointFrame ⟨seq, entryHash, root, some commit, aggEpoch, both⟩ = .ok b from h)
      obtain rfl := Except.ok.inj hb
      rw [List.append_assoc]
      exact List.prefix_append _ _
  | aggregateCommit =>
      obtain ⟨epoch, agg⟩ := v
      have h : aggregateCommitFrame epoch agg = .ok b := h
      unfold aggregateCommitFrame at h
      split at h
      · cases h
      · obtain ⟨fields, -, hb⟩ := bind_eq_ok_iff.mp h
        obtain rfl := Except.ok.inj hb
        rw [List.append_assoc]
        exact List.prefix_append _ _
  | receipt =>
      obtain ⟨fields, -, hb⟩ := bind_eq_ok_iff.mp
        (show receiptFrame v.receiptSeq v.prevReceiptHead v.entryHash = .ok b from h)
      obtain rfl := Except.ok.inj hb
      rw [List.append_assoc]
      exact List.prefix_append _ _
  | signing =>
      obtain ⟨chainId, cp⟩ := v
      obtain ⟨trailId, -, h⟩ := bind_eq_ok_iff.mp
        (show checkpointSigningFrame chainId cp = .ok b from h)
      obtain ⟨field, -, h⟩ := bind_eq_ok_iff.mp h
      obtain ⟨inner, -, hb⟩ := bind_eq_ok_iff.mp h
      obtain rfl := Except.ok.inj hb
      rw [List.append_assoc, List.append_assoc]
      exact List.prefix_append _ _

end FrameKind

/-! ## Fields -/

variable [Hashlib]

/-- The signing frame determines the trail id, and the checkpoint that takes the rest. -/
theorem checkpointSigningFrame_inj {chainId chainId' : PyStr} {cp cp' : Checkpoint} {b : Bytes}
    (h : checkpointSigningFrame chainId cp = .ok b)
    (h' : checkpointSigningFrame chainId' cp' = .ok b) :
    trailIdFor chainId = trailIdFor chainId' ∧ cp = cp' := by
  obtain ⟨trailId, htrail, h⟩ := bind_eq_ok_iff.mp h
  obtain ⟨field, hfield, h⟩ := bind_eq_ok_iff.mp h
  obtain ⟨inner, hinner, hb⟩ := bind_eq_ok_iff.mp h
  obtain ⟨trailId', htrail', h'⟩ := bind_eq_ok_iff.mp h'
  obtain ⟨field', hfield', h'⟩ := bind_eq_ok_iff.mp h'
  obtain ⟨inner', hinner', hb'⟩ := bind_eq_ok_iff.mp h'
  have heq := Except.ok.inj (hb.trans hb'.symm)
  rw [List.append_assoc, List.append_assoc _ field'] at heq
  obtain ⟨hhex, rfl⟩ := lp_append_inj hfield hfield' (List.append_cancel_left heq)
  refine ⟨?_, checkpointFrame_inj hinner hinner'⟩
  rw [htrail, htrail', Subtype.ext (hex_injective hhex)]

/-- Two chain ids whose digests do not collide have two trail ids. -/
theorem trailIdFor_inj {chainId chainId' : PyStr} {trailId : Bytes32}
    (h : trailIdFor chainId = .ok trailId) (h' : trailIdFor chainId' = .ok trailId)
    (hfree : CollisionFree ((encodeUtf8 chainId).toList ++ (encodeUtf8 chainId').toList)) :
    chainId = chainId' := by
  unfold trailIdFor at h h'
  split at h
  · cases h
  · next encoded hencoded =>
      split at h'
      · cases h'
      · next encoded' hencoded' =>
          rw [hencoded, hencoded'] at hfree
          obtain rfl := hfree encoded (by simp) encoded' (by simp) (Except.ok.inj (h.trans h'.symm))
          exact encodeUtf8_inj hencoded hencoded'

namespace FrameKind

variable {k : FrameKind} {v v' : k.Fields} {b : Bytes}

/-- **A frame determines what it was made from.** -/
theorem frame_inj (h : k.frame v = .ok b) (h' : k.frame v' = .ok b) : k.SameFields v v' := by
  cases k with
  | header => exact @headerFrame_inj v v' b h h'
  | bareCheckpoint => exact Subtype.ext (checkpointFrame_inj h h')
  | boundCheckpoint => exact Subtype.ext (checkpointFrame_inj h h')
  | aggregateCommit =>
      obtain ⟨hepoch, hagg⟩ := @aggregateCommitFrame_inj v.1 v'.1 v.2 v'.2 b h h'
      exact Prod.ext hepoch hagg
  | receipt =>
      obtain ⟨receiptSeq, prev, entryHash⟩ := v
      obtain ⟨receiptSeq', prev', entryHash'⟩ := v'
      obtain ⟨rfl, rfl, rfl⟩ :=
        @receiptFrame_inj receiptSeq receiptSeq' prev prev' entryHash entryHash' b h h'
      rfl
  | signing => exact @checkpointSigningFrame_inj _ v.1 v'.1 v.2 v'.2 b h h'

/-- The fields are those of one value, where no chain ids collide. -/
theorem eq_of_sameFields (h : k.frame v = .ok b) (hsame : k.SameFields v v')
    (hfree : CollisionFree (k.names v ++ k.names v')) : v = v' := by
  cases k with
  | header => exact hsame
  | bareCheckpoint => exact hsame
  | boundCheckpoint => exact hsame
  | aggregateCommit => exact hsame
  | receipt => exact hsame
  | signing =>
      obtain ⟨chainId, cp⟩ := v
      obtain ⟨chainId', cp'⟩ := v'
      obtain ⟨htrail, rfl⟩ := hsame
      obtain ⟨trailId, hid, -⟩ := bind_eq_ok_iff.mp
        (show checkpointSigningFrame chainId cp = .ok b from h)
      rw [trailIdFor_inj hid (htrail ▸ hid) hfree]

end FrameKind

/-- **Domain separation.**  Frames of two kinds differ, and so do their digests; within a kind a
frame determines its fields, and of the chain ids that do not collide it tells which one it
holds. -/
theorem frames_separate (k k' : FrameKind) (v : k.Fields) (v' : k'.Fields) (b b' : Bytes)
    (hb : k.frame v = .ok b) (hb' : k'.frame v' = .ok b') :
    (k ≠ k' → b ≠ b') ∧ (k ≠ k' → CollisionFree [b, b'] → sha256 b ≠ sha256 b') ∧
      (∀ w : k.Fields, k.frame w = .ok b → k.SameFields v w) ∧
      (∀ w : k.Fields, k.frame w = .ok b → CollisionFree (k.names v ++ k.names w) → v = w) := by
  have hkind : b = b' → k = k' := by
    rintro rfl
    exact FrameKind.kind_unique (FrameKind.framePrefix_frame hb) (FrameKind.framePrefix_frame hb')
  refine ⟨fun hne heq => hne (hkind heq), fun hne hfree hdigest => ?_,
    fun w hw => FrameKind.frame_inj hb hw, fun w hw hfree => ?_⟩
  · exact hne (hkind (hfree b (by simp) b' (by simp) hdigest))
  · exact FrameKind.eq_of_sameFields hb (FrameKind.frame_inj hb hw) hfree

omit [Hashlib] in
/-- A checkpoint, and the same one signed for a chain. -/
theorem frames_separate_signed :
    letI := Sha256.hashlib
    ∃ b b', FrameKind.frame .bareCheckpoint ⟨.bare 0 (str "ab") (str "cd"), rfl⟩ = .ok b ∧
      FrameKind.frame .signing (str "trail", .bare 0 (str "ab") (str "cd")) = .ok b' ∧ b ≠ b' := by
  let _ := Sha256.hashlib
  obtain ⟨b, hb⟩ := @exists_eq_ok_of_isSome Bytes
    (FrameKind.frame .bareCheckpoint ⟨.bare 0 (str "ab") (str "cd"), rfl⟩) (by decide +kernel)
  obtain ⟨b', hb'⟩ := @exists_eq_ok_of_isSome Bytes
    (FrameKind.frame .signing (str "trail", .bare 0 (str "ab") (str "cd"))) (by decide +kernel)
  exact ⟨b, b', hb, hb', (frames_separate _ _ _ _ b b' hb hb').1 (by decide)⟩

end Waxseal
