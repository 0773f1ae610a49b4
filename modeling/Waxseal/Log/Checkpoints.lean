import Waxseal.Domain.Checkpoint
import Waxseal.Domain.Sealing
import Waxseal.Log.Facade

/-!
# The checkpoints a log publishes

`AuditLog.anchor` step by step: the entry hashes are read, the aggregate binding is taken,
the root comes from the instance's forest, and the checkpoint they make up goes to the
sink.  `anchor_eq` says that this is the anchoring of the facade.
-/

namespace Waxseal

variable [Interpreter] [Hashlib]

/-- What a log reads its aggregate from: nothing, or a source whose `read_aggregate` gives
`(agg_start, epoch, agg)` or `None`, or raises. -/
abbrev AggregateSource := Option (Except PyErr (Option (ℤ × ℤ × PyStr)))

omit [Interpreter] in
/-- `aggregate_binding`. -/
def aggregateBinding : AggregateSource → Except PyErr (Option PyStr × Option ℤ)
  | none => .ok (none, none)
  | some (.ok none) => .ok (none, none)
  | some (.ok (some (_, epoch, agg))) => do
      return (some (← aggregateCommit epoch agg), some epoch)
  | some (.error e) =>
      if e.isValueError || e == .keyError || e == .typeError then .error .runtimeError
      else .error e

/-- `_note_appended(entry)`, on what reading the trail back gives. -/
def noteAppendedWith (readBack : Except PyErr (List PyStr)) (merkle : IncrementalMerkle)
    (seq : ℤ) (entryHash : PyStr) : Except PyErr IncrementalMerkle :=
  if (merkle.size : ℤ) = seq then merkle.push entryHash
  else do IncrementalMerkle.fromHashes (← readBack)

/-- What `anchor()` collects for its checkpoint: the entry hashes, the binding, the root, and
the forest to keep.  `read` is what reading the trail gives. -/
def anchorSteps (read : Except PyErr (List PyStr)) (source : AggregateSource)
    (merkle : IncrementalMerkle) :
    Except PyErr (List PyStr × (Option PyStr × Option ℤ) × PyStr × IncrementalMerkle) := do
  let hashes ← read
  if hashes = [] then .error .valueError
  let binding ← aggregateBinding source
  let (root, merkle) ← merkleRootFor merkle hashes
  return (hashes, binding, root, merkle)

/-- The part of `anchor()` before the sink: the checkpoint handed to it, and the forest kept. -/
def anchorCheckpoint (read : Except PyErr (List PyStr)) (source : AggregateSource)
    (merkle : IncrementalMerkle) : Except PyErr Checkpoint × IncrementalMerkle :=
  match anchorSteps read source merkle with
  | .error e => (.error e, merkle)
  | .ok (hashes, binding, root, merkle) =>
      (checkpointFor hashes binding.1 binding.2 (some root), merkle)

/-! ## The same steps as in the facade -/

theorem noteAppended_eq (readBack : Option PyErr) (file : Bytes) (merkle : IncrementalMerkle)
    (entry : Entry) :
    noteAppended readBack file merkle entry
      = noteAppendedWith (do orFail readBack; entryHashes file) merkle entry.header.seq
          entry.entryHash := by
  rw [noteAppended, noteAppendedWith]
  cases readBack <;> rfl

omit [Interpreter] in
/-- A binding has both its parts or neither. -/
theorem aggregateBinding_both {source : AggregateSource} {binding : Option PyStr × Option ℤ}
    (h : aggregateBinding source = .ok binding) : binding.1.isSome = binding.2.isSome := by
  rcases source with - | (e | (- | ⟨start, epoch, agg⟩))
  · obtain rfl := Except.ok.inj h
    rfl
  · rw [aggregateBinding] at h
    split_ifs at h
  · obtain rfl := Except.ok.inj h
    rfl
  · obtain ⟨commit, -, hbinding⟩ := bind_eq_ok_iff.mp h
    obtain rfl := Except.ok.inj hbinding
    rfl

omit [Interpreter] in
/-- The checkpoint over a trail with a tip. -/
theorem checkpointFor_eq_ok_iff {hashes : List PyStr} {aggCommit : Option PyStr}
    {aggEpoch : Option ℤ} {root : PyStr} {cp : Checkpoint}
    (both : aggCommit.isSome = aggEpoch.isSome) :
    checkpointFor hashes aggCommit aggEpoch (some root) = .ok cp ↔
      ∃ tip, hashes.getLast? = some tip ∧
        cp = ⟨hashes.length - 1, tip, root, aggCommit, aggEpoch, both⟩ := by
  rw [checkpointFor]
  cases hashes.getLast? with
  | none => exact ⟨nofun, fun ⟨_, h, _⟩ => nomatch h⟩
  | some tip =>
      simp only [bind_eq_ok_iff, dif_pos both]
      constructor
      · rintro ⟨_, hroot, h⟩
        obtain rfl := Except.ok.inj hroot
        exact ⟨tip, rfl, (Except.ok.inj h).symm⟩
      · rintro ⟨_, htip, rfl⟩
        obtain rfl := Option.some.inj htip
        exact ⟨root, rfl, rfl⟩

omit [Interpreter] in
theorem anchorSteps_eq_ok_iff {read : Except PyErr (List PyStr)} {source : AggregateSource}
    {merkle merkle' : IncrementalMerkle} {hashes : List PyStr}
    {binding : Option PyStr × Option ℤ} {root : PyStr} :
    anchorSteps read source merkle = .ok (hashes, binding, root, merkle') ↔
      read = .ok hashes ∧ hashes ≠ [] ∧ aggregateBinding source = .ok binding ∧
        merkleRootFor merkle hashes = .ok (root, merkle') := by
  constructor
  · intro h
    obtain ⟨hashes₀, hread, h⟩ := bind_eq_ok_iff.mp h
    by_cases hne : hashes₀ = []
    · rw [if_pos hne] at h
      cases h
    · rw [if_neg hne] at h
      obtain ⟨binding₀, hbinding, h⟩ := bind_eq_ok_iff.mp h
      obtain ⟨⟨root₀, merkle₀⟩, hroot, h⟩ := bind_eq_ok_iff.mp h
      obtain ⟨rfl, rfl, rfl, rfl⟩ : hashes₀ = hashes ∧ binding₀ = binding ∧ root₀ = root ∧
          merkle₀ = merkle' := by
        simpa using Except.ok.inj h
      exact ⟨hread, hne, hbinding, hroot⟩
  · rintro ⟨rfl, hne, hbinding, hroot⟩
    refine bind_eq_ok_iff.mpr ⟨hashes, rfl, ?_⟩
    rw [if_neg hne]
    exact bind_eq_ok_iff.mpr ⟨binding, hbinding, bind_eq_ok_iff.mpr ⟨_, hroot, rfl⟩⟩

omit [Interpreter] in
/-- What the steps of `anchor()` have to give for a checkpoint to be handed out. -/
theorem anchorCheckpoint_eq_ok {read : Except PyErr (List PyStr)} {source : AggregateSource}
    {merkle : IncrementalMerkle} {cp : Checkpoint}
    (h : (anchorCheckpoint read source merkle).1 = .ok cp) :
    ∃ hashes binding root merkle', read = .ok hashes ∧ aggregateBinding source = .ok binding ∧
      merkleRootFor merkle hashes = .ok (root, merkle') ∧
      checkpointFor hashes binding.1 binding.2 (some root) = .ok cp := by
  rw [anchorCheckpoint] at h
  rcases hsteps : anchorSteps read source merkle with e | ⟨hashes, binding, root, merkle'⟩
  · rw [hsteps] at h
    cases h
  · rw [hsteps] at h
    obtain ⟨hread, -, hbinding, hroot⟩ := anchorSteps_eq_ok_iff.mp hsteps
    exact ⟨_, _, _, _, hread, hbinding, hroot, h⟩

omit [Interpreter] in
/-- A root is written by the library itself, so in lowercase. -/
theorem merkleRootFor_eq_hex {merkle merkle' : IncrementalMerkle} {hashes : List PyStr}
    {root : PyStr} (h : merkleRootFor merkle hashes = .ok (root, merkle')) : ∃ b, root = hex b := by
  have hroot : ∀ tree : IncrementalMerkle, ∃ b, tree.root = hex b := by
    intro tree
    rw [IncrementalMerkle.root]
    split
    · exact ⟨_, rfl⟩
    · exact ⟨_, rfl⟩
  rw [merkleRootFor] at h
  split_ifs at h
  · obtain ⟨tree, -, h⟩ := bind_eq_ok_iff.mp h
    obtain ⟨rfl, -⟩ := Prod.mk.inj (Except.ok.inj h)
    exact hroot tree
  · obtain ⟨rfl, -⟩ := Prod.mk.inj (Except.ok.inj h)
    exact hroot merkle
  all_goals
    obtain ⟨tree, -, h⟩ := bind_eq_ok_iff.mp h
    obtain ⟨rfl, -⟩ := Prod.mk.inj (Except.ok.inj h)
    exact hroot tree

/-- **The anchoring of the facade** is this one, with the sink after it. -/
theorem anchor_eq {io : AnchorIo} {source : AggregateSource} {file : Bytes}
    {merkle : IncrementalMerkle}
    (hbinding : orFail io.binding = (aggregateBinding source).map fun _ => ()) :
    anchor io file merkle
      = ((anchorCheckpoint (do orFail io.read; entryHashes file) source merkle).1.bind
            fun cp => (orFail io.sink).map fun _ => cp.root,
          (anchorCheckpoint (do orFail io.read; entryHashes file) source merkle).2) := by
  rw [anchor, anchorCheckpoint, anchorSteps]
  rcases hread : orFail io.read with e | ⟨⟩
  · rfl
  · rcases hhashes : entryHashes file with e | hashes
    · rfl
    · by_cases hne : hashes = []
      · simp only [bind, Except.bind, hne, if_true]
      · obtain ⟨tip, htip⟩ : ∃ tip, hashes.getLast? = some tip :=
          ⟨_, List.getLast?_eq_some_getLast hne⟩
        rcases hsource : aggregateBinding source with e | binding
        · rw [hsource] at hbinding
          simp only [bind, Except.bind, if_neg hne, hbinding, Except.map]
        · rw [hsource] at hbinding
          rcases hroot : merkleRootFor merkle hashes with e | ⟨root, merkle'⟩
          · simp only [bind, Except.bind, if_neg hne, hbinding, Except.map, hroot]
          · have hcp := fun cp => @checkpointFor_eq_ok_iff _ hashes binding.1 binding.2 root cp
              (aggregateBinding_both hsource)
            simp only [bind, Except.bind, if_neg hne, hbinding, Except.map, hroot,
              pure, Except.pure, (hcp _).mpr ⟨tip, htip, rfl⟩]

end Waxseal
