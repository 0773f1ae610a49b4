import Waxseal.Domain.IncrementalMerkle
import Waxseal.Log.Checkpoints

/-!
# Checkpoints of a live log

Any number of `AuditLog` instances write to one chain while checkpoints of it are taken.  An
append holds the lock of its instance from the row to the forest; `anchor()` reads the hashes
outside that lock, and takes it only for the root.  Between these steps anything else may
happen (`Live.step`).

Every forest is over some prefix of the chain, whoever wrote it (`Live.Sound`), so a root
taken from it is the batch root of the hashes it is published for (`checkpoints_live`).
-/

namespace Waxseal

/-- An `AuditLog` on the chain. -/
structure LogInstance where
  merkle : IncrementalMerkle := {}
  /-- The row an `append` that holds the lock has stored, still to be noted. -/
  pending : Option (ℕ × PyStr) := none

/-- How far a call of `anchor()` is. -/
inductive AnchorStage where
  /-- It has read the hashes. -/
  | read (hashes : List PyStr)
  /-- It has read the aggregate binding. -/
  | bound (hashes : List PyStr) (binding : Option PyStr × Option ℤ)
  /-- It has taken the root, in the lock. -/
  | rooted (hashes : List PyStr) (binding : Option PyStr × Option ℤ) (root : PyStr)

/-- The entry hashes of the chain, the instances on it, the calls of `anchor()` under way,
each with its instance, and the checkpoints handed to a sink. -/
structure Live where
  chain : List PyStr
  log : ℕ → LogInstance
  anchors : ℕ → Option (ℕ × AnchorStage)
  published : List Checkpoint

/-- What can happen next. -/
inductive LiveStep where
  /-- A row of a writer that keeps no forest here, or of an `append` that fails after its
  write. -/
  | row (entryHash : PyStr)
  /-- An instance goes, and one with an empty forest is opened. -/
  | reopen (i : ℕ)
  /-- An `append` takes the lock and stores its row. -/
  | append (i : ℕ) (entryHash : PyStr)
  /-- It notes the row and gives the lock back.  Where it reads the trail back it sees this
  many rows, or fails. -/
  | note (i : ℕ) (readBack : Except PyErr ℕ)
  /-- A call of `anchor()` sees this many rows. -/
  | read (call i n : ℕ)
  | bind (call : ℕ) (source : AggregateSource)
  | root (call : ℕ)
  | publish (call : ℕ)
  /-- It fails. -/
  | fail (call : ℕ)

/-- A chain with nothing open on it. -/
def Live.start (chain : List PyStr) : Live := ⟨chain, fun _ => {}, fun _ => none, []⟩

namespace Live

/-- The instance after its call. -/
def setLog (s : Live) (i : ℕ) (log : LogInstance) : Live :=
  { s with log := Function.update s.log i log }

/-- The call of `anchor()` goes on, or ends. -/
def setAnchor (s : Live) (call : ℕ) (stage : Option (ℕ × AnchorStage)) : Live :=
  { s with anchors := Function.update s.anchors call stage }

@[simp] theorem setLog_log_self (s : Live) (i : ℕ) (log : LogInstance) :
    (s.setLog i log).log i = log := Function.update_self ..

theorem setLog_log_of_ne (s : Live) {i j : ℕ} (log : LogInstance) (h : j ≠ i) :
    (s.setLog i log).log j = s.log j := Function.update_of_ne h ..

@[simp] theorem setAnchor_anchors_self (s : Live) (call : ℕ) (stage : Option (ℕ × AnchorStage)) :
    (s.setAnchor call stage).anchors call = stage := Function.update_self ..

theorem setAnchor_anchors_of_ne (s : Live) {call call' : ℕ} (stage : Option (ℕ × AnchorStage))
    (h : call' ≠ call) : (s.setAnchor call stage).anchors call' = s.anchors call' :=
  Function.update_of_ne h ..

@[simp] theorem setAnchor_setAnchor (s : Live) (call : ℕ)
    (stage stage' : Option (ℕ × AnchorStage)) :
    (s.setAnchor call stage).setAnchor call stage' = s.setAnchor call stage' := by
  rw [setAnchor, setAnchor, setAnchor, Function.update_idem]

variable [Hashlib]

/-- A step that is not possible changes nothing. -/
def step (s : Live) : LiveStep → Live
  | .row entryHash => { s with chain := s.chain ++ [entryHash] }
  | .reopen i => s.setLog i {}
  | .append i entryHash =>
      match (s.log i).pending with
      | some _ => s
      | none =>
          { s with chain := s.chain ++ [entryHash] }.setLog i
            { s.log i with pending := some (s.chain.length, entryHash) }
  | .note i readBack =>
      match (s.log i).pending with
      | none => s
      | some (seq, entryHash) =>
          match noteAppendedWith (readBack.map s.chain.take) (s.log i).merkle seq entryHash with
          | .ok merkle => s.setLog i { merkle := merkle }
          | .error _ => s.setLog i { merkle := (s.log i).merkle }
  | .read call i n =>
      match s.anchors call with
      | some _ => s
      | none =>
          if s.chain.take n = [] then s else s.setAnchor call (some (i, .read (s.chain.take n)))
  | .bind call source =>
      match s.anchors call with
      | some (i, .read hashes) =>
          match aggregateBinding source with
          | .ok binding => s.setAnchor call (some (i, .bound hashes binding))
          | .error _ => s.setAnchor call none
      | _ => s
  | .root call =>
      match s.anchors call with
      | some (i, .bound hashes binding) =>
          if (s.log i).pending.isSome then s
          else
            match merkleRootFor (s.log i).merkle hashes with
            | .ok (root, merkle) =>
                (s.setLog i { merkle := merkle }).setAnchor call
                  (some (i, .rooted hashes binding root))
            | .error _ => s.setAnchor call none
      | _ => s
  | .publish call =>
      match s.anchors call with
      | some (_, .rooted hashes binding root) =>
          match checkpointFor hashes binding.1 binding.2 (some root) with
          | .ok cp => { s with published := s.published ++ [cp] }.setAnchor call none
          | .error _ => s.setAnchor call none
      | _ => s
  | .fail call => s.setAnchor call none

def run (s : Live) (steps : List LiveStep) : Live := steps.foldl step s

end Live

variable [Hashlib]

/-! ## Forests over prefixes of the chain -/

/-- The forest is over a prefix of the chain. -/
def OverPrefix (chain : List PyStr) (merkle : IncrementalMerkle) : Prop :=
  ∃ hashes, hashes <+: chain ∧ IncrementalMerkle.fromHashes hashes = .ok merkle

theorem OverPrefix.mono {chain chain' : List PyStr} {merkle : IncrementalMerkle}
    (h : OverPrefix chain merkle) (hchain : chain <+: chain') : OverPrefix chain' merkle := by
  obtain ⟨hashes, hprefix, hmerkle⟩ := h
  exact ⟨hashes, hprefix.trans hchain, hmerkle⟩

theorem overPrefix_empty (chain : List PyStr) : OverPrefix chain {} :=
  ⟨[], List.nil_prefix, rfl⟩

/-- **A noted row leaves a forest over a prefix.**  The forest that has as many leaves as the
row has rows before it is over exactly these. -/
theorem overPrefix_noteAppendedWith {chain : List PyStr} {merkle merkle' : IncrementalMerkle}
    {seq : ℕ} {entryHash : PyStr} {readBack : Except PyErr ℕ} (h : OverPrefix chain merkle)
    (hrow : chain[seq]? = some entryHash)
    (hnote : noteAppendedWith (readBack.map chain.take) merkle seq entryHash = .ok merkle') :
    OverPrefix chain merkle' := by
  rw [noteAppendedWith] at hnote
  split_ifs at hnote with hsize
  · obtain ⟨hashes, hprefix, hmerkle⟩ := h
    obtain ⟨leaves, hcovers⟩ := covers_fromHashes hmerkle
    have hlength : hashes.length = seq := by
      rw [← hcovers.size]
      exact_mod_cast hsize
    obtain ⟨hlt, rfl⟩ := List.getElem?_eq_some_iff.mp hrow
    refine ⟨hashes ++ [chain[seq]], ?_, ?_⟩
    · rw [List.prefix_iff_eq_take.mp hprefix, hlength, ← List.take_succ_eq_append_getElem hlt]
      exact List.take_prefix _ _
    · rw [fromHashes_append_singleton, hmerkle]
      exact hnote
  · obtain ⟨hashes, hread, hmerkle⟩ := bind_eq_ok_iff.mp hnote
    cases readBack with
    | error e => cases hread
    | ok n =>
        obtain rfl := Except.ok.inj hread
        exact ⟨_, List.take_prefix _ _, hmerkle⟩

/-- **The root taken from a forest over a prefix** is the batch root of the hashes it is taken
for, and the forest kept is over a prefix again. -/
theorem batchRoot_of_merkleRootFor {chain hashes : List PyStr} {merkle merkle' : IncrementalMerkle}
    {root : PyStr} (h : OverPrefix chain merkle) (hhashes : hashes <+: chain)
    (hroot : merkleRootFor merkle hashes = .ok (root, merkle')) :
    batchRoot hashes = .ok root ∧ OverPrefix chain merkle' := by
  have rebuilt : ∀ {tree : IncrementalMerkle}, IncrementalMerkle.fromHashes hashes = .ok tree →
      batchRoot hashes = .ok tree.root ∧ OverPrefix chain tree := fun htree =>
    ⟨batchRoot_of_fromHashes htree, hashes, hhashes, htree⟩
  rw [merkleRootFor] at hroot
  split_ifs at hroot with hsize hlast hzero
  · obtain ⟨tree, htree, heq⟩ := bind_eq_ok_iff.mp hroot
    obtain ⟨rfl, rfl⟩ := Prod.mk.inj (Except.ok.inj heq)
    exact rebuilt htree
  · obtain ⟨rfl, rfl⟩ := Prod.mk.inj (Except.ok.inj hroot)
    refine ⟨?_, h⟩
    -- two prefixes of one chain with one length are one list
    obtain ⟨kept, hkept, hmerkle⟩ := h
    obtain ⟨leaves, hcovers⟩ := covers_fromHashes hmerkle
    have hlength : kept.length = hashes.length := hcovers.size.symm.trans hsize
    obtain rfl : kept = hashes := by
      rw [List.prefix_iff_eq_take.mp hkept, List.prefix_iff_eq_take.mp hhashes, hlength]
    exact batchRoot_of_fromHashes hmerkle
  · obtain ⟨tree, htree, heq⟩ := bind_eq_ok_iff.mp hroot
    obtain ⟨rfl, rfl⟩ := Prod.mk.inj (Except.ok.inj heq)
    exact rebuilt htree
  · obtain ⟨tree, htree, heq⟩ := bind_eq_ok_iff.mp hroot
    obtain ⟨rfl, rfl⟩ := Prod.mk.inj (Except.ok.inj heq)
    exact ⟨(rebuilt htree).1, h⟩

/-- A checkpoint made from a prefix and its root verifies against the chain. -/
theorem verifyCheckpoint_of_checkpointFor {chain hashes : List PyStr}
    {binding : Option PyStr × Option ℤ} {root : PyStr} {cp : Checkpoint}
    (both : binding.1.isSome = binding.2.isSome) (hhashes : hashes <+: chain)
    (hroot : batchRoot hashes = .ok root)
    (hcp : checkpointFor hashes binding.1 binding.2 (some root) = .ok cp) :
    verifyCheckpoint chain cp = none := by
  obtain ⟨tip, htip, rfl⟩ := (checkpointFor_eq_ok_iff both).mp hcp
  obtain ⟨more, rfl⟩ := hhashes
  have hpos : 0 < hashes.length :=
    List.length_pos_iff.mpr fun h => by rw [h] at htip; cases htip
  refine verifyCheckpoint_extends (verifyCheckpoint_eq_none_iff.mpr ⟨hashes.length - 1, ?_, ?_, ?_⟩)
  · dsimp only
    omega
  · rw [← List.getLast?_eq_getElem?]
    exact htip
  · rwa [Nat.sub_add_cancel hpos, List.take_length]

/-! ## The invariant -/

/-- What a call of `anchor()` has collected so far. -/
def AnchorStage.Sound (chain : List PyStr) : AnchorStage → Prop
  | .read hashes => hashes <+: chain
  | .bound hashes binding => hashes <+: chain ∧ binding.1.isSome = binding.2.isSome
  | .rooted hashes binding root =>
      hashes <+: chain ∧ binding.1.isSome = binding.2.isSome ∧ batchRoot hashes = .ok root

theorem AnchorStage.Sound.mono {chain chain' : List PyStr} {stage : AnchorStage}
    (h : stage.Sound chain) (hchain : chain <+: chain') : stage.Sound chain' := by
  cases stage with
  | read hashes => exact h.trans hchain
  | bound hashes binding => exact ⟨h.1.trans hchain, h.2⟩
  | rooted hashes binding root => exact ⟨h.1.trans hchain, h.2⟩

/-- What an instance holds. -/
structure LogInstance.Sound (chain : List PyStr) (log : LogInstance) : Prop where
  forest : OverPrefix chain log.merkle
  pending : ∀ row ∈ log.pending, chain[row.1]? = some row.2

theorem LogInstance.Sound.mono {chain chain' : List PyStr} {log : LogInstance}
    (h : log.Sound chain) (hchain : chain <+: chain') : log.Sound chain' where
  forest := h.forest.mono hchain
  pending := fun row hrow => by
    obtain ⟨more, rfl⟩ := hchain
    have hnoted := h.pending row hrow
    rwa [List.getElem?_append_left (List.getElem?_eq_some_iff.mp hnoted).1]

/-- An instance whose lock is free. -/
theorem LogInstance.sound_of_forest {chain : List PyStr} {merkle : IncrementalMerkle}
    (h : OverPrefix chain merkle) : LogInstance.Sound chain { merkle := merkle } :=
  ⟨h, nofun⟩

namespace Live

/-- Every forest is over a prefix of the chain, every call of `anchor()` has read a prefix of
it, and every checkpoint published verifies against it. -/
structure Sound (s : Live) : Prop where
  log : ∀ i, (s.log i).Sound s.chain
  anchors : ∀ call i stage, s.anchors call = some (i, stage) → stage.Sound s.chain
  published : ∀ cp ∈ s.published, verifyCheckpoint s.chain cp = none

variable {s : Live}

theorem sound_start (chain : List PyStr) : (start chain).Sound where
  log := fun _ => LogInstance.sound_of_forest (overPrefix_empty chain)
  anchors := nofun
  published := List.forall_mem_nil _

/-- A row more on the chain. -/
theorem Sound.row (h : s.Sound) (entryHash : PyStr) :
    Sound { s with chain := s.chain ++ [entryHash] } where
  log := fun i => (h.log i).mono (List.prefix_append _ _)
  anchors := fun call i stage hstage =>
    (h.anchors call i stage hstage).mono (List.prefix_append _ _)
  published := fun cp hcp => verifyCheckpoint_extends (h.published cp hcp)

theorem Sound.setLog (h : s.Sound) (i : ℕ) {log : LogInstance} (hlog : log.Sound s.chain) :
    (s.setLog i log).Sound where
  log := fun j => by
    by_cases hj : j = i
    · subst hj
      rwa [setLog_log_self]
    · rw [setLog_log_of_ne s log hj]
      exact h.log j
  anchors := h.anchors
  published := h.published

theorem Sound.setAnchor (h : s.Sound) (call : ℕ) {anchor : Option (ℕ × AnchorStage)}
    (hanchor : ∀ i stage, anchor = some (i, stage) → stage.Sound s.chain) :
    (s.setAnchor call anchor).Sound where
  log := h.log
  anchors := fun call' i stage hstage => by
    by_cases hcall : call' = call
    · subst hcall
      rw [setAnchor_anchors_self] at hstage
      exact hanchor i stage hstage
    · rw [setAnchor_anchors_of_ne s anchor hcall] at hstage
      exact h.anchors call' i stage hstage
  published := h.published

/-- A call of `anchor()` goes on. -/
theorem Sound.goOn (h : s.Sound) (call i : ℕ) {stage : AnchorStage} (hstage : stage.Sound s.chain) :
    (s.setAnchor call (some (i, stage))).Sound :=
  h.setAnchor call fun _ _ heq => (Prod.mk.inj (Option.some.inj heq)).2 ▸ hstage

/-- It ends. -/
theorem Sound.endAnchor (h : s.Sound) (call : ℕ) : (s.setAnchor call none).Sound :=
  h.setAnchor call nofun

theorem Sound.publish (h : s.Sound) {cp : Checkpoint} (hcp : verifyCheckpoint s.chain cp = none) :
    Sound { s with published := s.published ++ [cp] } where
  log := h.log
  anchors := h.anchors
  published := fun cp' hcp' => by
    rcases List.mem_append.mp hcp' with hold | hnew
    · exact h.published cp' hold
    · rwa [List.mem_singleton.mp hnew]

/-- **Every step keeps the invariant.** -/
theorem Sound.step (h : s.Sound) (a : LiveStep) : (s.step a).Sound := by
  cases a with
  | row entryHash => exact h.row entryHash
  | reopen i => exact h.setLog i (LogInstance.sound_of_forest (overPrefix_empty _))
  | append i entryHash =>
      dsimp only [Live.step]
      split
      · exact h
      · refine (h.row entryHash).setLog i ⟨((h.row entryHash).log i).forest, ?_⟩
        intro row hrow
        obtain rfl := Option.some.inj hrow
        exact List.getElem?_concat_length
  | note i readBack =>
      dsimp only [Live.step]
      split
      · exact h
      · next seq entryHash hpending =>
          split
          · next merkle hnote =>
              exact h.setLog i (LogInstance.sound_of_forest (overPrefix_noteAppendedWith
                (h.log i).forest ((h.log i).pending _ hpending) hnote))
          · exact h.setLog i (LogInstance.sound_of_forest (h.log i).forest)
  | read call i n =>
      dsimp only [Live.step]
      split
      · exact h
      · split_ifs
        · exact h
        · exact h.goOn call i (List.take_prefix n s.chain)
  | bind call source =>
      dsimp only [Live.step]
      split
      · next i hashes hstage =>
          split
          · next binding hbinding =>
              exact h.goOn call i ⟨h.anchors call i _ hstage, aggregateBinding_both hbinding⟩
          · exact h.endAnchor call
      · exact h
  | root call =>
      dsimp only [Live.step]
      split
      · next i hashes binding hstage =>
          obtain ⟨hhashes, both⟩ := h.anchors call i _ hstage
          split_ifs
          · exact h
          · split
            · next root merkle hroot =>
                obtain ⟨hbatch, hforest⟩ :=
                  batchRoot_of_merkleRootFor (h.log i).forest hhashes hroot
                exact (h.setLog i (LogInstance.sound_of_forest hforest)).goOn call i
                  ⟨hhashes, both, hbatch⟩
            · exact h.endAnchor call
      · exact h
  | publish call =>
      dsimp only [Live.step]
      split
      · next i hashes binding root hstage =>
          obtain ⟨hhashes, both, hbatch⟩ := h.anchors call i _ hstage
          split
          · next cp hcp =>
              exact (h.publish (verifyCheckpoint_of_checkpointFor both hhashes hbatch hcp)).endAnchor
                call
          · exact h.endAnchor call
      · exact h
  | fail call => exact h.endAnchor call

theorem Sound.run (h : s.Sound) (steps : List LiveStep) : (s.run steps).Sound := by
  induction steps generalizing s with
  | nil => exact h
  | cons a steps ih => exact ih (h.step a)

/-- The chain only grows. -/
theorem chain_step (s : Live) (a : LiveStep) : s.chain <+: (s.step a).chain := by
  cases a with
  | row entryHash => exact List.prefix_append _ _
  | append i entryHash =>
      dsimp only [Live.step]
      split
      · exact List.prefix_rfl
      · exact List.prefix_append _ _
  | _ =>
      dsimp only [Live.step]
      repeat' split
      all_goals exact List.prefix_rfl

theorem chain_run (s : Live) (steps : List LiveStep) : s.chain <+: (s.run steps).chain := by
  induction steps generalizing s with
  | nil => exact List.prefix_rfl
  | cons a steps ih => exact (chain_step s a).trans (ih (s.step a))

/-- **An `anchor()` that nothing comes between** is the anchoring of one instance. -/
theorem run_anchor {i call : ℕ} {source : AggregateSource} {cp : Checkpoint}
    {merkle : IncrementalMerkle} (free : (s.log i).pending = none) (hcall : s.anchors call = none)
    (h : anchorCheckpoint (.ok s.chain) source (s.log i).merkle = (.ok cp, merkle)) :
    s.run [.read call i s.chain.length, .bind call source, .root call, .publish call]
      = { s.setLog i { merkle := merkle } with
          published := s.published ++ [cp] }.setAnchor call none := by
  rw [anchorCheckpoint] at h
  rcases hsteps : anchorSteps (.ok s.chain) source (s.log i).merkle with
    e | ⟨hashes, binding, root, merkle'⟩
  · rw [hsteps] at h
    cases congrArg Prod.fst h
  · rw [hsteps] at h
    obtain ⟨hcp, rfl⟩ := Prod.mk.inj h
    obtain ⟨hread, hne, hbinding, hroot⟩ := anchorSteps_eq_ok_iff.mp hsteps
    obtain rfl := Except.ok.inj hread
    have hreadStep : s.step (.read call i s.chain.length)
        = s.setAnchor call (some (i, .read s.chain)) := by
      dsimp only [Live.step]
      rw [hcall, List.take_length]
      exact if_neg hne
    have hbindStep : (s.setAnchor call (some (i, .read s.chain))).step (.bind call source)
        = s.setAnchor call (some (i, .bound s.chain binding)) := by
      dsimp only [Live.step]
      rw [setAnchor_anchors_self]
      dsimp only
      rw [hbinding]
      exact setAnchor_setAnchor ..
    have hrootStep : (s.setAnchor call (some (i, .bound s.chain binding))).step (.root call)
        = (s.setLog i { merkle := merkle' }).setAnchor call
            (some (i, .rooted s.chain binding root)) := by
      have hfree : ((s.setAnchor call (some (i, .bound s.chain binding))).log i).pending = none :=
        free
      have hforest : merkleRootFor
          ((s.setAnchor call (some (i, .bound s.chain binding))).log i).merkle s.chain
            = .ok (root, merkle') := hroot
      dsimp only [Live.step]
      rw [setAnchor_anchors_self]
      dsimp only
      rw [hfree, hforest]
      exact setAnchor_setAnchor (s.setLog i { merkle := merkle' }) call _ _
    rw [run, List.foldl_cons, hreadStep, List.foldl_cons, hbindStep, List.foldl_cons, hrootStep,
      List.foldl_cons, List.foldl_nil]
    dsimp only [Live.step]
    rw [setAnchor_anchors_self]
    dsimp only
    rw [hcp]
    exact setAnchor_setAnchor { s.setLog i { merkle := merkle' } with
      published := s.published ++ [cp] } call _ _

end Live

/-- **The checkpoints of a live log are correct.**  After any steps of any number of writers
and any calls of `anchor()` on one chain, every checkpoint published has the entry hash at
its position and the batch root up to there, and verifies against the chain and all its
extensions. -/
theorem checkpoints_live (chain : List PyStr) (steps : List LiveStep) :
    ∀ cp ∈ ((Live.start chain).run steps).published,
      (∃ seq : ℕ, cp.seq = seq ∧
        ((Live.start chain).run steps).chain[seq]? = some cp.entryHash ∧
        batchRoot (((Live.start chain).run steps).chain.take (seq + 1)) = .ok cp.root) ∧
      (∀ more, verifyCheckpoint (((Live.start chain).run steps).chain ++ more) cp = none) ∧
      ∀ later, verifyCheckpoint (((Live.start chain).run steps).run later).chain cp = none := by
  intro cp hcp
  have hverify := ((Live.sound_start chain).run steps).published cp hcp
  refine ⟨verifyCheckpoint_eq_none_iff.mp hverify, fun more => verifyCheckpoint_extends hverify,
    fun later => ?_⟩
  obtain ⟨more, hmore⟩ := Live.chain_run ((Live.start chain).run steps) later
  rw [← hmore]
  exact verifyCheckpoint_extends hverify

/-- An instance that falls behind another writer, is caught up, and is anchored while a row
comes in. -/
def overtaken : List LiveStep :=
  [.append 0 (str "00"), .row (str "11"), .note 0 (.ok 2), .append 0 (str "22"), .read 0 0 3,
    .row (str "33"), .note 0 (.ok 4), .bind 0 none, .root 0, .publish 0]

omit [Hashlib] in
theorem checkpoints_live_overtaken :
    letI := Sha256.hashlib
    ∃ cp ∈ ((Live.start []).run overtaken).published, cp.seq = 2 ∧
      verifyCheckpoint (((Live.start []).run overtaken).chain ++ [str "44"]) cp = none := by
  let _ := Sha256.hashlib
  have hseq : ((Live.start []).run overtaken).published.map (·.seq) = [2] := by decide +kernel
  obtain ⟨cp, hcp, htwo⟩ := List.mem_map.mp (hseq ▸ List.mem_singleton_self (2 : ℤ))
  exact ⟨cp, hcp, htwo, (checkpoints_live [] overtaken cp hcp).2.1 _⟩

end Waxseal
