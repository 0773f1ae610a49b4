import Waxseal.Adapters.AnchorHistory
import Waxseal.Log.AnchoredAggregates
import Waxseal.Log.LiveAnchoring
import Waxseal.Log.SealingGaps

/-!
# The history of a sealed log

A log that seals what it appends and publishes checkpoints through its sinks: entries are
appended and attested, under either scheme and by one instance after another, and in between
`anchor()` is called, whatever becomes of its sinks.

As long as no append raises, everything the log can be asked to verify passes, at any moment:
the chain, the attestations, each checkpoint that was filed, and each commitment to an
accumulator (`sealedLog_verifies`).
-/

namespace Waxseal

open Json

variable [Hashlib] [Interpreter]

/-! ## Runs -/

/-- A log of which one instance is open. -/
structure SealedLog where
  entries : List Entry
  files : SealFiles
  merkle : IncrementalMerkle
  anchors : Option Bytes

/-- What happens to it. -/
inductive SealedLogStep where
  /-- Another instance is opened. -/
  | opened
  /-- `append`, by an instance that seals under this scheme. -/
  | appended (scheme : FsScheme) (draft : Draft)
  /-- `anchor()`, to these sinks. -/
  | anchored (sinks : List TimedSink)

namespace SealedLog

omit [Hashlib] [Interpreter] in
/-- `entry_hashes()`. -/
def hashes (log : SealedLog) : List PyStr := log.entries.map Entry.entryHash

/-- The aggregate source of the log is its attestor. -/
def source (log : SealedLog) : AggregateSource := some (readAggregate log.files.sealagg)

/-- The first instance has been opened. -/
def start (initialKey : Bytes) : SealedLog :=
  ⟨[], (firstInstance initialKey).files, {}, none⟩

/-- `append(payload)`: the row, the forest, and the seal. -/
def append (scheme : FsScheme) (draft : Draft) (log : SealedLog) : Except Halt SealedLog := do
  let row := nextLink log.entries
  let entry ← (draft.build row.1 row.2).mapError Halt.raised
  let readBack := Except.ok (log.hashes ++ [entry.entryHash])
  let noted := noteAppendedWith readBack log.merkle entry.header.seq entry.entryHash
  let merkle ← noted.mapError Halt.raised
  let (result, files) := attestEntry (.fsHmac scheme) .quiet log.files entry
  let _ ← result
  return { log with entries := log.entries ++ [entry], merkle := merkle, files := files }

/-- `anchor()`; a sink that raises has filed its record or not. -/
def anchor (sinks : List TimedSink) (log : SealedLog) : SealedLog :=
  match anchorCheckpoint (.ok log.hashes) log.source log.merkle with
  | (.error _, merkle) => { log with merkle := merkle }
  | (.ok cp, merkle) =>
      let work := (MultiAnchorSink.loop cp (sinks.map TimedSink.sink) ⟨log.anchors, [], [], 0⟩).2
      { log with merkle := merkle, anchors := work.sidecar }

/-- One step. -/
def step (initialKey : Bytes) (log : SealedLog) : SealedLogStep → Except Halt SealedLog
  | .opened => do
      let (result, files) := openAttestor .whole initialKey log.files
      result
      return { log with files := files, merkle := {} }
  | .appended scheme draft => log.append scheme draft
  | .anchored sinks => .ok (log.anchor sinks)

/-- A run in which no append raises. -/
def run (initialKey : Bytes) (log : SealedLog) (steps : List SealedLogStep) : Except Halt SealedLog :=
  steps.foldlM (step initialKey) log

end SealedLog

/-! ## What holds of the log -/

variable {initialKey : Bytes} {log log' : SealedLog} {atts more : List (Attestation Json)}
  {agg agg' : Option (ℤ × ℤ × PyStr)} {r : SidecarRecord} {registry : VersionRegistry}

/-- What a record commits to is an accumulator the log had at some time. -/
def Committed (initialKey : Bytes) (atts : List (Attestation Json)) (agg : Option (ℤ × ℤ × PyStr))
    (r : SidecarRecord) : Prop :=
  ∀ commit ∈ r.checkpoint.aggCommit, ∀ epoch ∈ r.checkpoint.aggEpoch,
    ∃ aggStart epoch' running', agg = some (aggStart, epoch', running') ∧
      ∃ before running, before <+: atts ∧
        Accumulated initialKey before (some (aggStart, epoch, running)) ∧
        aggregateCommit epoch running = .ok commit

omit [Interpreter] in
theorem Committed.mono (h : Committed initialKey atts agg r) (hkeeps : KeepsStart agg agg') :
    Committed initialKey (atts ++ more) agg' r := by
  intro commit hcommit epoch hepoch
  obtain ⟨aggStart, epoch', running', hagg, before, running, hbefore, hrest⟩ :=
    h commit hcommit epoch hepoch
  obtain ⟨epoch'', running'', hagg'⟩ := hkeeps aggStart epoch' running' hagg
  exact ⟨aggStart, epoch'', running'', hagg', before, running,
    hbefore.trans (List.prefix_append _ _), hrest⟩

omit [Interpreter] in
/-- It passes, from the start of the accumulator of now. -/
theorem Committed.bindingPasses (h : Committed initialKey atts agg r) :
    BindingPasses atts initialKey ((agg.map Prod.fst).getD 0) r := by
  intro commit hcommit epoch hepoch
  obtain ⟨aggStart, epoch', running', rfl, before, running, ⟨later, rfl⟩, hfolds, hcommits⟩ :=
    h commit hcommit epoch hepoch
  exact hfolds.verifyAnchoredAggregate hcommits

/-- What a log holds: a trail of this build, the seals of its rows, a forest over a part of it, and
the records of its anchors, all of a kind. -/
structure SealedLog.Honest (kind : SidecarRecord → Prop) (initialKey : Bytes) (log : SealedLog)
    (atts : List (Attestation Json)) (agg : Option (ℤ × ℤ × PyStr)) (records : List SidecarRecord) :
    Prop where
  trail : GenuineTrail log.entries
  seals : HonestSeals initialKey ⟨log.files, log.entries.length⟩ atts agg
  attests : List.Forall₂ (fun att entry => att.entryHash = entry.entryHash) atts log.entries
  forest : OverPrefix log.hashes log.merkle
  lines : log.anchors.getD [] = records.flatMap SidecarRecord.line
  filed : ∀ r ∈ records, r.Filed
  /-- The texts of a checkpoint are digests, which are read as they were written. -/
  texts : ∀ r ∈ records, SidecarRecord.joinedCheckpoint r.checkpoint = r.checkpoint
  verifies : ∀ r ∈ records, verifyCheckpoint log.hashes r.checkpoint = none
  commits : ∀ r ∈ records, Committed initialKey atts agg r
  kinds : ∀ r ∈ records, kind r

/-- The sinks of a step file records of this kind only. -/
def SealedLogStep.Files (kind : SidecarRecord → Prop) : SealedLogStep → Prop
  | .opened | .appended _ _ => True
  | .anchored sinks => ∀ s ∈ sinks, ∀ cp r, s.sink.record cp = some r → kind r

variable {kind : SidecarRecord → Prop} {records : List SidecarRecord}

namespace SealedLog

theorem honest_start (kind : SidecarRecord → Prop) (initialKey : Bytes) :
    (start initialKey).Honest kind initialKey [] none [] where
  trail := genuineTrail_nil
  seals := honestSeals_first initialKey
  attests := .nil
  forest := overPrefix_empty _
  lines := rfl
  filed := List.forall_mem_nil _
  texts := List.forall_mem_nil _
  verifies := List.forall_mem_nil _
  commits := List.forall_mem_nil _
  kinds := List.forall_mem_nil _

/-! ## An append -/

omit [Hashlib] [Interpreter] in
theorem mapError_eq_ok_iff {ε ε' α : Type} {f : ε → ε'} {x : Except ε α} {a : α} :
    x.mapError f = .ok a ↔ x = .ok a := by
  cases x with
  | error e => exact ⟨nofun, nofun⟩
  | ok b => exact ⟨fun h => congrArg _ (Except.ok.inj h), fun h => congrArg _ (Except.ok.inj h)⟩

/-- What an append that does not raise has done. -/
theorem append_eq_ok {scheme : FsScheme} {draft : Draft} (h : log.append scheme draft = .ok log') :
    ∃ entry merkle att files,
      draft.build (nextLink log.entries).1 (nextLink log.entries).2 = .ok entry ∧
      noteAppendedWith (.ok (log.hashes ++ [entry.entryHash])) log.merkle entry.header.seq
        entry.entryHash = .ok merkle ∧
      attestEntry (.fsHmac scheme) .quiet log.files entry = (.ok att, files) ∧
      log' = ⟨log.entries ++ [entry], files, merkle, log.anchors⟩ := by
  obtain ⟨entry, hbuild, h⟩ := bind_eq_ok_iff.mp h
  obtain ⟨merkle, hnote, h⟩ := bind_eq_ok_iff.mp h
  rcases hattest : attestEntry (.fsHmac scheme) .quiet log.files entry with ⟨result, files⟩
  rw [hattest] at h
  obtain ⟨att, hresult, h⟩ := bind_eq_ok_iff.mp h
  have hresult : result = .ok att := hresult
  subst hresult
  exact ⟨entry, merkle, att, files, mapError_eq_ok_iff.mp hbuild, mapError_eq_ok_iff.mp hnote, hattest,
    (Except.ok.inj h).symm⟩

/-- **An append** keeps what holds. -/
theorem Honest.append {scheme : FsScheme} {draft : Draft}
    (h : log.Honest kind initialKey atts agg records) (happend : log.append scheme draft = .ok log') :
    ∃ att agg', log'.Honest kind initialKey (atts ++ [att]) agg' records := by
  obtain ⟨entry, merkle, att, files, hbuild, hnote, hattest, rfl⟩ := append_eq_ok happend
  obtain ⟨agg', hseals, hkeeps⟩ := h.seals.attested hattest
  have htrail := h.trail.append hbuild
  have hseq : entry.header.seq = (log.entries.length : ℤ) := by
    have hlink : entry.header.seq = (nextLink log.entries).1 := by
      rw [Draft.header_of_build hbuild]
    rw [hlink, nextLink_fst h.trail.linked]
  have hhashes : hashes ⟨log.entries ++ [entry], files, merkle, log.anchors⟩ =
      log.hashes ++ [entry.entryHash] := List.map_append
  refine ⟨att, agg', htrail, ?_, ?_, ?_, h.lines, h.filed, h.texts, ?_, ?_, h.kinds⟩
  · show HonestSeals initialKey ⟨files, (log.entries ++ [entry]).length⟩ _ _
    rw [List.length_append]
    exact hseals
  · obtain ⟨⟨key, value, -, -, rfl, -⟩, -⟩ := epochSealed_of_attest hattest
    exact List.rel_append h.attests (.cons rfl .nil)
  · rw [hhashes]
    have hlength : log.hashes.length = log.entries.length := List.length_map _
    have hread : (Except.ok (log.entries.length + 1) : Except PyErr ℕ).map
        (log.hashes ++ [entry.entryHash]).take = .ok (log.hashes ++ [entry.entryHash]) := by
      refine congrArg Except.ok (List.take_of_length_le ?_)
      rw [List.length_append, hlength, List.length_singleton]
    rw [hseq, ← hread] at hnote
    refine overPrefix_noteAppendedWith (h.forest.mono (List.prefix_append _ _)) ?_ hnote
    rw [← hlength, List.getElem?_concat_length]
  · intro r hr
    rw [hhashes]
    exact verifyCheckpoint_extends (h.verifies r hr)
  · intro r hr
    exact (h.commits r hr).mono hkeeps

/-! ## An anchor -/

omit [Interpreter] in
/-- The hash of an entry that was built is a digest. -/
theorem entryHash_eq_hex {entry : Entry} (h : Genuine entry) : ∃ b, entry.entryHash = hex b := by
  obtain ⟨draft, seq, prev, hbuild⟩ := h
  obtain ⟨b, -, hhash, -⟩ := Draft.build_eq_ok hbuild
  exact ⟨_, hhash⟩

omit [Hashlib] [Interpreter] in
/-- A checkpoint without pairs to join. -/
theorem joinedCheckpoint_eq_self {cp : Checkpoint} (hhash : NoSurrogatePair cp.entryHash)
    (hroot : NoSurrogatePair cp.root) (hcommit : ∀ s ∈ cp.aggCommit, NoSurrogatePair s) :
    SidecarRecord.joinedCheckpoint cp = cp := by
  obtain ⟨seq, entryHash, root, aggCommit, aggEpoch, both⟩ := cp
  have hsame : aggCommit.map joinPairs = aggCommit := by
    cases aggCommit with
    | none => rfl
    | some s => exact congrArg some (joinPairs_eq_self (hcommit s rfl))
  unfold SidecarRecord.joinedCheckpoint
  congr 1
  · exact joinPairs_eq_self hhash
  · exact joinPairs_eq_self hroot

/-- A binding is to the accumulator that was read. -/
theorem commit_of_binding {binding : Option PyStr × Option ℤ}
    (h : aggregateBinding log.source = .ok binding) {commit : PyStr} (hcommit : commit ∈ binding.1) :
    ∃ aggStart epoch running, readAggregate log.files.sealagg = .ok (some (aggStart, epoch, running)) ∧
      binding.2 = some epoch ∧ aggregateCommit epoch running = .ok commit := by
  unfold SealedLog.source at h
  rcases hread : readAggregate log.files.sealagg with e | _ | ⟨aggStart, epoch, running⟩
  · rw [hread, aggregateBinding] at h
    split_ifs at h
  · rw [hread] at h
    obtain rfl := Except.ok.inj h
    cases hcommit
  · rw [hread] at h
    obtain ⟨commit', hcommit', hbinding⟩ := bind_eq_ok_iff.mp h
    obtain rfl := Except.ok.inj hbinding
    obtain rfl := Option.some.inj hcommit
    exact ⟨aggStart, epoch, running, rfl, rfl, hcommit'⟩

/-- What `anchor()` has collected for its checkpoint. -/
theorem Honest.checkpoint (h : log.Honest kind initialKey atts agg records) {cp : Checkpoint}
    (hcp : (anchorCheckpoint (.ok log.hashes) log.source log.merkle).1 = .ok cp) :
    SidecarRecord.joinedCheckpoint cp = cp ∧ verifyCheckpoint log.hashes cp = none ∧
      ∀ sink receipt ts nonce,
        Committed initialKey atts agg (.of cp sink receipt ts nonce) := by
  obtain ⟨hashes, binding, root, merkle', hread, hbinding, hroot, hcheckpoint⟩ :=
    anchorCheckpoint_eq_ok hcp
  obtain rfl := Except.ok.inj hread
  have both := aggregateBinding_both hbinding
  have hbatch := (batchRoot_of_merkleRootFor h.forest (List.prefix_refl _) hroot).1
  have hverify := verifyCheckpoint_of_checkpointFor both (List.prefix_refl _) hbatch hcheckpoint
  obtain ⟨tip, htip, rfl⟩ := (checkpointFor_eq_ok_iff both).mp hcheckpoint
  obtain ⟨b, rfl⟩ := merkleRootFor_eq_hex hroot
  obtain ⟨entry, hentry, rfl⟩ := List.mem_map.mp (List.mem_of_mem_getLast? htip)
  obtain ⟨d, hd⟩ := entryHash_eq_hex (h.trail.genuine entry hentry)
  refine ⟨joinedCheckpoint_eq_self ?_ (noSurrogatePair_hex b) ?_, hverify, ?_⟩
  · show NoSurrogatePair entry.entryHash
    rw [hd]
    exact noSurrogatePair_hex d
  · intro s hs
    obtain ⟨aggStart, epoch, running, -, -, hcommit⟩ := commit_of_binding hbinding hs
    obtain ⟨c, rfl⟩ := aggregateCommit_eq_hex hcommit
    exact noSurrogatePair_hex c
  · intro sink receipt ts nonce commit hcommit epoch hepoch
    obtain ⟨aggStart, epoch', running, hread, hepoch', hcommit'⟩ :=
      commit_of_binding hbinding hcommit
    obtain rfl : epoch' = epoch := Option.some.inj (hepoch'.symm.trans hepoch)
    obtain rfl := Except.ok.inj (hread.symm.trans h.seals.readsAgg)
    exact ⟨aggStart, epoch', running, rfl, atts, running, List.prefix_refl _, h.seals.folds, hcommit'⟩

/-- The forest that is left by `anchorCheckpoint` is over a part of the trail again. -/
theorem Honest.anchorForest (h : log.Honest kind initialKey atts agg records) :
    OverPrefix log.hashes (anchorCheckpoint (.ok log.hashes) log.source log.merkle).2 := by
  unfold anchorCheckpoint
  rcases hsteps : anchorSteps (.ok log.hashes) log.source log.merkle with
    e | ⟨hashes, binding, root, merkle'⟩
  · exact h.forest
  · obtain ⟨hread, -, -, hroot⟩ := anchorSteps_eq_ok_iff.mp hsteps
    obtain rfl := Except.ok.inj hread
    exact (batchRoot_of_merkleRootFor h.forest (List.prefix_refl _) hroot).2

/-- **An anchor** keeps what holds. -/
theorem Honest.anchor {sinks : List TimedSink} (h : log.Honest kind initialKey atts agg records)
    (hkind : ∀ s ∈ sinks, ∀ cp r, s.sink.record cp = some r → kind r) :
    ∃ records', (log.anchor sinks).Honest kind initialKey atts agg records' := by
  have hforest := h.anchorForest
  unfold SealedLog.anchor
  rcases hcp : anchorCheckpoint (.ok log.hashes) log.source log.merkle with ⟨e | cp, merkle⟩
  · rw [hcp] at hforest
    exact ⟨records, h.trail, h.seals, h.attests, hforest, h.lines, h.filed, h.texts, h.verifies,
      h.commits, h.kinds⟩
  · rw [hcp] at hforest
    obtain ⟨htexts, hverify, hcommits⟩ := h.checkpoint (congrArg Prod.fst hcp)
    obtain ⟨k, -, -, hsidecar⟩ :=
      MultiAnchorSink.loop_called cp (sinks.map TimedSink.sink) ⟨log.anchors, [], [], 0⟩
    -- whatever the sinks raised, what they filed is of this checkpoint
    have hnew : ∀ r ∈ ((sinks.map TimedSink.sink).take k).filterMap (·.record cp),
        (r.Filed ∧ kind r) ∧ ∃ sink receipt ts nonce, r = .of cp sink receipt ts nonce := by
      intro r hr
      obtain ⟨sink, hsink, hrecord⟩ := List.mem_filterMap.mp hr
      obtain ⟨s, hs, rfl⟩ := List.mem_map.mp (List.mem_of_mem_take hsink)
      obtain ⟨result, ts, -, -, hof⟩ := RecordingAnchorSink.record_eq_some hrecord
      exact ⟨⟨(TimedSink.record_eq_some hrecord).2, hkind s hs cp r hrecord⟩, _, _, _, _, hof⟩
    refine ⟨records ++ ((sinks.map TimedSink.sink).take k).filterMap (·.record cp), h.trail, h.seals,
      h.attests, hforest, ?_, ?_, ?_, ?_, ?_, ?_⟩
    · rw [List.flatMap_append, ← h.lines, ← MultiAnchorSink.getD_filed, ← hsidecar]
    · exact List.forall_mem_append.mpr ⟨h.filed, fun r hr => (hnew r hr).1.1⟩
    · refine List.forall_mem_append.mpr ⟨h.texts, fun r hr => ?_⟩
      obtain ⟨-, sink, receipt, ts, nonce, rfl⟩ := hnew r hr
      exact htexts
    · refine List.forall_mem_append.mpr ⟨h.verifies, fun r hr => ?_⟩
      obtain ⟨-, sink, receipt, ts, nonce, rfl⟩ := hnew r hr
      exact hverify
    · refine List.forall_mem_append.mpr ⟨h.commits, fun r hr => ?_⟩
      obtain ⟨-, sink, receipt, ts, nonce, rfl⟩ := hnew r hr
      exact hcommits sink receipt ts nonce
    · exact List.forall_mem_append.mpr ⟨h.kinds, fun r hr => (hnew r hr).1.2⟩

/-! ## Runs -/

/-- **A step** keeps what holds. -/
theorem Honest.step {step : SealedLogStep} (h : log.Honest kind initialKey atts agg records)
    (hfiles : step.Files kind) (hstep : log.step initialKey step = .ok log') :
    ∃ atts' agg' records', log'.Honest kind initialKey atts' agg' records' := by
  cases step with
  | opened =>
      have hkey := h.seals.key
      cases hsealkey : log.files.sealkey with
      | none =>
          rw [hsealkey] at hkey
          cases hkey
      | some file =>
          have hopen : openAttestor .whole initialKey log.files = (.ok (), log.files) := by
            rw [openAttestor, hsealkey]
          rw [SealedLog.step, hopen] at hstep
          obtain rfl := Except.ok.inj hstep
          exact ⟨atts, agg, records, h.trail, h.seals, h.attests, overPrefix_empty _, h.lines, h.filed,
            h.texts, h.verifies, h.commits, h.kinds⟩
  | appended scheme draft =>
      obtain ⟨att, agg', hhonest⟩ := h.append hstep
      exact ⟨_, agg', records, hhonest⟩
  | anchored sinks =>
      obtain rfl := Except.ok.inj hstep
      obtain ⟨records', hhonest⟩ := h.anchor hfiles
      exact ⟨atts, agg, records', hhonest⟩

/-- **A run** keeps what holds. -/
theorem Honest.run {steps : List SealedLogStep} (h : log.Honest kind initialKey atts agg records)
    (hfiles : ∀ step ∈ steps, step.Files kind) (hrun : log.run initialKey steps = .ok log') :
    ∃ atts' agg' records', log'.Honest kind initialKey atts' agg' records' := by
  induction steps generalizing log atts agg records with
  | nil =>
      obtain rfl := Except.ok.inj hrun
      exact ⟨atts, agg, records, h⟩
  | cons step steps ih =>
      rw [SealedLog.run, List.foldlM_cons] at hrun
      obtain ⟨middle, hstep, hrest⟩ := bind_eq_ok_iff.mp hrun
      rw [List.forall_mem_cons] at hfiles
      obtain ⟨atts', agg', records', hmiddle⟩ := h.step hfiles.1 hstep
      exact ih hmiddle hfiles.2 hrest

/-- A log after a run, whatever its sinks file. -/
theorem honest_run {steps : List SealedLogStep} (hrun : (start initialKey).run initialKey steps = .ok log) :
    ∃ atts agg records, log.Honest (fun _ => True) initialKey atts agg records := by
  refine (honest_start _ initialKey).run (fun step _ => ?_) hrun
  cases step with
  | opened => trivial
  | appended scheme draft => trivial
  | anchored sinks => exact fun _ _ _ _ _ => trivial

end SealedLog

/-! ## What it verifies as -/

omit [Interpreter] in
/-- Attestations that are those of the rows are no mismatch. -/
theorem trailMismatch_of_attests {entries : List Entry} (h : Attests registry atts entries) :
    trailMismatch registry atts entries = .ok none := by
  induction h with
  | nil => rfl
  | cons hexpected _ ih =>
      refine bind_eq_ok_iff.mpr ⟨_, hexpected, ?_⟩
      simp only [ne_eq, not_true_eq_false, if_false]
      exact ih

namespace SealedLog

/-- The attestations are what any registry expects. -/
theorem Honest.expected (h : log.Honest kind initialKey atts agg records) (registry : VersionRegistry) :
    Attests registry atts log.entries := by
  have hgenuine := h.trail.genuine
  refine List.forall₂_iff_get.mpr ⟨h.attests.length_eq, ?_⟩
  intro i hi hi'
  rw [(hgenuine _ (List.get_mem _ _)).expectedHash registry]
  exact congrArg Except.ok ((List.forall₂_iff_get.mp h.attests).2 i hi hi').symm

/-- The aggregate of the log passes. -/
theorem Honest.aggregate (h : log.Honest kind initialKey atts agg records) (result : AttestResult) :
    verifySealedAggregate log.files.sealagg atts initialKey result = .ok result := by
  refine bind_eq_ok_iff.mpr ⟨some agg, orMalformed_eq_ok_some_iff.mpr h.seals.readsAgg, ?_⟩
  have hfolds := h.seals.folds
  cases agg with
  | none =>
      cases hfolds with
      | missing hnone =>
          have hany : ¬ atts.any (·.scheme = fsHmacAggScheme) = true := by
            simpa using hnone
          simp only [if_neg hany]
          rfl
  | some state =>
      obtain ⟨aggStart, epoch, running⟩ := state
      exact bind_eq_ok_iff.mpr ⟨none, hfolds.verifyAggregate, rfl⟩

/-- **The sidecar passes.** -/
theorem Honest.verifySidecar (h : log.Honest kind initialKey atts agg records)
    (registry : VersionRegistry) (scheme : FsScheme) :
    verifySidecar registry (.fsHmac scheme) log.files log.entries (some initialKey) none =
      .ok (.passed log.entries.length []) := by
  have hattests := h.expected registry
  refine bind_eq_ok_iff.mpr ⟨some atts, orMalformed_eq_ok_some_iff.mpr h.seals.reads,
    bind_eq_ok_iff.mpr ⟨none, trailMismatch_of_attests hattests, ?_⟩⟩
  have hcount : atts.length = log.entries.length := h.seals.count
  simp only [hcount, lt_irrefl, if_false]
  have hcontinuous := h.seals.checkContinuity (.fsHmac scheme)
  refine bind_eq_ok_iff.mpr ⟨none, ?_, ?_⟩
  · rw [continuityReason]
    exact bind_eq_ok_iff.mpr ⟨some none, orMalformed_eq_ok_some_iff.mpr hcontinuous, rfl⟩
  · show verifySealed log.files.sealagg atts initialKey = _
    have hseals := verifySeals_sealed h.seals.seals h.seals.schemes
    have hok : (AttestResult.passed atts.length []).ok = true := rfl
    rw [verifySealed, hseals, if_pos hok, h.aggregate, hcount]

/-- **The records are read back**, with the checkpoints they were filed with. -/
theorem Honest.readAnchorRecords (h : log.Honest kind initialKey atts agg records) :
    readAnchorRecords log.anchors = .ok ⟨records.map SidecarRecord.joined, []⟩ := by
  rw [readAnchorRecords_getD, h.lines]
  exact SidecarRecord.readAnchorRecords_lines h.filed

/-- The commitments pass. -/
theorem Honest.bindingPasses (h : log.Honest kind initialKey atts agg records) :
    ∀ r ∈ records.map SidecarRecord.joined,
      BindingPasses atts initialKey ((agg.map Prod.fst).getD 0) r := by
  rw [List.forall_mem_map]
  intro r hr
  have hpasses := (h.commits r hr).bindingPasses
  unfold BindingPasses at hpasses ⊢
  rwa [show r.joined.checkpoint = r.checkpoint from h.texts r hr]

end SealedLog

/-- What is reported of records that all pass. -/
def anchoredVerdict (records : List SidecarRecord) : AttestResult :=
  if records = [] then ⟨true, 0, none, some .noAnchorsRecorded, []⟩
  else anchoredReport false 0 [] records

/-- **A sealed log verifies at any moment of its history**: its chain, its attestations, each
checkpoint it has filed, and each commitment to an accumulator. -/
theorem sealedLog_verifies (initialKey : Bytes) (steps : List SealedLogStep) (log : SealedLog)
    (hrun : (SealedLog.start initialKey).run initialKey steps = .ok log) :
    verifyChain log.entries .new = .ok ⟨true, log.entries.length, none, none, [], none, none⟩ ∧
    (∀ registry scheme,
      verifySidecar registry (.fsHmac scheme) log.files log.entries (some initialKey) none =
        .ok (.passed log.entries.length [])) ∧
    ∃ records, readAnchorRecords log.anchors = .ok ⟨records, []⟩ ∧
      (∀ r ∈ records, verifyCheckpoint log.hashes r.checkpoint = none) ∧
      verifyAnchoredAggregates log.source log.files.attest log.anchors initialKey =
        .ok (anchoredVerdict records) := by
  obtain ⟨atts, agg, records, h⟩ := SealedLog.honest_run hrun
  refine ⟨verifyChain_genuine h.trail, h.verifySidecar, _, h.readAnchorRecords, ?_, ?_⟩
  · rw [List.forall_mem_map]
    intro r hr
    rw [show r.joined.checkpoint = r.checkpoint from h.texts r hr]
    exact h.verifies r hr
  · have hstart : aggregateStart log.source = .ok ((agg.map Prod.fst).getD 0) := by
      rw [SealedLog.source, h.seals.readsAgg]
      rfl
    unfold anchoredVerdict
    split_ifs with hnil
    · have hanchors := h.readAnchorRecords
      rw [hnil] at hanchors
      exact bind_eq_ok_iff.mpr ⟨_, hstart,
        bind_eq_ok_iff.mpr ⟨_, orMalformed_eq_ok_some_iff.mpr hanchors, rfl⟩⟩
    · exact verifyAnchoredAggregates_of_passes hstart h.readAnchorRecords hnil h.seals.reads
        h.bindingPasses

omit [Hashlib] [Interpreter] in
/-- 2025 is before the last second a `datetime` holds. -/
theorem anchoredSecond_lt : 1735689600 < 253402300800 := by decide

/-- An entry under the aggregate scheme, an anchor of it, and another instance. -/
def anchoredRun : List SealedLogStep :=
  [.appended .aggregate sealDraft, .anchored [fileSink (atSecond 1735689600 anchoredSecond_lt)],
    .opened]

omit [Hashlib] [Interpreter] in
/-- The run does not raise, and leaves one entry. -/
theorem anchoredRun_runs :
    letI := Sha256.hashlib
    letI := Interpreter.plain
    ∃ log, (SealedLog.start []).run [] anchoredRun = .ok log ∧ log.entries.length = 1 := by
  let _ := Sha256.hashlib
  let _ := Interpreter.plain
  have hcount : (((SealedLog.start []).run [] anchoredRun).toOption.map fun log =>
      log.entries.length) = some 1 := by decide +kernel
  rcases hrun : (SealedLog.start []).run [] anchoredRun with why | log
  · rw [hrun] at hcount
    cases hcount
  · rw [hrun] at hcount
    exact ⟨log, rfl, Option.some.inj hcount⟩

omit [Hashlib] [Interpreter] in
/-- Its entry verifies. -/
theorem sealedLog_verifies_anchored :
    letI := Sha256.hashlib
    letI := Interpreter.plain
    ∃ log : SealedLog, log.entries.length = 1 ∧
      verifySidecar .new (.fsHmac .plain) log.files log.entries (some []) none =
        .ok (.passed 1 []) := by
  let _ := Sha256.hashlib
  let _ := Interpreter.plain
  obtain ⟨log, hrun, hone⟩ := anchoredRun_runs
  obtain ⟨-, hsidecar, -⟩ := sealedLog_verifies [] anchoredRun log hrun
  refine ⟨log, hone, ?_⟩
  rw [hsidecar, hone]

end Waxseal
