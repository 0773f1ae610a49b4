import Waxseal.Adapters.Attest
import Waxseal.Domain.Aggregates
import Waxseal.Log.Checkpoints

/-!
# Honest sealing

A trail is sealed by instances of `FileAttestor` that share one initial key: each attests the
entry that comes next, under the scheme it was made with.  `HonestSeals` is what the three
sidecars hold after any such run in which no call has raised.  `sealStep_honest` carries it
through a step, `sealRun_honest` through a run, and a trail that satisfies it verifies
(`honest_seals_verify`).
-/

namespace Waxseal

open Json

variable [Hashlib] [Interpreter]

/-- A step of a run: another instance is made, or an instance with a scheme attests the next
entry. -/
inductive SealStep where
  | opened
  | attested (scheme : FsScheme) (entryHash : PyStr)

/-- The sidecars, and how many entries have been attested. -/
structure SealState where
  files : SealFiles
  count : ℕ

/-- The first instance has been made. -/
def firstInstance (initialKey : Bytes) : SealState :=
  ⟨(openAttestor .whole initialKey ⟨none, none, none⟩).2, 0⟩

/-- One step, over a chain whose first entry has the seq `start`. -/
def sealStep (initialKey : Bytes) (start : ℤ) (state : SealState) :
    SealStep → Except Halt SealState
  | .opened => do
      let (result, files) := openAttestor .whole initialKey state.files
      result
      return { state with files := files }
  | .attested scheme entryHash => do
      let (result, files) := attest (.fsHmac scheme) .quiet state.files (start + state.count) entryHash
      let _ ← result
      return ⟨files, state.count + 1⟩

/-- A run in which no call raises. -/
def sealRun (initialKey : Bytes) (start : ℤ) (state : SealState) (steps : List SealStep) :
    Except Halt SealState :=
  steps.foldlM (sealStep initialKey start) state

/-- What the sidecars hold: the key of the next epoch, the attestations, each with the seal of
its epoch, and the accumulator over them. -/
structure HonestSeals (initialKey : Bytes) (state : SealState) (atts : List (Attestation Json))
    (agg : Option (ℤ × ℤ × PyStr)) : Prop where
  count : atts.length = state.count
  key : readKey state.files.sealkey = .ok ((state.count : ℤ), epochKey initialKey state.count)
  reads : attestations state.files.attest = .ok atts
  ends : EndsLine (state.files.attest.getD [])
  seals : ∀ i, ∀ hi : i < atts.length, Sealed initialKey i atts[i]
  schemes : ∀ att ∈ atts, knownScheme att.scheme = true
  readsAgg : readAggregate state.files.sealagg = .ok agg
  folds : Accumulated initialKey atts agg

/-- An accumulator goes on from the one before: it keeps its start. -/
def KeepsStart (agg agg' : Option (ℤ × ℤ × PyStr)) : Prop :=
  ∀ aggStart epoch running, agg = some (aggStart, epoch, running) →
    ∃ epoch' running', agg' = some (aggStart, epoch', running')

omit [Hashlib] [Interpreter] in
theorem KeepsStart.refl (agg : Option (ℤ × ℤ × PyStr)) : KeepsStart agg agg :=
  fun _ epoch running h => ⟨epoch, running, h⟩

omit [Hashlib] [Interpreter] in
theorem KeepsStart.trans {agg agg' agg'' : Option (ℤ × ℤ × PyStr)} (h : KeepsStart agg agg')
    (h' : KeepsStart agg' agg'') : KeepsStart agg agg'' := by
  intro aggStart epoch running hagg
  obtain ⟨epoch', running', hagg'⟩ := h aggStart epoch running hagg
  exact h' aggStart epoch' running' hagg'

variable {initialKey : Bytes} {start : ℤ} {state state' : SealState}
  {atts : List (Attestation Json)} {agg : Option (ℤ × ℤ × PyStr)}

theorem honestSeals_first (initialKey : Bytes) :
    HonestSeals initialKey (firstInstance initialKey) [] none where
  count := rfl
  key := readKey_keyfile 0 initialKey
  reads := rfl
  ends := .inl rfl
  seals := fun _ hi => absurd hi (Nat.not_lt_zero _)
  schemes := fun _ hatt => absurd hatt List.not_mem_nil
  readsAgg := rfl
  folds := .missing fun _ hatt => absurd hatt List.not_mem_nil

omit [Hashlib] [Interpreter] in
theorem knownScheme_name (scheme : FsScheme) : knownScheme scheme.name = true := by
  cases scheme <;> rfl

omit [Interpreter] in
/-- What `attest` has sealed can be stored. -/
theorem storableAtt_sealed {key : Bytes} {scheme : FsScheme} {seq : ℤ} {entryHash value : PyStr}
    (h : sealEntry key entryHash = .ok value) :
    StorableAtt ⟨seq, entryHash, scheme.name, value, .null⟩ := by
  obtain ⟨b, hframe, rfl⟩ := sealEntry_eq_ok_iff.mp h
  obtain ⟨u, hascii, -⟩ := sealFrame_eq_ok_iff.mp hframe
  refine ⟨noSurrogatePair_of_encodeUtf8 (encodeUtf8_ascii (encodeAscii_eq_some_iff.mp hascii).1),
    ?_, noSurrogatePair_hex _, .inl rfl⟩
  cases scheme <;> exact noSurrogatePair_str rfl

omit [Interpreter] in
/-- An accumulator is written in hex. -/
theorem aggregateStep_eq_hex {key : Bytes} {prevAgg value running : PyStr}
    (h : aggregateStep key prevAgg value = .ok running) : ∃ b, running = hex b := by
  rw [aggregateStep_eq] at h
  cases hframe : aggregateFrame prevAgg value with
  | error e =>
      rw [hframe] at h
      cases h
  | ok frame =>
      rw [hframe] at h
      exact ⟨_, (Except.ok.inj h).symm⟩

/-! ## A step -/

/-- The accumulator after an `attest`, as it is read back, is the one over the rows. -/
theorem accumulated_attest {files files' : SealFiles} {scheme : FsScheme} {entryHash : PyStr}
    {att : Attestation Json} {key : Bytes} {value : PyStr}
    (hagg : readAggregate files.sealagg = .ok agg) (hfolds : Accumulated initialKey atts agg)
    (hkey : key = epochKey initialKey atts.length)
    (hatt : att = ⟨atts.length, entryHash, scheme.name, value, .null⟩)
    (h : scheme = .plain ∧ files'.sealagg = files.sealagg ∨
      scheme = .aggregate ∧ ∃ aggStart running,
        foldAggregate files.sealagg atts.length key value = .ok (aggStart, running) ∧
        files'.sealagg = some (aggfile aggStart (atts.length + 1) running)) :
    ∃ agg', readAggregate files'.sealagg = .ok agg' ∧ Accumulated initialKey (atts ++ [att]) agg' ∧
      KeepsStart agg agg' := by
  subst hkey hatt
  rcases h with ⟨rfl, hsame⟩ | ⟨rfl, aggStart, running, hfold, hfile⟩
  · refine ⟨agg, by rw [hsame, hagg], hfolds.snoc_plain ?_, .refl agg⟩
    intro heq
    exact absurd (show fsHmacScheme = fsHmacAggScheme from heq) (by decide)
  · obtain ⟨agg', hread, hfold⟩ := bind_eq_ok_iff.mp hfold
    obtain rfl := Except.ok.inj (hread.symm.trans hagg)
    cases agg' with
    | none =>
        obtain ⟨running', hstep, hpair⟩ := bind_eq_ok_iff.mp hfold
        obtain ⟨rfl, rfl⟩ := Prod.mk.inj (Except.ok.inj hpair)
        obtain ⟨b, rfl⟩ := aggregateStep_eq_hex hstep
        refine ⟨some (atts.length, atts.length + 1, hex b), ?_, hfolds.snoc_first rfl hstep, ?_⟩
        · rw [hfile, readAggregate_aggfile _ _ (noSurrogatePair_hex b)]
        · intro _ _ _ hnone
          cases hnone
    | some state =>
        obtain ⟨start, epoch, prev⟩ := state
        by_cases hepoch : epoch = atts.length
        · subst hepoch
          simp only [ne_eq, not_true_eq_false, if_false] at hfold
          obtain ⟨running', hstep, hpair⟩ := bind_eq_ok_iff.mp hfold
          obtain ⟨rfl, rfl⟩ := Prod.mk.inj (Except.ok.inj hpair)
          obtain ⟨b, rfl⟩ := aggregateStep_eq_hex hstep
          refine ⟨some (start, atts.length + 1, hex b), ?_, hfolds.snoc_fold rfl hstep, ?_⟩
          · rw [hfile, readAggregate_aggfile _ _ (noSurrogatePair_hex b)]
          · rintro _ _ _ heq
            obtain ⟨rfl, -⟩ := Prod.mk.inj (Option.some.inj heq)
            exact ⟨_, _, rfl⟩
        · simp only [ne_eq, hepoch, not_false_iff, if_true] at hfold
          cases hfold

/-- The files after an `attest` of the next entry. -/
theorem HonestSeals.attested {scheme : FsScheme} {entryHash : PyStr} {files' : SealFiles}
    {att : Attestation Json} {seq : ℤ} (h : HonestSeals initialKey state atts agg)
    (hattest : attest (.fsHmac scheme) .quiet state.files seq entryHash = (.ok att, files')) :
    ∃ agg', HonestSeals initialKey ⟨files', state.count + 1⟩ (atts ++ [att]) agg' ∧
      KeepsStart agg agg' := by
  obtain ⟨⟨key, value, hkey, hvalue, hatt, hsealkey, hsealagg⟩, hfile⟩ :=
    epochSealed_of_attest hattest
  obtain ⟨rfl, rfl⟩ := Prod.mk.inj (Except.ok.inj (hkey.symm.trans h.key))
  have hcount := h.count
  rw [← hcount] at hsealagg hatt hvalue hsealkey ⊢
  obtain ⟨agg', hagg', hfolds, hkeeps⟩ :=
    accumulated_attest h.readsAgg h.folds rfl hatt hsealagg
  have hstorable : StorableAtt att := hatt ▸ storableAtt_sealed hvalue
  refine ⟨agg', ⟨?_, ?_, ?_, ?_, ?_, ?_, hagg', hfolds⟩, hkeeps⟩
  · rw [List.length_append, List.length_singleton]
  · rw [hsealkey, readKey_keyfile, epochKey_succ]
    rfl
  · rw [hfile]
    exact attestations_snoc hstorable h.ends h.reads
  · rw [hfile]
    exact endsLine_attestLine _ att
  · intro i hi
    rcases Nat.lt_or_ge i atts.length with hlt | hge
    · rw [List.getElem_append_left hlt]
      exact h.seals i hlt
    · rw [List.length_append, List.length_singleton] at hi
      obtain rfl : i = atts.length := by omega
      rw [List.getElem_concat_length rfl, hatt]
      exact ⟨rfl, hvalue⟩
  · refine List.forall_mem_append.mpr ⟨h.schemes, List.forall_mem_singleton.mpr ?_⟩
    rw [hatt]
    exact knownScheme_name scheme

/-- **One step**: attestations are only added, and the accumulator keeps its start. -/
theorem sealStep_honest {step : SealStep} (h : HonestSeals initialKey state atts agg)
    (hstep : sealStep initialKey start state step = .ok state') :
    ∃ more agg', HonestSeals initialKey state' (atts ++ more) agg' ∧ KeepsStart agg agg' := by
  cases step with
  | opened =>
      have hkey := h.key
      cases hsealkey : state.files.sealkey with
      | none =>
          rw [hsealkey] at hkey
          cases hkey
      | some file =>
          have hopen : openAttestor .whole initialKey state.files = (.ok (), state.files) := by
            rw [openAttestor, hsealkey]
          rw [sealStep, hopen] at hstep
          obtain rfl := Except.ok.inj hstep
          exact ⟨[], agg, by rwa [List.append_nil], .refl agg⟩
  | attested scheme entryHash =>
      rw [sealStep] at hstep
      rcases hattest : attest (.fsHmac scheme) .quiet state.files (start + state.count) entryHash
        with ⟨result, files'⟩
      rw [hattest] at hstep
      cases result with
      | error why => cases hstep
      | ok att =>
          obtain rfl := Except.ok.inj hstep
          obtain ⟨agg', hhonest, hkeeps⟩ := h.attested hattest
          exact ⟨[att], agg', hhonest, hkeeps⟩

/-! ## A run -/

/-- **A run** keeps what a step keeps. -/
theorem sealRun_honest {steps : List SealStep} (h : HonestSeals initialKey state atts agg)
    (hrun : sealRun initialKey start state steps = .ok state') :
    ∃ more agg', HonestSeals initialKey state' (atts ++ more) agg' ∧ KeepsStart agg agg' := by
  induction steps generalizing state atts agg with
  | nil =>
      obtain rfl := Except.ok.inj hrun
      exact ⟨[], agg, by rwa [List.append_nil], .refl agg⟩
  | cons step steps ih =>
      rw [sealRun, List.foldlM_cons] at hrun
      obtain ⟨middle, hstep, hrest⟩ := bind_eq_ok_iff.mp hrun
      obtain ⟨more, agg', hmiddle, hkeeps⟩ := sealStep_honest h hstep
      obtain ⟨more', agg'', hlast, hkeeps'⟩ := ih hmiddle hrest
      exact ⟨more ++ more', agg'', by rwa [← List.append_assoc], hkeeps.trans hkeeps'⟩

/-- The keyfile of an honest trail is continuous. -/
theorem HonestSeals.checkContinuity (h : HonestSeals initialKey state atts agg)
    (mode : SealMode) :
    checkContinuity mode state.files.sealkey initialKey atts.length = .ok none := by
  cases mode with
  | signer signer => rfl
  | fsHmac scheme =>
      have hkey := h.key
      rw [← h.count] at hkey
      cases hsealkey : state.files.sealkey with
      | none =>
          rw [hsealkey] at hkey
          cases hkey
      | some file =>
          rw [hsealkey] at hkey
          refine bind_eq_ok_iff.mpr ⟨_, hkey, ?_⟩
          simp only [Int.toNat_natCast, ne_eq, not_true_eq_false, if_false]
          rfl

/-- **Honest runs verify.**  `state` is any moment of a run in which no call raises, and
`state'` a later one. -/
theorem honest_seals_verify (initialKey : Bytes) (start : ℤ) (steps later : List SealStep)
    (state state' : SealState)
    (hrun : sealRun initialKey start (firstInstance initialKey) steps = .ok state)
    (hlater : sealRun initialKey start state later = .ok state') :
    ∃ atts agg, attestations state'.files.attest = .ok atts ∧
      readAggregate state'.files.sealagg = .ok agg ∧
      verifySeals atts initialKey = .passed state'.count [] ∧
      (∀ mode, Waxseal.checkContinuity mode state'.files.sealkey initialKey atts.length = .ok none) ∧
      (agg = none → ∀ att ∈ atts, att.scheme ≠ fsHmacAggScheme) ∧
      (∀ aggStart epoch running, agg = some (aggStart, epoch, running) →
        verifyAggregate atts initialKey aggStart epoch running = .ok none) ∧
      ∀ commit epoch,
        aggregateBinding (some (readAggregate state.files.sealagg)) = .ok (some commit, some epoch) →
        ∃ aggStart epoch' running, agg = some (aggStart, epoch', running) ∧
          verifyAnchoredAggregate atts initialKey aggStart epoch commit = .ok none := by
  obtain ⟨atts, agg, h, -⟩ := sealRun_honest (honestSeals_first initialKey) hrun
  rw [List.nil_append] at h
  obtain ⟨more, agg', h', hkeeps⟩ := sealRun_honest h hlater
  refine ⟨atts ++ more, agg', h'.reads, h'.readsAgg, ?_, h'.checkContinuity, ?_, ?_, ?_⟩
  · rw [← h'.count]
    exact verifySeals_sealed h'.seals h'.schemes
  · rintro rfl
    cases h'.folds with
    | missing hnone => exact hnone
  · rintro aggStart epoch running rfl
    exact h'.folds.verifyAggregate
  · intro commit epoch hbinding
    rw [h.readsAgg] at hbinding
    cases agg with
    | none => cases (Prod.mk.inj (Except.ok.inj hbinding)).1
    | some state₀ =>
        obtain ⟨aggStart, epoch₀, running⟩ := state₀
        obtain ⟨commit₀, hcommit, hpair⟩ := bind_eq_ok_iff.mp hbinding
        obtain ⟨hcommit₀, hepoch₀⟩ := Prod.mk.inj (Except.ok.inj hpair)
        obtain rfl := Option.some.inj hcommit₀
        obtain rfl := Option.some.inj hepoch₀
        obtain ⟨epoch', running', hagg'⟩ := hkeeps aggStart epoch₀ running rfl
        exact ⟨aggStart, epoch', running', hagg', h.folds.verifyAnchoredAggregate hcommit⟩

/-! ## Three instances -/

/-- Two entries under the aggregate scheme, and a third one by a new instance without it. -/
def mixedRun : List SealStep :=
  [.attested .aggregate (str "ab"), .attested .aggregate (str "cd"), .opened,
    .attested .plain (str "ef")]

omit [Hashlib] [Interpreter] in
/-- The seals of all three entries hold. -/
theorem honest_seals_verify_mixed :
    letI := Sha256.hashlib
    letI := Interpreter.plain
    ∃ state, sealRun [] 0 (firstInstance []) mixedRun = .ok state ∧ state.count = 3 ∧
      ∃ atts, attestations state.files.attest = .ok atts ∧ verifySeals atts [] = .passed 3 [] := by
  let _ := Sha256.hashlib
  let _ := Interpreter.plain
  have hcount : ((sealRun [] 0 (firstInstance []) mixedRun).toOption.map SealState.count) =
      some 3 := by decide +kernel
  rcases hrun : sealRun [] 0 (firstInstance []) mixedRun with why | state
  · rw [hrun] at hcount
    cases hcount
  · rw [hrun] at hcount
    have hthree : state.count = 3 := Option.some.inj hcount
    obtain ⟨atts, _, hatts, -, hseals, -⟩ := honest_seals_verify [] 0 mixedRun [] state state hrun rfl
    rw [hthree] at hseals
    exact ⟨state, rfl, hthree, atts, hatts, hseals⟩

end Waxseal
