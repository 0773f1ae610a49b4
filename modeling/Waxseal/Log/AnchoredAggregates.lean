import Waxseal.Adapters.AnchorSidecar
import Waxseal.Domain.Aggregates
import Waxseal.Log.Attestation
import Waxseal.Log.Checkpoints

/-!
# The anchored aggregates of a trail

`verify_anchored_aggregates` of `log/_anchoring.py`: every record of the `.anchors` sidecar that
commits to an accumulator is checked against the attestations.

The start of the fold is read from `.sealagg`, which whoever owns the trail can write.  It does
not matter: a record that an honest trail was anchored with brings all the rows of that trail
back, or the report is not ok (`verifyAnchoredAggregates_binds`).
-/

namespace Waxseal

open Json

variable [Hashlib]

/-- The loop over the records, with the accumulators. -/
def anchoredAggregatesLoop (atts : List (Attestation Json)) (initialKey : Bytes) (aggStart : ℤ)
    (unreadable : Bool) : ℕ → List ℤ → List SidecarRecord → Except PyErr AttestResult
  | checked, unverifiable, [] =>
      let reason := if unreadable then some AttestReason.unreadableRecordVersion else none
      .ok ⟨true, checked, none, reason, unverifiable⟩
  | checked, unverifiable, record :: records =>
      let cp := record.checkpoint
      match cp.aggCommit, cp.aggEpoch with
      | some commit, some epoch => do
          match ← verifyAnchoredAggregate atts initialKey aggStart epoch commit with
          | some reason => return .broken reason (some cp.seq) checked unverifiable
          | none =>
              anchoredAggregatesLoop atts initialKey aggStart unreadable (checked + 1) unverifiable
                records
      | _, _ =>
          anchoredAggregatesLoop atts initialKey aggStart unreadable checked
            (unverifiable ++ [cp.seq]) records

/-- Where the fold starts. -/
def aggregateStart : AggregateSource → Except PyErr ℤ
  | none => .ok 0
  | some state => state.map fun state => (state.map Prod.fst).getD 0

variable [Interpreter]

/-- `verify_anchored_aggregates(attestor, aggregate_source, initial_key=...)`. -/
def verifyAnchoredAggregates (source : AggregateSource) (attest anchors : Option Bytes)
    (initialKey : Bytes) : Except PyErr AttestResult := do
  let aggStart ← aggregateStart source
  match ← orMalformed (readAnchorRecords anchors) with
  | none => return .broken .malformedAnchor none 0 []
  | some sidecar =>
      if sidecar.records.isEmpty && sidecar.unreadableVersions.isEmpty then
        return ⟨true, 0, none, some .noAnchorsRecorded, []⟩
      let atts ← attestations attest
      anchoredAggregatesLoop atts initialKey aggStart (!sidecar.unreadableVersions.isEmpty) 0 []
        sidecar.records

/-! ## The loop -/

variable {initialKey : Bytes} {atts : List (Attestation Json)} {aggStart : ℤ} {unreadable : Bool}
  {checked : ℕ} {unverifiable : List ℤ} {records : List SidecarRecord} {result : AttestResult}

/-- A record that commits to an accumulator. -/
def SidecarRecord.isBound (r : SidecarRecord) : Bool := r.checkpoint.aggCommit.isSome

/-- The commitment of a record, with its epoch, passes. -/
def BindingPasses (atts : List (Attestation Json)) (initialKey : Bytes) (aggStart : ℤ)
    (r : SidecarRecord) : Prop :=
  ∀ commit ∈ r.checkpoint.aggCommit, ∀ epoch ∈ r.checkpoint.aggEpoch,
    verifyAnchoredAggregate atts initialKey aggStart epoch commit = .ok none

/-- What the loop reports of records that all pass: the bound ones are checked, and of the others
it says which they are. -/
def anchoredReport (unreadable : Bool) (checked : ℕ) (unverifiable : List ℤ)
    (records : List SidecarRecord) : AttestResult where
  ok := true
  checked := checked + records.countP SidecarRecord.isBound
  brokenSeq := none
  reason := if unreadable then some .unreadableRecordVersion else none
  unverifiable := unverifiable ++ (records.filter (!·.isBound)).map (·.checkpoint.seq)

omit [Hashlib] [Interpreter] in
theorem anchoredReport_nil :
    anchoredReport unreadable checked unverifiable [] =
      ⟨true, checked, none, if unreadable then some .unreadableRecordVersion else none,
        unverifiable⟩ := by
  rw [anchoredReport, List.filter_nil, List.map_nil, List.append_nil]
  rfl

omit [Hashlib] [Interpreter] in
theorem anchoredReport_bound {record : SidecarRecord} (h : record.isBound = true) :
    anchoredReport unreadable checked unverifiable (record :: records) =
      anchoredReport unreadable (checked + 1) unverifiable records := by
  rw [anchoredReport, anchoredReport, List.countP_cons_of_pos h,
    List.filter_cons_of_neg (by simp [h]), Nat.add_assoc, Nat.add_comm 1]

omit [Hashlib] [Interpreter] in
theorem anchoredReport_unbound {record : SidecarRecord} (h : record.isBound = false) :
    anchoredReport unreadable checked unverifiable (record :: records) =
      anchoredReport unreadable checked (unverifiable ++ [record.checkpoint.seq]) records := by
  rw [anchoredReport, anchoredReport, List.countP_cons_of_neg (by simp [h]),
    List.filter_cons_of_pos (by simp [h]), List.map_cons, List.append_assoc, List.singleton_append]

omit [Interpreter] in
/-- **The loop is ok if and only if every commitment passes**, and then it reports so. -/
theorem anchoredAggregatesLoop_eq_ok_iff :
    (anchoredAggregatesLoop atts initialKey aggStart unreadable checked unverifiable records =
        .ok result ∧ result.ok = true) ↔
      (∀ r ∈ records, BindingPasses atts initialKey aggStart r) ∧
        result = anchoredReport unreadable checked unverifiable records := by
  induction records generalizing checked unverifiable with
  | nil =>
      rw [anchoredAggregatesLoop, anchoredReport_nil]
      constructor
      · rintro ⟨h, -⟩
        exact ⟨List.forall_mem_nil _, (Except.ok.inj h).symm⟩
      · rintro ⟨-, rfl⟩
        exact ⟨rfl, rfl⟩
  | cons record records ih =>
      obtain ⟨⟨seq, entryHash, root, aggCommit, aggEpoch, both⟩, sink, receipt, ts, version, nonce⟩ :=
        record
      rw [List.forall_mem_cons, and_assoc]
      rcases aggCommit with _ | commit <;> rcases aggEpoch with _ | epoch
      · rw [anchoredReport_unbound rfl]
        show anchoredAggregatesLoop atts initialKey aggStart unreadable checked
          (unverifiable ++ [seq]) records = .ok result ∧ _ ↔ _
        rw [ih]
        refine ⟨fun h => ⟨?_, h⟩, fun h => h.2⟩
        intro commit hcommit
        cases hcommit
      · cases both
      · cases both
      · have hfirst : BindingPasses atts initialKey aggStart ⟨⟨seq, entryHash, root, some commit,
            some epoch, both⟩, sink, receipt, ts, version, nonce⟩ ↔
              verifyAnchoredAggregate atts initialKey aggStart epoch commit = .ok none := by
          simp [BindingPasses]
        rw [hfirst, anchoredReport_bound rfl, ← ih]
        show (verifyAnchoredAggregate atts initialKey aggStart epoch commit >>= _) = .ok result ∧ _ ↔ _
        rcases hverify : verifyAnchoredAggregate atts initialKey aggStart epoch commit with
          e | _ | reason
        · exact ⟨fun h => (nomatch h.1), fun h => (nomatch h.1)⟩
        · exact (and_iff_right rfl).symm
        · constructor
          · rintro ⟨h, hok⟩
            obtain rfl := Except.ok.inj h
            cases hok
          · rintro ⟨h, -⟩
            cases h

/-- **An ok report** of records that can be read has read the attestations, and every commitment
passes. -/
theorem verifyAnchoredAggregates_ok {source : AggregateSource} {attest anchors : Option Bytes}
    {sidecar : AnchorSidecar} (hanchors : readAnchorRecords anchors = .ok sidecar)
    (hsome : sidecar.records ≠ [])
    (h : verifyAnchoredAggregates source attest anchors initialKey = .ok result)
    (hok : result.ok = true) :
    ∃ aggStart atts, aggregateStart source = .ok aggStart ∧ attestations attest = .ok atts ∧
      (∀ r ∈ sidecar.records, BindingPasses atts initialKey aggStart r) ∧
      result = anchoredReport (!sidecar.unreadableVersions.isEmpty) 0 [] sidecar.records := by
  obtain ⟨aggStart, hstart, h⟩ := bind_eq_ok_iff.mp h
  obtain ⟨read, hread, h⟩ := bind_eq_ok_iff.mp h
  obtain rfl : read = some sidecar :=
    Except.ok.inj (hread.symm.trans (orMalformed_eq_ok_some_iff.mpr hanchors))
  have hnonempty : ¬ (sidecar.records.isEmpty && sidecar.unreadableVersions.isEmpty) = true := by
    rw [Bool.and_eq_true, List.isEmpty_iff]
    exact fun hboth => hsome hboth.1
  simp only [if_neg hnonempty] at h
  obtain ⟨atts, hatts, h⟩ := bind_eq_ok_iff.mp h
  exact ⟨aggStart, atts, hstart, hatts, anchoredAggregatesLoop_eq_ok_iff.mp ⟨h, hok⟩⟩

/-- **Commitments that all pass** are reported so. -/
theorem verifyAnchoredAggregates_of_passes {source : AggregateSource}
    {attest anchors : Option Bytes} {sidecar : AnchorSidecar}
    (hstart : aggregateStart source = .ok aggStart)
    (hanchors : readAnchorRecords anchors = .ok sidecar) (hsome : sidecar.records ≠ [])
    (hatts : attestations attest = .ok atts)
    (hpasses : ∀ r ∈ sidecar.records, BindingPasses atts initialKey aggStart r) :
    verifyAnchoredAggregates source attest anchors initialKey =
      .ok (anchoredReport (!sidecar.unreadableVersions.isEmpty) 0 [] sidecar.records) := by
  have hnonempty : ¬ (sidecar.records.isEmpty && sidecar.unreadableVersions.isEmpty) = true := by
    rw [Bool.and_eq_true, List.isEmpty_iff]
    exact fun hboth => hsome hboth.1
  refine bind_eq_ok_iff.mpr ⟨aggStart, hstart,
    bind_eq_ok_iff.mpr ⟨some sidecar, orMalformed_eq_ok_some_iff.mpr hanchors, ?_⟩⟩
  simp only [if_neg hnonempty]
  exact bind_eq_ok_iff.mpr ⟨atts, hatts, (anchoredAggregatesLoop_eq_ok_iff.mpr ⟨hpasses, rfl⟩).1⟩

/-! ## What a commitment brings back -/

/-- What it takes to pass with other rows: a key of the chain comes twice, HMAC collides on what
the two folds authenticate or gives the value they start from, or two commitments collide. -/
inductive AggregateBroken (initialKey : Bytes) (epoch : ℤ) (written found : List (ℕ × PyStr)) : Prop
  | keys (cycle : ¬ ((List.range epoch.toNat).map (epochKey initialKey)).Nodup)
  | macs (collide : ¬ HmacFree (aggInputs initialKey aggGenesis written ++
      aggInputs initialKey aggGenesis found))
  | commitments (agg agg' : PyStr) (b b' : Bytes)
      (folds : foldAgg initialKey aggGenesis written = .ok agg)
      (folds' : foldAgg initialKey aggGenesis found = .ok agg')
      (frame : aggregateCommitFrame epoch agg = .ok b)
      (frame' : aggregateCommitFrame epoch agg' = .ok b') (differ : b ≠ b')
      (collide : sha256 b = sha256 b')

omit [Hashlib] [Interpreter] in
/-- Every row of a fold is before its epoch. -/
theorem lt_of_mem_aggRows {epoch : ℤ} {row : ℕ × PyStr} (h : row ∈ aggRows aggStart epoch 0 atts) :
    row.1 < epoch.toNat := by
  have hmem := (@mem_aggRows _ aggStart epoch 0 row.1 row.2 atts).mp (by rwa [Nat.zero_add])
  have := hmem.2.1
  omega

omit [Interpreter] in
/-- **A commitment that passes** is to the rows it was made of, wherever the fold starts. -/
theorem aggRows_eq_or_broken {aggStart' epoch : ℤ} {agg commit : PyStr}
    {found : List (Attestation Json)}
    (hfold : foldAgg initialKey aggGenesis (aggRows aggStart epoch 0 atts) = .ok agg)
    (hcommit : aggregateCommit epoch agg = .ok commit)
    (h : verifyAnchoredAggregate found initialKey aggStart' epoch commit = .ok none) :
    aggRows aggStart epoch 0 atts = aggRows aggStart' epoch 0 found ∨
      AggregateBroken initialKey epoch (aggRows aggStart epoch 0 atts)
        (aggRows aggStart' epoch 0 found) := by
  by_cases hkeys : ((List.range epoch.toNat).map (epochKey initialKey)).Nodup
  swap
  · exact .inr (.keys hkeys)
  by_cases hmacs : HmacFree (aggInputs initialKey aggGenesis (aggRows aggStart epoch 0 atts) ++
      aggInputs initialKey aggGenesis (aggRows aggStart' epoch 0 found))
  swap
  · exact .inr (.macs hmacs)
  obtain ⟨agg', hfold', hcommit'⟩ := verifyAnchoredAggregate_eq_ok_none h
  obtain ⟨b, hframe, hdigest, -⟩ := anchoredFrame_of_ok hfold hcommit
  obtain ⟨b', hframe', hdigest', -⟩ := anchoredFrame_of_ok hfold' hcommit'
  have hsame : sha256 b = sha256 b' := hexdigest_eq_iff.mp (hdigest.symm.trans hdigest')
  by_cases hb : b = b'
  · subst hb
    obtain ⟨-, rfl⟩ := aggregateCommitFrame_inj hframe hframe'
    left
    apply foldAgg_inj hmacs ?_ hfold hfold'
    intro row hrow row' hrow' hkey
    exact List.inj_on_of_nodup_map hkeys (List.mem_range.mpr (lt_of_mem_aggRows hrow))
      (List.mem_range.mpr (lt_of_mem_aggRows hrow')) hkey
  · exact .inr (.commitments agg agg' b b' hfold hfold' hframe hframe' hb hsame)

omit [Interpreter] in
/-- A commitment is a digest. -/
theorem aggregateCommit_eq_hex {epoch : ℤ} {agg commit : PyStr}
    (h : aggregateCommit epoch agg = .ok commit) : ∃ b, commit = hex b := by
  rw [aggregateCommit_eq] at h
  obtain ⟨frame, -, hdigest⟩ := map_eq_ok_iff.mp h
  exact ⟨_, hdigest.symm⟩

/-- A record commits to this accumulator. -/
def CommitsTo (commit : PyStr) (epoch : ℤ) (r : SidecarRecord) : Prop :=
  r.checkpoint.aggCommit = some commit ∧ r.checkpoint.aggEpoch = some epoch

/-- **A truncated trail does not pass.**  A trail was anchored with the accumulator over its
attestations `atts`, and later the record of it is found beside any attestations and any
accumulator file.  If the report is ok, then all rows that were aggregated are there, in their
places, or one of the things has happened that hashing rules out. -/
theorem verifyAnchoredAggregates_binds (initialKey : Bytes) (atts : List (Attestation Json))
    (aggStart epoch : ℤ) (agg commit : PyStr)
    (hanchored : Accumulated initialKey atts (some (aggStart, epoch, agg)))
    (hcommit : aggregateCommit epoch agg = .ok commit)
    (source : AggregateSource) (attest anchors : Option Bytes) (sidecar : AnchorSidecar)
    (result : AttestResult) (hanchors : readAnchorRecords anchors = .ok sidecar)
    (hrecord : ∃ r ∈ sidecar.records, CommitsTo commit epoch r)
    (h : verifyAnchoredAggregates source attest anchors initialKey = .ok result)
    (hok : result.ok = true) :
    ∃ aggStart' found, aggregateStart source = .ok aggStart' ∧ attestations attest = .ok found ∧
      ((∀ i value, AggregatedAt atts i value → AggregatedAt found i value) ∨
        AggregateBroken initialKey epoch (aggRows aggStart epoch 0 atts)
          (aggRows aggStart' epoch 0 found)) := by
  obtain ⟨r, hr, hto, hepoch⟩ := hrecord
  obtain ⟨aggStart', found, hstart, hfound, hpasses, -⟩ :=
    verifyAnchoredAggregates_ok hanchors (List.ne_nil_of_mem hr) h hok
  refine ⟨aggStart', found, hstart, hfound, ?_⟩
  cases hanchored with
  | running hzero hle hlength hfold hrows =>
      have hpass := hpasses r hr commit hto epoch hepoch
      refine (aggRows_eq_or_broken hfold hcommit hpass).imp_left fun heq => ?_
      intro i value hrow
      obtain ⟨hi, hi'⟩ := hrows i value hrow
      have hmem := (@mem_aggRows _ aggStart epoch 0 i value atts).mpr
        (by simpa using ⟨hi, hi', hrow⟩)
      rw [heq] at hmem
      exact (mem_aggRows.mp hmem).2.2

/-- A trail of one row that was aggregated. -/
def soleRow : Attestation Json := ⟨0, str "ab", fsHmacAggScheme, str "aa", .null⟩

/-- Its accumulator, under an empty initial key. -/
def soleAggregate : PyStr := (foldAgg [] aggGenesis [(0, str "aa")]).toOption.getD []

/-- The commitment to it. -/
def soleCommit : PyStr := (aggregateCommit 1 soleAggregate).toOption.getD []

/-- A record with a commitment to the first row. -/
def boundRecord (commit : PyStr) : SidecarRecord :=
  .of ⟨0, str "ab", str "cd", some commit, some 1, rfl⟩ (str "file") none
    (str "2025-01-01T00:00:00+00:00") none

omit [Hashlib] in
theorem boundRecord_storable (b : Bytes) : (boundRecord (hex b)).Storable := by
  refine ⟨rfl, noSurrogatePair_str rfl, noSurrogatePair_str rfl, ?_, noSurrogatePair_str rfl, nofun,
    noSurrogatePair_str rfl, nofun⟩
  intro s hs
  obtain rfl := Option.some.inj hs
  exact noSurrogatePair_hex b

omit [Hashlib] [Interpreter] in
/-- The row is found in the files that were left as they were. -/
theorem verifyAnchoredAggregates_binds_sole :
    letI := Sha256.hashlib
    letI := Interpreter.plain
    ∃ found, attestations (some (attestLine soleRow)) = .ok found ∧
      (AggregatedAt found 0 (str "aa") ∨
        AggregateBroken [] 1 (aggRows 0 1 0 [soleRow]) (aggRows 0 1 0 found)) := by
  let _ := Sha256.hashlib
  let _ := Interpreter.plain
  have hfold : foldAgg [] aggGenesis (aggRows 0 1 0 [soleRow]) = .ok soleAggregate := by
    decide +kernel
  have hcommit : aggregateCommit 1 soleAggregate = .ok soleCommit := by decide +kernel
  obtain ⟨b, hdigest⟩ := aggregateCommit_eq_hex hcommit
  rw [hdigest] at hcommit
  have hanchors := SidecarRecord.readAnchorRecords_fileBytes
    (List.forall_mem_singleton.mpr (boundRecord_storable b))
  have hatt : StorableAtt soleRow :=
    ⟨noSurrogatePair_str rfl, noSurrogatePair_str rfl, noSurrogatePair_str rfl, .inl rfl⟩
  have hattest := attestations_snoc hatt (.inl rfl) (show attestations none = .ok [] from rfl)
  rw [Option.getD_none, List.nil_append, List.nil_append] at hattest
  have hrows : ∀ i value, AggregatedAt [soleRow] i value → (0 : ℤ) ≤ i ∧ (i : ℤ) < 1 := by
    rintro i value ⟨att, hatt, -⟩
    obtain ⟨hi, -⟩ := List.getElem?_eq_some_iff.mp hatt
    rw [List.length_singleton] at hi
    omega
  have hanchored : Accumulated [] [soleRow] (some (0, 1, soleAggregate)) :=
    .running (by decide) (by decide) (by decide) hfold hrows
  have hpasses : ∀ r ∈ [boundRecord (hex b)], BindingPasses [soleRow] [] 0 r := by
    rw [List.forall_mem_singleton]
    intro commit hto epoch hepoch
    obtain rfl := Option.some.inj hepoch
    obtain rfl := Option.some.inj hto
    exact @Accumulated.verifyAnchoredAggregate _ _ [] _ [soleRow] [] 0 1 _ hanchored hcommit
  have hstart : aggregateStart none = .ok 0 := rfl
  have hreport := verifyAnchoredAggregates_of_passes hstart hanchors (List.cons_ne_nil _ _) hattest
    hpasses
  obtain ⟨aggStart, found, hstart', hfound, hbinds⟩ := verifyAnchoredAggregates_binds [] [soleRow] 0 1
    soleAggregate _ hanchored hcommit none _ _ _ _ hanchors
    ⟨boundRecord (hex b), List.mem_singleton_self _, rfl, rfl⟩ hreport rfl
  obtain rfl := Except.ok.inj (hstart'.symm.trans hstart)
  exact ⟨found, hfound, hbinds.imp_left fun hall => hall 0 _ ⟨soleRow, rfl, rfl, rfl⟩⟩

end Waxseal
