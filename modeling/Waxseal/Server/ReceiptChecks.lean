import Waxseal.Base.JsonLoads
import Waxseal.Domain.Verdict

/-!
# Receipts against the stored chain

`cross_check_receipts` of `storage/_chain_receipts.py`: does every acknowledged entry still
carry the hash that was acknowledged for it?

The records are looked at one after another, and the first that is not in order decides.  So
a record of an unknown version can stand before one that proves a break
(`crossCheck_joins_iff`).
-/

namespace Waxseal

open Json

/-- `RECEIPT_VERSION`. -/
def receiptVersion : ℕ := 1

/-- The reasons of `ReceiptLogReport` and `ReceiptCrossCheck`. -/
inductive ReceiptReason where
  | notRecorded
  | malformedReceiptRecord
  | unreadableRecordVersion
  | receiptSeqGap
  | receiptHeadMismatch
  | receiptBeyondHead
  | receiptMismatch
  deriving DecidableEq

/-- `ReceiptCrossCheck`. -/
structure ReceiptCrossCheck where
  verdict : Verdict
  checked : Option ℕ
  reason : Option ReceiptReason
  brokenSeq : Option ℤ
  deriving DecidableEq

/-- `except (KeyError, TypeError, ValueError)`. -/
def isFieldError (e : PyErr) : Bool :=
  e.isValueError || decide (e = .keyError) || decide (e = .typeError)

section CrossCheck

variable [Interpreter]

/-- `by_seq`, as the pairs it holds. -/
def storedHashes : List Json → Except PyErr (List (ℤ × PyStr))
  | [] => .ok []
  | envelope :: stored => do
      let header ← getItem envelope (Waxseal.str "header")
      let seq ← pyInt (← getItem header (Waxseal.str "seq"))
      let entryHash ← getItem envelope (Waxseal.str "entry_hash")
      return (seq, pyStr entryHash) :: (← storedHashes stored)

/-- What a record acknowledges: a sequence number and an entry hash. -/
def acknowledgedOf (record : Json) : Except PyErr (ℤ × PyStr) := do
  let seq ← pyInt (← getItem record (Waxseal.str "seq"))
  let entryHash ← getItem record (Waxseal.str "entry_hash")
  return (seq, pyStr entryHash)

omit [Interpreter] in
/-- The `v` of a record, if it is an object and has one. -/
def recordVersion : Json → Option Json
  | .obj members => (members.find? (·.1 = Waxseal.str "v")).map (·.2)
  | _ => none

/-- The check of one record: nothing where it is in order, else what is returned. -/
def crossCheckRecord (bySeq : List (ℤ × PyStr)) (record : Json) :
    Except PyErr (Option (Verdict × ReceiptReason × Option ℤ)) :=
  match recordVersion record with
  | none => .ok (some (.broken, .malformedReceiptRecord, none))
  | some version =>
      if !version.eqNat receiptVersion then
        .ok (some (.unverifiable, .unreadableRecordVersion, none))
      else
        match acknowledgedOf record with
        | .error e =>
            if isFieldError e then .ok (some (.broken, .malformedReceiptRecord, none)) else .error e
        | .ok (seq, acknowledged) =>
            if !bySeq.any fun stored => decide (stored.1 = seq) then
              .ok (some (.broken, .receiptBeyondHead, some seq))
            else if !bySeq.any fun stored => decide (stored.1 = seq ∧ stored.2 = acknowledged) then
              .ok (some (.broken, .receiptMismatch, some seq))
            else .ok none

/-- The loop over the records. -/
def crossCheckLoop (bySeq : List (ℤ × PyStr)) (checked : ℕ) :
    List Json → Except PyErr ReceiptCrossCheck
  | [] => .ok ⟨.ok, some checked, none, none⟩
  | record :: records => do
      match ← crossCheckRecord bySeq record with
      | some (verdict, reason, seq) => return ⟨verdict, some checked, some reason, seq⟩
      | none => crossCheckLoop bySeq (checked + 1) records

/-- `cross_check_receipts`. -/
def crossCheckReceipts (records : Option (List Json)) (stored : List Json) :
    Except PyErr ReceiptCrossCheck :=
  match records with
  | none => .ok ⟨.ok, none, some .notRecorded, none⟩
  | some records => do crossCheckLoop (← storedHashes stored) 0 records

/-! ## One record -/

/-- A record of a version this build does not know. -/
def UnknownVersion (record : Json) : Prop :=
  ∃ version, recordVersion record = some version ∧ version.eqNat receiptVersion = false

/-- A record of the version this build writes. -/
def KnownVersion (record : Json) : Prop :=
  ∃ version, recordVersion record = some version ∧ version.eqNat receiptVersion = true

/-- A record that proves a break: it cannot be read, or what it acknowledges is not stored. -/
def ProvesBreak (bySeq : List (ℤ × PyStr)) (record : Json) : Prop :=
  recordVersion record = none ∨ KnownVersion record ∧
    match acknowledgedOf record with
    | .error e => isFieldError e = true
    | .ok acknowledged => acknowledged ∉ bySeq

/-- A record whose fields raise what the check does not catch. -/
def Raises (record : Json) : Prop :=
  KnownVersion record ∧
    match acknowledgedOf record with
    | .error e => isFieldError e = false
    | .ok _ => False

variable {bySeq : List (ℤ × PyStr)} {record : Json}

theorem not_knownVersion (h : UnknownVersion record) : ¬ KnownVersion record := by
  obtain ⟨version, hversion, hunknown⟩ := h
  rintro ⟨version', hversion', hknown⟩
  obtain rfl : version = version' := Option.some.inj (hversion.symm.trans hversion')
  rw [hunknown] at hknown
  cases hknown

/-- **The check of a record**, case by case. -/
theorem crossCheckRecord_cases (bySeq : List (ℤ × PyStr)) (record : Json) :
    (UnknownVersion record ∧ ∃ finding,
      crossCheckRecord bySeq record = .ok (some (.unverifiable, finding))) ∨
    (ProvesBreak bySeq record ∧ ∃ finding,
      crossCheckRecord bySeq record = .ok (some (.broken, finding))) ∨
    (Raises record ∧ ∃ e, crossCheckRecord bySeq record = .error e) ∨
    (¬ UnknownVersion record ∧ ¬ ProvesBreak bySeq record ∧ ¬ Raises record ∧
      crossCheckRecord bySeq record = .ok none) := by
  rw [crossCheckRecord]
  rcases hversion : recordVersion record with - | version
  · exact .inr (.inl ⟨.inl hversion, _, rfl⟩)
  rcases hknown : version.eqNat receiptVersion with _ | _
  · refine .inl ⟨⟨version, hversion, hknown⟩, (.unreadableRecordVersion, none), ?_⟩
    simp only [hknown]
    rfl
  have hsame : KnownVersion record := ⟨version, hversion, hknown⟩
  simp only [hknown, Bool.not_true, Bool.false_eq_true, if_false]
  rcases hack : acknowledgedOf record with e | ⟨seq, acknowledged⟩
  · rcases hfield : isFieldError e with _ | _
    · refine .inr (.inr (.inl ⟨⟨hsame, by rw [hack]; exact hfield⟩, e, ?_⟩))
      simp only [hfield]
      rfl
    · refine .inr (.inl ⟨.inr ⟨hsame, by rw [hack]; exact hfield⟩, (.malformedReceiptRecord, none),
        ?_⟩)
      simp only [hfield]
      rfl
  by_cases hmem : (seq, acknowledged) ∈ bySeq
  · have hseq : (bySeq.any fun stored => decide (stored.1 = seq)) = true :=
      List.any_eq_true.mpr ⟨_, hmem, decide_eq_true rfl⟩
    have hhash : (bySeq.any fun stored =>
        decide (stored.1 = seq ∧ stored.2 = acknowledged)) = true :=
      List.any_eq_true.mpr ⟨_, hmem, decide_eq_true ⟨rfl, rfl⟩⟩
    refine .inr (.inr (.inr ⟨fun hunknown => not_knownVersion hunknown hsame, ?_, ?_, ?_⟩))
    · rintro (hnone | ⟨-, hbreak⟩)
      · rw [hversion] at hnone
        cases hnone
      · rw [hack] at hbreak
        exact hbreak hmem
    · rintro ⟨-, hraises⟩
      rw [hack] at hraises
      exact hraises
    · simp only [hseq, hhash]
      rfl
  · have hbreak : ProvesBreak bySeq record := .inr ⟨hsame, by rw [hack]; exact hmem⟩
    have hhash : (bySeq.any fun stored =>
        decide (stored.1 = seq ∧ stored.2 = acknowledged)) = false := by
      refine List.any_eq_false.mpr fun stored hstored => ?_
      rw [decide_eq_true_eq]
      rintro ⟨rfl, rfl⟩
      exact hmem hstored
    rcases hseq : bySeq.any fun stored => decide (stored.1 = seq) with _ | _
    · refine .inr (.inl ⟨hbreak, (.receiptBeyondHead, some seq), ?_⟩)
      simp only [hseq]
      rfl
    · refine .inr (.inl ⟨hbreak, (.receiptMismatch, some seq), ?_⟩)
      simp only [hseq, hhash]
      rfl

theorem not_raises (h : ProvesBreak bySeq record) : ¬ Raises record := by
  rintro ⟨⟨version, hversion, -⟩, hraises⟩
  rcases h with hnone | ⟨-, hbreak⟩
  · exact nomatch hversion.symm.trans hnone
  · rcases hack : acknowledgedOf record with e | acknowledged
    · rw [hack] at hraises hbreak
      simp only at hraises hbreak
      rw [hraises] at hbreak
      cases hbreak
    · rw [hack] at hraises
      exact hraises

theorem not_provesBreak (h : UnknownVersion record) : ¬ ProvesBreak bySeq record := by
  rintro (hnone | ⟨hknown, -⟩)
  · obtain ⟨version, hversion, -⟩ := h
    exact nomatch hversion.symm.trans hnone
  · exact not_knownVersion h hknown

theorem crossCheckRecord_of_raises (h : Raises record) :
    ∃ e, crossCheckRecord bySeq record = .error e := by
  rcases crossCheckRecord_cases bySeq record with
    ⟨hunknown, -⟩ | ⟨hbreak, -⟩ | ⟨-, h'⟩ | ⟨-, -, hnot, -⟩
  · exact absurd h.1 (not_knownVersion hunknown)
  · exact absurd h (not_raises hbreak)
  · exact h'
  · exact absurd h hnot

/-! ## All records -/

/-- The verdict a caller gets; none if the check raises. -/
def verdictOf (report : Except PyErr ReceiptCrossCheck) : Option Verdict :=
  report.toOption.map (·.verdict)

/-- The verdict of the records, in any order, is the join of the verdicts each of them gets
alone. -/
def JoinsVerdicts (records stored : List Json) : Prop :=
  ∃ verdicts : List Verdict,
    records.map (fun record => verdictOf (crossCheckReceipts (some [record]) stored))
      = verdicts.map some ∧
    ∀ records', records.Perm records' →
      verdictOf (crossCheckReceipts (some records') stored) = some (verdicts.foldl .join .ok)

/-- The verdict of a record that does not raise. -/
def verdictIn (bySeq : List (ℤ × PyStr)) (record : Json) : Verdict :=
  match crossCheckRecord bySeq record with
  | .ok (some (verdict, _)) => verdict
  | _ => .ok

theorem verdictIn_eq_unverifiable_iff :
    verdictIn bySeq record = .unverifiable ↔ UnknownVersion record := by
  rw [verdictIn]
  rcases crossCheckRecord_cases bySeq record with
    ⟨h, finding, h'⟩ | ⟨hbreak, finding, h'⟩ | ⟨hraises, e, h'⟩ | ⟨hnot, -, -, h'⟩
  · rw [h']
    exact iff_of_true rfl h
  · rw [h']
    exact iff_of_false nofun fun h => not_provesBreak h hbreak
  · rw [h']
    exact iff_of_false nofun fun h => not_knownVersion h hraises.1
  · rw [h']
    exact iff_of_false nofun hnot

theorem verdictIn_eq_broken_iff : verdictIn bySeq record = .broken ↔ ProvesBreak bySeq record := by
  rw [verdictIn]
  rcases crossCheckRecord_cases bySeq record with
    ⟨hunknown, finding, h'⟩ | ⟨h, finding, h'⟩ | ⟨hraises, e, h'⟩ | ⟨-, hnot, -, h'⟩
  · rw [h']
    exact iff_of_false nofun (not_provesBreak hunknown)
  · rw [h']
    exact iff_of_true rfl h
  · rw [h']
    exact iff_of_false nofun fun h => not_raises h hraises
  · rw [h']
    exact iff_of_false nofun hnot

/-- **The loop stops at the first finding.** -/
theorem verdictOf_crossCheckLoop {records : List Json} (h : ∀ record ∈ records, ¬ Raises record)
    (checked : ℕ) :
    verdictOf (crossCheckLoop bySeq checked records)
      = some (.first (records.map (verdictIn bySeq))) := by
  induction records generalizing checked with
  | nil => rfl
  | cons record records ih =>
      rw [crossCheckLoop, List.map_cons, verdictIn]
      rcases crossCheckRecord_cases bySeq record with
        ⟨-, finding, h'⟩ | ⟨-, finding, h'⟩ | ⟨hraises, -⟩ | ⟨-, -, -, h'⟩
      · rw [h']
        rfl
      · rw [h']
        rfl
      · exact absurd hraises (h record List.mem_cons_self)
      · rw [h']
        exact ih (fun record hrecord => h record (List.mem_cons_of_mem _ hrecord)) (checked + 1)

theorem verdictOf_crossCheckReceipts {records stored : List Json}
    (hstored : storedHashes stored = .ok bySeq) (h : ∀ record ∈ records, ¬ Raises record) :
    verdictOf (crossCheckReceipts (some records) stored)
      = some (.first (records.map (verdictIn bySeq))) := by
  rw [← verdictOf_crossCheckLoop h 0, crossCheckReceipts, hstored]
  rfl

/-- **When the order of the records does not show.**  The verdict is the join of the records'
verdicts, in any order, exactly if the stored chain can be read, no record raises, and there
is not both a record of an unknown version and a record that proves a break. -/
theorem crossCheck_joins_iff (records stored : List Json) :
    JoinsVerdicts records stored ↔
      ∃ bySeq, storedHashes stored = .ok bySeq ∧ (∀ record ∈ records, ¬ Raises record) ∧
        ¬ ((∃ record ∈ records, UnknownVersion record) ∧
          ∃ record ∈ records, ProvesBreak bySeq record) := by
  constructor
  · rintro ⟨verdicts, halone, hjoin⟩
    rcases hstored : storedHashes stored with e | bySeq
    · have hself := hjoin records (List.Perm.refl records)
      rw [crossCheckReceipts, hstored] at hself
      cases hself
    have hquiet : ∀ record ∈ records, ¬ Raises record := by
      intro record hrecord hraises
      obtain ⟨e, he⟩ := @crossCheckRecord_of_raises _ bySeq _ hraises
      have hmem := List.mem_map_of_mem
        (f := fun record => verdictOf (crossCheckReceipts (some [record]) stored)) hrecord
      rw [halone, List.mem_map] at hmem
      obtain ⟨verdict, -, hverdict⟩ := hmem
      rw [crossCheckReceipts, hstored] at hverdict
      rw [show (Except.ok bySeq >>= fun bySeq => crossCheckLoop bySeq 0 [record])
        = crossCheckLoop bySeq 0 [record] from rfl, crossCheckLoop, he] at hverdict
      cases hverdict
    refine ⟨bySeq, rfl, hquiet, ?_⟩
    rintro ⟨⟨unknown, hunknown, hversion⟩, broken, hbroken, hbreak⟩
    -- the record that comes first decides, so two orders give two verdicts
    have hfront : ∀ record ∈ records, verdictIn bySeq record ≠ .ok →
        verdicts.foldl .join .ok = verdictIn bySeq record := by
      intro record hrecord hne
      obtain ⟨before, after, rfl⟩ := List.append_of_mem hrecord
      have hperm := @List.perm_middle _ record before after
      have hverdict := hjoin _ hperm
      rw [verdictOf_crossCheckReceipts hstored fun r hr => hquiet r (hperm.mem_iff.mpr hr)]
        at hverdict
      rw [← Option.some.inj hverdict, List.map_cons]
      cases hv : verdictIn bySeq record with
      | ok => exact absurd hv hne
      | unverifiable => rfl
      | broken => rfl
    have hunverifiable := (@verdictIn_eq_unverifiable_iff _ bySeq unknown).mpr hversion
    have hbrokenIn := verdictIn_eq_broken_iff.mpr hbreak
    have hone := hfront unknown hunknown (by rw [hunverifiable]; decide)
    have htwo := hfront broken hbroken (by rw [hbrokenIn]; decide)
    rw [hunverifiable] at hone
    rw [hbrokenIn, hone] at htwo
    cases htwo
  · rintro ⟨bySeq, hstored, hquiet, hnot⟩
    refine ⟨records.map (verdictIn bySeq), ?_, fun records' hperm => ?_⟩
    · rw [List.map_map]
      refine List.map_congr_left fun record hrecord => ?_
      rw [verdictOf_crossCheckReceipts hstored
        (List.forall_mem_singleton.mpr (hquiet record hrecord)), List.map_singleton,
        Function.comp_apply]
      cases verdictIn bySeq record <;> rfl
    · rw [verdictOf_crossCheckReceipts hstored fun r hr => hquiet r (hperm.mem_iff.mpr hr),
        Verdict.foldl_join_perm (hperm.map _)]
      refine congrArg some (Verdict.first_eq_foldl_join ?_)
      rintro ⟨hunverifiable, hbroken⟩
      obtain ⟨unknown, hunknown, hversion⟩ := List.mem_map.mp hunverifiable
      obtain ⟨broken, hbroken, hbreak⟩ := List.mem_map.mp hbroken
      exact hnot ⟨⟨unknown, hperm.mem_iff.mpr hunknown, verdictIn_eq_unverifiable_iff.mp hversion⟩,
        broken, hperm.mem_iff.mpr hbroken, verdictIn_eq_broken_iff.mp hbreak⟩

end CrossCheck

/-! ## A record in front of a break -/

section Example

/-- A stored chain of one entry. -/
def oneStored : List Json :=
  [.obj [(str "header", .obj [(str "seq", .int 0)]), (str "entry_hash", .str (str "ab"))]]

/-- A record from a newer build. -/
def newerRecord : Json := .obj [(str "v", .int 2)]

/-- An acknowledged entry that is not stored any more. -/
def lostRecord : Json :=
  .obj [(str "entry_hash", .str (str "cd")), (str "seq", .int 1), (str "v", .int 1)]

/-- The newer record hides the rollback behind it, and does not in front of it. -/
theorem newer_record_hides_break :
    letI := Interpreter.plain
    verdictOf (crossCheckReceipts (some [newerRecord, lostRecord]) oneStored) = some .unverifiable ∧
      verdictOf (crossCheckReceipts (some [lostRecord, newerRecord]) oneStored) = some .broken ∧
      ¬ JoinsVerdicts [newerRecord, lostRecord] oneStored := by
  let _ := Interpreter.plain
  have hfirst : verdictOf (crossCheckReceipts (some [newerRecord, lostRecord]) oneStored)
      = some .unverifiable := by decide +kernel
  have hsecond : verdictOf (crossCheckReceipts (some [lostRecord, newerRecord]) oneStored)
      = some .broken := by decide +kernel
  refine ⟨hfirst, hsecond, ?_⟩
  rintro ⟨verdicts, -, hjoin⟩
  have hsame := (hjoin _ (List.Perm.refl _)).trans (hjoin _ (List.Perm.swap _ _ [])).symm
  rw [hfirst, hsecond] at hsame
  cases hsame

end Example

end Waxseal
