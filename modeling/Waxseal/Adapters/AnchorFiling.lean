import Waxseal.Adapters.AnchorSinks
import Waxseal.Base.JsonLineDigits
import Waxseal.Base.LockedAppends

/-!
# Filing anchors from several sinks

Several sinks of `adapters/anchors.py` file records in one sidecar.  `_append_record` makes the
line first, so a record with an integer that is too long raises before the file is touched; it
takes the lock, opens the file, writes the line in pieces and gives the lock up.

Whatever the interleaving, the file is the lines of what was filed, in the order of the lock, and
the reader returns those records with the surrogate pairs of their texts joined
(`readAnchorRecordsDigits_file`).  They are the records that were filed exactly when no text holds
a pair.
-/

namespace Waxseal

open Json LockedAppends

/-! ## Records without pairs -/

namespace SidecarRecord

/-- No text of the record holds a surrogate pair. -/
structure PairFree (r : SidecarRecord) : Prop where
  entryHash : NoSurrogatePair r.checkpoint.entryHash
  root : NoSurrogatePair r.checkpoint.root
  aggCommit : ∀ s ∈ r.checkpoint.aggCommit, NoSurrogatePair s
  sink : NoSurrogatePair r.sink
  receipt : ∀ s ∈ r.receipt, NoSurrogatePair s
  ts : NoSurrogatePair r.ts

/-- A text or `None` stays as it is exactly when it holds no pair. -/
theorem map_joinPairs_eq_self_iff {s : Option PyStr} :
    s.map joinPairs = s ↔ ∀ t ∈ s, NoSurrogatePair t := by
  cases s with
  | none => exact ⟨fun _ t ht => absurd ht (Option.not_mem_none t), fun _ => rfl⟩
  | some t => simp [joinPairs_eq_self_iff]

/-- **A record stays as it is exactly when no text of it holds a pair.** -/
theorem joined_eq_self_iff {r : SidecarRecord} : r.joined = r ↔ r.PairFree := by
  constructor
  · intro h
    have hcheckpoint : joinedCheckpoint r.checkpoint = r.checkpoint := congrArg checkpoint h
    exact
      { entryHash := joinPairs_eq_self_iff.mp (congrArg Checkpoint.entryHash hcheckpoint)
        root := joinPairs_eq_self_iff.mp (congrArg Checkpoint.root hcheckpoint)
        aggCommit := map_joinPairs_eq_self_iff.mp (congrArg Checkpoint.aggCommit hcheckpoint)
        sink := joinPairs_eq_self_iff.mp (congrArg SidecarRecord.sink h)
        receipt := map_joinPairs_eq_self_iff.mp (congrArg SidecarRecord.receipt h)
        ts := joinPairs_eq_self_iff.mp (congrArg SidecarRecord.ts h) }
  · intro h
    obtain ⟨⟨seq, entryHash, root, aggCommit, aggEpoch, both⟩, sink, receipt, ts, version, nonce⟩ := r
    simp only [joined, joinedCheckpoint, joinPairs_eq_self h.entryHash, joinPairs_eq_self h.root,
      map_joinPairs_eq_self_iff.mpr h.aggCommit, joinPairs_eq_self h.sink,
      map_joinPairs_eq_self_iff.mpr h.receipt, joinPairs_eq_self h.ts]

end SidecarRecord

/-! ## Filing -/

/-- What a sink files: the arguments of `_record_obj`. -/
structure Filing where
  checkpoint : Checkpoint
  sink : PyStr
  receipt : Option PyStr
  ts : PyStr
  nonce : Option ℤ

/-- `_record_obj(checkpoint, sink=sink, receipt=receipt, ts=ts, nonce=nonce)`. -/
def Filing.record (f : Filing) : SidecarRecord := .of f.checkpoint f.sink f.receipt f.ts f.nonce

section Filing

variable [Interpreter]

/-- `str(nonce)` and `json.dumps` of the record can be formed. -/
def Filing.fits (f : Filing) : Bool := f.nonce.all intFits && intsFit (.obj f.record.members)

/-- `_append_record(path, record)`: how a record is written. -/
def sidecarEncoding : LockedAppends.Encoding Filing UInt8 where
  bytes f := f.record.line
  accepts := Filing.fits

/-- `read_anchor_records`, where an integer that is too long is not converted. -/
def readAnchorRecordsDigits (file : Option Bytes) : Except PyErr AnchorSidecar :=
  match file with
  | none => .ok ⟨[], []⟩
  | some file => (readLinesDigits readAnchorRecord file).map .ofLines

theorem readAnchorRecordsDigits_getD (file : Option Bytes) :
    readAnchorRecordsDigits file = readAnchorRecordsDigits (some (file.getD [])) := by
  cases file <;> rfl

/-- `int` reads what `str` wrote. -/
def ReadsDecimals : Prop := ∀ n, intFits n = true → strToInt (strInt n) = .ok n

/-- A record that can be written can be read. -/
theorem Filing.filed (hint : ReadsDecimals) {f : Filing} (h : f.fits = true) : f.record.Filed := by
  rw [Filing.fits, Bool.and_eq_true] at h
  refine ⟨rfl, fun n hn => hint n ?_⟩
  have hnonce : f.nonce = some n := hn
  have hfit := h.1
  rw [hnonce] at hfit
  exact hfit

/-- Joining pairs leaves the integers. -/
theorem SidecarRecord.intsFit_joined (r : SidecarRecord) :
    intsFit (.obj r.joined.members) = intsFit (.obj r.members) := by
  obtain ⟨⟨seq, entryHash, root, aggCommit, aggEpoch, both⟩, sink, receipt, ts, version, nonce⟩ := r
  cases aggCommit <;> cases aggEpoch <;> cases nonce <;> cases receipt <;> rfl

/-- **The lines of what was filed are read back**, with the surrogate pairs joined. -/
theorem readAnchorRecordsDigits_lines (hint : ReadsDecimals) {filings : List Filing}
    (h : ∀ f ∈ filings, f.fits = true) :
    readAnchorRecordsDigits (some (filings.flatMap fun f => f.record.line)) =
      .ok ⟨filings.map fun f => f.record.joined, []⟩ := by
  have hlines : (filings.flatMap fun f => f.record.line)
      = SidecarRecord.fileBytes (filings.map fun f => f.record.joined) := by
    have hrecords := SidecarRecord.flatMap_line (filings.map Filing.record)
    rw [List.flatMap_map, List.map_map] at hrecords
    exact hrecords
  have hstorable : ∀ line ∈ (filings.map fun f => f.record.joined).map (Sum.inr (α := PyStr)),
      SidecarRecord.format.Storable line := by
    rw [List.forall_mem_map, List.forall_mem_map]
    exact fun f hf => SidecarRecord.storable_joined (Filing.filed hint (h f hf))
  have hfit : ∀ line ∈ (filings.map fun f => f.record.joined).map (Sum.inr (α := PyStr)),
      intsFit (.obj (SidecarRecord.format.members line)) = true := by
    rw [List.forall_mem_map, List.forall_mem_map]
    intro f hf
    have hfits := h f hf
    rw [Filing.fits, Bool.and_eq_true, ← SidecarRecord.intsFit_joined] at hfits
    exact hfits.2
  have hread : readLinesDigits readAnchorRecord
      (SidecarRecord.fileBytes (filings.map fun f => f.record.joined)) =
        .ok ((filings.map fun f => f.record.joined).map .inr) :=
    RecordFormat.readLinesDigits_fileBytes hstorable hfit
  rw [hlines]
  show (readLinesDigits readAnchorRecord (SidecarRecord.fileBytes _)).map _ = _
  rw [hread]
  exact congrArg Except.ok (AnchorSidecar.ofLines_inr _)

end Filing

/-! ## Two sinks -/

/-- `int(s)` for a decimal. -/
def intOfDecimal : PyStr → Except PyErr ℤ
  | [] => .error .valueError
  | c :: digits =>
      if c = .ofChar '-' then (decimal digits).map fun n => -(n : ℤ) else (decimal (c :: digits)).map (↑)
where
  /-- A decimal without a sign. -/
  decimal (digits : PyStr) : Except PyErr ℕ :=
    if digits ≠ [] ∧ digits.all isDigit then .ok (ofDigits digits) else .error .valueError

/-- An interpreter that reads decimals. -/
@[reducible] def Interpreter.decimal : Interpreter :=
  { Interpreter.plain with strToInt := intOfDecimal }

theorem intOfDecimal_strInt (n : ℤ) : intOfDecimal (strInt n) = .ok n := by
  have hdecimal : ∀ m : ℕ, intOfDecimal.decimal (strNat m) = .ok m := by
    intro m
    have hdigits : (strNat m).all isDigit = true := List.all_eq_true.mpr fun c hc => by
      have := isDigit_of_mem_strNat hc
      simp [isDigit, this]
    rw [intOfDecimal.decimal, if_pos ⟨strNat_ne_nil m, hdigits⟩, ofDigits_strNat]
  cases n with
  | ofNat m =>
      obtain ⟨c, digits, heq⟩ := List.exists_cons_of_ne_nil (strNat_ne_nil m)
      have hc : c ≠ .ofChar '-' := by
        have hdigit := isDigit_of_mem_strNat (n := m) (heq ▸ List.mem_cons_self)
        rintro rfl
        exact absurd hdigit.1 (by decide)
      show intOfDecimal (strNat m) = _
      rw [heq, intOfDecimal, if_neg hc, ← heq, hdecimal]
      rfl
  | negSucc m =>
      rw [strInt, intOfDecimal, if_pos rfl, hdecimal]
      rfl

/-- A checkpoint with its aggregate binding, timestamped with a nonce. -/
def sealedFiling : Filing where
  checkpoint := ⟨7, str "e7", str "r7", some (str "c2"), some 2, rfl⟩
  sink := str "rfc3161"
  receipt := some (str "rfc3161:AA==")
  ts := str "2026-01-01T00:00:01Z"
  nonce := some 81985529216486895

/-- A checkpoint without one, in the local file. -/
def plainFiling : Filing where
  checkpoint := .bare 7 (str "e7") (str "r7")
  sink := str "file"
  receipt := none
  ts := str "2026-01-01T00:00:02Z"
  nonce := none

/-- A receipt that was decoded from bytes that spell a surrogate pair out. -/
def pairedFiling : Filing := { plainFiling with sink := str "http", receipt := some [0xD83D, 0xDE00] }

/-- Two sinks with one filing each. -/
def twoSinks (first second : Filing) (sink : Bool) : List Filing := if sink then [second] else [first]

/-- One after the other, the two sinks append their filings. -/
theorem reaches_twoSinks [Interpreter] {first second : Filing} (hfirst : first.fits = true)
    (hsecond : second.fits = true) :
    LockedAppends.Reaches sidecarEncoding (twoSinks first second)
      ⟨some (first.record.line ++ second.record.line), fun _ => [], none,
        [(false, first), (true, second)]⟩ := by
  have hstart : LockedAppends.Reaches sidecarEncoding (twoSinks first second)
      (.start (twoSinks first second)) := .refl
  have hone := hstart.append rfl (w := false) rfl hfirst
  have htwo := hone.append rfl (w := true) rfl hsecond
  have hwaiting : Function.update (Function.update (twoSinks first second) false []) true []
      = fun _ => [] := by
    funext sink
    cases sink <;> rfl
  rw [← hwaiting]
  exact htwo

/-! ## Several sinks -/

section Sinks

variable [Interpreter] {Sink : Type} [DecidableEq Sink] {program : Sink → List Filing}
  {s : State Sink Filing UInt8}

/-- The records that were filed, in the order of the lock. -/
def filedRecords (s : State Sink Filing UInt8) : List SidecarRecord :=
  s.done.map fun filing => filing.2.record

/-- An append that is not disturbed is one of the atomic appends. -/
theorem appendRecord_of_undisturbed {io : SidecarIo} (hopen : io.openFailure = none) (f : Filing)
    (file : Option Bytes) :
    (io.appendRecord f.record file).2 = some (file.getD [] ++ sidecarEncoding.bytes f) := by
  rw [SidecarIo.appendRecord, hopen]
  cases io.closeFailure <;> rfl

/-- **What the sinks filed is read back**, with the surrogate pairs joined, and no version is
unreadable. -/
theorem readAnchorRecordsDigits_file (hint : ReadsDecimals)
    (h : LockedAppends.Reaches sidecarEncoding program s) (hfree : s.holder = none) :
    readAnchorRecordsDigits s.file = .ok ⟨(filedRecords s).map SidecarRecord.joined, []⟩ := by
  have hfile : s.file.getD [] = (s.done.map Prod.snd).flatMap fun f => f.record.line := by
    rw [List.flatMap_map]
    exact h.file hfree
  have hfits : ∀ f ∈ s.done.map Prod.snd, f.fits = true := by
    rw [List.forall_mem_map]
    exact fun filing hfiling => h.accepts hfree hfiling
  rw [readAnchorRecordsDigits_getD, hfile, readAnchorRecordsDigits_lines hint hfits, filedRecords,
    List.map_map, List.map_map]
  rfl

/-- **Anchor records round-trip** exactly when no text that was filed holds a surrogate pair. -/
theorem anchorFiling_iff (hint : ReadsDecimals)
    (h : LockedAppends.Reaches sidecarEncoding program s) (hfree : s.holder = none) :
    (readAnchorRecordsDigits s.file = .ok ⟨filedRecords s, []⟩ ↔
      ∀ filing ∈ s.done, filing.2.record.PairFree) ∧
    ∀ sink, ofWriter sink s.done ++ (s.waiting sink).filter Filing.fits
      = (program sink).filter Filing.fits := by
  refine ⟨?_, fun sink => h.order hfree sink⟩
  have hjoined : (filedRecords s).map SidecarRecord.joined = filedRecords s ↔
      ∀ filing ∈ s.done, filing.2.record.PairFree := by
    rw [filedRecords, List.map_map, List.map_inj_left]
    exact forall₂_congr fun filing _ => SidecarRecord.joined_eq_self_iff
  rw [readAnchorRecordsDigits_file hint h hfree, Except.ok.injEq, AnchorSidecar.mk.injEq]
  simp only [and_true]
  exact hjoined

end Sinks

/-- Whatever is filed without pairs is read back, whoever files it. -/
theorem anchorFiling_iff_twoSinks :
    letI := Interpreter.decimal
    readAnchorRecordsDigits (some (plainFiling.record.line ++ sealedFiling.record.line)) =
      .ok ⟨[plainFiling.record, sealedFiling.record], []⟩ := by
  let _ := Interpreter.decimal
  have hplain : plainFiling.fits = true := by decide +kernel
  have hsealed : sealedFiling.fits = true := by decide +kernel
  have hiff := (anchorFiling_iff (fun n _ => intOfDecimal_strInt n)
    (reaches_twoSinks hplain hsealed) rfl).1
  refine hiff.mpr ?_
  rw [List.forall_mem_cons, List.forall_mem_singleton]
  constructor
  · exact
      { entryHash := noSurrogatePair_str rfl
        root := noSurrogatePair_str rfl
        aggCommit := fun _ hs => absurd hs (Option.not_mem_none _)
        sink := noSurrogatePair_str rfl
        receipt := fun _ hs => absurd hs (Option.not_mem_none _)
        ts := noSurrogatePair_str rfl }
  · exact
      { entryHash := noSurrogatePair_str rfl
        root := noSurrogatePair_str rfl
        aggCommit := fun _ hs => Option.some.inj hs ▸ noSurrogatePair_str rfl
        sink := noSurrogatePair_str rfl
        receipt := fun _ hs => Option.some.inj hs ▸ noSurrogatePair_str rfl
        ts := noSurrogatePair_str rfl }

/-- A pair in a receipt is read back as the character it stands for. -/
theorem anchorFiling_paired :
    letI := Interpreter.decimal
    ∃ s : State Bool Filing UInt8,
      LockedAppends.Reaches sidecarEncoding (twoSinks plainFiling pairedFiling) s ∧
      s.holder = none ∧ readAnchorRecordsDigits s.file ≠ .ok ⟨filedRecords s, []⟩ := by
  let _ := Interpreter.decimal
  have hplain : plainFiling.fits = true := by decide +kernel
  have hpaired : pairedFiling.fits = true := by decide +kernel
  have hreaches := reaches_twoSinks hplain hpaired
  refine ⟨_, hreaches, rfl, fun h => ?_⟩
  rw [readAnchorRecordsDigits_file (fun n _ => intOfDecimal_strInt n) hreaches rfl] at h
  have hreceipts := congrArg (fun sidecar => sidecar.records.map SidecarRecord.receipt)
    (Except.ok.inj h)
  exact absurd hreceipts (by decide +kernel)

end Waxseal
