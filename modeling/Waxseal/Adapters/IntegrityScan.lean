import Waxseal.Adapters.Jsonl
import Waxseal.Base.JsonDigits

/-!
# The integrity scan over a file that grows

`JSONLBackend._integrity_scan` over stored lines of any bytes.  A backend object scans on from
the place it has cleared: at each moment it reports what a scan of the whole file would
(`scanReports_eq`), since it clears whole lines that decode and no others (`Swept`).

The scan runs inside `append`, where only a `JSONCorruptionError` is turned into a warning.  A
line that `json.loads` refuses with anything else stops the append: exactly if it is the first
refused line (`scan_never_vetoes_iff`).

The decoder is a parameter: nothing here depends on which bytes it takes.
-/

namespace Waxseal

variable (loads : Loads)

/-- A line the scan goes on from: it is blank, or it decodes. -/
def Decodes (raw : Bytes) : Prop := bytesStrip raw = [] ∨ ∃ v, loads (bytesStrip raw) = .ok v

variable {loads}

theorem integrityScanLoopBy_decodes {raw : Bytes} (h : Decodes loads raw) (raws : List Bytes)
    (byteOffset lineNo : ℕ) (scanned : ℕ × ℕ) :
    integrityScanLoopBy loads (raw :: raws) byteOffset lineNo scanned =
      integrityScanLoopBy loads raws (byteOffset + raw.length) (lineNo + 1)
        (if raw.getLast? = some LF then (byteOffset + raw.length, lineNo + 1) else scanned) := by
  rw [integrityScanLoopBy]
  by_cases hblank : bytesStrip raw = []
  · rw [if_pos hblank]
  · obtain ⟨v, hv⟩ := h.resolve_left hblank
    simp only [if_neg hblank, hv]

/-- A line the scan does not go on from is reported, and clears nothing. -/
theorem integrityScanLoopBy_stops {raw : Bytes} (h : ¬ Decodes loads raw) (raws : List Bytes)
    (byteOffset lineNo : ℕ) (scanned : ℕ × ℕ) :
    ∃ e, loads (bytesStrip raw) = .error e ∧
      integrityScanLoopBy loads (raw :: raws) byteOffset lineNo scanned =
        (if e = .jsonDecodeError then .corrupted (lineNo + 1) byteOffset else .raised e,
          scanned) := by
  rw [Decodes, not_or] at h
  rw [integrityScanLoopBy, if_neg h.1]
  cases hloads : loads (bytesStrip raw) with
  | ok v => exact absurd ⟨v, hloads⟩ h.2
  | error e =>
      refine ⟨e, rfl, ?_⟩
      cases e <;> rfl

/-- The report does not depend on what has been cleared. -/
theorem integrityScanLoopBy_report (raws : List Bytes) (byteOffset lineNo : ℕ)
    (scanned scanned' : ℕ × ℕ) :
    (integrityScanLoopBy loads raws byteOffset lineNo scanned).1 =
      (integrityScanLoopBy loads raws byteOffset lineNo scanned').1 := by
  induction raws generalizing byteOffset lineNo scanned scanned' with
  | nil => rfl
  | cons raw raws ih =>
      by_cases h : Decodes loads raw
      · rw [integrityScanLoopBy_decodes h, integrityScanLoopBy_decodes h]
        exact ih _ _ _ _
      · obtain ⟨e, he, hstop⟩ := integrityScanLoopBy_stops h raws byteOffset lineNo scanned
        obtain ⟨e', he', hstop'⟩ := integrityScanLoopBy_stops h raws byteOffset lineNo scanned'
        obtain rfl : e = e' := Except.error.inj (he.symm.trans he')
        rw [hstop, hstop']

/-- Lines that decode only move the place of the lines behind them. -/
theorem integrityScanLoopBy_append {lines : List Bytes} (h : ∀ raw ∈ lines, Decodes loads raw)
    (raws : List Bytes) (byteOffset lineNo : ℕ) (scanned scanned' : ℕ × ℕ) :
    (integrityScanLoopBy loads (lines ++ raws) byteOffset lineNo scanned).1 =
      (integrityScanLoopBy loads raws (byteOffset + lines.flatten.length)
        (lineNo + lines.length) scanned').1 := by
  induction lines generalizing byteOffset lineNo scanned with
  | nil => exact integrityScanLoopBy_report _ _ _ _ _
  | cons raw lines ih =>
      rw [List.forall_mem_cons] at h
      rw [List.cons_append, integrityScanLoopBy_decodes h.1, ih h.2, List.flatten_cons,
        List.length_append, List.length_cons, Nat.add_assoc, Nat.add_assoc, Nat.add_comm 1]

variable (loads) in
/-- **What a scan clears**: some of the whole lines, from the first on, that decode. -/
theorem integrityScanLoopBy_clears {lines : List Bytes} (h : ∀ raw ∈ lines, IsRawLine raw)
    {rest : Bytes} (hrest : LF ∉ rest) (byteOffset lineNo : ℕ) :
    ∃ cleared, cleared <+: lines ∧ (∀ raw ∈ cleared, Decodes loads raw) ∧
      (integrityScanLoopBy loads (rawLines (lines.flatten ++ rest)) byteOffset lineNo
        (byteOffset, lineNo)).2 = (byteOffset + cleared.flatten.length, lineNo + cleared.length) := by
  rw [rawLines_flatten_append h]
  induction lines generalizing byteOffset lineNo with
  | nil =>
      refine ⟨[], List.prefix_rfl, nofun, ?_⟩
      by_cases hne : rest = []
      · rw [hne]
        rfl
      · -- the last line has no line end, so it is not cleared even if it decodes
        have hlast : rest.getLast? ≠ some LF := fun hlast => hrest (List.mem_of_getLast? hlast)
        rw [List.nil_append, rawLines_LF_free hrest hne]
        by_cases hdecodes : Decodes loads rest
        · rw [integrityScanLoopBy_decodes hdecodes, if_neg hlast]
          rfl
        · obtain ⟨e, -, hstop⟩ := integrityScanLoopBy_stops hdecodes [] byteOffset lineNo
            (byteOffset, lineNo)
          rw [hstop]
          rfl
  | cons raw lines ih =>
      rw [List.forall_mem_cons] at h
      rw [List.cons_append]
      by_cases hdecodes : Decodes loads raw
      · rw [integrityScanLoopBy_decodes hdecodes, if_pos h.1.getLast?]
        obtain ⟨cleared, hprefix, hcleared, hscanned⟩ := ih h.2 (byteOffset + raw.length)
          (lineNo + 1)
        refine ⟨raw :: cleared, List.prefix_cons_inj raw |>.mpr hprefix, ?_, ?_⟩
        · rw [List.forall_mem_cons]
          exact ⟨hdecodes, hcleared⟩
        · rw [hscanned, List.flatten_cons, List.length_append, List.length_cons, Nat.add_assoc,
            Nat.add_assoc, Nat.add_comm 1]
      · obtain ⟨e, -, hstop⟩ := integrityScanLoopBy_stops hdecodes (lines ++ rawLines rest)
          byteOffset lineNo (byteOffset, lineNo)
        refine ⟨[], List.nil_prefix, nofun, ?_⟩
        rw [hstop]
        rfl

/-! ## The place that is cleared -/

variable (loads) in
/-- What a backend object has cleared: a number of whole lines that decode. -/
def Swept (s : Store) : Prop :=
  ∃ (lines : List Bytes) (rest : Bytes),
    (∀ raw ∈ lines, IsRawLine raw ∧ Decodes loads raw) ∧ s.file = lines.flatten ++ rest ∧
      s.scannedOffset = lines.flatten.length ∧ s.scannedLines = lines.length

theorem swept_opened (file : Bytes) : Swept loads (Store.opened file) :=
  ⟨[], file, nofun, rfl, rfl, rfl⟩

theorem Swept.grow {s : Store} (h : Swept loads s) (more : Bytes) :
    Swept loads { s with file := s.file ++ more } := by
  obtain ⟨lines, rest, hlines, hfile, hoffset, hlineNo⟩ := h
  refine ⟨lines, rest ++ more, hlines, ?_, hoffset, hlineNo⟩
  rw [hfile, List.append_assoc]

/-- The lines a scan looks at. -/
def Store.unscanned (s : Store) : List Bytes :=
  rawLines (s.file.drop (if s.file.length < s.scannedOffset then 0 else s.scannedOffset))

/-- The scan of a swept object goes on behind the lines that are cleared. -/
theorem integrityScanBy_behind {s : Store} {lines : List Bytes} {rest : Bytes}
    (hfile : s.file = lines.flatten ++ rest) (hoffset : s.scannedOffset = lines.flatten.length) :
    integrityScanBy loads s =
      let out := integrityScanLoopBy loads (rawLines rest) s.scannedOffset s.scannedLines
        (s.scannedOffset, s.scannedLines)
      (out.1, { s with scannedOffset := out.2.1, scannedLines := out.2.2 }) := by
  have hlength : ¬ s.file.length < s.scannedOffset := by
    rw [hfile, hoffset, List.length_append]
    exact Nat.not_lt.mpr (Nat.le_add_right _ _)
  have hdrop : s.file.drop s.scannedOffset = rest := by
    rw [hfile, hoffset, List.drop_left]
  rw [integrityScanBy]
  simp only [if_neg hlength, hdrop]

theorem Swept.scan {s : Store} (h : Swept loads s) : Swept loads (integrityScanBy loads s).2 := by
  obtain ⟨lines, rest, hlines, hfile, hoffset, hlineNo⟩ := h
  obtain ⟨lines', rest', hlines', hrest', rfl⟩ := exists_rawLines rest
  obtain ⟨cleared, ⟨left, rfl⟩, hdecodes, hscanned⟩ :=
    integrityScanLoopBy_clears loads hlines' hrest' s.scannedOffset s.scannedLines
  rw [integrityScanBy_behind hfile hoffset]
  refine ⟨lines ++ cleared, left.flatten ++ rest', ?_, ?_, ?_, ?_⟩
  · rw [List.forall_mem_append]
    exact ⟨hlines, fun raw hraw =>
      ⟨hlines' raw (List.mem_append_left _ hraw), hdecodes raw hraw⟩⟩
  · show s.file = _
    rw [hfile]
    simp only [List.flatten_append, List.append_assoc]
  · apply (congrArg Prod.fst hscanned).trans
    rw [hoffset, List.flatten_append, List.length_append]
  · apply (congrArg Prod.snd hscanned).trans
    rw [hlineNo, List.length_append]

/-- **A scan that goes on reports what a scan of the whole file does.** -/
theorem Swept.report {s : Store} (h : Swept loads s) :
    (integrityScanBy loads s).1 = (integrityScanBy loads (Store.opened s.file)).1 := by
  obtain ⟨lines, rest, hlines, hfile, hoffset, hlineNo⟩ := h
  have hwhole : (Store.opened s.file).file = [].flatten ++ s.file := rfl
  rw [integrityScanBy_behind hfile hoffset, integrityScanBy_behind hwhole rfl, hfile,
    rawLines_flatten_append fun raw hraw => (hlines raw hraw).1]
  show _ = (integrityScanLoopBy loads (lines ++ rawLines rest) 0 0 (0, 0)).1
  rw [integrityScanLoopBy_append (fun raw hraw => (hlines raw hraw).2) _ _ _ _
    (s.scannedOffset, s.scannedLines), hoffset, hlineNo, Nat.zero_add, Nat.zero_add]

/-! ## Histories -/

/-- What happens to a file and to the backend object over it. -/
inductive ScanEvent where
  | grow (more : Bytes)
  | scan

variable (loads) in
/-- What the scans of one backend object report. -/
def scanReports : Store → List ScanEvent → List ScanReport
  | _, [] => []
  | s, .grow more :: events => scanReports { s with file := s.file ++ more } events
  | s, .scan :: events =>
      (integrityScanBy loads s).1 :: scanReports (integrityScanBy loads s).2 events

variable (loads) in
/-- What scans by a new backend object, at the same moments, report. -/
def wholeScanReports : Bytes → List ScanEvent → List ScanReport
  | _, [] => []
  | file, .grow more :: events => wholeScanReports (file ++ more) events
  | file, .scan :: events =>
      (integrityScanBy loads (Store.opened file)).1 :: wholeScanReports file events

/-- The scans of a swept object, by induction on what happens. -/
theorem Swept.reports {s : Store} (h : Swept loads s) (events : List ScanEvent) :
    scanReports loads s events = wholeScanReports loads s.file events := by
  induction events generalizing s with
  | nil => rfl
  | cons event events ih =>
      cases event with
      | grow more => exact ih (h.grow more)
      | scan =>
          show _ :: _ = _ :: _
          rw [h.report, ih h.scan]
          rfl

/-- **Resumed scans equal scans of the whole file**, whenever they run and however the file grows
in between. -/
theorem scanReports_eq (loads : Loads) (file : Bytes) (events : List ScanEvent) :
    scanReports loads (Store.opened file) events = wholeScanReports loads file events :=
  (swept_opened file).reports events

/-! ## Appending over hostile lines -/

section Append

variable [Interpreter]

/-- `_tail_locked()`, for any decoder. -/
def tailLockedBy (loads : Loads) (file : Bytes) : Except PyErr (ℤ × PyStr) :=
  match readLastLine file with
  | none => .ok (0, genesisPrevHash)
  | some line => do
      let (seq, entryHash) ← tailFields (← loads line)
      return (seq + 1, entryHash)

/-- The lock, then the tail. -/
def lockedTailBy (loads : Loads) (io : AppendIo) (file : Bytes) : Except PyErr (ℤ × PyStr) := do
  orFail io.lock
  orFail io.readTail
  tailLockedBy loads file

omit [Interpreter] in
/-- The scan of an append at `nextSeq`, for any decoder. -/
def scanStepBy (loads : Loads) (integrityScanEvery : Option ℤ) (io : AppendIo) (nextSeq : ℤ)
    (s : Store) : Except PyErr Unit × Store :=
  match scanDue integrityScanEvery nextSeq with
  | .error e => (.error e, s)
  | .ok false => (.ok (), s)
  | .ok true =>
      match io.scan with
      | some e => (.error e, s)
      | none =>
          match integrityScanBy loads s with
          | (.clean, s) => (.ok (), s)
          | (.corrupted _ _, s) => (orFail io.warn, s)
          | (.raised e, s) => (.error e, s)

/-- What `append` does before its first byte is written, for any decoder. -/
def prepareBy (loads : Loads) (integrityScanEvery : Option ℤ) (io : AppendIo)
    (build : ℤ → PyStr → Except PyErr Entry) (s : Store) : Except PyErr (Entry × Bytes) × Store :=
  match lockedTailBy loads io s.file with
  | .error e => (.error e, s)
  | .ok tail =>
      match scanStepBy loads integrityScanEvery io tail.1 s with
      | (.error e, s) => (.error e, s)
      | (.ok (), s) => (encodeEntry io build tail, s)

omit [Interpreter] in
/-- The line is written, flushed and closed. -/
def writeLine (io : AppendIo) : Except PyErr (Entry × Bytes) × Store → Except PyErr Entry × Store
  | (.error e, s) => (.error e, s)
  | (.ok (entry, bytes), s) =>
      match io.write with
      | some (n, e) => (.error e, { s with file := s.file ++ bytes.take n })
      | none =>
          match io.release with
          | some e => (.error e, { s with file := s.file ++ bytes })
          | none => (.ok entry, { s with file := s.file ++ bytes })

/-- `append(build)`, for any decoder. -/
def JSONLBackend.appendBy (loads : Loads) (integrityScanEvery : Option ℤ) (io : AppendIo)
    (build : ℤ → PyStr → Except PyErr Entry) (s : Store) : Except PyErr Entry × Store :=
  writeLine io (prepareBy loads integrityScanEvery io build s)

/-- With the decoder that reads integers of any length this is the backend's `append`. -/
theorem appendBy_loadsBytes (every : Option ℤ) (io : AppendIo)
    (build : ℤ → PyStr → Except PyErr Entry) (s : Store) :
    JSONLBackend.appendBy Json.loadsBytes every io build s =
      JSONLBackend.append every io build s := rfl

/-! ## What stops an append -/

omit [Interpreter] in
/-- What a line is refused with. -/
def refusal (loads : Loads) (raw : Bytes) : Option PyErr :=
  if bytesStrip raw = [] then none
  else
    match loads (bytesStrip raw) with
    | .ok _ => none
    | .error e => some e

omit [Interpreter] in
/-- What the first refused line is refused with. -/
def firstRefusal (loads : Loads) (lines : List Bytes) : Option PyErr :=
  lines.findSome? (refusal loads)

omit [Interpreter] in
theorem refusal_eq_none_iff {raw : Bytes} : refusal loads raw = none ↔ Decodes loads raw := by
  rw [refusal, Decodes]
  by_cases hblank : bytesStrip raw = []
  · rw [if_pos hblank]
    exact iff_of_true rfl (.inl hblank)
  · rw [if_neg hblank, or_iff_right hblank]
    cases loads (bytesStrip raw) with
    | ok v => exact iff_of_true rfl ⟨v, rfl⟩
    | error e => exact iff_of_false nofun nofun

/-- What a report says the scan stopped at. -/
def ScanReport.stop : ScanReport → Option PyErr
  | .clean => none
  | .corrupted _ _ => some .jsonDecodeError
  | .raised e => some e

omit [Interpreter] in
/-- **The scan stops at the first line that is refused.** -/
theorem integrityScanLoopBy_stop (raws : List Bytes) (byteOffset lineNo : ℕ) (scanned : ℕ × ℕ) :
    (integrityScanLoopBy loads raws byteOffset lineNo scanned).1.stop = firstRefusal loads raws ∧
      (integrityScanLoopBy loads raws byteOffset lineNo scanned).1 ≠ .raised .jsonDecodeError := by
  induction raws generalizing byteOffset lineNo scanned with
  | nil => exact ⟨rfl, nofun⟩
  | cons raw raws ih =>
      rw [firstRefusal, List.findSome?_cons]
      by_cases h : Decodes loads raw
      · rw [integrityScanLoopBy_decodes h, refusal_eq_none_iff.mpr h]
        exact ih _ _ _
      · obtain ⟨e, he, hstop⟩ := integrityScanLoopBy_stops h raws byteOffset lineNo scanned
        have hrefused : refusal loads raw = some e := by
          rw [Decodes, not_or] at h
          rw [refusal, if_neg h.1, he]
        rw [hstop, hrefused]
        by_cases hjson : e = .jsonDecodeError
        · rw [if_pos hjson, hjson]
          exact ⟨rfl, nofun⟩
        · rw [if_neg hjson]
          exact ⟨rfl, fun heq => hjson (ScanReport.raised.inj heq)⟩

omit [Interpreter] in
theorem integrityScanBy_stop (s : Store) :
    (integrityScanBy loads s).1.stop = firstRefusal loads s.unscanned ∧
      (integrityScanBy loads s).1 ≠ .raised .jsonDecodeError := by
  rw [integrityScanBy, Store.unscanned]
  split_ifs <;> exact integrityScanLoopBy_stop _ _ _ _

/-- A scan lets its append go on: its lines can be read, and none of them is refused, or the
first one that is can be warned of. -/
def ScanPasses (loads : Loads) (io : AppendIo) (s : Store) : Prop :=
  io.scan = none ∧
    (firstRefusal loads s.unscanned = none ∨
      firstRefusal loads s.unscanned = some .jsonDecodeError ∧ io.warn = none)

omit [Interpreter] in
theorem scanStepBy_passes_iff {every : Option ℤ} {io : AppendIo} {nextSeq : ℤ} {s : Store}
    (hdue : scanDue every nextSeq = .ok true) :
    (scanStepBy loads every io nextSeq s).1 = .ok () ↔ ScanPasses loads io s := by
  obtain ⟨hstop, hraised⟩ := integrityScanBy_stop s
  rw [ScanPasses, ← hstop]
  unfold scanStepBy
  rw [hdue]
  cases io.scan with
  | some e => exact iff_of_false nofun fun h => nomatch h.1
  | none =>
      rcases hscan : integrityScanBy loads s with ⟨report, s'⟩
      rw [hscan] at hraised
      cases report with
      | clean => exact iff_of_true rfl ⟨rfl, .inl rfl⟩
      | corrupted lineNo byteOffset =>
          simp only [ScanReport.stop]
          cases io.warn <;> simp [orFail]
      | raised e =>
          have hjson : e ≠ .jsonDecodeError := fun h => hraised (h ▸ rfl)
          simp [ScanReport.stop, hjson]

omit [Interpreter] in
theorem file_scanStepBy {every : Option ℤ} {io : AppendIo} {nextSeq : ℤ} {s : Store} :
    (scanStepBy loads every io nextSeq s).2.file = s.file := by
  unfold scanStepBy
  split
  · rfl
  · rfl
  · split
    · rfl
    · have hfile : (integrityScanBy loads s).2.file = s.file := rfl
      split <;> next h => rw [h] at hfile; exact hfile

/-- The append that scans returns and stores what the append that never scans does. -/
def ScanKeeps (loads : Loads) (every : ℤ) (io : AppendIo)
    (build : ℤ → PyStr → Except PyErr Entry) (s : Store) : Prop :=
  (JSONLBackend.appendBy loads (some every) io build s).1 =
      (JSONLBackend.appendBy loads none io build s).1 ∧
    (JSONLBackend.appendBy loads (some every) io build s).2.file =
      (JSONLBackend.appendBy loads none io build s).2.file

omit [Interpreter] in
/-- What is written depends on the file alone. -/
theorem writeLine_of_file {io : AppendIo} {out : Except PyErr (Entry × Bytes)} {s s' : Store}
    (h : s.file = s'.file) :
    (writeLine io (out, s)).1 = (writeLine io (out, s')).1 ∧
      (writeLine io (out, s)).2.file = (writeLine io (out, s')).2.file := by
  cases out with
  | error e => exact ⟨rfl, h⟩
  | ok built =>
      simp only [writeLine]
      cases io.write with
      | some fault => exact ⟨rfl, congrArg (· ++ built.2.take fault.1) h⟩
      | none =>
          cases io.release with
          | some e => exact ⟨rfl, congrArg (· ++ built.2) h⟩
          | none => exact ⟨rfl, congrArg (· ++ built.2) h⟩

/-- **The scan stops an append exactly if the first refused line is refused with anything but a
`JSONDecodeError`**, or with one that cannot be warned of. -/
theorem scan_never_vetoes_iff (loads : Loads) {every : ℤ} {io : AppendIo}
    {build : ℤ → PyStr → Except PyErr Entry} {s : Store} {tail : ℤ × PyStr} {entry : Entry}
    (htail : tailLockedBy loads s.file = .ok tail)
    (hdue : scanDue (some every) tail.1 = .ok true)
    (hstored : (JSONLBackend.appendBy loads none io build s).1 = .ok entry) :
    ScanKeeps loads every io build s ↔ ScanPasses loads io s := by
  have hlocked : lockedTailBy loads io s.file = .ok tail := by
    cases hlocked : lockedTailBy loads io s.file with
    | error e =>
        rw [JSONLBackend.appendBy, prepareBy, hlocked] at hstored
        cases hstored
    | ok tail' =>
        obtain ⟨⟨⟩, -, hread⟩ := bind_eq_ok_iff.mp hlocked
        obtain ⟨⟨⟩, -, hread⟩ := bind_eq_ok_iff.mp hread
        rw [← htail, ← hread]
  have hquiet : prepareBy loads none io build s = (encodeEntry io build tail, s) := by
    rw [prepareBy, hlocked]
    rfl
  rw [← scanStepBy_passes_iff hdue, ScanKeeps, JSONLBackend.appendBy, JSONLBackend.appendBy,
    hquiet]
  rcases hscan : scanStepBy loads (some every) io tail.1 s with ⟨out, s'⟩
  have hfile : s'.file = s.file := by
    have hsame : (scanStepBy loads (some every) io tail.1 s).2.file = s.file := file_scanStepBy
    rwa [hscan] at hsame
  cases out with
  | error e =>
      have hprepare : prepareBy loads (some every) io build s = (.error e, s') := by
        rw [prepareBy, hlocked]
        simp only [hscan]
      rw [JSONLBackend.appendBy, hquiet] at hstored
      refine iff_of_false ?_ nofun
      rw [hprepare, hstored]
      exact fun h => nomatch h.1
  | ok u =>
      have hprepare : prepareBy loads (some every) io build s = (encodeEntry io build tail, s') := by
        rw [prepareBy, hlocked]
        simp only [hscan]
      rw [hprepare]
      exact iff_of_true (writeLine_of_file hfile) rfl

/-! ## Lines of three kinds -/

/-- A trail with this line before its one entry. -/
def lineBefore (line : Bytes) : Store :=
  Store.opened (line ++ LF :: ascii "\x7b\"entry_hash\":\"\",\"header\":\x7b\"seq\":0\x7d\x7d\n")

/-- An entry without a text. -/
def blankEntry (seq : ℤ) (prevHash : PyStr) : Except PyErr Entry :=
  .ok ⟨⟨seq, [], [], [], [], prevHash⟩, [], some []⟩

omit [Interpreter] in
/-- An append goes on past a line that was torn. -/
theorem scan_passes_torn_line :
    letI := Interpreter.plain
    ScanKeeps Json.loadsDigits 2 .sound blankEntry (lineBefore (ascii "\x7b\"entry_h")) := by
  let _ := Interpreter.plain
  have hstored : (JSONLBackend.appendBy Json.loadsDigits none .sound blankEntry
      (lineBefore (ascii "\x7b\"entry_h"))).1 = .ok ⟨⟨1, [], [], [], [], []⟩, [], some []⟩ := by
    decide +kernel
  have htail : tailLockedBy Json.loadsDigits (lineBefore (ascii "\x7b\"entry_h")).file =
      .ok (1, []) := by
    decide +kernel
  refine (scan_never_vetoes_iff Json.loadsDigits htail ?_ hstored).mpr ⟨rfl, .inr ?_⟩
  · decide
  · decide +kernel

/-- An append every other of which scans returns, where this line stands before its one entry. -/
def returnsBehind (every : Option ℤ) (line : Bytes) : Bool :=
  (JSONLBackend.appendBy Json.loadsDigits every .sound blankEntry
    (lineBefore line)).1.toOption.isSome

theorem not_scanKeeps_of_returnsBehind {line : Bytes} (hscan : returnsBehind (some 2) line = false)
    (hnone : returnsBehind none line = true) :
    ¬ ScanKeeps Json.loadsDigits 2 .sound blankEntry (lineBefore line) := by
  intro hkeeps
  rw [returnsBehind, hkeeps.1, ← returnsBehind, hnone] at hscan
  cases hscan

omit [Interpreter] in
/-- An interpreter with limits as low as they can be set, or lower. -/
@[reducible] def lowLimits : Interpreter where
  __ := Interpreter.plain
  recursionLimit := 50
  recursionLimit_large := by decide
  maxStrDigits := 640

omit [Interpreter] in
/-- **A line that is no UTF-8, one with an integer that is too long and one that nests too deep
each stop the append**, which would have been stored without the scan. -/
theorem hostile_line_stops_append :
    ¬ @ScanKeeps Interpreter.plain (@Json.loadsDigits Interpreter.plain) 2 .sound blankEntry
        (lineBefore [0xFF]) ∧
      ¬ @ScanKeeps lowLimits (@Json.loadsDigits lowLimits) 2 .sound blankEntry
        (lineBefore (List.replicate 641 0x31)) ∧
      ¬ @ScanKeeps lowLimits (@Json.loadsDigits lowLimits) 2 .sound blankEntry
        (lineBefore (List.replicate 51 0x5B)) := by
  refine ⟨?_, ?_, ?_⟩
  · exact @not_scanKeeps_of_returnsBehind Interpreter.plain _ (by decide +kernel)
      (by decide +kernel)
  · exact @not_scanKeeps_of_returnsBehind lowLimits _ (by decide +kernel) (by decide +kernel)
  · exact @not_scanKeeps_of_returnsBehind lowLimits _ (by decide +kernel) (by decide +kernel)

end Append

end Waxseal
