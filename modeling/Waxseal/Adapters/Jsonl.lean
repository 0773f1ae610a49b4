import Mathlib.Data.PNat.Defs
import Waxseal.Adapters.Envelope
import Waxseal.Base.HashChain

/-!
# The JSONL backend

`adapters/jsonl.py`: a trail is a file with one stored entry a line.  `append` reads the
tail backward from the end of the file, looks at the lines it has not scanned yet every so
often, and writes the new line; `entries` and `entry_hashes` read the file forward.

The file is its bytes; a file that does not exist has none.  What the operating system may
do to an append is spelled out in `AppendIo`, step by step, down to the number of bytes a
failing write leaves behind.
-/

namespace Waxseal

/-! ## The tail -/

/-- `_TAIL_SEEK_CHUNK`. -/
def tailSeekChunk : ℕ+ := ⟨4096, by decide⟩

/-- The loop of `read_last_line`, for any chunk size: `remaining` bytes are before what was read
so far. -/
def readLastLineLoop (seekChunk : ℕ+) (file : Bytes) (remaining : ℕ) (chunk : Bytes) :
    Option Bytes :=
  let readSize := min (seekChunk : ℕ) remaining
  let rest := remaining - readSize
  let chunk := (file.drop rest).take readSize ++ chunk
  let trimmed := chunk.rdropWhile isBreak
  if LF ∈ trimmed then some (trimmed.rtakeWhile (· ≠ LF))
  else if rest = 0 then if trimmed = [] then none else some trimmed
  else readLastLineLoop seekChunk file rest chunk
termination_by remaining
decreasing_by
  have hpos := seekChunk.pos
  omega

/-- `read_last_line(path)`, for any chunk size. -/
def readLastLineBy (seekChunk : ℕ+) (file : Bytes) : Option Bytes :=
  if file.length = 0 then none else readLastLineLoop seekChunk file file.length []

/-- `read_last_line(path)`. -/
def readLastLine (file : Bytes) : Option Bytes := readLastLineBy tailSeekChunk file

theorem readLastLineLoop_eq (seekChunk : ℕ+) (file : Bytes) (remaining : ℕ) :
    readLastLineLoop seekChunk file remaining (file.drop remaining) = lastLine file := by
  induction remaining using Nat.strongRecOn with
  | ind remaining ih =>
      have hchunk : ∀ rest ≤ remaining, (file.drop rest).take (remaining - rest)
          ++ file.drop remaining = file.drop rest := by
        intro rest hle
        conv_rhs => rw [← List.take_append_drop (remaining - rest) (file.drop rest)]
        rw [List.drop_drop, show rest + (remaining - rest) = remaining by omega]
      rw [readLastLineLoop]
      generalize hsize : min (seekChunk : ℕ) remaining = readSize
      have hle : readSize ≤ remaining := hsize ▸ Nat.min_le_right _ _
      have hread := hchunk (remaining - readSize) (Nat.sub_le _ _)
      rw [show remaining - (remaining - readSize) = readSize by omega] at hread
      simp only [hread]
      have hlast := @lastLine_append (file.take (remaining - readSize))
        (file.drop (remaining - readSize))
      rw [List.take_append_drop] at hlast
      split_ifs with hLF hstart htrim
      · rw [hlast hLF, lastLine, if_neg (List.ne_nil_of_mem hLF)]
      · rw [hstart, List.drop_zero] at htrim
        rw [lastLine, if_pos htrim]
      · rw [hstart, List.drop_zero] at htrim hLF ⊢
        have htake : (file.rdropWhile isBreak).rtakeWhile (· ≠ LF) = file.rdropWhile isBreak :=
          List.rtakeWhile_eq_self_iff.mpr fun b hb => decide_eq_true fun heq => hLF (heq ▸ hb)
        rw [lastLine, if_neg htrim, htake]
      · refine ih _ ?_
        have hpos := seekChunk.pos
        omega

/-- **The chunked reader finds the last line**, for any chunk size. -/
theorem readLastLineBy_eq (seekChunk : ℕ+) (file : Bytes) :
    readLastLineBy seekChunk file = lastLine file := by
  unfold readLastLineBy
  split_ifs with h
  · rw [List.length_eq_zero_iff.mp h]
    rfl
  · rw [← readLastLineLoop_eq seekChunk file file.length, List.drop_length]

theorem readLastLine_eq (file : Bytes) : readLastLine file = lastLine file :=
  readLastLineBy_eq tailSeekChunk file

/-! ## Readers -/

section Readers

variable [Interpreter]

/-- `entries()`. -/
def entries (file : Bytes) : Except PyErr (List Entry) := readLines fromObj file

/-- `entry_hashes()` of the backend. -/
def entryHashes (file : Bytes) : Except PyErr (List PyStr) := readLines entryHashField file

/-- `_tail_locked()`: the position and the back link of the next entry. -/
def tailLocked (file : Bytes) : Except PyErr (ℤ × PyStr) :=
  match readLastLine file with
  | none => .ok (0, genesisPrevHash)
  | some line => do
      let (seq, entryHash) ← tailFields (← Json.loadsBytes line)
      return (seq + 1, entryHash)

end Readers

/-! ## The integrity scan -/

/-- What a backend object knows about its file: the bytes, and how many of them, in how
many lines, it has parsed clean. -/
structure Store where
  file : Bytes
  scannedOffset : ℕ
  scannedLines : ℕ

/-- A backend object that has just been constructed over a file. -/
def Store.opened (file : Bytes) : Store := ⟨file, 0, 0⟩

/-- The outcome of `_integrity_scan`. -/
inductive ScanReport where
  | clean
  /-- `JSONLCorruptionError(line_no, byte_offset)`. -/
  | corrupted (lineNo byteOffset : ℕ)
  /-- Any other exception. -/
  | raised (e : PyErr)
  deriving DecidableEq

/-- The whitespace `bytes.strip` removes. -/
def isByteSpace (b : UInt8) : Bool := (0x09 ≤ b.toNat && b.toNat ≤ 0x0D) || b.toNat == 0x20

/-- `raw.strip()`. -/
def bytesStrip (raw : Bytes) : Bytes := (raw.dropWhile isByteSpace).rdropWhile isByteSpace

/-- A decoder of stored lines: `json.loads`. -/
abbrev Loads := Bytes → Except PyErr Json

/-- The loop of `_integrity_scan`, with the place it is at and the place it has cleared, for any
decoder. -/
def integrityScanLoopBy (loads : Loads) : List Bytes → ℕ → ℕ → ℕ × ℕ → ScanReport × (ℕ × ℕ)
  | [], _, _, scanned => (.clean, scanned)
  | raw :: raws, byteOffset, lineNo, scanned =>
      let next := integrityScanLoopBy loads raws (byteOffset + raw.length) (lineNo + 1)
        (if raw.getLast? = some LF then (byteOffset + raw.length, lineNo + 1) else scanned)
      if bytesStrip raw = [] then next
      else
        match loads (bytesStrip raw) with
        | .ok _ => next
        | .error .jsonDecodeError => (.corrupted (lineNo + 1) byteOffset, scanned)
        | .error e => (.raised e, scanned)

/-- `_integrity_scan()`, for any decoder.  A file that got shorter is scanned from its start. -/
def integrityScanBy (loads : Loads) (s : Store) : ScanReport × Store :=
  let start := if s.file.length < s.scannedOffset then (0, 0) else (s.scannedOffset, s.scannedLines)
  let (report, scanned) := integrityScanLoopBy loads (rawLines (s.file.drop start.1)) start.1
    start.2 (s.scannedOffset, s.scannedLines)
  (report, { s with scannedOffset := scanned.1, scannedLines := scanned.2 })

section Append

variable [Interpreter]

/-- The loop of `_integrity_scan`, with the place it is at and the place it has cleared. -/
def integrityScanLoop : List Bytes → ℕ → ℕ → ℕ × ℕ → ScanReport × (ℕ × ℕ) :=
  integrityScanLoopBy Json.loadsBytes

/-- `_integrity_scan()`. -/
def integrityScan : Store → ScanReport × Store := integrityScanBy Json.loadsBytes

/-- Whether an append at `nextSeq` scans; `% 0` raises. -/
def scanDue (integrityScanEvery : Option ℤ) (nextSeq : ℤ) : Except PyErr Bool :=
  match integrityScanEvery with
  | none => .ok false
  | some every =>
      if 0 < nextSeq then
        if every = 0 then .error .zeroDivisionError else .ok ((nextSeq + 1) % every = 0)
      else .ok false

/-! ## Appending -/

/-- What the operating system does to one append: the steps that fail, and with what. -/
structure AppendIo where
  /-- Creating or taking the lock. -/
  lock : Option PyErr
  /-- Reading the tail. -/
  readTail : Option PyErr
  /-- Reading the lines to scan. -/
  scan : Option PyErr
  /-- A warning filter that turns the scan's warning into an error. -/
  warn : Option PyErr
  /-- Opening the trail for appending. -/
  openTrail : Option PyErr
  /-- Writing and flushing the line: the number of bytes that reached the file before the
  failure. -/
  write : Option (ℕ × PyErr)
  /-- Closing the trail and giving up the lock. -/
  release : Option PyErr

/-- Nothing fails. -/
def AppendIo.sound : AppendIo := ⟨none, none, none, none, none, none, none⟩

/-- Go on unless a step fails. -/
def orFail (fault : Option PyErr) : Except PyErr Unit :=
  match fault with
  | none => .ok ()
  | some e => .error e

/-- A step of an append that looks at the trail without changing it, and may move the
resume point of the scan. -/
def scanStep (integrityScanEvery : Option ℤ) (io : AppendIo) (nextSeq : ℤ) (s : Store) :
    Except PyErr Unit × Store :=
  match scanDue integrityScanEvery nextSeq with
  | .error e => (.error e, s)
  | .ok false => (.ok (), s)
  | .ok true =>
      match io.scan with
      | some e => (.error e, s)
      | none =>
          match integrityScan s with
          | (.clean, s) => (.ok (), s)
          | (.corrupted _ _, s) => (orFail io.warn, s)
          | (.raised e, s) => (.error e, s)

/-- The entry and the bytes of its line. -/
def encodeEntry (io : AppendIo) (build : ℤ → PyStr → Except PyErr Entry) (tail : ℤ × PyStr) :
    Except PyErr (Entry × Bytes) := do
  let entry ← build tail.1 tail.2
  let line ← entryLine entry
  orFail io.openTrail
  match encodeUtf8 (line ++ [0x0A]) with
  | none => .error .unicodeEncodeError
  | some bytes => return (entry, bytes)

/-- The lock, then the tail. -/
def lockedTail (io : AppendIo) (file : Bytes) : Except PyErr (ℤ × PyStr) := do
  orFail io.lock
  orFail io.readTail
  tailLocked file

/-- What `append` does before its first byte is written. -/
def prepare (integrityScanEvery : Option ℤ) (io : AppendIo)
    (build : ℤ → PyStr → Except PyErr Entry) (s : Store) : Except PyErr (Entry × Bytes) × Store :=
  match lockedTail io s.file with
  | .error e => (.error e, s)
  | .ok tail =>
      match scanStep integrityScanEvery io tail.1 s with
      | (.error e, s) => (.error e, s)
      | (.ok (), s) => (encodeEntry io build tail, s)

/-- `append(build)`. -/
def JSONLBackend.append (integrityScanEvery : Option ℤ) (io : AppendIo)
    (build : ℤ → PyStr → Except PyErr Entry) (s : Store) : Except PyErr Entry × Store :=
  match prepare integrityScanEvery io build s with
  | (.error e, s) => (.error e, s)
  | (.ok (entry, bytes), s) =>
      match io.write with
      | some (n, e) => (.error e, { s with file := s.file ++ bytes.take n })
      | none =>
          match io.release with
          | some e => (.error e, { s with file := s.file ++ bytes })
          | none => (.ok entry, { s with file := s.file ++ bytes })

theorem file_scanStep {every : Option ℤ} {io : AppendIo} {nextSeq : ℤ} {s : Store} :
    (scanStep every io nextSeq s).2.file = s.file := by
  unfold scanStep
  split
  · rfl
  · rfl
  · split
    · rfl
    · have hfile : (integrityScan s).2.file = s.file := rfl
      split <;> next h => rw [h] at hfile; exact hfile

/-- **Nothing is written before the line is complete.** -/
theorem file_prepare {every : Option ℤ} {io : AppendIo}
    {build : ℤ → PyStr → Except PyErr Entry} {s : Store} :
    (prepare every io build s).2.file = s.file := by
  unfold prepare
  split
  · rfl
  · next tail _ =>
      have hfile := @file_scanStep _ every io tail.1 s
      split <;> next h => rw [h] at hfile; exact hfile

theorem encodeEntry_ok {io : AppendIo} {build : ℤ → PyStr → Except PyErr Entry}
    {tail : ℤ × PyStr} {entry : Entry} {bytes : Bytes}
    (h : encodeEntry io build tail = .ok (entry, bytes)) :
    build tail.1 tail.2 = .ok entry ∧ entry.payload.isSome = true ∧
      encodeUtf8 (storedText entry ++ [0x0A]) = some bytes := by
  obtain ⟨entry', hbuild, h⟩ := bind_eq_ok_iff.mp h
  obtain ⟨line, hline, h⟩ := bind_eq_ok_iff.mp h
  obtain ⟨⟨⟩, -, h⟩ := bind_eq_ok_iff.mp h
  obtain ⟨hpayload, rfl⟩ := entryLine_ok hline
  cases hbytes : encodeUtf8 (storedText entry' ++ [0x0A]) with
  | none =>
      rw [hbytes] at h
      cases h
  | some bytes' =>
      rw [hbytes] at h
      obtain ⟨rfl, rfl⟩ := Prod.mk.inj (Except.ok.inj h)
      exact ⟨hbuild, hpayload, hbytes⟩

/-- What an append that starts to write has found: the tail, and the entry built on it. -/
theorem prepare_ok {every : Option ℤ} {io : AppendIo}
    {build : ℤ → PyStr → Except PyErr Entry} {s s' : Store} {entry : Entry} {bytes : Bytes}
    (h : prepare every io build s = (.ok (entry, bytes), s')) :
    ∃ tail, tailLocked s.file = .ok tail ∧ build tail.1 tail.2 = .ok entry ∧
      entry.payload.isSome = true ∧ encodeUtf8 (storedText entry ++ [0x0A]) = some bytes := by
  unfold prepare at h
  split at h
  · cases h
  · next tail htail =>
      have hread : tailLocked s.file = .ok tail := by
        obtain ⟨⟨⟩, -, htail⟩ := bind_eq_ok_iff.mp htail
        obtain ⟨⟨⟩, -, htail⟩ := bind_eq_ok_iff.mp htail
        exact htail
      split at h
      · cases h
      · obtain ⟨hencode, -⟩ := Prod.mk.inj h
        exact ⟨tail, hread, encodeEntry_ok hencode⟩

theorem lockedTail_sound (file : Bytes) : lockedTail .sound file = tailLocked file := rfl

end Append

end Waxseal
