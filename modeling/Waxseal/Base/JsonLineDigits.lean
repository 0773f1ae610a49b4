import Waxseal.Base.JsonRecords
import Waxseal.Base.JsonWriting

/-!
# Lines with integers that are too long

The reader of JSON lines, with the limit on the digits of an integer.  A file of records whose
integers could be written is read as without it (`RecordFormat.readLinesDigits_fileBytes`).
-/

namespace Waxseal

open Json

variable [Interpreter]

section Read

variable {α : Type} (f : Json → Except PyErr α)

/-- One line of a reader: nothing for a blank line, else `f(json.loads(line))`. -/
def readLineDigits (line : Bytes) : Except PyErr (Option α) :=
  match decodeUtf8 line with
  | none => .error .unicodeDecodeError
  | some s => if isBlank s then .ok none else (loadsTextDigits s >>= f).map some

/-- The loop of a reader over the lines of a file. -/
def readLinesLoopDigits : List Bytes → Except PyErr (List α)
  | [] => .ok []
  | line :: lines => do
      let x ← readLineDigits f line
      let xs ← readLinesLoopDigits lines
      return x.toList ++ xs

/-- `[f(json.loads(line)) for line in file if line.strip()]`. -/
def readLinesDigits (file : Bytes) : Except PyErr (List α) :=
  readLinesLoopDigits f (textLines file)

end Read

namespace RecordFormat

variable {α : Type} {R : RecordFormat α} {a : α}

/-- A line whose integers could be written is read. -/
theorem readLineDigits_line (h : R.Storable a) (hfit : intsFit (.obj (R.members a)) = true) :
    readLineDigits R.read (R.bytes a ++ [LF]) = .ok (some a) := by
  have hopen : OpensObject (R.text a ++ [0x0A]) := (R.opensObject_text a).append _
  have hascii : isAscii (R.text a ++ [0x0A]) = true := by
    rw [isAscii, List.all_append, Bool.and_eq_true]
    exact ⟨isAscii_of_printable (isPrintable_text h), rfl⟩
  have hload : loadsTextDigits (R.text a ++ [0x0A]) = .ok (.obj (R.members a)) :=
    loadsTextDigits_dumps (R.writable h) hfit rfl
  have hline : R.bytes a ++ [LF] = asciiBytes (R.text a ++ [0x0A]) := by
    rw [asciiBytes_append]
    rfl
  rw [hline, readLineDigits, decodeUtf8_encode (encodeUtf8_ascii hascii)]
  simp only [isBlank_opensObject hopen, Bool.false_eq_true, if_false, hload]
  show (R.read (.obj (R.members a))).map some = _
  rw [R.read_members h]
  rfl

theorem textLines_fileBytes {as : List α} (h : ∀ a ∈ as, R.Storable a) :
    textLines (R.fileBytes as) = as.map fun a => R.bytes a ++ [LF] := by
  induction as using List.reverseRecOn with
  | nil => rfl
  | append_singleton as a ih =>
      rw [List.forall_mem_append, List.forall_mem_singleton] at h
      rw [fileBytes_snoc, textLines_append (R.endsLine_fileBytes as) (R.line_ne_LF a [LF]), ih h.1,
        textLines_bytes h.2, List.map_append, List.map_singleton]

/-- **The reader returns the records of the file.** -/
theorem readLinesDigits_fileBytes {as : List α} (h : ∀ a ∈ as, R.Storable a)
    (hfit : ∀ a ∈ as, intsFit (.obj (R.members a)) = true) :
    readLinesDigits R.read (R.fileBytes as) = .ok as := by
  rw [readLinesDigits, textLines_fileBytes h]
  induction as with
  | nil => rfl
  | cons a as ih =>
      rw [List.forall_mem_cons] at h hfit
      rw [List.map_cons, readLinesLoopDigits, readLineDigits_line h.1 hfit.1, ih h.2 hfit.2]
      rfl

end RecordFormat

end Waxseal
