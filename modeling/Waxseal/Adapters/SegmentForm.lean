import Waxseal.Base.Delimiters
import Waxseal.Base.JsonLines
import Waxseal.Domain.Hashing

/-!
# A segment as a form

`_multipart` of `adapters/segment_archive.py`: a segment is sent as the one file of a
`multipart/form-data`.  The boundary is always the same, and a segment that has it is refused.

`formFile` reads the format, and what was framed is read back whatever the segment is
(`formFile_multipart`).
-/

namespace Waxseal

open Json

/-! ## The form -/

/-- `_MULTIPART_BOUNDARY`. -/
def multipartBoundary : Bytes := ascii "waxseal-sealed-segment-boundary"

/-- `_UNSAFE_IN_FILENAME`. -/
def unsafeInFilename (c : CodePoint) : Bool :=
  c = .ofChar '"' || c = .ofChar '\\' || c = .ofChar '\r' || c = .ofChar '\n'

/-- `\r\n`. -/
def crlf : Bytes := [CR, LF]

/-- `--` and the boundary. -/
def boundaryMarker : Bytes := ascii "--" ++ multipartBoundary

/-- What is before the name in the header of the part. -/
def dispositionStart : Bytes := ascii "Content-Disposition: form-data; name=\"file\"; filename=\""

/-- The header behind it. -/
def contentTypeLine : Bytes := ascii "Content-Type: application/octet-stream"

/-- What is in front of the segment. -/
def multipartHead (name : Bytes) : Bytes :=
  boundaryMarker ++ crlf ++ (dispositionStart ++ name ++ ascii "\"" ++ crlf)
    ++ (contentTypeLine ++ crlf) ++ crlf

/-- What is behind it. -/
def multipartTail : Bytes := crlf ++ boundaryMarker ++ ascii "--" ++ crlf

/-- `_multipart(name, body)`, but for the content type, which is always the same. -/
def multipart (name : PyStr) (body : Bytes) : Except PyErr Bytes :=
  if name.any unsafeInFilename then .error .valueError
  else if boundaryMarker <:+: body then .error .valueError
  else if isAscii name then .ok (multipartHead (asciiBytes name) ++ body ++ multipartTail)
  else .error .unicodeEncodeError

/-- What the form adds to a name and a segment. -/
def framingLength : ℕ := (multipartHead []).length + multipartTail.length

example : framingLength = 174 := by decide +kernel

theorem length_multipart {name : PyStr} {body raw : Bytes} (h : multipart name body = .ok raw) :
    raw.length = framingLength + name.length + body.length := by
  rw [multipart] at h
  split_ifs at h
  rw [← Except.ok.inj h, framingLength]
  simp only [multipartHead, List.length_append, List.length_nil, length_asciiBytes]
  omega

/-! ## The format -/

/-- What is behind a prefix. -/
def behind (start s : Bytes) : Option Bytes :=
  if start <+: s then some (s.drop start.length) else none

/-- The headers of a part, up to the empty line. -/
def readHeaders : ℕ → Bytes → Option (List Bytes × Bytes)
  | 0, _ => none
  | n + 1, s => do
      let (line, rest) ← Delimiters.cut crlf s
      if line = [] then return ([], rest)
      let (lines, rest) ← readHeaders n rest
      return (line :: lines, rest)

/-- **A form with one file**, as `multipart/form-data` has it: the boundary, the headers of the
part, and its content up to the boundary at the start of a line. -/
def formFile (raw : Bytes) : Option (PyStr × Bytes) := do
  let part ← behind (boundaryMarker ++ crlf) raw
  let (headers, part) ← readHeaders raw.length part
  let (content, close) ← Delimiters.cut (crlf ++ boundaryMarker) part
  let _ ← behind (ascii "--") close
  let disposition ← headers.head?
  let (name, _) ← Delimiters.cut (ascii "\"") (← behind dispositionStart disposition)
  if name.all fun b => 0x20 ≤ b.toNat && b.toNat ≤ 0x7E && b ≠ 0x5C then
    return (name.map fun b => Fin.ofNat 0x110000 b.toNat, content)
  else none

/-- Why a form is not read. -/
inductive FormError where
  | malformed
  /-- It has no file under the name. -/
  | missing
  deriving DecidableEq

/-- A reader of forms that reads these. -/
def ReadsForms (reader : Bytes → Except FormError (PyStr × Bytes)) : Prop :=
  ∀ raw file, formFile raw = some file → reader raw = .ok file

theorem behind_append (start s : Bytes) : behind start (start ++ s) = some s := by
  rw [behind, if_pos (List.prefix_append start s), List.drop_left]

theorem readHeaders_cons {line : Bytes} (hline : CR ∉ line) (hne : line ≠ []) (n : ℕ) (s : Bytes) :
    readHeaders (n + 1) (line ++ (crlf ++ s)) =
      (readHeaders n s).map fun out => (line :: out.1, out.2) := by
  have hcut : Delimiters.cut crlf (line ++ (crlf ++ s)) = some (line, s) := by
    refine Delimiters.cut_append (by decide) ?_ s
    intro hoccurs
    exact hline (hoccurs.subset List.mem_cons_self)
  rw [readHeaders, hcut]
  simp only [Option.bind_eq_bind, Option.bind_some, if_neg hne]
  cases readHeaders n s with
  | none => rfl
  | some out => rfl

theorem readHeaders_nil (n : ℕ) (s : Bytes) : readHeaders (n + 1) (crlf ++ s) = some ([], s) := by
  have hcut : Delimiters.cut crlf ([] ++ (crlf ++ s)) = some ([], s) :=
    Delimiters.cut_append (by decide) (by decide) s
  rw [List.nil_append] at hcut
  rw [readHeaders, hcut]
  rfl

theorem isPrintable_of_all {s : PyStr} (h : (s.all fun c => decide (IsPrintable c)) = true) :
    ∀ c ∈ s, IsPrintable c :=
  fun c hc => of_decide_eq_true (List.all_eq_true.mp h c hc)

/-- A name that can be sent. -/
structure SafeName (name : PyStr) : Prop where
  printable : ∀ c ∈ name, IsPrintable c
  safe : name.any unsafeInFilename = false

theorem toNat_toByte {c : CodePoint} (h : c.val < 256) : c.toByte.toNat = c.val :=
  UInt8.toNat_ofNat_of_lt' h

/-- The bytes of a name that can be sent. -/
theorem mem_asciiBytes_name {name : PyStr} (h : SafeName name) {b : UInt8}
    (hb : b ∈ asciiBytes name) :
    0x20 ≤ b.toNat ∧ b.toNat ≤ 0x7E ∧ b ≠ 0x22 ∧ b ≠ 0x5C := by
  obtain ⟨c, hc, rfl⟩ := List.mem_map.mp hb
  obtain ⟨hlo, hhi⟩ := h.printable c hc
  have hsafe := List.any_eq_false.mp h.safe c hc
  simp only [unsafeInFilename, Bool.or_eq_true, decide_eq_true_eq, not_or] at hsafe
  have hval : c.toByte.toNat = c.val := toNat_toByte (by omega)
  refine ⟨by omega, by omega, ?_, ?_⟩
  · intro heq
    refine hsafe.1.1.1 (Fin.ext ?_)
    rw [← hval, heq]
    rfl
  · intro heq
    refine hsafe.1.1.2 (Fin.ext ?_)
    rw [← hval, heq]
    rfl

/-- **What was framed is read**, whatever is in the segment: the framing refuses the marker, and an
occurrence of the delimiter cannot begin in the segment and end behind it. -/
theorem formFile_multipart {name : PyStr} (hname : SafeName name) {body raw : Bytes}
    (h : multipart name body = .ok raw) : formFile raw = some (name, body) := by
  rw [multipart, if_neg (by rw [hname.safe]; decide)] at h
  split_ifs at h with hmarker hascii
  obtain rfl := (Except.ok.inj h).symm
  -- the header of the part
  have hquote : (0x22 : UInt8) ∉ asciiBytes name := fun hb => (mem_asciiBytes_name hname hb).2.2.1 rfl
  have hCR : CR ∉ dispositionStart ++ (asciiBytes name ++ [0x22]) := by
    rw [List.mem_append, List.mem_append, not_or, not_or]
    refine ⟨by decide, fun hb => ?_, by decide⟩
    have := (mem_asciiBytes_name hname hb).1
    exact absurd this (by decide)
  have hdisposition : (dispositionStart ++ (asciiBytes name ++ [0x22])) ≠ [] :=
    List.append_ne_nil_of_left_ne_nil (by decide) _
  -- the segment
  have hfree : ¬ (crlf ++ boundaryMarker) <:+: body := by
    intro hoccurs
    exact hmarker ((List.suffix_append crlf boundaryMarker).isInfix.trans hoccurs)
  have hcontent : Delimiters.cut (crlf ++ boundaryMarker)
      (body ++ (crlf ++ boundaryMarker ++ (ascii "--" ++ crlf))) =
        some (body, ascii "--" ++ crlf) :=
    Delimiters.cut_append (by decide) hfree _
  obtain ⟨raw, hraw⟩ : ∃ raw, raw = multipartHead (asciiBytes name) ++ body ++ multipartTail :=
    ⟨_, rfl⟩
  have hparts : raw = (boundaryMarker ++ crlf) ++ ((dispositionStart ++ (asciiBytes name ++ [0x22])) ++
      (crlf ++ (contentTypeLine ++ (crlf ++ (crlf ++
        (body ++ (crlf ++ boundaryMarker ++ (ascii "--" ++ crlf)))))))) := by
    rw [hraw, multipartHead, multipartTail, show ascii "\"" = [0x22] from rfl]
    simp only [List.append_assoc]
  obtain ⟨n, hn⟩ : ∃ n, raw.length = n + 3 := by
    refine ⟨raw.length - 3, ?_⟩
    have hlen : (boundaryMarker ++ crlf).length = 35 := by decide
    have := congrArg List.length hparts
    rw [List.length_append, hlen] at this
    omega
  have hheaders : readHeaders raw.length ((dispositionStart ++ (asciiBytes name ++ [0x22])) ++
      (crlf ++ (contentTypeLine ++ (crlf ++ (crlf ++
        (body ++ (crlf ++ boundaryMarker ++ (ascii "--" ++ crlf)))))))) =
      some ([dispositionStart ++ (asciiBytes name ++ [0x22]), contentTypeLine],
        body ++ (crlf ++ boundaryMarker ++ (ascii "--" ++ crlf))) := by
    rw [hn, readHeaders_cons hCR hdisposition, readHeaders_cons (by decide) (by decide),
      readHeaders_nil]
    rfl
  have hnameBytes : Delimiters.cut (ascii "\"") (asciiBytes name ++ [0x22]) =
      some (asciiBytes name, []) := Delimiters.cut_singleton hquote []
  have hall : ((asciiBytes name).all fun b => 0x20 ≤ b.toNat && b.toNat ≤ 0x7E && b ≠ 0x5C) = true := by
    refine List.all_eq_true.mpr fun b hb => ?_
    obtain ⟨hlo, hhi, -, hslash⟩ := mem_asciiBytes_name hname hb
    simp [hlo, hhi, hslash]
  have htext : ((asciiBytes name).map fun b => (Fin.ofNat 0x110000 b.toNat : CodePoint)) = name := by
    rw [asciiBytes, List.map_map]
    refine (List.map_congr_left fun c hc => ?_).trans (List.map_id name)
    have hprint := (hname.printable c hc).2
    refine Fin.ext ?_
    show (c.toByte.toNat % 0x110000) = c.val
    rw [toNat_toByte (by omega), Nat.mod_eq_of_lt (by omega)]
  rw [← hraw]
  have hpart : behind (boundaryMarker ++ crlf) raw = some ((dispositionStart ++ (asciiBytes name ++ [0x22])) ++
      (crlf ++ (contentTypeLine ++ (crlf ++ (crlf ++
        (body ++ (crlf ++ boundaryMarker ++ (ascii "--" ++ crlf)))))))) := by
    rw [hparts, behind_append]
  simp only [formFile, hpart, Option.bind_eq_bind, Option.bind_some, hheaders, hcontent,
    behind_append, List.head?_cons, hnameBytes, hall, if_true, htext]
  rfl

end Waxseal
