import Waxseal.Adapters.Trail
import Waxseal.Base.SurrogatePairs
import Waxseal.Domain.Handoff

/-!
# The envelopes a server accepts

`parse_envelope` of the server's `domain/envelope.py`: it decides whether a body is well
formed and rebuilds the entry it describes.  Nothing is re-derived, so the hashes of the
entry are whatever the client wrote, as long as they look like hashes.

The text fields can hold surrogate pairs, which JSON joins.  What is stored is therefore the
entry with its pairs joined (`storedText_joined`), and that one can be read back
(`storable_joined`).
-/

namespace Waxseal

open Json

/-! ## Identifiers -/

/-- `HEX64_RE.match(value)`.  The `$` of the pattern also matches before a last newline. -/
def isHex64 (s : PyStr) : Bool :=
  isSha256Hex s || (s.getLast? == some 0x0A && isSha256Hex s.dropLast)

/-- The characters `SAFE_NAME_RE` allows first. -/
def isAlphanumeric (c : CodePoint) : Bool :=
  isDigit c || (0x41 ≤ c.val && c.val ≤ 0x5A) || (0x61 ≤ c.val && c.val ≤ 0x7A)

/-- The characters `SAFE_NAME_RE` allows after the first: also `.`, `_` and `-`. -/
def isSafeChar (c : CodePoint) : Bool :=
  isAlphanumeric c || c == .ofChar '.' || c == .ofChar '_' || c == .ofChar '-'

/-- `SAFE_NAME_RE.match(chain_id)`, again with a last newline. -/
def isSafeName (s : PyStr) : Bool :=
  match if s.getLast? = some 0x0A then s.dropLast else s with
  | [] => false
  | c :: rest => isAlphanumeric c && rest.all isSafeChar && rest.length ≤ 63

theorem noSurrogatePair_of_ascii {s : PyStr} (h : ∀ c ∈ s, c.val < 0x80) : NoSurrogatePair s := by
  refine noSurrogatePair_of_isSurrogate fun c hc => ?_
  have := h c hc
  simp only [CodePoint.isSurrogate, Bool.and_eq_false_imp, decide_eq_true_eq,
    decide_eq_false_iff_not]
  omega

/-- The characters of a string that may end in a newline. -/
theorem forall_mem_of_dropLast {P : CodePoint → Prop} {s : PyStr} (hlast : s.getLast? = some 0x0A)
    (hline : P 0x0A) (h : ∀ c ∈ s.dropLast, P c) : ∀ c ∈ s, P c := by
  intro c hc
  rw [← List.dropLast_append_getLast? 0x0A hlast] at hc
  rcases List.mem_append.mp hc with hc | hc
  · exact h c hc
  · rwa [List.mem_singleton.mp hc]

theorem noSurrogatePair_of_isHex64 {s : PyStr} (h : isHex64 s = true) : NoSurrogatePair s := by
  have hex : ∀ {t : PyStr}, isSha256Hex t = true → ∀ c ∈ t, c.val < 0x80 := by
    intro t ht c hc
    have := (isPrintable_of_isLowerHex (Bool.and_eq_true_iff.mp ht).2 c hc).2
    omega
  apply noSurrogatePair_of_ascii
  rcases Bool.or_eq_true_iff.mp h with hplain | hline
  · exact hex hplain
  · obtain ⟨hlast, hrest⟩ := Bool.and_eq_true_iff.mp hline
    exact forall_mem_of_dropLast (beq_iff_eq.mp hlast) (by decide) (hex hrest)

theorem val_lt_of_isAlphanumeric {c : CodePoint} (h : isAlphanumeric c = true) : c.val < 0x80 := by
  simp only [isAlphanumeric, isDigit, Bool.or_eq_true, Bool.and_eq_true, decide_eq_true_eq] at h
  omega

theorem val_lt_of_isSafeChar {c : CodePoint} (h : isSafeChar c = true) : c.val < 0x80 := by
  simp only [isSafeChar, Bool.or_eq_true, beq_iff_eq] at h
  rcases h with ((h | rfl) | rfl) | rfl
  · exact val_lt_of_isAlphanumeric h
  · decide
  · decide
  · decide

theorem val_lt_of_isSafeName {s : PyStr} (h : isSafeName s = true) : ∀ c ∈ s, c.val < 0x80 := by
  unfold isSafeName at h
  have body : ∀ c ∈ if s.getLast? = some 0x0A then s.dropLast else s, c.val < 0x80 := by
    generalize (if s.getLast? = some 0x0A then s.dropLast else s) = t at h
    cases t with
    | nil => cases h
    | cons c rest =>
        simp only [Bool.and_eq_true, List.all_eq_true] at h
        exact List.forall_mem_cons.mpr ⟨val_lt_of_isAlphanumeric h.1.1, fun d hd =>
          val_lt_of_isSafeChar (h.1.2 d hd)⟩
  split_ifs at body with hlast
  · exact forall_mem_of_dropLast hlast (by decide) body
  · exact body

/-! ## Parsing -/

/-- `MalformedEnvelope`: what is wrong with the body, and in which field. -/
inductive MalformedEnvelope where
  | notAnObject
  | header
  | missing (names : List PyStr)
  | seq
  | notAString (field : PyStr)
  | notHex64 (field : PyStr)
  | missingEntryHash
  | payload
  | payloadBase64
  deriving DecidableEq

/-- `raise MalformedEnvelope(...)` unless the check passes. -/
def require (check : Bool) (defect : MalformedEnvelope) : Except MalformedEnvelope Unit :=
  if check then .ok () else .error defect

/-- `require_hex64(value, field)`. -/
def requireHex64 (value : Json) (field : PyStr) : Except MalformedEnvelope PyStr :=
  match value with
  | .str s => if isHex64 s then .ok s else .error (.notHex64 field)
  | _ => .error (.notHex64 field)

/-- `isinstance(value, str)`. -/
def requireStr (value : Json) (defect : MalformedEnvelope) : Except MalformedEnvelope PyStr :=
  match value with
  | .str s => .ok s
  | _ => .error defect

/-- `isinstance(value, dict)`. -/
def requireDict (value : Json) (defect : MalformedEnvelope) :
    Except MalformedEnvelope (List (PyStr × Json)) :=
  match value with
  | .obj members => .ok members
  | _ => .error defect

/-- A non-negative integer that is no boolean. -/
def requireSeq (value : Json) : Except MalformedEnvelope ℕ :=
  match value with
  | .int (.ofNat seq) => .ok seq
  | _ => .error .seq

/-- `header[name]` where the header has it, `envelope.get(name)` otherwise. -/
def memberOf (members : List (PyStr × Json)) (name : PyStr) : Json :=
  (members.find? (·.1 = name)).elim .null Prod.snd

/-- `HEADER_FIELDS` that are missing. -/
def missingFields (header : List (PyStr × Json)) : List PyStr :=
  headerFields.filter fun name => !header.any (·.1 = name)

/-- `parse_envelope(envelope)`. -/
def parseEnvelope (envelope : Json) : Except MalformedEnvelope Entry := do
  let members ← requireDict envelope .notAnObject
  let header ← requireDict (memberOf members (str "header")) .header
  require (missingFields header).isEmpty (.missing (missingFields header))
  let seq ← requireSeq (memberOf header (str "seq"))
  let ts ← requireStr (memberOf header (str "ts")) (.notAString (str "header.ts"))
  let payloadType ← requireStr (memberOf header (str "payload_type"))
    (.notAString (str "header.payload_type"))
  let hashVersion ← requireHex64 (memberOf header (str "hash_version")) (str "header.hash_version")
  let payloadHash ← requireHex64 (memberOf header (str "payload_hash")) (str "header.payload_hash")
  let prevHash ← requireHex64 (memberOf header (str "prev_hash")) (str "header.prev_hash")
  require (members.any (·.1 = str "entry_hash")) .missingEntryHash
  let entryHash ← requireHex64 (memberOf members (str "entry_hash")) (str "entry_hash")
  let payloadB64 ← requireStr (memberOf members (str "payload_b64")) .payload
  let payload ← (b64decodeValidate payloadB64).mapError fun _ => .payloadBase64
  return {
    header := {
      seq := seq
      ts := ts
      hashVersion := hashVersion
      payloadType := payloadType
      payloadHash := payloadHash
      prevHash := prevHash }
    entryHash := entryHash
    payload := some payload }

/-- What was checked about an envelope. -/
structure IsEnvelope (e : Entry) : Prop where
  payload : e.payload.isSome = true
  seq : 0 ≤ e.header.seq
  hashVersion : isHex64 e.header.hashVersion = true
  payloadHash : isHex64 e.header.payloadHash = true
  prevHash : isHex64 e.header.prevHash = true
  entryHash : isHex64 e.entryHash = true

/-- An entry a client sent. -/
abbrev Envelope := { e : Entry // IsEnvelope e }

theorem isHex64_of_requireHex64 {value : Json} {field s : PyStr}
    (h : requireHex64 value field = .ok s) : isHex64 s = true := by
  unfold requireHex64 at h
  split at h
  · split_ifs at h with hhex
    rwa [← Except.ok.inj h]
  · cases h

/-- A step of a parser that goes on only if the one before did. -/
theorem parse_bind_eq_ok {α β : Type} {x : Except MalformedEnvelope α}
    {f : α → Except MalformedEnvelope β} {b : β} (h : x >>= f = .ok b) :
    ∃ a, x = .ok a ∧ f a = .ok b := by
  cases x with
  | error m => cases h
  | ok a => exact ⟨a, rfl, h⟩

/-- **An envelope that was accepted has been checked.** -/
theorem isEnvelope_of_parseEnvelope {envelope : Json} {e : Entry}
    (h : parseEnvelope envelope = .ok e) : IsEnvelope e := by
  obtain ⟨members, -, h⟩ := parse_bind_eq_ok h
  obtain ⟨header, -, h⟩ := parse_bind_eq_ok h
  obtain ⟨⟨⟩, -, h⟩ := parse_bind_eq_ok h
  obtain ⟨seq, -, h⟩ := parse_bind_eq_ok h
  obtain ⟨ts, -, h⟩ := parse_bind_eq_ok h
  obtain ⟨payloadType, -, h⟩ := parse_bind_eq_ok h
  obtain ⟨hashVersion, hversion, h⟩ := parse_bind_eq_ok h
  obtain ⟨payloadHash, hpayload, h⟩ := parse_bind_eq_ok h
  obtain ⟨prevHash, hprev, h⟩ := parse_bind_eq_ok h
  obtain ⟨⟨⟩, -, h⟩ := parse_bind_eq_ok h
  obtain ⟨entryHash, hhash, h⟩ := parse_bind_eq_ok h
  obtain ⟨payloadB64, -, h⟩ := parse_bind_eq_ok h
  obtain ⟨payload, -, h⟩ := parse_bind_eq_ok h
  obtain rfl := Except.ok.inj h
  exact {
    payload := rfl
    seq := Int.natCast_nonneg _
    hashVersion := isHex64_of_requireHex64 hversion
    payloadHash := isHex64_of_requireHex64 hpayload
    prevHash := isHex64_of_requireHex64 hprev
    entryHash := isHex64_of_requireHex64 hhash }

/-! ## What is stored -/

/-- The entry with the surrogate pairs of its text fields joined. -/
def Entry.joined (e : Entry) : Entry :=
  { e with header := { e.header with
      ts := joinPairs e.header.ts, payloadType := joinPairs e.header.payloadType } }

theorem storable_joined {e : Entry} (h : IsEnvelope e) : Storable e.joined where
  payload := h.payload
  ts := noSurrogatePair_joinPairs _
  hashVersion := noSurrogatePair_of_isHex64 h.hashVersion
  payloadType := noSurrogatePair_joinPairs _
  payloadHash := noSurrogatePair_of_isHex64 h.payloadHash
  prevHash := noSurrogatePair_of_isHex64 h.prevHash
  entryHash := noSurrogatePair_of_isHex64 h.entryHash

/-- **The joined entry is stored the same way.** -/
theorem storedText_joined [Interpreter] (e : Entry) : storedText e.joined = storedText e := by
  simp only [storedText, storedMembers, Entry.joined, dumps, dumpsMembers, dumpsStr_joinPairs]

end Waxseal
