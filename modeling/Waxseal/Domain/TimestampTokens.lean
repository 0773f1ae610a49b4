import Waxseal.Base.Base64
import Waxseal.Domain.IsoTime
import Waxseal.Domain.TimestampRequests

/-!
# Timestamp tokens

What `domain/rfc3161.py` reads of the answer to a timestamp request: the status, and of the token
in it the digest algorithm, the imprint, the serial number, the time and the nonce.  Certificates
and signers are skipped over.

`readTimestampResp` accepts a token for a message only if the token names SHA-256, its imprint is
the digest of the message, and its nonce is the one that was asked for
(`readTimestampResp_eq_ok_iff`).  An authority that answers a request of this library with a
granted token over what the request holds is accepted, whatever else the token carries
(`readTimestampResp_respond`).
-/

namespace Waxseal

open Json

/-! ## The time -/

/-- The days of a month. -/
def daysInMonth (year month : ℕ) : ℕ :=
  if month = 2 then
    if year % 4 = 0 ∧ (year % 100 ≠ 0 ∨ year % 400 = 0) then 29 else 28
  else if month ∈ [4, 6, 9, 11] then 30 else 31

/-- `datetime.strptime(body, "%Y%m%d%H%M%S").isoformat()`, of fourteen digits: the fields are of two
digits each then, and make a moment or do not. -/
def strptimeIso (body : PyStr) : Except PyErr PyStr :=
  let field (start width : ℕ) : ℕ := ofDigits ((body.drop start).take width)
  let year := field 0 4
  let month := field 4 2
  let day := field 6 2
  let hour := field 8 2
  let minute := field 10 2
  let second := field 12 2
  if 1 ≤ year ∧ 1 ≤ month ∧ month ≤ 12 ∧ 1 ≤ day ∧ day ≤ daysInMonth year month ∧ hour < 24
      ∧ minute < 60 ∧ second < 60 then
    .ok (zeroPadded 4 year ++ str "-" ++ zeroPadded 2 month ++ str "-" ++ zeroPadded 2 day ++ str "T"
      ++ zeroPadded 2 hour ++ str ":" ++ zeroPadded 2 minute ++ str ":" ++ zeroPadded 2 second)
  else .error .valueError

/-- `s.isdigit()`, of an ASCII string. -/
def isAsciiDigits (s : PyStr) : Bool := !s.isEmpty && s.all isDigit

/-- `_generalized_time_to_iso`, of an ASCII string. -/
def generalizedTimeToIso (raw : PyStr) : Except PyErr PyStr := do
  if raw.getLast? ≠ some (.ofChar 'Z') then throw .valueError
  let body := raw.dropLast.takeWhile (· ≠ .ofChar '.')
  let fraction := raw.dropLast.dropWhile (· ≠ .ofChar '.')
  -- what stands behind the first full stop, where there is one
  if fraction ≠ [] ∧ isAsciiDigits fraction.tail = false then throw .valueError
  if body.length ≠ 14 ∨ isAsciiDigits body = false then throw .valueError
  let stamp ← strptimeIso body
  return stamp ++ fraction ++ str "+00:00"

/-! ## Reading a token -/

/-- `TimestampToken`, with its imprint as bytes rather than in hex. -/
structure TimestampToken where
  digestAlgorithm : PyStr
  imprint : Bytes
  serialNumber : ℤ
  genTime : PyStr
  genTimeIso : PyStr
  nonce : Option ℤ
  deriving DecidableEq

/-- `TimestampResponse`. -/
structure TimestampResponse where
  status : ℤ
  token : Option TimestampToken

/-- `value.decode("ascii")`. -/
def decodeAscii (b : Bytes) : Except PyErr PyStr :=
  if b.all (· < 0x80) then .ok (b.map CodePoint.ofByte) else .error .unicodeDecodeError

/-- What `read_timestamp_resp` gives as a reason. -/
inductive TokenReason where
  | malformedToken
  | timestampRejected
  | unsupportedDigestAlgorithm
  | receiptImprintMismatch
  | nonceMismatch
  deriving DecidableEq, Repr

/-- The reason in words. -/
def TokenReason.text : TokenReason → PyStr
  | .malformedToken => str "malformed_token"
  | .timestampRejected => str "timestamp_rejected"
  | .unsupportedDigestAlgorithm => str "unsupported_digest_algorithm"
  | .receiptImprintMismatch => str "receipt_imprint_mismatch"
  | .nonceMismatch => str "nonce_mismatch"

/-- `_OID_SIGNED_DATA`. -/
def oidSignedData : PyStr := str "1.2.840.113549.1.7.2"

/-- `_OID_TSTINFO`. -/
def oidTstInfo : PyStr := str "1.2.840.113549.1.9.16.1.4"

section Reading

variable [Interpreter]

/-- The imprint of a token: its algorithm and the digest. -/
def parseImprint (messageImprint : Tlv) : Except PyErr (PyStr × Bytes) := do
  match ← sequence messageImprint with
  | algId :: hashed :: _ => do
      match ← sequence algId with
      -- the parameters of the algorithm are ignored
      | algorithm :: _ => do
          let digestAlgorithm ← oid algorithm
          if hashed.tag ≠ 0x04 then throw .valueError
          return (digestAlgorithm, hashed.value)
      | [] => throw .valueError
  | _ => throw .valueError

/-- `_parse_tst_info`. -/
def parseTstInfo : List Tlv → Except PyErr TimestampToken
  | version :: policy :: messageImprint :: serial :: genTime :: extras => do
      let _ ← integer version
      let _ ← oid policy
      let (digestAlgorithm, imprint) ← parseImprint messageImprint
      if genTime.tag ≠ 0x18 then throw .valueError
      let time ← decodeAscii genTime.value
      let nonce ← nonceAmong extras
      let serialNumber ← integer serial
      let iso ← generalizedTimeToIso time
      return ⟨digestAlgorithm, imprint, serialNumber, time, iso, nonce⟩
  | _ => throw .valueError

/-- The content of a `[0] EXPLICIT` behind an object identifier. -/
def explicitContent (expected : PyStr) (contentType content : Tlv) : Except PyErr Tlv := do
  if (← oid contentType) ≠ expected then throw .valueError
  if content.tag ≠ 0xA0 then throw .valueError
  readOne content.value

/-- The `TSTInfo` in an `EncapsulatedContentInfo`. -/
def parseEncap (encap : Tlv) : Except PyErr TimestampToken := do
  match ← sequence encap with
  | eContentType :: eContent :: _ => do
      let octets ← explicitContent oidTstInfo eContentType eContent
      if octets.tag ≠ 0x04 then throw .valueError
      parseTstInfo (← sequence (← readOne octets.value))
  | _ => throw .valueError

/-- `_parse_token`. -/
def parseToken (contentInfo : Tlv) : Except PyErr TimestampToken := do
  match ← sequence contentInfo with
  | [contentType, content] => do
      match ← sequence (← explicitContent oidSignedData contentType content) with
      | _ :: _ :: encap :: _ => parseEncap encap
      | _ => throw .valueError
  | _ => throw .valueError

/-- The status of a response. -/
def parseStatus (statusInfo : Tlv) : Except PyErr ℤ := do
  match ← sequence statusInfo with
  | status :: _ => integer status
  | [] => throw .valueError

/-- `parse_timestamp_resp`. -/
def parseTimestampResp (der : Bytes) : Except PyErr TimestampResponse := do
  match ← sequence (← readOne der) with
  | [statusInfo] => return ⟨← parseStatus statusInfo, none⟩
  | [statusInfo, contentInfo] => do
      let status ← parseStatus statusInfo
      return ⟨status, some (← parseToken contentInfo)⟩
  | _ => throw .valueError

variable [Hashlib]

/-- `read_timestamp_resp`: the token or a reason.  What the parser raises is malformed, whatever it
is. -/
def readTimestampResp (der message : Bytes) (nonce : Option ℤ) :
    Except TokenReason TimestampToken :=
  match parseTimestampResp der with
  | .error _ => .error .malformedToken
  | .ok response =>
      if response.status ≠ 0 ∧ response.status ≠ 1 then .error .timestampRejected
      else
        match response.token with
        | none => .error .malformedToken
        | some token =>
            if token.digestAlgorithm ≠ sha256Oid then .error .unsupportedDigestAlgorithm
            else if token.imprint ≠ (sha256 message).val then .error .receiptImprintMismatch
            else if nonce.isSome ∧ token.nonce ≠ nonce then .error .nonceMismatch
            else .ok token

/-- `check_timestamp_resp`. -/
def checkTimestampResp (der message : Bytes) (nonce : Option ℤ) : Option TokenReason :=
  match readTimestampResp der message nonce with
  | .error reason => some reason
  | .ok _ => none

/-- **What a token has to be.** -/
theorem readTimestampResp_eq_ok_iff {der message : Bytes} {nonce : Option ℤ}
    {token : TimestampToken} :
    readTimestampResp der message nonce = .ok token ↔
      ∃ status, parseTimestampResp der = .ok ⟨status, some token⟩ ∧ (status = 0 ∨ status = 1) ∧
        token.digestAlgorithm = sha256Oid ∧ token.imprint = (sha256 message).val ∧
        ∀ n ∈ nonce, token.nonce = some n := by
  unfold readTimestampResp
  rcases hparse : parseTimestampResp der with e | ⟨status, found⟩
  · exact ⟨nofun, fun ⟨_, h, _⟩ => nomatch h⟩
  · dsimp only
    cases found with
    | none =>
        constructor
        · intro h
          split_ifs at h
        · rintro ⟨_, h, -⟩
          cases h
    | some found =>
        dsimp only
        constructor
        · intro h
          split_ifs at h with hstatus halg himprint hnonce
          obtain rfl := Except.ok.inj h
          refine ⟨status, rfl, by omega, not_not.mp halg, not_not.mp himprint, ?_⟩
          rintro n rfl
          by_contra hne
          exact hnonce ⟨rfl, hne⟩
        · rintro ⟨_, h, hstatus, halg, himprint, hnonce⟩
          obtain ⟨rfl, rfl⟩ : status = _ ∧ found = token := by simpa using Except.ok.inj h
          have hsame : ¬ (nonce.isSome = true ∧ found.nonce ≠ nonce) := by
            rintro ⟨hsome, hne⟩
            obtain ⟨n, rfl⟩ := Option.isSome_iff_exists.mp hsome
            exact hne (hnonce n rfl)
          rw [if_neg (by omega), if_neg (not_not.mpr halg), if_neg (not_not.mpr himprint),
            if_neg hsame]

theorem checkTimestampResp_eq_none_iff {der message : Bytes} {nonce : Option ℤ} :
    checkTimestampResp der message nonce = none ↔
      ∃ token, readTimestampResp der message nonce = .ok token := by
  unfold checkTimestampResp
  cases readTimestampResp der message nonce with
  | error reason => exact ⟨nofun, fun ⟨_, h⟩ => nomatch h⟩
  | ok token => exact ⟨fun _ => ⟨token, rfl⟩, fun _ => rfl⟩

end Reading

/-! ## Receipts -/

/-- `RECEIPT_PREFIX`. -/
def rfc3161Prefix : PyStr := str "rfc3161:"

/-- `encode_receipt(der)`. -/
def encodeReceipt (der : Bytes) : PyStr := rfc3161Prefix ++ b64encode der

/-- `decode_receipt(receipt)`. -/
def decodeReceipt (receipt : PyStr) : Option Bytes :=
  if rfc3161Prefix.isPrefixOf receipt then
    (b64decodeValidate (receipt.drop rfc3161Prefix.length)).toOption
  else none

/-- **A receipt is read back.** -/
theorem decodeReceipt_encodeReceipt (der : Bytes) : decodeReceipt (encodeReceipt der) = some der := by
  have hfront : rfc3161Prefix.isPrefixOf (encodeReceipt der) = true :=
    List.isPrefixOf_iff_prefix.mpr (List.prefix_append _ _)
  rw [decodeReceipt, if_pos hfront, encodeReceipt, List.drop_left, b64decodeValidate_b64encode]
  rfl

/-- A receipt can be stored as it is. -/
theorem noSurrogatePair_encodeReceipt (der : Bytes) : NoSurrogatePair (encodeReceipt der) := by
  have hascii : isAscii (encodeReceipt der) = true := by
    rw [encodeReceipt, isAscii, List.all_append, Bool.and_eq_true]
    exact ⟨rfl, isAscii_b64encode der⟩
  exact noSurrogatePair_of_encodeUtf8 (encodeUtf8_ascii hascii)

/-! ## An authority that answers -/

/-- What an authority puts into its answer besides what it was asked. -/
structure TsaAnswer where
  granted : Bool
  statusNotes : List Tlv
  policy : Tlv
  serial : ℕ
  genTime : PyStr
  /-- The accuracy and the ordering, which come before the nonce. -/
  accuracy : List Tlv
  /-- What comes after it. -/
  extensions : List Tlv
  cmsVersion : Tlv
  digestAlgorithms : Tlv
  /-- The certificates and the signers. -/
  signers : List Tlv

namespace TsaAnswer

/-- A sequence of elements. -/
def seq (items : List Tlv) : Tlv := ⟨0x30, items.flatMap Tlv.bytes⟩

/-- The elements of the `TSTInfo`. -/
def tstItems (answer : TsaAnswer) (digest : Bytes) (nonce : Option ℕ) : List Tlv :=
  [⟨0x02, derIntValue 1⟩, answer.policy, seq (imprintItems digest), ⟨0x02, derIntValue answer.serial⟩,
      ⟨0x18, asciiBytes answer.genTime⟩] ++ answer.accuracy
    ++ (nonce.toList.map fun n => ⟨0x02, derIntValue n⟩) ++ answer.extensions

/-- The value of `_OID_SIGNED_DATA`. -/
def signedDataOidValue : Bytes := oidValue 1 2 [840, 113549, 1, 7, 2]

/-- The value of `_OID_TSTINFO`. -/
def tstInfoOidValue : Bytes := oidValue 1 2 [840, 113549, 1, 9, 16, 1, 4]

/-- The `EncapsulatedContentInfo`. -/
def encapItems (answer : TsaAnswer) (digest : Bytes) (nonce : Option ℕ) : List Tlv :=
  [⟨0x06, tstInfoOidValue⟩,
    ⟨0xA0, (⟨0x04, (seq (answer.tstItems digest nonce)).bytes⟩ : Tlv).bytes⟩]

/-- The `SignedData`. -/
def signedDataItems (answer : TsaAnswer) (digest : Bytes) (nonce : Option ℕ) : List Tlv :=
  [answer.cmsVersion, answer.digestAlgorithms, seq (answer.encapItems digest nonce)] ++ answer.signers

/-- The token. -/
def tokenItems (answer : TsaAnswer) (digest : Bytes) (nonce : Option ℕ) : List Tlv :=
  [⟨0x06, signedDataOidValue⟩, ⟨0xA0, (seq (answer.signedDataItems digest nonce)).bytes⟩]

/-- The status. -/
def statusItems (answer : TsaAnswer) : List Tlv :=
  ⟨0x02, derIntValue (if answer.granted then 0 else 1)⟩ :: answer.statusNotes

/-- What is in the response. -/
def responseItems (answer : TsaAnswer) (digest : Bytes) (nonce : Option ℕ) : List Tlv :=
  [seq answer.statusItems, seq (answer.tokenItems digest nonce)]

/-- The response to a request over this digest with this nonce. -/
def response (answer : TsaAnswer) (digest : Bytes) (nonce : Option ℕ) : Bytes :=
  (seq (answer.responseItems digest nonce)).bytes

/-- What an authority fills in is of the form this library reads: tags of one byte, a policy, and a
time in UTC; before the nonce stands no integer and nothing that ends the search for it. -/
structure Regular [Interpreter] (answer : TsaAnswer) (iso : PyStr) : Prop where
  tags : ∀ item ∈ answer.statusNotes ++ answer.policy :: answer.accuracy ++ answer.extensions ++
    answer.cmsVersion :: answer.digestAlgorithms :: answer.signers, LowTag item.tag
  policy : ∃ text, oid answer.policy = .ok text
  ascii : isAscii answer.genTime = true
  time : generalizedTimeToIso answer.genTime = .ok iso
  accuracy : ∀ item ∈ answer.accuracy, item.tag ≠ 0x02 ∧ item.tag ≠ 0xA0 ∧ item.tag ≠ 0xA1
  extensions : ∀ item ∈ answer.extensions, item.tag ≠ 0x02

variable [Interpreter] {answer : TsaAnswer} {iso : PyStr} {digest : Bytes} {nonce : Option ℕ}

omit [Interpreter] in
/-- What a sequence holds is read back. -/
theorem sequence_seq {items : List Tlv} (htags : ∀ item ∈ items, LowTag item.tag)
    (h : (seq items).value.length < 2 ^ 32) : sequence (seq items) = .ok items :=
  sequence_bytes htags h

omit [Interpreter] in
/-- One element is read back. -/
theorem readOne_bytes {item : Tlv} (htag : LowTag item.tag) (h : item.value.length < 2 ^ 32) :
    readOne item.bytes = .ok item := readOne_tlv htag h

omit [Interpreter] in
/-- The nonce is found among what follows the time. -/
theorem nonceAmong_extras (haccuracy : ∀ item ∈ answer.accuracy,
      item.tag ≠ 0x02 ∧ item.tag ≠ 0xA0 ∧ item.tag ≠ 0xA1)
    (hextensions : ∀ item ∈ answer.extensions, item.tag ≠ 0x02) :
    nonceAmong (answer.accuracy ++ (nonce.toList.map fun n => ⟨0x02, derIntValue n⟩) ++
      answer.extensions) = .ok (nonce.map (↑)) := by
  have hafter : nonceAmong answer.extensions = .ok none := by
    generalize answer.extensions = extensions at hextensions
    induction extensions with
    | nil => rfl
    | cons item items ih =>
        rw [List.forall_mem_cons] at hextensions
        rw [nonceAmong, if_neg hextensions.1]
        split_ifs
        · rfl
        · exact ih hextensions.2
  generalize answer.accuracy = accuracy at haccuracy
  induction accuracy with
  | nil =>
      cases nonce with
      | none => exact hafter
      | some n =>
          show nonceAmong (⟨0x02, derIntValue n⟩ :: answer.extensions) = _
          rw [nonceAmong, if_pos rfl, integer_derIntValue]
          rfl
  | cons item items ih =>
      rw [List.forall_mem_cons] at haccuracy
      obtain ⟨⟨hint, hzero, hone⟩, hrest⟩ := haccuracy
      rw [List.cons_append, List.cons_append, nonceAmong, if_neg hint, if_neg (by simp [hzero, hone])]
      exact ih hrest

omit [Interpreter] in
/-- An element is shorter than what it stands in. -/
theorem short_of_mem {item : Tlv} {items : List Tlv} (hitem : item ∈ items)
    (h : (seq items).value.length < 2 ^ 32) : item.value.length < 2 ^ 32 :=
  (lt_length_bytes hitem).trans h

omit [Interpreter] in
/-- An element is shorter than its encoding. -/
theorem short_of_bytes {item : Tlv} (h : item.bytes.length < 2 ^ 32) : item.value.length < 2 ^ 32 := by
  have hlt := lt_length_bytes (List.mem_singleton_self item)
  rw [List.flatMap_singleton] at hlt
  exact hlt.trans h

/-- The tags of this profile. -/
structure LowTags : Prop where
  integer : LowTag 0x02
  octets : LowTag 0x04
  null : LowTag 0x05
  oid : LowTag 0x06
  time : LowTag 0x18
  sequence : LowTag 0x30
  explicit : LowTag 0xA0

omit [Interpreter] in
theorem lowTags : LowTags := by
  constructor <;>
    · unfold LowTag
      decide

/-- Arcs of at most six digits are converted. -/
theorem converts_short (hdigits : maxStrDigits = 0 ∨ 640 ≤ maxStrDigits) {part : ℕ}
    (h : (strNat part).length ≤ 6) : Converts part := by
  rw [Converts, tooLong]
  rcases hdigits with hzero | hlarge
  · simp [hzero]
  · rw [decide_eq_false (by omega), Bool.and_false]

theorem oid_signedData (hdigits : maxStrDigits = 0 ∨ 640 ≤ maxStrDigits) :
    oid ⟨0x06, signedDataOidValue⟩ = .ok oidSignedData := by
  have hparts : ∀ part ∈ [840, 113549, 1, 7, 2], Converts part := by
    intro part hpart
    refine converts_short hdigits ?_
    revert part
    decide +kernel
  rw [signedDataOidValue, oid_oidValue (by decide) (by decide) (by decide) hparts]
  decide +kernel

theorem oid_tstInfo (hdigits : maxStrDigits = 0 ∨ 640 ≤ maxStrDigits) :
    oid ⟨0x06, tstInfoOidValue⟩ = .ok oidTstInfo := by
  have hparts : ∀ part ∈ [840, 113549, 1, 9, 16, 1, 4], Converts part := by
    intro part hpart
    refine converts_short hdigits ?_
    revert part
    decide +kernel
  rw [tstInfoOidValue, oid_oidValue (by decide) (by decide) (by decide) hparts]
  decide +kernel

/-- The imprint is read back. -/
theorem parseImprint_items (hdigits : maxStrDigits = 0 ∨ 640 ≤ maxStrDigits)
    (h : (seq (imprintItems digest)).value.length < 2 ^ 32) :
    parseImprint (seq (imprintItems digest)) = .ok (sha256Oid, digest) := by
  have himprint : sequence (seq (imprintItems digest)) = .ok [seq algIdItems, ⟨0x04, digest⟩] :=
    sequence_seq (List.forall_mem_cons.mpr ⟨lowTags.sequence,
      List.forall_mem_singleton.mpr lowTags.octets⟩) h
  have halg : sequence (seq algIdItems) = .ok [⟨0x06, sha256OidValue⟩, ⟨0x05, []⟩] :=
    sequence_seq (List.forall_mem_cons.mpr ⟨lowTags.oid, List.forall_mem_singleton.mpr lowTags.null⟩)
      (short_of_mem List.mem_cons_self h)
  rw [parseImprint, himprint]
  simp only [bind, Except.bind, halg, oid_sha256 hdigits, ne_eq, not_true_eq_false, if_false, pure,
    Except.pure]

omit [Interpreter] in
/-- An ASCII text is read back. -/
theorem decodeAscii_asciiBytes {s : PyStr} (h : isAscii s = true) :
    decodeAscii (asciiBytes s) = .ok s := by
  have hbyte : ∀ c ∈ s, c.toByte < 0x80 ∧ CodePoint.ofByte c.toByte = c := by
    intro c hc
    have hlt : c.val < 0x80 := of_decide_eq_true (List.all_eq_true.mp h c hc)
    have hval : c.toByte.toNat = c.val := Nat.mod_eq_of_lt (by omega)
    exact ⟨UInt8.lt_iff_toNat_lt.mpr (hval ▸ hlt), Fin.ext hval⟩
  have hall : (asciiBytes s).all (· < 0x80) = true := by
    rw [asciiBytes, List.all_map, List.all_eq_true]
    exact fun c hc => decide_eq_true (hbyte c hc).1
  have hmap : (asciiBytes s).map CodePoint.ofByte = s := by
    rw [asciiBytes, List.map_map]
    exact (List.map_congr_left fun c hc => (hbyte c hc).2).trans (List.map_id s)
  rw [decodeAscii, if_pos hall, hmap]

/-- The `TSTInfo` is read back. -/
theorem parseTstInfo_items (hdigits : maxStrDigits = 0 ∨ 640 ≤ maxStrDigits)
    (h : answer.Regular iso) (hshort : (seq (answer.tstItems digest nonce)).value.length < 2 ^ 32) :
    parseTstInfo (answer.tstItems digest nonce) =
      .ok ⟨sha256Oid, digest, answer.serial, answer.genTime, iso, nonce.map (↑)⟩ := by
  obtain ⟨policy, hpolicy⟩ := h.policy
  have hmem : seq (imprintItems digest) ∈ answer.tstItems digest nonce :=
    List.mem_append_left _ (List.mem_append_left _ (List.mem_append_left _
      (List.mem_cons_of_mem _ (List.mem_cons_of_mem _ List.mem_cons_self))))
  have himprint := parseImprint_items hdigits (short_of_mem hmem hshort)
  have hnonce := @nonceAmong_extras answer nonce h.accuracy h.extensions
  show parseTstInfo (⟨0x02, derIntValue 1⟩ :: answer.policy :: seq (imprintItems digest) ::
    ⟨0x02, derIntValue answer.serial⟩ :: ⟨0x18, asciiBytes answer.genTime⟩ ::
    (answer.accuracy ++ (nonce.toList.map fun n => ⟨0x02, derIntValue n⟩) ++ answer.extensions)) = _
  rw [parseTstInfo]
  simp only [bind, Except.bind, integer_derIntValue, hpolicy, himprint, ne_eq, not_true_eq_false,
    if_false, decodeAscii_asciiBytes h.ascii, hnonce, h.time, pure, Except.pure]

omit [Interpreter] in
/-- What is not of the authority has a tag of this profile. -/
theorem lowTags_tstItems [Interpreter] (h : answer.Regular iso) :
    ∀ item ∈ answer.tstItems digest nonce, LowTag item.tag := by
  have htags := h.tags
  simp only [List.forall_mem_append, List.forall_mem_cons] at htags
  obtain ⟨⟨⟨-, hpolicy, haccuracy⟩, hextensions⟩, -⟩ := htags
  unfold tstItems
  simp only [List.forall_mem_append, List.forall_mem_cons]
  refine ⟨⟨⟨⟨lowTags.integer, hpolicy, lowTags.sequence, lowTags.integer, lowTags.time,
    List.forall_mem_nil _⟩, haccuracy⟩, ?_⟩, hextensions⟩
  rw [List.forall_mem_map]
  exact fun n _ => lowTags.integer

omit [Interpreter] in
/-- The content behind an object identifier is read back. -/
theorem explicitContent_bytes [Interpreter] {contentType content : Tlv} {expected : PyStr}
    (hoid : oid contentType = .ok expected) (htag : LowTag content.tag)
    (h : content.value.length < 2 ^ 32) :
    explicitContent expected contentType ⟨0xA0, content.bytes⟩ = .ok content := by
  rw [explicitContent, hoid]
  simp only [bind, Except.bind, ne_eq, not_true_eq_false, if_false]
  exact readOne_bytes htag h

/-- The `EncapsulatedContentInfo` is read back. -/
theorem parseEncap_items (hdigits : maxStrDigits = 0 ∨ 640 ≤ maxStrDigits)
    (h : answer.Regular iso) (hshort : (seq (answer.encapItems digest nonce)).value.length < 2 ^ 32) :
    parseEncap (seq (answer.encapItems digest nonce)) =
      .ok ⟨sha256Oid, digest, answer.serial, answer.genTime, iso, nonce.map (↑)⟩ := by
  have hoctetsShort : (⟨0x04, (seq (answer.tstItems digest nonce)).bytes⟩ : Tlv).bytes.length
      < 2 ^ 32 := short_of_mem (List.mem_cons_of_mem _ List.mem_cons_self) hshort
  have hbytesShort := short_of_bytes hoctetsShort
  have htstShort : (seq (answer.tstItems digest nonce)).value.length < 2 ^ 32 :=
    short_of_bytes hbytesShort
  have hencap : sequence (seq (answer.encapItems digest nonce)) =
      .ok (answer.encapItems digest nonce) :=
    sequence_seq (List.forall_mem_cons.mpr ⟨lowTags.oid,
      List.forall_mem_singleton.mpr lowTags.explicit⟩) hshort
  have hcontent : explicitContent oidTstInfo ⟨0x06, tstInfoOidValue⟩
      ⟨0xA0, (⟨0x04, (seq (answer.tstItems digest nonce)).bytes⟩ : Tlv).bytes⟩ =
      .ok ⟨0x04, (seq (answer.tstItems digest nonce)).bytes⟩ :=
    explicitContent_bytes (oid_tstInfo hdigits) lowTags.octets hbytesShort
  have hone : readOne (seq (answer.tstItems digest nonce)).bytes =
      .ok (seq (answer.tstItems digest nonce)) := readOne_bytes lowTags.sequence htstShort
  have htst := sequence_seq (lowTags_tstItems h) htstShort
  rw [parseEncap, hencap]
  simp only [bind, Except.bind, encapItems, hcontent, ne_eq, not_true_eq_false, if_false, hone, htst]
  exact parseTstInfo_items hdigits h htstShort

/-- The token is read back. -/
theorem parseToken_items (hdigits : maxStrDigits = 0 ∨ 640 ≤ maxStrDigits)
    (h : answer.Regular iso) (hshort : (seq (answer.tokenItems digest nonce)).value.length < 2 ^ 32) :
    parseToken (seq (answer.tokenItems digest nonce)) =
      .ok ⟨sha256Oid, digest, answer.serial, answer.genTime, iso, nonce.map (↑)⟩ := by
  have htags := h.tags
  simp only [List.forall_mem_append, List.forall_mem_cons] at htags
  obtain ⟨-, hversion, hdigests, hsigners⟩ := htags
  have hbytesShort : (seq (answer.signedDataItems digest nonce)).bytes.length < 2 ^ 32 :=
    @short_of_mem ⟨0xA0, _⟩ _ (List.mem_cons_of_mem _ List.mem_cons_self) hshort
  have hsignedShort : (seq (answer.signedDataItems digest nonce)).value.length < 2 ^ 32 :=
    short_of_bytes hbytesShort
  have hencapShort : (seq (answer.encapItems digest nonce)).value.length < 2 ^ 32 :=
    short_of_mem (List.mem_append_left _
      (List.mem_cons_of_mem _ (List.mem_cons_of_mem _ List.mem_cons_self))) hsignedShort
  have htoken : sequence (seq (answer.tokenItems digest nonce)) =
      .ok (answer.tokenItems digest nonce) :=
    sequence_seq (List.forall_mem_cons.mpr ⟨lowTags.oid,
      List.forall_mem_singleton.mpr lowTags.explicit⟩) hshort
  have hcontent : explicitContent oidSignedData ⟨0x06, signedDataOidValue⟩
      ⟨0xA0, (seq (answer.signedDataItems digest nonce)).bytes⟩ =
      .ok (seq (answer.signedDataItems digest nonce)) :=
    explicitContent_bytes (oid_signedData hdigits) lowTags.sequence hsignedShort
  have hsigned : sequence (seq (answer.signedDataItems digest nonce)) =
      .ok (answer.cmsVersion :: answer.digestAlgorithms :: seq (answer.encapItems digest nonce) ::
        answer.signers) := by
    refine sequence_seq ?_ hsignedShort
    exact List.forall_mem_cons.mpr ⟨hversion, List.forall_mem_cons.mpr ⟨hdigests,
      List.forall_mem_cons.mpr ⟨lowTags.sequence, hsigners⟩⟩⟩
  rw [parseToken, htoken]
  simp only [bind, Except.bind, tokenItems, hcontent, hsigned]
  exact parseEncap_items hdigits h hencapShort

omit [Interpreter] in
/-- The status is read back. -/
theorem parseStatus_items (hnotes : ∀ item ∈ answer.statusNotes, LowTag item.tag)
    (hshort : (seq answer.statusItems).value.length < 2 ^ 32) :
    parseStatus (seq answer.statusItems) = .ok (if answer.granted then 0 else 1) := by
  have hstatus : sequence (seq answer.statusItems) = .ok answer.statusItems :=
    sequence_seq (List.forall_mem_cons.mpr ⟨lowTags.integer, hnotes⟩) hshort
  rw [parseStatus, hstatus]
  simp only [bind, Except.bind, statusItems, integer_derIntValue]
  split_ifs <;> rfl

/-- **A response is read back.** -/
theorem parseTimestampResp_response (hdigits : maxStrDigits = 0 ∨ 640 ≤ maxStrDigits)
    (h : answer.Regular iso) (hshort : (answer.response digest nonce).length < 2 ^ 32) :
    parseTimestampResp (answer.response digest nonce) =
      .ok ⟨if answer.granted then 0 else 1,
        some ⟨sha256Oid, digest, answer.serial, answer.genTime, iso, nonce.map (↑)⟩⟩ := by
  have htags := h.tags
  simp only [List.forall_mem_append, List.forall_mem_cons] at htags
  have hresponse : (seq (answer.responseItems digest nonce)).value.length < 2 ^ 32 :=
    short_of_bytes hshort
  have hone : readOne (answer.response digest nonce) = .ok (seq (answer.responseItems digest nonce)) :=
    readOne_bytes lowTags.sequence hresponse
  have hitems : sequence (seq (answer.responseItems digest nonce)) =
      .ok [seq answer.statusItems, seq (answer.tokenItems digest nonce)] :=
    sequence_seq (List.forall_mem_cons.mpr ⟨lowTags.sequence,
      List.forall_mem_singleton.mpr lowTags.sequence⟩) hresponse
  have hstatus := parseStatus_items htags.1.1.1 (short_of_mem List.mem_cons_self hresponse)
  have htoken := parseToken_items hdigits h
    (short_of_mem (List.mem_cons_of_mem _ List.mem_cons_self) hresponse)
  rw [parseTimestampResp, hone]
  simp only [bind, Except.bind, hitems, hstatus, htoken, pure, Except.pure]

variable [Hashlib]

/-- What the authority does with a request: it reads the imprint and the nonce, and signs them. -/
def respond (answer : TsaAnswer) (req : Bytes) : Except PyErr Bytes := do
  let (algorithm, imprint, nonce) ← parseTimestampReq req
  if algorithm ≠ sha256Oid then throw .valueError
  return answer.response imprint (nonce.map Int.toNat)

/-- The answer to a request of this library. -/
theorem respond_of_body (hdigits : maxStrDigits = 0 ∨ 640 ≤ maxStrDigits) (answer : TsaAnswer)
    {message body : Bytes} {n : Option ℕ} {certReq : Bool}
    (hbody : timestampReqBody message (n.map (↑)) certReq = .ok body) (hshort : body.length < 2 ^ 32) :
    answer.respond (tlv 0x30 body) = .ok (answer.response (sha256 message).val n) := by
  have hnat : (n.map ((↑) : ℕ → ℤ)).map Int.toNat = n := by
    cases n <;> rfl
  rw [respond, parseTimestampReq_encoded hdigits hbody hshort]
  simp only [bind, Except.bind, ne_eq, not_true_eq_false, if_false, pure, Except.pure, hnat]

/-- **The exchange of a timestamp.**  A request for a message, of less than four gigabytes, that an
authority answers with a granted token is answered with a token that is accepted for that message
and nonce, at the time of the token.  And whoever answers, and with what: an answer that is
accepted for a message and a nonce is not accepted for any other nonce, nor for a message with
another digest. -/
theorem timestamp_exchange (hdigits : maxStrDigits = 0 ∨ 640 ≤ maxStrDigits) (message : Bytes)
    (nonce : Option ℤ) (certReq : Bool) :
    (∀ answer : TsaAnswer, ∀ iso body req resp, answer.Regular iso →
      timestampReqBody message nonce certReq = .ok body → body.length < 2 ^ 32 →
      encodeTimestampReq message nonce certReq = .ok req → answer.respond req = .ok resp →
      resp.length < 2 ^ 32 →
      ∃ token, readTimestampResp resp message nonce = .ok token ∧ token.genTimeIso = iso ∧
        token.serialNumber = answer.serial) ∧
    ∀ resp message' nonce' token token', readTimestampResp resp message nonce = .ok token →
      readTimestampResp resp message' nonce' = .ok token' →
      sha256 message = sha256 message' ∧ ∀ n ∈ nonce, ∀ n' ∈ nonce', n = n' := by
  constructor
  · intro answer iso body req resp hregular hbody hshort hreq hresp hrespShort
    obtain ⟨n, rfl⟩ := exists_natNonce hbody
    rw [encodeTimestampReq_of_body hbody] at hreq
    obtain rfl := Except.ok.inj hreq
    rw [respond_of_body hdigits answer hbody hshort] at hresp
    obtain rfl := Except.ok.inj hresp
    have hparse := parseTimestampResp_response hdigits hregular hrespShort
    refine ⟨_, readTimestampResp_eq_ok_iff.mpr ⟨_, hparse, ?_, rfl, rfl, ?_⟩, rfl, rfl⟩
    · split_ifs
      · exact .inl rfl
      · exact .inr rfl
    · intro k hk
      exact hk
  · intro resp message' nonce' token token' h h'
    obtain ⟨status, hparse, -, -, himprint, hnonce⟩ := readTimestampResp_eq_ok_iff.mp h
    obtain ⟨status', hparse', -, -, himprint', hnonce'⟩ := readTimestampResp_eq_ok_iff.mp h'
    obtain ⟨-, rfl⟩ : status = status' ∧ token = token' := by
      simpa using Except.ok.inj (hparse.symm.trans hparse')
    refine ⟨Subtype.ext (himprint.symm.trans himprint'), ?_⟩
    intro n hn n' hn'
    exact Option.some.inj ((hnonce n hn).symm.trans (hnonce' n' hn'))

/-- An answer with nothing but what is needed. -/
def plain : TsaAnswer where
  granted := true
  statusNotes := []
  policy := ⟨0x06, [0x2A]⟩
  serial := 7
  genTime := str "20250101000000.5Z"
  accuracy := []
  extensions := []
  cmsVersion := ⟨0x02, [3]⟩
  digestAlgorithms := ⟨0x31, []⟩
  signers := []

omit [Interpreter] [Hashlib] in
/-- It is accepted. -/
theorem timestamp_exchange_plain :
    letI := Sha256.hashlib
    letI := Interpreter.plain
    ∃ token, readTimestampResp (plain.response (sha256 []).val (some 5)) [] (some 5) = .ok token ∧
      token.genTimeIso = str "2025-01-01T00:00:00.5+00:00" ∧ token.serialNumber = 7 := by
  let _ := Sha256.hashlib
  let _ := Interpreter.plain
  have hregular : plain.Regular (str "2025-01-01T00:00:00.5+00:00") := by
    refine ⟨?_, ⟨str "1.2", by decide +kernel⟩, rfl, by decide +kernel, nofun, nofun⟩
    unfold LowTag
    decide
  obtain ⟨body, hbody, hshort⟩ := timestampReqBody_short []
    (by decide : ∀ n ∈ some 5, n < 2 ^ 64) true
  have hdigits : maxStrDigits = 0 ∨ 640 ≤ maxStrDigits := .inr (by decide)
  exact (timestamp_exchange hdigits [] (some 5) true).1 plain _ body _ _ hregular hbody hshort
    (encodeTimestampReq_of_body hbody) (respond_of_body hdigits plain hbody hshort)
    (by decide +kernel)

end TsaAnswer

end Waxseal
