import Waxseal.Base.Sha256
import Waxseal.Domain.Rfc3161

/-!
# Timestamp requests

The part of `domain/rfc3161.py` that writes DER, and what its own reader makes of it.  The reader
takes lengths of four bytes at most, so it reads back what is shorter than `2 ^ 32` bytes
(`readAll_tlv`), and no longer element; a request is read back unless its nonce makes it that long
(`timestampRequests_roundTrip`).

Whatever a buffer holds, the reader refuses it or covers it with its elements (`readAll_covers`).
-/

namespace Waxseal

/-! ## Writing -/

/-- `_der_int`. -/
def derInt (n : ℤ) : Except PyErr Bytes :=
  if n < 0 then .error .valueError
  else .ok (tlv 0x02 (toBytesBig (max 1 ((n.toNat.size + 8) / 8)) n.toNat))

/-- The loop of `_der_oid`: what stands before the last seven bits of an arc. -/
def oidHigh (part : ℕ) : Bytes :=
  if part = 0 then []
  else oidHigh (part >>> 7) ++ [UInt8.ofNat (part &&& 0x7F ||| 0x80)]
termination_by part
decreasing_by
  rw [Nat.shiftRight_eq_div_pow]
  omega

/-- `chunk`. -/
def oidChunk (part : ℕ) : Bytes := oidHigh (part >>> 7) ++ [UInt8.ofNat (part &&& 0x7F)]

/-- `_der_oid`, of the numbers between the dots; without two of them it raises an `IndexError`. -/
def derOid : List ℕ → Except PyErr Bytes
  | first :: second :: parts =>
      if first * 40 + second < 256 then
        .ok (tlv 0x06 (UInt8.ofNat (first * 40 + second) :: parts.flatMap oidChunk))
      else .error .valueError
  | _ => .error .indexError

/-- The numbers of `SHA256_OID`. -/
def sha256Parts : List ℕ := [2, 16, 840, 1, 101, 3, 4, 2, 1]

/-- `_SHA256_ALGID`. -/
def sha256AlgId : Except PyErr Bytes := do
  return tlv 0x30 ((← derOid sha256Parts) ++ tlv 0x05 [])

/-- What `encode_timestamp_req` puts into its sequence. -/
def timestampReqBody [Hashlib] (message : Bytes) (nonce : Option ℤ) (certReq : Bool) :
    Except PyErr Bytes := do
  let imprint := tlv 0x30 ((← sha256AlgId) ++ tlv 0x04 (sha256 message).val)
  let body := (← derInt 1) ++ imprint
  let body ← match nonce with
    | none => .ok body
    | some nonce => (body ++ ·) <$> derInt nonce
  return if certReq then body ++ tlv 0x01 [0xFF] else body

/-- `encode_timestamp_req`. -/
def encodeTimestampReq [Hashlib] (message : Bytes) (nonce : Option ℤ) (certReq : Bool) :
    Except PyErr Bytes := do
  return tlv 0x30 (← timestampReqBody message nonce certReq)

/-! ## Elements -/

theorem lt_pow_size (n : ℕ) : n < 256 ^ ((n.size + 7) / 8) := by
  refine (Nat.lt_size_self n).trans_le ?_
  rw [show 256 = 2 ^ 8 from rfl, ← pow_mul]
  exact Nat.pow_le_pow_right (by decide) (by omega)

/-- A short length is its own byte. -/
theorem readLength_short {n : ℕ} (h : n < 0x80) (rest : Bytes) :
    readLength (UInt8.ofNat n :: rest) = .ok (n, rest) := by
  have hbyte : ∀ n : Fin 0x80, UInt8.ofNat n ≠ 0x80 ∧ UInt8.ofNat n &&& 0x80 = 0 ∧
      (UInt8.ofNat n).toNat = n := by
    decide
  obtain ⟨hne, hclear, hval⟩ := hbyte ⟨n, h⟩
  rw [readLength, if_neg hne, if_pos hclear, hval]

/-- How many bytes a long length takes. -/
theorem size_bytes {n k : ℕ} (hlow : 256 ^ (k - 1) ≤ n) (hhigh : n < 256 ^ k) (hk : 0 < k) :
    (n.size + 7) / 8 = k := by
  have hle : n.size ≤ 8 * k := by
    rw [Nat.size_le, pow_mul]
    exact hhigh
  have hlt : 8 * (k - 1) < n.size := by
    rw [Nat.lt_size, pow_mul]
    exact hlow
  omega

/-- **A length of four bytes at most is read back.** -/
theorem readLength_derLen {n : ℕ} (h : n < 2 ^ 32) (rest : Bytes) :
    readLength (derLen n ++ rest) = .ok (n, rest) := by
  rw [derLen]
  split_ifs with hshort
  · exact readLength_short hshort rest
  · have hcount : 0 < (n.size + 7) / 8 ∧ (n.size + 7) / 8 ≤ 4 := by
      have hsize : n.size ≤ 32 := Nat.size_le.mpr h
      have hpos : 0 < n.size := Nat.size_pos.mpr (by omega)
      omega
    have hmark : ∀ k : Fin 5, 0 < (k : ℕ) → UInt8.ofNat (0x80 ||| k) ≠ 0x80 ∧
        UInt8.ofNat (0x80 ||| k) &&& 0x80 ≠ 0 ∧ (UInt8.ofNat (0x80 ||| k) &&& 0x7F).toNat = k := by
      decide
    obtain ⟨hne, hset, hval⟩ := hmark ⟨(n.size + 7) / 8, by omega⟩ hcount.1
    dsimp only at hne hset hval ⊢
    rw [length_toBytesBig, List.cons_append, readLength, if_neg hne, if_neg hset, hval]
    dsimp only
    rw [List.length_append, length_toBytesBig, if_neg (by omega),
      List.take_left' (length_toBytesBig _ _), List.drop_left' (length_toBytesBig _ _),
      decodeUint_toBytesBig (lt_pow_size n)]

/-- A length of five bytes is refused. -/
theorem readLength_long {n : ℕ} (hlow : 2 ^ 32 ≤ n) (hhigh : n < 2 ^ 40) (rest : Bytes) :
    readLength (derLen n ++ rest) = .error .valueError := by
  have hcount : (n.size + 7) / 8 = 5 := size_bytes hlow hhigh (by decide)
  rw [derLen, if_neg (by omega)]
  dsimp only
  rw [length_toBytesBig, hcount, List.cons_append, readLength, if_neg (by decide),
    if_neg (by decide)]
  exact if_pos (.inl (by decide))

/-- The form of a tag this profile has. -/
def LowTag (tag : UInt8) : Prop := tag &&& 0x1F ≠ 0x1F

theorem tlv_append (tag : UInt8) (value rest : Bytes) :
    tlv tag value ++ rest = tag :: (derLen value.length ++ (value ++ rest)) := by
  rw [tlv, List.cons_append, List.cons_append, List.append_assoc]

/-- **An element is read back.** -/
theorem readTlv_tlv {tag : UInt8} {value : Bytes} (htag : LowTag tag) (h : value.length < 2 ^ 32)
    (rest : Bytes) : readTlv (tlv tag value ++ rest) = .ok (⟨tag, value⟩, rest) := by
  rw [tlv_append, readTlv, if_neg htag, readLength_derLen h]
  simp only [bind, Except.bind]
  rw [List.length_append, if_neg (by omega), List.take_left' rfl, List.drop_left' rfl]
  rfl

theorem readTlv_raises {buf : Bytes} {e : PyErr} (h : readTlv buf = .error e) : e = .valueError := by
  have hlength : ∀ buf e, readLength buf = .error e → e = .valueError := by
    intro buf e h
    cases buf with
    | nil => exact (Except.error.inj h).symm
    | cons first buf =>
        rw [readLength] at h
        split_ifs at h
        · exact (Except.error.inj h).symm
        · dsimp only at h
          split_ifs at h
          exact (Except.error.inj h).symm
  cases buf with
  | nil => exact (Except.error.inj h).symm
  | cons tag buf =>
      rw [readTlv] at h
      split_ifs at h
      · exact (Except.error.inj h).symm
      · rcases bind_eq_error_iff.mp h with hread | ⟨⟨length, rest⟩, -, h⟩
        · exact hlength _ _ hread
        · dsimp only at h
          split_ifs at h
          · exact (Except.error.inj h).symm
          · cases h

/-! ## Buffers -/

theorem readAll_nil : readAll [] = .ok [] := by
  rw [readAll, if_pos rfl]

theorem readAll_of_readTlv {buf rest : Bytes} {item : Tlv} (h : readTlv buf = .ok (item, rest)) :
    readAll buf = (item :: ·) <$> readAll rest := by
  have hne : buf ≠ [] := by
    rintro rfl
    cases h
  rw [readAll, if_neg hne]
  split
  · rename_i e herror
    rw [h] at herror
    cases herror
  · rename_i item' rest' hread
    rw [h] at hread
    obtain ⟨rfl, rfl⟩ := Prod.mk.inj (Except.ok.inj hread)
    cases readAll rest <;> rfl

theorem readAll_of_error {buf : Bytes} {e : PyErr} (hne : buf ≠ []) (h : readTlv buf = .error e) :
    readAll buf = .error e := by
  rw [readAll, if_neg hne]
  split
  · rename_i e' herror
    rw [h] at herror
    rw [Except.error.inj herror]
  · rename_i item rest hread
    rw [h] at hread
    cases hread

/-- The encoding of an element. -/
def Tlv.bytes (item : Tlv) : Bytes := tlv item.tag item.value

/-- The elements the reader can read back. -/
def Tlv.Readable (item : Tlv) : Prop := LowTag item.tag ∧ item.value.length < 2 ^ 32

/-- **What was written is read back.** -/
theorem readAll_bytes (items : List Tlv) (h : ∀ item ∈ items, item.Readable) :
    readAll (items.flatMap Tlv.bytes) = .ok items := by
  induction items with
  | nil => exact readAll_nil
  | cons item items ih =>
      rw [List.forall_mem_cons] at h
      have hread : readTlv (item.bytes ++ items.flatMap Tlv.bytes) =
          .ok (item, items.flatMap Tlv.bytes) := readTlv_tlv h.1.1 h.1.2 _
      rw [List.flatMap_cons, readAll_of_readTlv hread, ih h.2]
      rfl

/-- A stretch of a buffer that is read as one element, whatever comes behind it: its tag, one to
five bytes of length, and its value. -/
structure IsSpan (span : Bytes) (item : Tlv) : Prop where
  parts : ∃ length, span = item.tag :: (length ++ item.value) ∧ 1 ≤ length.length ∧
    length.length ≤ 5
  read : ∀ rest, readTlv (span ++ rest) = .ok (item, rest)

/-- A length is read off the front, whatever comes behind it. -/
theorem exists_lengthBytes {buf rest : Bytes} {n : ℕ} (h : readLength buf = .ok (n, rest)) :
    ∃ length, buf = length ++ rest ∧ 1 ≤ length.length ∧ length.length ≤ 5 ∧
      ∀ more, readLength (length ++ more) = .ok (n, more) := by
  cases buf with
  | nil => cases h
  | cons first buf =>
      rw [readLength] at h
      split_ifs at h with hindefinite hshort
      · obtain ⟨rfl, rfl⟩ := Prod.mk.inj (Except.ok.inj h)
        refine ⟨[first], rfl, le_rfl, Nat.le_add_left 1 4, fun more => ?_⟩
        rw [List.singleton_append, readLength, if_neg hindefinite, if_pos hshort]
      · dsimp only at h
        split_ifs at h with hcount
        obtain ⟨rfl, rfl⟩ := Prod.mk.inj (Except.ok.inj h)
        have htake : (buf.take (first &&& 0x7F).toNat).length = (first &&& 0x7F).toNat := by
          rw [List.length_take]
          omega
        refine ⟨first :: buf.take (first &&& 0x7F).toNat, ?_, ?_, ?_, fun more => ?_⟩
        · rw [List.cons_append, List.take_append_drop]
        · exact Nat.succ_le_succ (Nat.zero_le _)
        · rw [List.length_cons, htake]
          omega
        · rw [List.cons_append, readLength, if_neg hindefinite, if_neg hshort]
          dsimp only
          rw [List.length_append, htake, if_neg (by omega), List.take_left' htake,
            List.drop_left' htake]

theorem isSpan_of_readTlv {buf rest : Bytes} {item : Tlv} (h : readTlv buf = .ok (item, rest)) :
    ∃ span, buf = span ++ rest ∧ IsSpan span item := by
  cases buf with
  | nil => cases h
  | cons tag buf =>
      rw [readTlv] at h
      split_ifs at h with htag
      obtain ⟨⟨n, behind⟩, hread, hvalue⟩ := bind_eq_ok_iff.mp h
      obtain ⟨length, rfl, hmin, hmax, hagain⟩ := exists_lengthBytes hread
      dsimp only at hvalue
      split_ifs at hvalue with hshort
      obtain ⟨rfl, rfl⟩ := Prod.mk.inj (Except.ok.inj hvalue)
      have htake : (behind.take n).length = n := by
        rw [List.length_take]
        omega
      refine ⟨tag :: (length ++ behind.take n), ?_, ⟨length, rfl, hmin, hmax⟩, fun more => ?_⟩
      · rw [List.cons_append, List.append_assoc, List.take_append_drop]
      · rw [List.cons_append, List.append_assoc, readTlv, if_neg htag, hagain]
        simp only [bind, Except.bind]
        rw [List.length_append, htake, if_neg (by omega), List.take_left' htake,
          List.drop_left' htake]
        rfl

/-- **A buffer is refused, or covered by the elements read from it.** -/
theorem readAll_covers (buf : Bytes) :
    readAll buf = .error .valueError ∨
      ∃ items spans, readAll buf = .ok items ∧ buf = spans.flatten ∧
        List.Forall₂ IsSpan spans items := by
  induction hlen : buf.length using Nat.strong_induction_on generalizing buf with
  | _ n ih =>
      by_cases hne : buf = []
      · subst hne
        exact .inr ⟨[], [], readAll_nil, rfl, .nil⟩
      · cases hread : readTlv buf with
        | error e =>
            rw [readTlv_raises hread] at hread
            exact .inl (readAll_of_error hne hread)
        | ok out =>
            obtain ⟨item, rest⟩ := out
            obtain ⟨span, hbuf, hspan⟩ := isSpan_of_readTlv hread
            have hshorter : rest.length < n := hlen ▸ length_of_readTlv hread
            rw [readAll_of_readTlv hread]
            rcases ih rest.length hshorter rest rfl with herror | ⟨items, spans, hok, hrest, hall⟩
            · rw [herror]
              exact .inl rfl
            · rw [hok]
              refine .inr ⟨item :: items, span :: spans, rfl, ?_, .cons hspan hall⟩
              rw [List.flatten_cons, ← hrest]
              exact hbuf

/-! ## Integers -/

theorem toBytesBig_succ (k n : ℕ) :
    toBytesBig (k + 1) n = UInt8.ofNat (n / 256 ^ k) :: toBytesBig k n := by
  induction k generalizing n with
  | zero => rw [pow_zero, Nat.div_one]; rfl
  | succ k ih =>
      rw [toBytesBig, ih, List.cons_append, Nat.div_div_eq_div_mul, ← pow_succ', toBytesBig]

/-- The bytes of an integer begin with a clear sign bit. -/
theorem lt_signed (n : ℕ) : n < 0x80 * 256 ^ ((n.size + 8) / 8 - 1) := by
  refine (Nat.lt_size_self n).trans_le ?_
  rw [show 256 = 2 ^ 8 from rfl, ← pow_mul, show 0x80 = 2 ^ 7 from rfl, ← pow_add]
  exact Nat.pow_le_pow_right (by decide) (by omega)

/-- The value of the element of an integer. -/
def derIntValue (n : ℕ) : Bytes := toBytesBig ((n.size + 8) / 8) n

theorem derInt_natCast (n : ℕ) : derInt n = .ok (tlv 0x02 (derIntValue n)) := by
  rw [derInt, if_neg (Int.not_lt.mpr (Int.natCast_nonneg n)), Int.toNat_natCast,
    max_eq_right (by omega)]
  rfl

/-- **An integer is read back**, whatever its length. -/
theorem integer_derIntValue (n : ℕ) : integer ⟨0x02, derIntValue n⟩ = .ok n := by
  obtain ⟨k, hk⟩ : ∃ k, (n.size + 8) / 8 = k + 1 := ⟨(n.size + 8) / 8 - 1, by omega⟩
  have hlt : n < 0x80 * 256 ^ k := by
    have hsigned := lt_signed n
    rwa [hk, Nat.add_sub_cancel] at hsigned
  have hfirst : UInt8.ofNat (n / 256 ^ k) < 0x80 := by
    have hsmall : n / 256 ^ k < 0x80 := Nat.div_lt_of_lt_mul (by rwa [Nat.mul_comm] at hlt)
    rw [UInt8.lt_iff_toNat_lt, UInt8.toNat_ofNat', Nat.mod_eq_of_lt (by omega)]
    exact hsmall
  have hval : decodeUint (toBytesBig (k + 1) n) = n := by
    refine decodeUint_toBytesBig (hlt.trans_le ?_)
    rw [pow_succ']
    exact Nat.mul_le_mul_right _ (by decide)
  rw [derIntValue, hk]
  rw [toBytesBig_succ] at hval ⊢
  simp only [integer, ne_eq, not_true_eq_false, if_false, hfirst, if_true, hval]

/-! ## Object identifiers -/

/-- Seven bits more of an arc. -/
theorem shiftLeft_or_low (acc : ℕ) {low : ℕ} (h : low < 0x80) :
    acc <<< 7 ||| low = acc * 0x80 + low := by
  rw [← Nat.shiftLeft_add_eq_or_of_lt h, Nat.shiftLeft_eq]

/-- The value of the element of an object identifier. -/
def oidValue (first second : ℕ) (parts : List ℕ) : Bytes :=
  UInt8.ofNat (first * 40 + second) :: parts.flatMap oidChunk

theorem derOid_eq {first second : ℕ} (h : first * 40 + second < 256) (parts : List ℕ) :
    derOid (first :: second :: parts) = .ok (tlv 0x06 (oidValue first second parts)) := if_pos h

/-- What the reader sees of seven bits, alone and marked. -/
theorem arcByte (m : Fin 0x80) :
    (UInt8.ofNat m &&& 0x80 = 0 ∧ (UInt8.ofNat m &&& 0x7F).toNat = m) ∧
      UInt8.ofNat (m ||| 0x80) &&& 0x80 ≠ 0 ∧ (UInt8.ofNat (m ||| 0x80) &&& 0x7F).toNat = m := by
  revert m
  decide

/-- An arc is its last seven bits and what is before them. -/
theorem arc_split (part : ℕ) :
    part &&& 0x7F < 0x80 ∧ (part >>> 7) * 0x80 + (part &&& 0x7F) = part := by
  have hmod : part &&& 0x7F = part % 0x80 := Nat.and_two_pow_sub_one_eq_mod part 7
  rw [hmod, Nat.shiftRight_eq_div_pow]
  exact ⟨Nat.mod_lt _ (by decide), Nat.div_add_mod' part 0x80⟩

/-- `str(n)` converts that many digits. -/
def Converts [Interpreter] (n : ℕ) : Prop := tooLong (strNat n).length = false

section

variable [Interpreter]

theorem oidArcs_oidHigh (part : ℕ) (rest : Bytes) :
    oidArcs 0 false (oidHigh part ++ rest) = oidArcs part (decide (part ≠ 0)) rest := by
  induction part using Nat.strong_induction_on generalizing rest with
  | _ part ih =>
      rw [oidHigh]
      split_ifs with hzero
      · subst hzero
        rfl
      · obtain ⟨hlow, hsplit⟩ := arc_split part
        obtain ⟨-, hmore, hval⟩ := arcByte ⟨part &&& 0x7F, hlow⟩
        have hshift : part >>> 7 < part := by
          rw [Nat.shiftRight_eq_div_pow]
          omega
        rw [List.append_assoc, ih _ hshift, List.singleton_append, oidArcs, if_neg hmore, hval,
          shiftLeft_or_low _ hlow, hsplit, decide_eq_true hzero]

/-- An arc is read back. -/
theorem oidArcs_oidChunk {part : ℕ} (h : Converts part) (rest : Bytes) :
    oidArcs 0 false (oidChunk part ++ rest) = (do return strNat part :: (← oidArcs 0 false rest)) := by
  obtain ⟨hlow, hsplit⟩ := arc_split part
  obtain ⟨⟨hlast, hval⟩, -⟩ := arcByte ⟨part &&& 0x7F, hlow⟩
  rw [oidChunk, List.append_assoc, oidArcs_oidHigh, List.singleton_append, oidArcs, if_pos hlast,
    hval, shiftLeft_or_low _ hlow, hsplit, strNatDigits, h, if_neg Bool.false_ne_true]
  rfl

theorem oidArcs_parts (parts : List ℕ) (h : ∀ part ∈ parts, Converts part) :
    oidArcs 0 false (parts.flatMap oidChunk) = .ok (parts.map strNat) := by
  induction parts with
  | nil => rfl
  | cons part parts ih =>
      rw [List.forall_mem_cons] at h
      rw [List.flatMap_cons, oidArcs_oidChunk h.1, ih h.2]
      rfl

/-- The dotted form of an object identifier. -/
def dotted (parts : List ℕ) : PyStr := (str ".").intercalate (parts.map strNat)

/-- **An object identifier is read back.** -/
theorem oid_oidValue {first second : ℕ} {parts : List ℕ} (hfirst : first ≤ 2)
    (hsecond : first < 2 → second < 40) (hfits : first * 40 + second < 256)
    (hparts : ∀ part ∈ parts, Converts part) :
    oid ⟨0x06, oidValue first second parts⟩ = .ok (dotted (first :: second :: parts)) := by
  have hbyte : (UInt8.ofNat (first * 40 + second)).toNat = first * 40 + second := by
    rw [UInt8.toNat_ofNat', Nat.mod_eq_of_lt (by omega)]
  have hroot : min ((first * 40 + second) / 40) 2 = first := by omega
  have hrest : first * 40 + second - 40 * first = second := by omega
  rw [oid, if_neg (not_not.mpr rfl), oidValue]
  simp only [oidArcs_parts parts hparts, hbyte, hroot, hrest]
  rfl

/-! ## Requests -/

/-- The integer among what follows in a sequence, as `_parse_tst_info` looks for the nonce. -/
def nonceAmong : List Tlv → Except PyErr (Option ℤ)
  | [] => .ok none
  | extra :: extras =>
      if extra.tag = 0x02 then some <$> integer extra
      else if extra.tag = 0xA0 ∨ extra.tag = 0xA1 then .ok none
      else nonceAmong extras

/-- A request as the readers of the module read it: the algorithm of its imprint, the imprint and
the nonce. -/
def parseTimestampReq (der : Bytes) : Except PyErr (PyStr × Bytes × Option ℤ) := do
  match ← sequence (← readOne der) with
  | version :: messageImprint :: extras => do
      let _ ← integer version
      match ← sequence messageImprint with
      | algId :: hashed :: _ => do
          match ← sequence algId with
          | algorithm :: _ => do
              let algorithm ← oid algorithm
              if hashed.tag ≠ 0x04 then throw .valueError
              return (algorithm, hashed.value, ← nonceAmong extras)
          | [] => throw .valueError
      | _ => throw .valueError
  | _ => throw .valueError

end

/-- The value of the element of `SHA256_OID`. -/
def sha256OidValue : Bytes := oidValue 2 16 [840, 1, 101, 3, 4, 2, 1]

theorem length_sha256OidValue : sha256OidValue.length = 9 := by
  simp [sha256OidValue, oidValue, oidChunk, oidHigh]

theorem oid_sha256 [Interpreter] (h : maxStrDigits = 0 ∨ 640 ≤ maxStrDigits) :
    oid ⟨0x06, sha256OidValue⟩ = .ok sha256Oid := by
  have hparts : ∀ part ∈ [840, 1, 101, 3, 4, 2, 1], Converts part := by
    have hshort : ∀ part ∈ [840, 1, 101, 3, 4, 2, 1], (strNat part).length ≤ 3 := by decide
    intro part hpart
    have hlen := hshort part hpart
    rw [Converts, tooLong]
    rcases h with hzero | hlarge
    · simp [hzero]
    · rw [decide_eq_false (by omega), Bool.and_false]
  rw [sha256OidValue, oid_oidValue (by decide) (by decide) (by decide) hparts]
  decide

/-- The elements of `_SHA256_ALGID`. -/
def algIdItems : List Tlv := [⟨0x06, sha256OidValue⟩, ⟨0x05, []⟩]

/-- The elements of an imprint. -/
def imprintItems (digest : Bytes) : List Tlv :=
  [⟨0x30, algIdItems.flatMap Tlv.bytes⟩, ⟨0x04, digest⟩]

/-- The elements of a request behind the imprint. -/
def extraItems (nonce : Option ℕ) (certReq : Bool) : List Tlv :=
  (nonce.map fun n => (⟨0x02, derIntValue n⟩ : Tlv)).toList ++ if certReq then [⟨0x01, [0xFF]⟩] else []

/-- The elements of a request. -/
def requestItems (digest : Bytes) (nonce : Option ℕ) (certReq : Bool) : List Tlv :=
  ⟨0x02, derIntValue 1⟩ :: ⟨0x30, (imprintItems digest).flatMap Tlv.bytes⟩ ::
    extraItems nonce certReq

section

variable [Hashlib]

/-- What is in a request: its elements, one behind the other. -/
theorem timestampReqBody_eq (message : Bytes) (nonce : Option ℕ) (certReq : Bool) :
    timestampReqBody message (nonce.map (↑)) certReq =
      .ok ((requestItems (sha256 message).val nonce certReq).flatMap Tlv.bytes) := by
  have halg : sha256AlgId = .ok (tlv 0x30 (algIdItems.flatMap Tlv.bytes)) := by
    rw [sha256AlgId, sha256Parts, derOid_eq (by decide)]
    simp [algIdItems, Tlv.bytes, sha256OidValue, bind, Except.bind, pure, Except.pure]
  have hone : derInt 1 = .ok (tlv 0x02 (derIntValue 1)) := derInt_natCast 1
  rw [timestampReqBody, halg, hone]
  cases nonce with
  | none =>
      cases certReq <;>
        simp [requestItems, extraItems, imprintItems, Tlv.bytes, bind, Except.bind, pure,
          Except.pure]
  | some n =>
      have hn := derInt_natCast n
      cases certReq <;>
        simp [hn, requestItems, extraItems, imprintItems, Tlv.bytes, bind, Except.bind, pure,
          Except.pure, Functor.map, Except.map]

theorem encodeTimestampReq_of_body {message body : Bytes} {nonce : Option ℤ} {certReq : Bool}
    (h : timestampReqBody message nonce certReq = .ok body) :
    encodeTimestampReq message nonce certReq = .ok (tlv 0x30 body) := by
  rw [encodeTimestampReq, h]
  rfl

/-- A nonce that is encoded is not negative. -/
theorem exists_natNonce {message body : Bytes} {nonce : Option ℤ} {certReq : Bool}
    (h : timestampReqBody message nonce certReq = .ok body) :
    ∃ n : Option ℕ, nonce = n.map (↑) := by
  cases nonce with
  | none => exact ⟨none, rfl⟩
  | some nonce =>
      obtain ⟨algId, -, h⟩ := bind_eq_ok_iff.mp h
      obtain ⟨version, -, h⟩ := bind_eq_ok_iff.mp h
      obtain ⟨more, hmore, -⟩ := bind_eq_ok_iff.mp h
      obtain ⟨encoded, hencoded, -⟩ := map_eq_ok_iff.mp hmore
      rw [derInt] at hencoded
      split_ifs at hencoded with hneg
      exact ⟨some nonce.toNat, congrArg some (Int.toNat_of_nonneg (not_lt.mp hneg)).symm⟩

end

/-! ## Reading a request back -/

theorem lt_length_bytes {item : Tlv} {items : List Tlv} (h : item ∈ items) :
    item.value.length < (items.flatMap Tlv.bytes).length := by
  have hitem : item.value.length < item.bytes.length := by
    rw [Tlv.bytes, ← List.append_nil (tlv _ _), tlv_append, List.length_cons, List.length_append,
      List.append_nil]
    omega
  obtain ⟨before, after, rfl⟩ := List.append_of_mem h
  rw [List.flatMap_append, List.flatMap_cons, List.length_append, List.length_append]
  omega

/-- Elements with low tags in less than four gigabytes. -/
theorem readAll_bytes_short {items : List Tlv} (htags : ∀ item ∈ items, LowTag item.tag)
    (h : (items.flatMap Tlv.bytes).length < 2 ^ 32) :
    readAll (items.flatMap Tlv.bytes) = .ok items :=
  readAll_bytes items fun item hitem => ⟨htags item hitem, (lt_length_bytes hitem).trans h⟩

theorem readOne_tlv {tag : UInt8} {value : Bytes} (htag : LowTag tag) (h : value.length < 2 ^ 32) :
    readOne (tlv tag value) = .ok ⟨tag, value⟩ := by
  have hread := readAll_bytes [⟨tag, value⟩] (List.forall_mem_singleton.mpr ⟨htag, h⟩)
  rw [List.flatMap_singleton] at hread
  have hall : readAll (tlv tag value) = .ok [⟨tag, value⟩] := hread
  rw [readOne, hall]
  rfl

theorem sequence_bytes {items : List Tlv} (htags : ∀ item ∈ items, LowTag item.tag)
    (h : (items.flatMap Tlv.bytes).length < 2 ^ 32) :
    sequence ⟨0x30, items.flatMap Tlv.bytes⟩ = .ok items := by
  rw [sequence, if_neg (not_not.mpr rfl)]
  exact readAll_bytes_short htags h

theorem lowTags_request (digest : Bytes) (nonce : Option ℕ) (certReq : Bool) :
    ∀ item ∈ requestItems digest nonce certReq, LowTag item.tag := by
  have htag : LowTag 0x01 ∧ LowTag 0x02 ∧ LowTag 0x30 := by
    unfold LowTag
    decide
  refine List.forall_mem_cons.mpr ⟨htag.2.1, List.forall_mem_cons.mpr ⟨htag.2.2, ?_⟩⟩
  refine List.forall_mem_append.mpr ⟨?_, ?_⟩
  · cases nonce with
    | none => exact List.forall_mem_nil _
    | some n => exact List.forall_mem_singleton.mpr htag.2.1
  · split_ifs
    · exact List.forall_mem_singleton.mpr htag.1
    · exact List.forall_mem_nil _

theorem nonceAmong_extraItems (nonce : Option ℕ) (certReq : Bool) :
    nonceAmong (extraItems nonce certReq) = .ok (nonce.map (↑)) := by
  cases nonce with
  | none => cases certReq <;> rfl
  | some n =>
      rw [extraItems, Option.map_some, Option.toList_some, List.singleton_append, nonceAmong,
        if_pos rfl, integer_derIntValue]
      rfl

section

variable [Interpreter] [Hashlib]

/-- **A request of less than four gigabytes is read back.** -/
theorem parseTimestampReq_encoded (hdigits : maxStrDigits = 0 ∨ 640 ≤ maxStrDigits)
    {message body : Bytes} {nonce : Option ℤ} {certReq : Bool}
    (hbody : timestampReqBody message nonce certReq = .ok body) (h : body.length < 2 ^ 32) :
    parseTimestampReq (tlv 0x30 body) = .ok (sha256Oid, (sha256 message).val, nonce) := by
  obtain ⟨n, rfl⟩ := exists_natNonce hbody
  rw [timestampReqBody_eq] at hbody
  obtain rfl := Except.ok.inj hbody
  have htag : LowTag 0x04 ∧ LowTag 0x05 ∧ LowTag 0x06 ∧ LowTag 0x30 := by
    unfold LowTag
    decide
  generalize (sha256 message).val = digest at h ⊢
  have hrequest : sequence ⟨0x30, (requestItems digest n certReq).flatMap Tlv.bytes⟩ =
      .ok (⟨0x02, derIntValue 1⟩ :: ⟨0x30, (imprintItems digest).flatMap Tlv.bytes⟩ ::
        extraItems n certReq) := sequence_bytes (lowTags_request digest n certReq) h
  have hshort : ((imprintItems digest).flatMap Tlv.bytes).length < 2 ^ 32 :=
    (lt_length_bytes (List.mem_cons_of_mem _ List.mem_cons_self)).trans h
  have himprint : sequence ⟨0x30, (imprintItems digest).flatMap Tlv.bytes⟩ =
      .ok [⟨0x30, algIdItems.flatMap Tlv.bytes⟩, ⟨0x04, digest⟩] :=
    sequence_bytes (List.forall_mem_cons.mpr
      ⟨htag.2.2.2, List.forall_mem_singleton.mpr htag.1⟩) hshort
  have halg : sequence ⟨0x30, algIdItems.flatMap Tlv.bytes⟩ =
      .ok [⟨0x06, sha256OidValue⟩, ⟨0x05, []⟩] :=
    sequence_bytes (List.forall_mem_cons.mpr
      ⟨htag.2.2.1, List.forall_mem_singleton.mpr htag.2.1⟩)
      ((lt_length_bytes List.mem_cons_self).trans hshort)
  rw [parseTimestampReq, readOne_tlv htag.2.2.2 h]
  simp only [bind, Except.bind, hrequest, integer_derIntValue, himprint, halg, oid_sha256 hdigits,
    ne_eq, not_true_eq_false, if_false, nonceAmong_extraItems, pure, Except.pure]

/-- **The reader is exact on what the writer writes, and total on the rest.**  Elements of less than
four gigabytes are read back; every buffer is refused or covered by the elements read; every
integer is read back; and so is every request whose content is shorter than four gigabytes. -/
theorem der_exact (hdigits : maxStrDigits = 0 ∨ 640 ≤ maxStrDigits) :
    (∀ items : List Tlv, (∀ item ∈ items, item.Readable) →
      readAll (items.flatMap Tlv.bytes) = .ok items) ∧
    (∀ buf, readAll buf = .error .valueError ∨ ∃ items spans, readAll buf = .ok items ∧
      buf = spans.flatten ∧ List.Forall₂ IsSpan spans items) ∧
    (∀ n : ℕ, ∃ value, derInt n = .ok (tlv 0x02 value) ∧ integer ⟨0x02, value⟩ = .ok n) ∧
    ∀ message nonce certReq body, timestampReqBody message nonce certReq = .ok body →
      body.length < 2 ^ 32 → ∃ req, encodeTimestampReq message nonce certReq = .ok req ∧
        parseTimestampReq req = .ok (sha256Oid, (sha256 message).val, nonce) := by
  refine ⟨readAll_bytes, readAll_covers, ?_, ?_⟩
  · intro n
    exact ⟨_, derInt_natCast n, integer_derIntValue n⟩
  · intro message nonce certReq body hbody hshort
    exact ⟨_, encodeTimestampReq_of_body hbody, parseTimestampReq_encoded hdigits hbody hshort⟩

end

/-! ## Requests that are too long -/

theorem length_bytes_le {item : Tlv} (h : item.value.length < 2 ^ 40) :
    item.bytes.length ≤ item.value.length + 7 := by
  have hlen : (derLen item.value.length).length ≤ 6 := by
    rw [derLen]
    split_ifs
    · exact Nat.le_add_left 1 5
    · have hsize : item.value.length.size ≤ 40 := Nat.size_le.mpr h
      dsimp only
      rw [List.length_cons, length_toBytesBig]
      omega
  rw [Tlv.bytes, ← List.append_nil (tlv _ _), tlv_append, List.length_cons, List.length_append,
    List.append_nil]
  omega

theorem length_derIntValue_pow (k : ℕ) : (derIntValue (256 ^ k)).length = k + 1 := by
  rw [derIntValue, length_toBytesBig, show 256 = 2 ^ 8 from rfl, ← pow_mul, Nat.size_pow]
  omega

theorem length_bytes_cons_le {item : Tlv} {items : List Tlv} {m n : ℕ} (hm : item.value.length ≤ m)
    (hsmall : m < 2 ^ 40) (hn : (items.flatMap Tlv.bytes).length ≤ n) :
    ((item :: items).flatMap Tlv.bytes).length ≤ m + 7 + n := by
  have hle := length_bytes_le (hm.trans_lt hsmall)
  rw [List.flatMap_cons, List.length_append]
  omega

/-- How long the content of a request gets with a nonce that long. -/
theorem length_requestItems_le {digest : Bytes} (hdigest : digest.length = 32) (nonce : Option ℕ)
    (certReq : Bool) {m : ℕ} (hm : ∀ n ∈ nonce, (derIntValue n).length ≤ m) (hsmall : m < 2 ^ 40) :
    ((requestItems digest nonce certReq).flatMap Tlv.bytes).length ≤ m + 99 := by
  have halg : (algIdItems.flatMap Tlv.bytes).length ≤ 9 + 7 + (0 + 7 + 0) :=
    length_bytes_cons_le length_sha256OidValue.le (by decide)
      (length_bytes_cons_le le_rfl (by decide) le_rfl)
  have himprint : ((imprintItems digest).flatMap Tlv.bytes).length ≤ 23 + 7 + (32 + 7 + 0) :=
    length_bytes_cons_le halg (by decide)
      (length_bytes_cons_le hdigest.le (by decide) le_rfl)
  have hcert : ((if certReq then [⟨0x01, [0xFF]⟩] else [] : List Tlv).flatMap Tlv.bytes).length ≤
      1 + 7 + 0 := by
    split_ifs
    · exact length_bytes_cons_le le_rfl (by decide) le_rfl
    · exact Nat.zero_le _
  have hextra : ((extraItems nonce certReq).flatMap Tlv.bytes).length ≤ m + 7 + (1 + 7 + 0) := by
    cases nonce with
    | none => exact hcert.trans (Nat.le_add_left _ _)
    | some n => exact length_bytes_cons_le (hm n rfl) hsmall hcert
  have hone : (derIntValue 1).length = 1 := by
    rw [derIntValue, length_toBytesBig, Nat.size_one]
  have hall : ((requestItems digest nonce certReq).flatMap Tlv.bytes).length ≤
      1 + 7 + (69 + 7 + (m + 7 + (1 + 7 + 0))) :=
    length_bytes_cons_le hone.le (by decide)
      (length_bytes_cons_le himprint (by decide) hextra)
  omega

theorem lt_length_requestItems (digest : Bytes) (n : ℕ) (certReq : Bool) :
    (derIntValue n).length <
      ((requestItems digest (some n) certReq).flatMap Tlv.bytes).length := by
  have hmem : (⟨0x02, derIntValue n⟩ : Tlv) ∈ requestItems digest (some n) certReq := by
    simp [requestItems, extraItems]
  exact lt_length_bytes hmem

/-- The content of a request with a nonce of 64 bits is short. -/
theorem timestampReqBody_short [Hashlib] (message : Bytes) {nonce : Option ℕ}
    (h : ∀ n ∈ nonce, n < 2 ^ 64) (certReq : Bool) :
    ∃ body, timestampReqBody message (nonce.map (↑)) certReq = .ok body ∧ body.length < 2 ^ 32 := by
  refine ⟨_, timestampReqBody_eq message nonce certReq, ?_⟩
  have hnine : ∀ n ∈ nonce, (derIntValue n).length ≤ 9 := by
    intro n hn
    have hsize : n.size ≤ 64 := Nat.size_le.mpr (h n hn)
    rw [derIntValue, length_toBytesBig]
    omega
  have hle := length_requestItems_le (sha256 message).length_val nonce certReq hnine (by decide)
  omega

theorem parseTimestampReq_long [Interpreter] {body : Bytes} (hlow : 2 ^ 32 ≤ body.length)
    (hhigh : body.length < 2 ^ 40) : parseTimestampReq (tlv 0x30 body) = .error .valueError := by
  have hread : readTlv (tlv 0x30 body) = .error .valueError := by
    rw [← List.append_nil (tlv _ _), tlv_append, readTlv, if_neg (by decide),
      readLength_long hlow hhigh]
    rfl
  have hone : readOne (tlv 0x30 body) = .error .valueError := by
    have hne : tlv 0x30 body ≠ [] := List.cons_ne_nil _ _
    rw [readOne, readAll_of_error hne hread]
    rfl
  rw [parseTimestampReq, hone]
  rfl

theorem timestampReq_unread [Hashlib] [Interpreter] {k : ℕ} (hlow : 2 ^ 32 ≤ k) (hhigh : k < 2 ^ 33)
    (message : Bytes) : ∃ req, encodeTimestampReq message (some (256 ^ k)) true = .ok req ∧
      parseTimestampReq req = .error .valueError := by
  have hbody := timestampReqBody_eq message (some (256 ^ k)) true
  rw [Option.map_some, Nat.cast_pow] at hbody
  have hlen := length_derIntValue_pow k
  have hlong := lt_length_requestItems (sha256 message).val (256 ^ k) true
  have hbounded := length_requestItems_le (sha256 message).length_val (some (256 ^ k)) true
    (fun n hn => (Option.some.inj hn ▸ hlen).le) (by omega)
  exact ⟨_, encodeTimestampReq_of_body hbody, parseTimestampReq_long (by omega) (by omega)⟩

/-- **A request that is not read back**: its nonce takes more than four gigabytes. -/
theorem der_exact_unread :
    letI := Sha256.hashlib
    letI := Interpreter.plain
    ∃ req, encodeTimestampReq [] (some (256 ^ 2 ^ 32)) true = .ok req ∧
      parseTimestampReq req = .error .valueError :=
  @timestampReq_unread Sha256.hashlib Interpreter.plain (2 ^ 32) le_rfl (by decide) []

/-- A request with a nonce. -/
theorem der_exact_nonce :
    letI := Sha256.hashlib
    letI := Interpreter.plain
    ∃ req, encodeTimestampReq [] (some 0x80) true = .ok req ∧
      parseTimestampReq req = .ok (sha256Oid, (sha256 []).val, some 0x80) := by
  let _ := Sha256.hashlib
  let _ := Interpreter.plain
  obtain ⟨body, hbody, hshort⟩ := timestampReqBody_short []
    (by decide : ∀ n ∈ some 0x80, n < 2 ^ 64) true
  exact (der_exact (.inr (by decide))).2.2.2 [] (some 0x80) true body hbody hshort

end Waxseal
