import Mathlib.Data.List.Induction
import Mathlib.Tactic.NormNum
import Mathlib.Tactic.Ring
import Waxseal.Base.Hex

/-!
# ABI encoding

`domain/abi.py`: call data from words and dynamic values.  An argument is a word, or a
dynamic value that puts its offset in the head and its bytes in the tail.

`encodeCall_word` and `encodeCall_dynamic` say where each argument ends up, whatever the
other arguments are.
-/

namespace Waxseal

/-! ## Words -/

/-- `n.to_bytes(k, "big")`, for a number that fits. -/
def toBytesBig : ℕ → ℕ → Bytes
  | 0, _ => []
  | k + 1, n => toBytesBig k (n / 256) ++ [UInt8.ofNat n]

@[simp] theorem length_toBytesBig (k n : ℕ) : (toBytesBig k n).length = k := by
  induction k generalizing n with
  | zero => rfl
  | succ k ih => rw [toBytesBig, List.length_append, ih]; rfl

/-- `encode_uint(value, bits=bits)`; `AbiError` is a `ValueError`. -/
def encodeUint (value : ℤ) (bits : ℕ) : Except PyErr Bytes :=
  if bits < 8 ∨ bits > 256 ∨ bits % 8 ≠ 0 then .error .valueError
  else if value < 0 then .error .valueError
  else if value ≥ 2 ^ bits then .error .valueError
  else .ok (toBytesBig 32 value.toNat)

/-- What `encode_bytes32` takes. -/
inductive Bytes32Arg where
  | bytes (b : Bytes)
  | text (s : PyStr)

/-- `value[2:] if value.startswith("0x") else value`. -/
def stripHexMark (s : PyStr) : PyStr :=
  if s.take 2 = str "0x" then s.drop 2 else s

/-- A lowercase spelling carries no `0x`. -/
theorem stripHexMark_of_isLowerHex {s : PyStr} (h : isLowerHex s = true) : stripHexMark s = s := by
  rw [stripHexMark, if_neg]
  intro hmark
  have hmem : CodePoint.ofChar 'x' ∈ s := by
    refine List.mem_of_mem_take (i := 2) ?_
    rw [hmark]
    decide
  exact absurd (List.all_eq_true.mp h _ hmem) (by decide)

/-- `encode_bytes32`. -/
def encodeBytes32 : Bytes32Arg → Except PyErr Bytes
  | .bytes b => if b.length ≠ 32 then .error .valueError else .ok b
  | .text s =>
      match fromhex (stripHexMark s) with
      | none => .error .valueError
      | some raw => if raw.length ≠ 32 then .error .valueError else .ok raw

/-- `_pad_right`. -/
def padRight (raw : Bytes) : Bytes :=
  if raw.length % 32 = 0 then raw else raw ++ List.replicate (32 - raw.length % 32) 0

/-- `encode_bytes`. -/
def encodeBytes (value : Bytes) : Except PyErr Bytes := do
  return (← encodeUint value.length 256) ++ padRight value

/-- `b"".join(encode_bytes32(value) for value in values)`. -/
def joinBytes32 : List PyStr → Except PyErr Bytes
  | [] => .ok []
  | value :: values => do return (← encodeBytes32 (.text value)) ++ (← joinBytes32 values)

/-- `encode_bytes32_array`. -/
def encodeBytes32Array (values : List PyStr) : Except PyErr Bytes := do
  let body ← joinBytes32 values
  return (← encodeUint values.length 256) ++ body

/-! ## Calls -/

/-- An encoded argument: a word, or `Dynamic` bytes. -/
inductive AbiArg where
  | word (b : Bytes)
  | dynamic (tail : Bytes)

/-- What an argument adds to the tail. -/
def AbiArg.tail : AbiArg → Bytes
  | .word _ => []
  | .dynamic tail => tail

/-- The heads of `encode_call`, from the offset of the next tail. -/
def encodeHeads : ℕ → List AbiArg → Except PyErr Bytes
  | _, [] => .ok []
  | offset, .word b :: args =>
      if b.length ≠ 32 then .error .valueError
      else do return b ++ (← encodeHeads offset args)
  | offset, .dynamic tail :: args => do
      return (← encodeUint offset 256) ++ (← encodeHeads (offset + tail.length) args)

/-- The tails of `encode_call`. -/
def encodeTails (args : List AbiArg) : Bytes := args.flatMap AbiArg.tail

/-- `encode_call`. -/
def encodeCall (selector : Bytes) (args : List AbiArg) : Except PyErr Bytes :=
  if selector.length ≠ 4 then .error .valueError
  else do return selector ++ (← encodeHeads (32 * args.length) args) ++ encodeTails args

/-! ## Return values -/

/-- The words of a return value, one after another. -/
def splitWords : ℕ → Bytes → List Bytes
  | 0, _ => []
  | k + 1, data => data.take 32 :: splitWords k (data.drop 32)

/-- `decode_words`. -/
def decodeWords (data : Bytes) : Option (List Bytes) :=
  if data.length % 32 ≠ 0 then none else some (splitWords (data.length / 32) data)

/-- `decode_uint`, of a word. -/
def decodeUint (word : Bytes) : ℕ := word.foldl (fun n b => 256 * n + b.toNat) 0

/-- `decode_bytes(data, index=index)`; `none` is `AbiError`. -/
def decodeBytes (data : Bytes) (index : ℕ) : Option Bytes :=
  let start := index * 32
  if start + 32 > data.length then none
  else
    let offset := decodeUint ((data.drop start).take 32)
    if offset % 32 ≠ 0 ∨ offset + 32 > data.length then none
    else
      let length := decodeUint ((data.drop offset).take 32)
      let body := offset + 32
      if body + length > data.length then none
      else some ((data.drop body).take length)

/-- What a function that returns `bytes` returns: an offset, the length and the bytes. -/
def returnedBytes (value : Bytes) : Bytes :=
  toBytesBig 32 32 ++ (toBytesBig 32 value.length ++ padRight value)

theorem decodeUint_append (a b : Bytes) :
    decodeUint (a ++ b) = 256 ^ b.length * decodeUint a + decodeUint b := by
  induction b using List.reverseRecOn with
  | nil => simp [decodeUint]
  | append_singleton b x ih =>
      have hlast : ∀ c : Bytes, decodeUint (c ++ [x]) = 256 * decodeUint c + x.toNat := by
        intro c
        rw [decodeUint, List.foldl_append]
        rfl
      rw [← List.append_assoc, hlast, ih, hlast, List.length_append, List.length_singleton,
        pow_succ]
      ring

theorem decodeUint_toBytesBig {k n : ℕ} (h : n < 256 ^ k) : decodeUint (toBytesBig k n) = n := by
  induction k generalizing n with
  | zero =>
      rw [pow_zero] at h
      rw [toBytesBig]
      exact (Nat.lt_one_iff.mp h).symm
  | succ k ih =>
      have hdiv : n / 256 < 256 ^ k := by
        rw [Nat.div_lt_iff_lt_mul (by decide)]
        rwa [pow_succ] at h
      have hbyte : decodeUint [UInt8.ofNat n] = n % 256 := by
        rw [decodeUint, List.foldl_cons, List.foldl_nil, UInt8.toNat_ofNat']
        omega
      rw [toBytesBig, decodeUint_append, ih hdiv, hbyte, List.length_singleton, pow_one]
      omega

/-- **What a contract returns is decoded.** -/
theorem decodeBytes_returnedBytes {value : Bytes} (h : value.length < 2 ^ 256) :
    decodeBytes (returnedBytes value) 0 = some value := by
  have hpadded : value.length ≤ (padRight value).length := by
    rw [padRight]
    split_ifs with hmod
    · exact le_rfl
    · rw [List.length_append]
      exact Nat.le_add_right _ _
  have hlength : (returnedBytes value).length = 64 + (padRight value).length := by
    rw [returnedBytes, List.length_append, List.length_append, length_toBytesBig,
      length_toBytesBig]
    omega
  have hoffset : decodeUint (((returnedBytes value).drop (0 * 32)).take 32) = 32 := by
    rw [Nat.zero_mul, List.drop_zero, returnedBytes, List.take_left' (length_toBytesBig _ _)]
    exact decodeUint_toBytesBig (by decide)
  have htail : (returnedBytes value).drop 32 = toBytesBig 32 value.length ++ padRight value := by
    rw [returnedBytes, List.drop_left' (length_toBytesBig _ _)]
  have hsize : decodeUint (((returnedBytes value).drop 32).take 32) = value.length := by
    rw [htail, List.take_left' (length_toBytesBig _ _)]
    exact decodeUint_toBytesBig (h.trans_eq (by norm_num))
  have hbody : ((returnedBytes value).drop (32 + 32)).take value.length = value := by
    rw [← List.drop_drop, htail, List.drop_left' (length_toBytesBig _ _), padRight]
    split_ifs with hmod
    · exact List.take_length
    · exact List.take_left
  rw [decodeBytes]
  dsimp only
  rw [if_neg (by omega), hoffset, if_neg (by omega), hsize, if_neg (by omega), hbody]

/-! ## Where an argument ends up -/

theorem encodeUint_eq_ok_iff {value : ℤ} {bits : ℕ} {b : Bytes} :
    encodeUint value bits = .ok b ↔ 8 ≤ bits ∧ bits ≤ 256 ∧ bits % 8 = 0 ∧ 0 ≤ value ∧
      value < 2 ^ bits ∧ toBytesBig 32 value.toNat = b := by
  rw [encodeUint]
  constructor
  · intro h
    split_ifs at h with hbits hneg hbig
    obtain ⟨h8, h256, hmod⟩ : 8 ≤ bits ∧ bits ≤ 256 ∧ bits % 8 = 0 := by omega
    exact ⟨h8, h256, hmod, by omega, by omega, Except.ok.inj h⟩
  · rintro ⟨h8, h256, hmod, hpos, hlt, rfl⟩
    rw [if_neg (by omega), if_neg (by omega), if_neg (by omega)]

theorem length_of_encodeUint {value : ℤ} {bits : ℕ} {b : Bytes}
    (h : encodeUint value bits = .ok b) : b.length = 32 := by
  obtain ⟨-, -, -, -, -, rfl⟩ := encodeUint_eq_ok_iff.mp h
  exact length_toBytesBig 32 _

theorem length_of_encodeBytes32 {arg : Bytes32Arg} {b : Bytes} (h : encodeBytes32 arg = .ok b) :
    b.length = 32 := by
  cases arg with
  | bytes raw =>
      rw [encodeBytes32] at h
      split_ifs at h with hlen
      obtain rfl := Except.ok.inj h
      exact not_not.mp hlen
  | text s =>
      rw [encodeBytes32] at h
      rcases hraw : fromhex (stripHexMark s) with - | raw
      · rw [hraw] at h
        cases h
      · simp only [hraw] at h
        split_ifs at h with hlen
        obtain rfl := Except.ok.inj h
        exact not_not.mp hlen

theorem encodeHeads_append {first rest : List AbiArg} {offset : ℕ} {heads : Bytes}
    (h : encodeHeads offset (first ++ rest) = .ok heads) :
    ∃ before after, heads = before ++ after ∧ before.length = 32 * first.length ∧
      encodeHeads (offset + (encodeTails first).length) rest = .ok after := by
  induction first generalizing offset heads with
  | nil => exact ⟨[], heads, rfl, rfl, h⟩
  | cons arg first ih =>
      cases arg with
      | word b =>
          rw [List.cons_append, encodeHeads] at h
          split_ifs at h with hlen
          obtain ⟨more, hmore, hheads⟩ := bind_eq_ok_iff.mp h
          obtain ⟨before, after, rfl, hbefore, hafter⟩ := ih hmore
          refine ⟨b ++ before, after, ?_, ?_, hafter⟩
          · rw [List.append_assoc]
            exact (Except.ok.inj hheads).symm
          · rw [List.length_append, hbefore, List.length_cons]
            omega
      | dynamic tail =>
          rw [List.cons_append, encodeHeads] at h
          obtain ⟨word, hword, h⟩ := bind_eq_ok_iff.mp h
          obtain ⟨more, hmore, hheads⟩ := bind_eq_ok_iff.mp h
          obtain ⟨before, after, rfl, hbefore, hafter⟩ := ih hmore
          refine ⟨word ++ before, after, ?_, ?_, ?_⟩
          · rw [List.append_assoc]
            exact (Except.ok.inj hheads).symm
          · rw [List.length_append, hbefore, length_of_encodeUint hword, List.length_cons]
            omega
          · rwa [encodeTails, List.flatMap_cons, List.length_append, ← Nat.add_assoc]

theorem length_of_encodeHeads {args : List AbiArg} {offset : ℕ} {heads : Bytes}
    (h : encodeHeads offset args = .ok heads) : heads.length = 32 * args.length := by
  rw [← List.append_nil args] at h
  obtain ⟨before, after, rfl, hbefore, hafter⟩ := encodeHeads_append h
  obtain rfl : [] = after := Except.ok.inj hafter
  rw [List.append_nil, hbefore]

variable {selector data : Bytes} {first rest : List AbiArg}

theorem encodeCall_eq_ok {args : List AbiArg} (h : encodeCall selector args = .ok data) :
    selector.length = 4 ∧ ∃ heads, encodeHeads (32 * args.length) args = .ok heads ∧
      data = selector ++ (heads ++ encodeTails args) := by
  rw [encodeCall] at h
  split_ifs at h with hlen
  obtain ⟨heads, hheads, hdata⟩ := bind_eq_ok_iff.mp h
  refine ⟨not_not.mp hlen, heads, hheads, ?_⟩
  rw [← List.append_assoc]
  exact (Except.ok.inj hdata).symm

theorem drop_selector {args : List AbiArg} (h : encodeCall selector args = .ok data) :
    data.take 4 = selector ∧ ∃ heads, encodeHeads (32 * args.length) args = .ok heads ∧
      data.drop 4 = heads ++ encodeTails args := by
  obtain ⟨hlen, heads, hheads, rfl⟩ := encodeCall_eq_ok h
  exact ⟨List.take_left' hlen, heads, hheads, List.drop_left' hlen⟩

/-- A word stands at its place in the head. -/
theorem encodeCall_word {b : Bytes} (h : encodeCall selector (first ++ .word b :: rest) = .ok data) :
    b.length = 32 ∧ ∃ more, (data.drop 4).drop (32 * first.length) = b ++ more := by
  obtain ⟨-, heads, hheads, hdata⟩ := drop_selector h
  obtain ⟨before, after, rfl, hbefore, hafter⟩ := encodeHeads_append hheads
  rw [encodeHeads] at hafter
  split_ifs at hafter with hlen
  obtain ⟨more, -, hafter⟩ := bind_eq_ok_iff.mp hafter
  obtain rfl := Except.ok.inj hafter
  refine ⟨not_not.mp hlen, more ++ encodeTails (first ++ .word b :: rest), ?_⟩
  rw [hdata, List.append_assoc, List.drop_left' hbefore, List.append_assoc]

/-- A dynamic value stands in the tail, at the offset its head holds. -/
theorem encodeCall_dynamic {tail : Bytes}
    (h : encodeCall selector (first ++ .dynamic tail :: rest) = .ok data) :
    ∃ (offset : ℕ) (word more after : Bytes),
      offset = 32 * (first ++ .dynamic tail :: rest).length + (encodeTails first).length ∧
      encodeUint offset 256 = .ok word ∧ (data.drop 4).drop (32 * first.length) = word ++ more ∧
      offset ≤ (data.drop 4).length ∧ (data.drop 4).drop offset = tail ++ after := by
  obtain ⟨-, heads, hheads, hdata⟩ := drop_selector h
  have hlen := length_of_encodeHeads hheads
  obtain ⟨before, after, rfl, hbefore, hafter⟩ := encodeHeads_append hheads
  rw [encodeHeads] at hafter
  obtain ⟨word, hword, hafter⟩ := bind_eq_ok_iff.mp hafter
  obtain ⟨more, -, hafter⟩ := bind_eq_ok_iff.mp hafter
  obtain rfl := Except.ok.inj hafter
  have htails : encodeTails (first ++ .dynamic tail :: rest)
      = encodeTails first ++ (tail ++ encodeTails rest) := by
    rw [encodeTails, List.flatMap_append, List.flatMap_cons]
    rfl
  refine ⟨_, word, more ++ encodeTails (first ++ .dynamic tail :: rest), encodeTails rest, rfl,
    hword, ?_, ?_, ?_⟩
  · rw [hdata, List.append_assoc, List.drop_left' hbefore]
    exact List.append_assoc _ _ _
  · have htotal := congrArg List.length hdata
    rw [htails] at htotal
    simp only [List.length_append] at htotal hlen ⊢
    omega
  · rw [hdata, htails, ← List.drop_drop, List.drop_left' hlen, List.drop_left' rfl]

end Waxseal
