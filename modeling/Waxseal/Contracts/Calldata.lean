import Waxseal.Contracts.AnchoringLiveness
import Waxseal.Domain.Abi

/-!
# Reading call data

How a contract reads its arguments out of the call data: words at their place in the head,
dynamic values at the offset their head holds, and a revert (`none`) where the data is too
short or a word does not fit its type.  Each reader has one lemma that says what it reads
where the encoder has written.
-/

namespace Waxseal.Calldata

open CheckpointCodec

/-! ## Readers -/

/-- The word at `pos`. -/
def wordAt (data : Bytes) (pos : ℕ) : Option Bytes32 :=
  let word := (data.drop pos).take 32
  if h : word.length = 32 then some ⟨word, h⟩ else none

/-- The number at `pos`. -/
def natAt (data : Bytes) (pos : ℕ) : Option ℕ := (wordAt data pos).map fun word => beNat word.val

/-- The `uint64` at `pos`: a word with any higher bit set is refused. -/
def uint64At (data : Bytes) (pos : ℕ) : Option (BitVec 64) :=
  (natAt data pos).bind fun n => if n < 2 ^ 64 then some (BitVec.ofNat 64 n) else none

/-- The tail the head at `pos` points to. -/
def tailAt (data : Bytes) (pos : ℕ) : Option Bytes :=
  (natAt data pos).bind fun offset => if offset ≤ data.length then some (data.drop offset) else none

/-- The `bytes` the head at `pos` points to. -/
def bytesAt (data : Bytes) (pos : ℕ) : Option Bytes :=
  (tailAt data pos).bind fun tail => (natAt tail 0).bind fun len =>
    if 32 + len ≤ tail.length then some ((tail.drop 32).take len) else none

/-- The first `n` words. -/
def words : ℕ → Bytes → Option (List Bytes32)
  | 0, _ => some []
  | n + 1, data =>
      (wordAt data 0).bind fun word => (words n (data.drop 32)).map fun more => word :: more

/-- The `bytes32[]` the head at `pos` points to. -/
def bytes32ArrayAt (data : Bytes) (pos : ℕ) : Option (List Bytes32) :=
  (tailAt data pos).bind fun tail => (natAt tail 0).bind fun len => words len (tail.drop 32)

/-- `SELECTOR_SUBMIT`, of `submit(bytes32,uint64,bytes32,bytes32,bytes,bytes32[])`. -/
def selectorSubmit : Bytes := [0x0d, 0x0d, 0x53, 0xd2]

/-- The arguments of `submit`. -/
structure SubmitArgs where
  trailId : Bytes32
  seq : BitVec 64
  entryHash : Bytes32
  root : Bytes32
  signature : Bytes
  consistencyProof : List Bytes32

/-- The call data of `submit`, read by the contract. -/
def decodeSubmit (calldata : Bytes) : Option SubmitArgs :=
  if calldata.take 4 = selectorSubmit then
    let data := calldata.drop 4
    (wordAt data 0).bind fun trailId => (uint64At data 32).bind fun seq =>
    (wordAt data 64).bind fun entryHash => (wordAt data 96).bind fun root =>
    (bytesAt data 128).bind fun signature => (bytes32ArrayAt data 160).map fun proof =>
      ⟨trailId, seq, entryHash, root, signature, proof⟩
  else none

/-! ## What the readers read -/

theorem beNat_append (b : Bytes) (x : UInt8) : beNat (b ++ [x]) = 256 * beNat b + x.toNat := by
  rw [beNat, List.foldl_append]
  rfl

theorem beNat_toBytesBig (k n : ℕ) : beNat (toBytesBig k n) = n % 256 ^ k := by
  induction k generalizing n with
  | zero => rw [pow_zero, Nat.mod_one]; rfl
  | succ k ih =>
      have hbyte : (UInt8.ofNat n).toNat = n % 256 := UInt8.toNat_ofNat'
      rw [toBytesBig, beNat_append, ih, hbyte, pow_succ' 256 k, Nat.mod_mul]
      exact Nat.add_comm _ _

variable {data : Bytes} {pos : ℕ} {b more : Bytes}

theorem wordAt_of_drop (h : data.drop pos = b ++ more) (hlen : b.length = 32) :
    wordAt data pos = some ⟨b, hlen⟩ := by
  have htake : (data.drop pos).take 32 = b := by rw [h, List.take_left' hlen]
  simp only [wordAt, htake, hlen, dif_pos]

theorem natAt_of_drop {value : ℤ} {bits : ℕ} (h : data.drop pos = b ++ more)
    (henc : encodeUint value bits = .ok b) : natAt data pos = some value.toNat := by
  rw [natAt, wordAt_of_drop h (length_of_encodeUint henc)]
  obtain ⟨-, hbits, -, hpos, hlt, rfl⟩ := encodeUint_eq_ok_iff.mp henc
  have hnat : value.toNat < 2 ^ bits := (Int.toNat_lt hpos).mpr (by exact_mod_cast hlt)
  have hle : 2 ^ bits ≤ 256 ^ 32 := by
    rw [show 256 ^ 32 = 2 ^ 256 by norm_num]
    exact Nat.pow_le_pow_right (by norm_num) hbits
  rw [Option.map_some, beNat_toBytesBig, Nat.mod_eq_of_lt (hnat.trans_le hle)]

theorem uint64At_of_drop {value : ℤ} (h : data.drop pos = b ++ more)
    (henc : encodeUint value 64 = .ok b) :
    ∃ seq : BitVec 64, uint64At data pos = some seq ∧ (seq.toNat : ℤ) = value := by
  obtain ⟨-, -, -, hpos, hlt, -⟩ := encodeUint_eq_ok_iff.mp henc
  have hnat : value.toNat < 2 ^ 64 := by omega
  refine ⟨BitVec.ofNat 64 value.toNat, ?_, ?_⟩
  · rw [uint64At, natAt_of_drop h henc, Option.bind_some, if_pos hnat]
  · rw [BitVec.toNat_ofNat, Nat.mod_eq_of_lt hnat]
    omega

theorem tailAt_of_drop {offset : ℕ} {tail after : Bytes} (h : data.drop pos = b ++ more)
    (henc : encodeUint offset 256 = .ok b) (hle : offset ≤ data.length)
    (htail : data.drop offset = tail ++ after) : tailAt data pos = some (tail ++ after) := by
  rw [tailAt, natAt_of_drop h henc, Option.bind_some, Int.toNat_natCast, if_pos hle, htail]

/-- The padding goes after the value. -/
theorem exists_padRight (value : Bytes) : ∃ pad, padRight value = value ++ pad := by
  rw [padRight]
  split_ifs
  · exact ⟨[], (List.append_nil value).symm⟩
  · exact ⟨_, rfl⟩

theorem bytesAt_of_tail {value tail after : Bytes} (h : tailAt data pos = some (tail ++ after))
    (henc : encodeBytes value = .ok tail) : bytesAt data pos = some value := by
  obtain ⟨word, hword, htail⟩ := bind_eq_ok_iff.mp henc
  obtain rfl : word ++ padRight value = tail := Except.ok.inj htail
  obtain ⟨pad, hpad⟩ := exists_padRight value
  have hlen := length_of_encodeUint hword
  have hdrop : (word ++ padRight value ++ after).drop 0 = word ++ (padRight value ++ after) := by
    rw [List.drop_zero, List.append_assoc]
  have hbody : (word ++ padRight value ++ after).drop 32 = value ++ (pad ++ after) := by
    rw [List.append_assoc, List.drop_left' hlen, hpad, List.append_assoc]
  have hfits : 32 + value.length ≤ (word ++ padRight value ++ after).length := by
    simp only [List.length_append, hlen, hpad]
    omega
  rw [bytesAt, h, Option.bind_some, natAt_of_drop hdrop hword, Option.bind_some,
    Int.toNat_natCast, if_pos hfits, hbody, List.take_left' rfl]

theorem words_of_join {values : List PyStr} {body : Bytes} (henc : joinBytes32 values = .ok body)
    (after : Bytes) : ∃ elements, words values.length (body ++ after) = some elements ∧
      elements.length = values.length := by
  induction values generalizing body with
  | nil => exact ⟨[], rfl, rfl⟩
  | cons value values ih =>
      obtain ⟨word, hword, henc⟩ := bind_eq_ok_iff.mp henc
      obtain ⟨rest, hrest, hbody⟩ := bind_eq_ok_iff.mp henc
      obtain rfl : word ++ rest = body := Except.ok.inj hbody
      obtain ⟨elements, hwords, hcount⟩ := ih hrest
      have hlen := length_of_encodeBytes32 hword
      have hdrop : (word ++ rest ++ after).drop 0 = word ++ (rest ++ after) := by
        rw [List.drop_zero, List.append_assoc]
      refine ⟨⟨word, hlen⟩ :: elements, ?_, by rw [List.length_cons, List.length_cons, hcount]⟩
      rw [List.length_cons, words, wordAt_of_drop hdrop hlen, Option.bind_some, List.append_assoc,
        List.drop_left' hlen, hwords]
      rfl

theorem bytes32ArrayAt_of_tail {values : List PyStr} {tail after : Bytes}
    (h : tailAt data pos = some (tail ++ after)) (henc : encodeBytes32Array values = .ok tail) :
    ∃ elements, bytes32ArrayAt data pos = some elements ∧ elements.length = values.length := by
  obtain ⟨body, hbody, henc⟩ := bind_eq_ok_iff.mp henc
  obtain ⟨word, hword, htail⟩ := bind_eq_ok_iff.mp henc
  obtain rfl : word ++ body = tail := Except.ok.inj htail
  obtain ⟨elements, hwords, hcount⟩ := words_of_join hbody after
  have hdrop : (word ++ body ++ after).drop 0 = word ++ (body ++ after) := by
    rw [List.drop_zero, List.append_assoc]
  refine ⟨elements, ?_, hcount⟩
  rw [bytes32ArrayAt, h, Option.bind_some, natAt_of_drop hdrop hword, Option.bind_some,
    Int.toNat_natCast, List.append_assoc, List.drop_left' (length_of_encodeUint hword), hwords]

end Waxseal.Calldata
