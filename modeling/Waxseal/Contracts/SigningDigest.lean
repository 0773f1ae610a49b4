import Waxseal.Contracts.CheckpointCodec
import Waxseal.Domain.Bond

/-!
# One signing digest in two languages

The codec contract writes decimal numbers, hex strings and length prefixes by its own
loops.  They are the spellings of `str(int)`, `bytes.hex()` and `lp`, so the frame the
contract rebuilds is `checkpoint_frame` of a checkpoint without an aggregate binding whose
hashes are spelled in lowercase (`checkpointFrame_canonical`), and never the frame of any
other checkpoint.
-/

namespace Waxseal

namespace CheckpointCodec

open Rfc9162

/-! ## Spellings -/

theorem getD_alphabet {n : ℕ} (h : n < 16) : alphabet.getD n 0 = (hexDigit n).toByte := by
  revert n
  decide

/-- `hex32` is `bytes.hex()`. -/
theorem hex32_eq (value : Bytes32) : hex32 value = asciiBytes (hex value.val) := by
  rw [hex32]
  generalize value.val = b
  induction b with
  | nil => rfl
  | cons x b ih =>
      have hx := x.toNat_lt
      rw [List.flatMap_cons, ih, hex, getD_alphabet (by omega), getD_alphabet (by omega)]
      rfl

/-- The digits of a number, none for 0. -/
def digits (v : ℕ) : Bytes :=
  if v ≠ 0 then digits (v / 10) ++ [UInt8.ofNat (48 + v % 10)] else []
termination_by v
decreasing_by omega

theorem length_digits (v : ℕ) : (digits v).length = countDigits v := by
  induction v using digits.induct with
  | case1 v hv ih => rw [digits, countDigits, if_pos hv, if_pos hv, List.length_append, ih]; rfl
  | case2 v hv => rw [digits, countDigits, if_neg hv, if_neg hv]; rfl

/-- The second loop of `decimal` overwrites the front of its buffer with the digits. -/
theorem fillDigits_eq (v : ℕ) (out : Bytes) (h : countDigits v ≤ out.length) :
    fillDigits v (countDigits v) out = digits v ++ out.drop (countDigits v) := by
  induction v using digits.induct generalizing out with
  | case1 v hv ih =>
      have hcount : countDigits v = countDigits (v / 10) + 1 := by rw [countDigits, if_pos hv]
      have hlt : countDigits (v / 10) < out.length := by omega
      have hdigits : digits v = digits (v / 10) ++ [UInt8.ofNat (48 + v % 10)] := by
        rw [digits, if_pos hv]
      rw [fillDigits, if_pos hv, hcount, Nat.add_sub_cancel, ih _ (by rw [List.length_set]; omega),
        hdigits, List.append_assoc, List.drop_set, if_neg (lt_irrefl _), Nat.sub_self,
        List.drop_eq_getElem_cons hlt]
      rfl
  | case2 v hv => rw [fillDigits, digits, countDigits, if_neg hv, if_neg hv, if_neg hv]; rfl

theorem toByte_digitChar {d : ℕ} (h : d < 10) :
    (CodePoint.ofChar d.digitChar).toByte = UInt8.ofNat (48 + d) := by
  revert d
  decide

/-- The digits of a number other than 0 are its decimal spelling. -/
theorem digits_eq {v : ℕ} (h : v ≠ 0) : digits v = asciiBytes (strNat v) := by
  induction v using Nat.strong_induction_on with
  | _ v ih =>
      rw [digits, if_pos h]
      by_cases hlt : v < 10
      · rw [Nat.div_eq_of_lt hlt, Nat.mod_eq_of_lt hlt, digits, if_neg (not_not.mpr rfl), strNat,
          Nat.toDigits_of_lt_base hlt, ← toByte_digitChar hlt]
        rfl
      · have hsplit : strNat v = strNat (v / 10) ++ [CodePoint.ofChar (v % 10).digitChar] := by
          rw [strNat, Nat.toDigits_of_base_le (by norm_num) (by omega), List.map_append]
          rfl
        rw [ih (v / 10) (by omega) (by omega), ← toByte_digitChar (Nat.mod_lt v (by norm_num)),
          hsplit, asciiBytes_append]
        rfl

/-- `decimal` is `str(int)`. -/
theorem decimal_eq (value : Uint256) : decimal value = asciiBytes (strNat value.toNat) := by
  rw [decimal]
  by_cases h : value = 0
  · rw [if_pos h, h]
    decide
  · have hne : value.toNat ≠ 0 := fun h0 => h (BitVec.eq_of_toNat_eq h0)
    rw [if_neg h, fillDigits_eq _ _ (by rw [List.length_replicate]), ← length_digits,
      List.drop_eq_nil_of_le (by rw [List.length_replicate]), List.append_nil, digits_eq hne]

/-! ## Length prefixes -/

/-- `lp` of the contract is `lp` of the library, on the ASCII strings. -/
theorem lp_eq {s : PyStr} (hascii : isAscii s = true) (hlen : s.length + 1 < 2 ^ 64) :
    Waxseal.lp (some s) = .ok (lp (asciiBytes s)) := by
  rw [Waxseal.lp_ascii hascii hlen, ← length_asciiBytes s]
  rfl

theorem lp_hex (b : Bytes32) : Waxseal.lp (some (hex b.val)) = .ok (lp (hex32 b)) := by
  rw [lp_eq (isAscii_hex _) (by simp), hex32_eq]

/-! ## Frames -/

/-- **The contract's frame is the bare frame** of the checkpoint with these fields, its
hashes spelled in lowercase. -/
theorem checkpointFrame_canonical (seq : BitVec 64) (entryHash root : Bytes32) :
    checkpointFrame (.bare seq.toNat (hex entryHash.val) (hex root.val))
      = .ok (frame (seq.setWidth 256) entryHash root) := by
  have hseq : seq.toNat < 2 ^ 64 := seq.isLt
  have hlp : Waxseal.lp (some (strNat seq.toNat))
      = .ok (lp (decimal (seq.setWidth 256))) := by
    have hlength : (strNat seq.toNat).length ≤ 20 :=
      length_strNat_le (by decide) (hseq.trans (by decide))
    rw [lp_eq (isAscii_strNat _) (by omega), decimal_eq,
      BitVec.toNat_setWidth, Nat.mod_eq_of_lt (by omega)]
  have hfields : lpAll [strInt seq.toNat, hex entryHash.val, hex root.val]
      = .ok (lp (decimal (seq.setWidth 256)) ++ (lp (hex32 entryHash) ++ (lp (hex32 root) ++ []))) := by
    simp only [lpAll, lp_hex, show strInt (seq.toNat : ℤ) = strNat seq.toNat from rfl, hlp]
    rfl
  simp only [checkpointFrame, Checkpoint.bare, hfields]
  rw [frame, List.append_nil]
  simp only [List.append_assoc]
  rfl

/-- What `signingDigest` hashes. -/
def signingFrame (trailId : Bytes32) (seq : Uint256) (entryHash root : Bytes32) : Bytes :=
  signingPrefix ++ be64 2 ++ lp (hex32 trailId) ++ frame seq entryHash root

variable [Hashlib]

/-- The library's signing frame, around the checkpoint frame. -/
theorem checkpointSigningFrame_eq_ok_iff {chainId : PyStr} {cp : Checkpoint} {b : Bytes} :
    checkpointSigningFrame chainId cp = .ok b ↔
      ∃ trailId f, trailIdFor chainId = .ok trailId ∧ checkpointFrame cp = .ok f ∧
        b = signingPrefix ++ be64 2 ++ lp (hex32 trailId) ++ f := by
  rw [checkpointSigningFrame]
  simp only [bind_eq_ok_iff, lp_hex]
  constructor
  · rintro ⟨trailId, htrail, field, hfield, f, hf, hb⟩
    obtain rfl := Except.ok.inj hfield
    exact ⟨trailId, f, htrail, hf, (Except.ok.inj hb).symm⟩
  · rintro ⟨trailId, f, htrail, hf, rfl⟩
    exact ⟨trailId, htrail, _, rfl, f, hf, rfl⟩

/-- **When the two languages sign the same bytes**: the checkpoint is the bare one with the
contract's fields in lowercase hex. -/
theorem signingFrame_eq_iff {chainId : PyStr} {cp : Checkpoint} {b : Bytes} {trailId : Bytes32}
    {seq : BitVec 64} {entryHash root : Bytes32} (htrail : trailIdFor chainId = .ok trailId)
    (hb : checkpointSigningFrame chainId cp = .ok b) :
    b = signingFrame trailId (seq.setWidth 256) entryHash root ↔
      cp = .bare seq.toNat (hex entryHash.val) (hex root.val) := by
  obtain ⟨trailId', f, htrail', hf, rfl⟩ := checkpointSigningFrame_eq_ok_iff.mp hb
  obtain rfl := Except.ok.inj (htrail'.symm.trans htrail)
  have hcanon := checkpointFrame_canonical seq entryHash root
  rw [signingFrame, List.append_cancel_left_eq]
  constructor
  · rintro rfl
    exact checkpointFrame_inj hf hcanon
  · rintro rfl
    exact Except.ok.inj (hf.symm.trans hcanon)

end CheckpointCodec

end Waxseal
