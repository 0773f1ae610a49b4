import Waxseal.Contracts.Rfc9162
import Waxseal.Domain.Hashing

/-!
# The CheckpointCodec library contract

The checkpoint frame and the signing digest as the contracts rebuild them, and the
recovery of a signer.  Solidity strings are byte strings here.

`ecrecover` is a precompile of the chain, not code of the repository: it is the
parameter `Precompiles`.
-/

namespace Waxseal

/-- `address`. -/
abbrev Address := BitVec 160

/-- The precompile at address 1: the address that signed the digest, or zero. -/
class Precompiles where
  ecrecover : Bytes32 → UInt8 → Bytes32 → Bytes32 → Address

export Precompiles (ecrecover)

namespace CheckpointCodec

open Rfc9162

/-- `FRAME_PREFIX_BARE`. -/
def framePrefixBare : Bytes := ascii "waxseal-checkpoint-v1\n"

/-- `SIGNING_PREFIX`. -/
def signingPrefix : Bytes := ascii "waxseal-ledger-checkpoint-sig-v1\n"

/-- `lp`: 8-byte big-endian length over `0x01` and the string. -/
def lp (raw : Bytes) : Bytes := be64 (raw.length + 1) ++ 0x01 :: raw

/-- The first loop of `decimal`, which counts the digits. -/
def countDigits (v : ℕ) : ℕ := if v ≠ 0 then countDigits (v / 10) + 1 else 0
termination_by v
decreasing_by omega

/-- The second loop of `decimal`, which fills the digits in from the right. -/
def fillDigits (v digits : ℕ) (out : Bytes) : Bytes :=
  if v ≠ 0 then
    fillDigits (v / 10) (digits - 1) (out.set (digits - 1) (UInt8.ofNat (48 + v % 10)))
  else out
termination_by v
decreasing_by omega

/-- `decimal`. -/
def decimal (value : Uint256) : Bytes :=
  if value = 0 then ascii "0"
  else
    let digits := countDigits value.toNat
    fillDigits value.toNat digits (List.replicate digits 0)

/-- The alphabet of `hex32`. -/
def alphabet : Bytes := ascii "0123456789abcdef"

/-- `hex32`. -/
def hex32 (value : Bytes32) : Bytes :=
  value.val.flatMap fun b =>
    [alphabet.getD (b.toNat / 16) 0, alphabet.getD (b.toNat % 16) 0]

/-- `frame`. -/
def frame (seq : Uint256) (entryHash root : Bytes32) : Bytes :=
  framePrefixBare ++ be64 3 ++ lp (decimal seq) ++ lp (hex32 entryHash) ++ lp (hex32 root)

section Digest

variable [Hashlib]

/-- `signingDigest`. -/
def signingDigest (trailId : Bytes32) (seq : Uint256) (entryHash root : Bytes32) : Bytes32 :=
  sha256 (signingPrefix ++ be64 2 ++ lp (hex32 trailId) ++ frame seq entryHash root)

end Digest

/-- The number a big-endian byte string spells. -/
def beNat (b : Bytes) : ℕ := b.foldl (fun n x => 256 * n + x.toNat) 0

/-- Half the order of the curve: a larger `s` is the malleable twin of a signature. -/
def halfOrder : ℕ := 0x7FFFFFFFFFFFFFFFFFFFFFFFFFFFFFFF5D576E7357A4501DDFE92F46681B20A0

/-- `recoverSigner`; a malformed signature recovers the zero address. -/
def recoverSigner [Precompiles] (digest : Bytes32) (signature : Bytes) : Address :=
  if h : signature.length = 65 then
    let r : Bytes32 := ⟨signature.take 32, by rw [List.length_take]; omega⟩
    let s : Bytes32 := ⟨(signature.drop 32).take 32, by
      rw [List.length_take, List.length_drop]; omega⟩
    let v := signature.getD 64 0
    if beNat s.val > halfOrder then 0
    else if v ≠ 27 ∧ v ≠ 28 then 0
    else ecrecover digest v r s
  else 0

end CheckpointCodec

end Waxseal
