import Mathlib.Data.Nat.Size
import Waxseal.Base.JsonDigits
import Waxseal.Domain.Abi

/-!
# The DER reader

The part of `domain/rfc3161.py` that reads DER: one element off the front of a buffer
(`readTlv`), a buffer as elements (`readAll`), and the integers and object identifiers in them.
`DerError` is a `ValueError`.

Every element takes at least its tag and its length off the buffer (`length_of_readTlv`), so the
reader comes to its end.
-/

namespace Waxseal

/-- `SHA256_OID`. -/
def sha256Oid : PyStr := str "2.16.840.1.101.3.4.2.1"

/-- `_der_len`. -/
def derLen (n : ℕ) : Bytes :=
  if n < 0x80 then [UInt8.ofNat n]
  else
    let body := toBytesBig ((n.size + 7) / 8) n
    UInt8.ofNat (0x80 ||| body.length) :: body

/-- `_tlv`. -/
def tlv (tag : UInt8) (value : Bytes) : Bytes := tag :: derLen value.length ++ value

/-- `_Tlv`. -/
structure Tlv where
  tag : UInt8
  value : Bytes
  deriving DecidableEq

/-- The length of an element, and what is left behind it. -/
def readLength : Bytes → Except PyErr (ℕ × Bytes)
  | [] => .error .valueError
  | length :: buf =>
      if length = 0x80 then .error .valueError
      else if length &&& 0x80 = 0 then .ok (length.toNat, buf)
      else
        let count := (length &&& 0x7F).toNat
        if 4 < count ∨ buf.length < count then .error .valueError
        else .ok (decodeUint (buf.take count), buf.drop count)

/-- `_read_tlv`, on what is left of the buffer. -/
def readTlv : Bytes → Except PyErr (Tlv × Bytes)
  | [] => .error .valueError
  | tag :: buf =>
      if tag &&& 0x1F = 0x1F then .error .valueError
      else do
        let (length, buf) ← readLength buf
        if buf.length < length then .error .valueError
        else return (⟨tag, buf.take length⟩, buf.drop length)

theorem length_of_readLength {buf rest : Bytes} {length : ℕ}
    (h : readLength buf = .ok (length, rest)) : rest.length ≤ buf.length := by
  cases buf with
  | nil => cases h
  | cons first buf =>
      rw [readLength] at h
      split_ifs at h
      · obtain ⟨-, rfl⟩ := Prod.mk.inj (Except.ok.inj h)
        exact Nat.le_succ _
      · simp only at h
        split_ifs at h
        obtain ⟨-, rfl⟩ := Prod.mk.inj (Except.ok.inj h)
        rw [List.length_drop, List.length_cons]
        omega

/-- An element takes its tag and its length off the buffer. -/
theorem length_of_readTlv {buf rest : Bytes} {item : Tlv} (h : readTlv buf = .ok (item, rest)) :
    rest.length < buf.length := by
  cases buf with
  | nil => cases h
  | cons tag buf =>
      rw [readTlv] at h
      split_ifs at h
      obtain ⟨⟨length, value⟩, hlength, h⟩ := bind_eq_ok_iff.mp h
      simp only at h
      split_ifs at h
      obtain ⟨-, rfl⟩ := Prod.mk.inj (Except.ok.inj h)
      have hle := length_of_readLength hlength
      rw [List.length_drop, List.length_cons]
      omega

/-- `_read_all`. -/
def readAll (buf : Bytes) : Except PyErr (List Tlv) :=
  if buf = [] then .ok []
  else
    match _h : readTlv buf with
    | .error e => .error e
    | .ok (item, rest) =>
        match readAll rest with
        | .error e => .error e
        | .ok items => .ok (item :: items)
termination_by buf.length
decreasing_by exact length_of_readTlv ‹_›

/-- `_read_one`. -/
def readOne (buf : Bytes) : Except PyErr Tlv := do
  match ← readAll buf with
  | [item] => return item
  | _ => throw .valueError

/-- `_sequence`. -/
def sequence (item : Tlv) : Except PyErr (List Tlv) :=
  if item.tag ≠ 0x30 then .error .valueError else readAll item.value

/-- `_integer`: in two's complement. -/
def integer (item : Tlv) : Except PyErr ℤ :=
  if item.tag ≠ 0x02 then .error .valueError
  else
    match item.value with
    | [] => .error .valueError
    | first :: rest =>
        let n : ℤ := decodeUint (first :: rest)
        .ok (if first < 0x80 then n else n - 256 ^ (rest.length + 1))

variable [Interpreter]

/-- The arcs of an object identifier behind the first two, where `acc` holds what has been read
of the next one and `pending` says whether that is anything. -/
def oidArcs (acc : ℕ) (pending : Bool) : Bytes → Except PyErr (List PyStr)
  | [] => if pending then .error .valueError else .ok []
  | byte :: rest =>
      let acc := acc <<< 7 ||| (byte &&& 0x7F).toNat
      if byte &&& 0x80 = 0 then do return (← strNatDigits acc) :: (← oidArcs 0 false rest)
      else oidArcs acc true rest

/-- `_oid`. -/
def oid (item : Tlv) : Except PyErr PyStr :=
  if item.tag ≠ 0x06 then .error .valueError
  else
    match item.value with
    | [] => .error .valueError
    | first :: rest => do
        let root := min (first.toNat / 40) 2
        let arcs ← oidArcs 0 false rest
        return (str ".").intercalate (strNat root :: strNat (first.toNat - 40 * root) :: arcs)

end Waxseal
