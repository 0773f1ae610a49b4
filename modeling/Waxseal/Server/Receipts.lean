import Waxseal.Domain.Hashing

/-!
# The receipt chain

`domain/receipts.py` of the server: a running hash over the entries a server has acknowledged,
in the order of the acknowledgements.
-/

namespace Waxseal

/-- `RECEIPT_FRAME_PREFIX`. -/
def receiptFramePrefix : Bytes := ascii "waxseal-receipt-v1\n"

/-- `RECEIPT_GENESIS`. -/
def receiptGenesis : PyStr := List.replicate 64 (CodePoint.ofChar '0')

/-- The fields of a link. -/
def receiptFields (receiptSeq : ℤ) (prevReceiptHead entryHash : PyStr) : List PyStr :=
  [strInt receiptSeq, prevReceiptHead, entryHash]

/-- What `receipt_head` hashes. -/
def receiptFrame (receiptSeq : ℤ) (prevReceiptHead entryHash : PyStr) : Except PyErr Bytes := do
  return receiptFramePrefix ++ be64 3 ++ (← lpAll (receiptFields receiptSeq prevReceiptHead entryHash))

theorem receiptFrame_inj {seq seq' : ℤ} {prev prev' entryHash entryHash' : PyStr} {b : Bytes}
    (h : receiptFrame seq prev entryHash = .ok b)
    (h' : receiptFrame seq' prev' entryHash' = .ok b) :
    seq = seq' ∧ prev = prev' ∧ entryHash = entryHash' := by
  obtain ⟨fields, hfields, hb⟩ := bind_eq_ok_iff.mp h
  obtain ⟨fields', hfields', hb'⟩ := bind_eq_ok_iff.mp h'
  obtain rfl := List.append_cancel_left (Except.ok.inj (hb.trans hb'.symm))
  have heq := @lpAll_inj (receiptFields seq prev entryHash) (receiptFields seq' prev' entryHash')
    rfl _ hfields hfields'
  simp only [receiptFields, List.cons.injEq, and_true] at heq
  exact ⟨strInt_injective heq.1, heq.2⟩

section Chain

variable [Hashlib]

/-- `receipt_head(receipt_seq, prev_receipt_head, entry_hash)`. -/
def receiptHead (receiptSeq : ℤ) (prevReceiptHead entryHash : PyStr) : Except PyErr PyStr :=
  (receiptFrame receiptSeq prevReceiptHead entryHash).map hexdigest

/-- `ReceiptChain`: the last sequence number it gave, and the head. -/
structure ReceiptChain where
  seq : ℤ
  head : PyStr
  deriving DecidableEq

namespace ReceiptChain

omit [Hashlib] in
/-- `_require_hex64(value, label)`. -/
def requireHex64 (value : PyStr) : Except PyErr PyStr :=
  if value.length ≠ 64 ∨ isLowerHex value = false then .error .valueError else .ok value

omit [Hashlib] in
/-- `ReceiptChain()`. -/
def empty : ReceiptChain := ⟨-1, receiptGenesis⟩

omit [Hashlib] in
/-- `ReceiptChain.resume(receipt_seq, head)`. -/
def resume (receiptSeq : ℤ) (head : PyStr) : Except PyErr ReceiptChain :=
  if receiptSeq < 0 then .error .valueError
  else do
    let head ← requireHex64 head
    return ⟨receiptSeq, head⟩

/-- `acknowledge(entry_hash)`: the chain after it, which holds what it answers. -/
def acknowledge (chain : ReceiptChain) (entryHash : PyStr) : Except PyErr ReceiptChain := do
  let entryHash ← requireHex64 entryHash
  let head ← receiptHead (chain.seq + 1) chain.head entryHash
  return ⟨chain.seq + 1, head⟩

end ReceiptChain

end Chain

end Waxseal
