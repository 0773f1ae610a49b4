import Waxseal.Base.Hex
import Waxseal.Base.JsonLoads

/-!
# Handoff bindings

`domain/handoff.py`: a pointer into another chain, `(chain_id, seq, head_hash)`.  The
constructor refuses malformed pointers, so a `HandoffBinding` is well formed by type.
-/

namespace Waxseal

open Json

/-- `_SHA256_HEX`. -/
def isSha256Hex (s : PyStr) : Bool := s.length = 64 && isLowerHex s

/-- `HandoffBinding`, with what `__post_init__` has checked. -/
structure HandoffBinding where
  chainId : PyStr
  seq : ℕ
  headHash : PyStr
  chainId_ne_nil : chainId ≠ []
  headHash_hex : isSha256Hex headHash = true

namespace HandoffBinding

/-- `HandoffBinding(chain_id=..., seq=..., head_hash=...)`. -/
def new (chainId seq headHash : Json) : Except PyErr HandoffBinding :=
  match chainId with
  | .str chainId =>
      if hchain : chainId = [] then .error .valueError
      else
        match seq with
        | .int (.ofNat seq) =>
            match headHash with
            | .str headHash =>
                if hhash : isSha256Hex headHash then
                  .ok ⟨chainId, seq, headHash, hchain, hhash⟩
                else .error .valueError
            | _ => .error .valueError
        | _ => .error .valueError
  | _ => .error .valueError

/-- `to_payload(binding)`. -/
def toPayload (binding : HandoffBinding) : Json :=
  .obj [(Waxseal.str "chain_id", .str binding.chainId), (Waxseal.str "seq", .int binding.seq),
    (Waxseal.str "head_hash", .str binding.headHash)]

/-- `from_payload(payload)`: a missing field is a `ValueError`, like everything else. -/
def fromPayload (payload : Json) : Except PyErr HandoffBinding :=
  match payload with
  | .obj _ =>
      match (do
        let chainId ← getItem payload (Waxseal.str "chain_id")
        let seq ← getItem payload (Waxseal.str "seq")
        let headHash ← getItem payload (Waxseal.str "head_hash")
        return (chainId, seq, headHash)) with
      | .error _ => .error .valueError
      | .ok (chainId, seq, headHash) => new chainId seq headHash
  | _ => .error .valueError

/-- `binding_holds(binding, origin_entry_hashes)`. -/
def holds (binding : HandoffBinding) (originEntryHashes : List PyStr) : Bool :=
  if h : binding.seq < originEntryHashes.length then
    originEntryHashes[binding.seq] = binding.headHash
  else false

theorem holds_iff {binding : HandoffBinding} {hashes : List PyStr} :
    binding.holds hashes = true ↔ hashes[binding.seq]? = some binding.headHash := by
  unfold holds
  split_ifs with h
  · rw [List.getElem?_eq_getElem h, decide_eq_true_eq, Option.some.injEq]
  · rw [List.getElem?_eq_none (not_lt.mp h)]
    exact ⟨nofun, nofun⟩

/-- A pin that holds keeps holding while the origin only grows. -/
theorem holds_append {binding : HandoffBinding} {hashes : List PyStr}
    (h : binding.holds hashes = true) (more : List PyStr) :
    binding.holds (hashes ++ more) = true := by
  rw [holds_iff] at h ⊢
  obtain ⟨hlt, -⟩ := List.getElem?_eq_some_iff.mp h
  rw [List.getElem?_append_left hlt, h]

theorem new_toPayload (binding : HandoffBinding) :
    new (.str binding.chainId) (.int binding.seq) (.str binding.headHash) = .ok binding := by
  obtain ⟨chainId, seq, headHash, hchain, hhash⟩ := binding
  change (if hchain : chainId = [] then _ else _) = _
  rw [dif_neg hchain]
  change (if hhash : isSha256Hex headHash = true then _ else _) = _
  rw [dif_pos hhash]

/-- **The payload of a binding is read back as the binding**, whatever the order of its
members. -/
theorem fromPayload_of_getItem {payload : Json} {members : List (PyStr × Json)}
    {binding : HandoffBinding} (hobj : payload = .obj members)
    (hchain : getItem payload (Waxseal.str "chain_id") = .ok (.str binding.chainId))
    (hseq : getItem payload (Waxseal.str "seq") = .ok (.int binding.seq))
    (hhead : getItem payload (Waxseal.str "head_hash") = .ok (.str binding.headHash)) :
    fromPayload payload = .ok binding := by
  subst hobj
  simp only [fromPayload, hchain, hseq, hhead, bind, Except.bind, pure, Except.pure]
  exact new_toPayload binding

theorem fromPayload_toPayload (binding : HandoffBinding) :
    fromPayload binding.toPayload = .ok binding :=
  fromPayload_of_getItem rfl rfl rfl rfl

end HandoffBinding

end Waxseal
