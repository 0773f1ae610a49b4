import Mathlib.Data.Fintype.Basic
import Mathlib.Logic.Function.Basic
import Waxseal.Domain.Hashing

/-!
# Fingerprints and the version registry

`domain/fingerprint.py` and `domain/registry.py`.  A schema's identity is the
SHA-256 of a descriptor of its algorithm, encoding and field names.  A registry
maps identities to field tuples, and to the encoder that can reproduce a row
stamped with them.

`VersionRegistry` carries its invariant: a fingerprint registered with this
build's own field tuple names an encoding `_ENCODERS` implements, so
`encoder_for` never raises `KeyError` and is `None` exactly when the tuple
differs (`encoderFor_eq_none_iff`).
-/

namespace Waxseal

/-- `HEADER_FIELDS`. -/
def headerFields : List PyStr :=
  [str "seq", str "ts", str "hash_version", str "payload_type", str "payload_hash",
    str "prev_hash"]

/-- `ENCODING`. -/
def encodingName : PyStr := str "lp64"

/-- `ALGORITHM`. -/
def algorithmName : PyStr := str "sha256"

/-- `DESCRIPTOR_PREFIX`. -/
def descriptorPrefix : Bytes := ascii "waxseal-descriptor-v1\n"

/-- The descriptor's own length prefix, `fingerprint._lp`. -/
def descriptorLp (value : PyStr) : Except PyErr Bytes :=
  match encodeUtf8 value with
  | none => .error .unicodeEncodeError
  | some enc => do return (← packQ enc.length) ++ enc

/-- The descriptor components, length-prefixed one after another. -/
def descriptorLpAll : List PyStr → Except PyErr Bytes
  | [] => return []
  | c :: cs => return (← descriptorLp c) ++ (← descriptorLpAll cs)

/-- The frame `fingerprint_for(fields)` digests. -/
def fingerprintFrame (fields : List PyStr) : Except PyErr Bytes := do
  let components := algorithmName :: encodingName :: fields
  return descriptorPrefix ++ (← packQ components.length) ++ (← descriptorLpAll components)

section Fingerprint

variable [Hashlib]

/-- `fingerprint_for(fields)`. -/
def fingerprintFor (fields : List PyStr) : Except PyErr PyStr :=
  (fingerprintFrame fields).map hexdigest

/-- `fingerprint()`: the identity of the schema this build writes. -/
def fingerprint : PyStr := hexdigest ((fingerprintFrame headerFields).toOption.getD [])

theorem fingerprintFor_headerFields : fingerprintFor headerFields = .ok fingerprint := by
  have hok : (fingerprintFrame headerFields).toOption.isSome = true := by decide +kernel
  unfold fingerprintFor fingerprint
  cases h : fingerprintFrame headerFields with
  | error e => rw [h] at hok; cases hok
  | ok b => rfl

end Fingerprint

/-- `_ENCODERS`: the header-frame function behind each named encoding. -/
def encoders (name : PyStr) : Option Encoder :=
  if name = encodingName then some headerFrame else none

theorem encoders_encodingName : encoders encodingName = some headerFrame := if_pos rfl

theorem eq_headerFrame_of_encoders {name : PyStr} {frame : Encoder}
    (h : encoders name = some frame) : frame = headerFrame := by
  unfold encoders at h
  split at h
  · exact (Option.some.inj h).symm
  · cases h

variable [Hashlib]

/-- `VersionRegistry`: the `_schemas` and `_encoding` dictionaries. -/
structure VersionRegistry where
  schemas : PyStr → Option (List PyStr)
  encoding : PyStr → Option PyStr
  /-- The released schema's encoding is seeded at construction. -/
  seeded : encoding fingerprint = some encodingName
  /-- A fingerprint with this build's field tuple has an implemented encoding. -/
  implemented : ∀ fp, schemas fp = some headerFields →
    ∃ name, encoding fp = some name ∧ (encoders name).isSome

namespace VersionRegistry

/-- `VersionRegistry()`. -/
def new : VersionRegistry where
  schemas := fun fp => if fp = fingerprint then some headerFields else none
  encoding := fun fp => if fp = fingerprint then some encodingName else none
  seeded := if_pos rfl
  implemented := by
    intro fp h
    split at h
    · next hfp => exact ⟨encodingName, if_pos hfp, by simp [encoders_encodingName]⟩
    · cases h

/-- `encoder_for(fingerprint)`: the frame function this build would recompute a
row with, `none` when it cannot. -/
def encoderFor (registry : VersionRegistry) (fp : PyStr) : Option Encoder :=
  if registry.schemas fp ≠ some headerFields then none
  else (registry.encoding fp).bind encoders

/-- `knows(fingerprint)`. -/
def knows (registry : VersionRegistry) (fp : PyStr) : Bool := (registry.schemas fp).isSome

/-- `recomputable(fingerprint)`. -/
def recomputable (registry : VersionRegistry) (fp : PyStr) : Bool :=
  (registry.encoderFor fp).isSome

/-- `register(fields)`: `setdefault` under the tuple's own fingerprint. -/
def register (registry : VersionRegistry) (fields : List PyStr) :
    Except PyErr (PyStr × VersionRegistry) :=
  match hfp : fingerprintFor fields with
  | .error e => .error e
  | .ok fp =>
      .ok (fp, {
        schemas := Function.update registry.schemas fp
          (some ((registry.schemas fp).getD fields))
        encoding := registry.encoding
        seeded := registry.seeded
        implemented := by
          intro fp' h
          by_cases heq : fp' = fp
          · subst heq
            rw [Function.update_self] at h
            cases hold : registry.schemas fp' with
            | some old =>
                rw [hold] at h
                exact registry.implemented fp' (hold.trans h)
            | none =>
                rw [hold] at h
                obtain rfl : fields = headerFields := Option.some.inj h
                obtain rfl : fp' = fingerprint := by
                  rw [fingerprintFor_headerFields] at hfp
                  exact (Except.ok.inj hfp).symm
                exact ⟨encodingName, registry.seeded, by simp [encoders_encodingName]⟩
          · rw [Function.update_of_ne heq] at h
            exact registry.implemented fp' h })

theorem encoderFor_eq_none_iff (registry : VersionRegistry) (fp : PyStr) :
    registry.encoderFor fp = none ↔ registry.schemas fp ≠ some headerFields := by
  unfold encoderFor
  split
  · next h => exact ⟨fun _ => h, fun _ => rfl⟩
  · next h =>
      obtain ⟨name, hname, hsome⟩ := registry.implemented fp (not_not.mp h)
      rw [hname, Option.bind_some]
      refine ⟨fun hnone => ?_, fun hne => absurd hne h⟩
      rw [hnone] at hsome
      cases hsome

/-- There is one encoding, so there is one encoder a registry can resolve to. -/
theorem eq_headerFrame_of_encoderFor {registry : VersionRegistry} {fp : PyStr}
    {frame : Encoder} (h : registry.encoderFor fp = some frame) : frame = headerFrame := by
  unfold encoderFor at h
  split at h
  · cases h
  · obtain ⟨name, -, hname⟩ := Option.bind_eq_some_iff.mp h
    exact eq_headerFrame_of_encoders hname

/-- A new registry recomputes exactly the released fingerprint. -/
theorem encoderFor_new (fp : PyStr) :
    new.encoderFor fp = if fp = fingerprint then some headerFrame else none := by
  unfold encoderFor new
  by_cases h : fp = fingerprint
  · simp [h, encoders_encodingName]
  · simp [h]

end VersionRegistry

end Waxseal
