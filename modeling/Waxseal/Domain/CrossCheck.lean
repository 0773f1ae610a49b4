import Waxseal.Domain.Descriptor
import Waxseal.Domain.Verdict

/-!
# Cross-checking a registry

`RegistryCrossCheck`: what this build knows of a fingerprint, next to the descriptor an
on-chain registry holds for it.  Agreement is decided by the digest alone.
-/

namespace Waxseal

/-- The statuses of a `RegistryFinding`. -/
inductive RegistryStatus where
  | agrees
  | disagrees
  | absent
  | unreachable
  deriving DecidableEq

/-- The reasons of a `RegistryFinding`. -/
inductive RegistryReason where
  | registryDisagreement
  | registryFingerprintNotRegistered
  | registryCouldNotBeRead
  deriving DecidableEq

/-- `RegistryFinding`. -/
structure RegistryFinding where
  fingerprint : PyStr
  status : RegistryStatus
  reason : Option RegistryReason := none
  locallyKnown : Bool := false
  locallyRecomputable : Bool := false
  onchainDescriptor : Option (List PyStr) := none
  onchainDescriptorHex : Option PyStr := none
  deriving DecidableEq

/-- `to_verdict`. -/
def RegistryFinding.toVerdict (finding : RegistryFinding) : Verdict :=
  match finding.status with
  | .agrees => .ok
  | .disagrees => .unverifiable
  | .absent => .unverifiable
  | .unreachable => .unverifiable

variable [Hashlib]

/-- `RegistryCrossCheck(registry).check`. -/
def crossCheck (registry : VersionRegistry) (fingerprint : PyStr)
    (onchainDescriptor : Option Bytes) (reachable : Bool) : RegistryFinding :=
  let known := registry.knows fingerprint
  let recomputable := registry.recomputable fingerprint
  if !reachable then
    { fingerprint := fingerprint
      status := .unreachable
      reason := some .registryCouldNotBeRead
      locallyKnown := known
      locallyRecomputable := recomputable }
  else
    match onchainDescriptor with
    | none =>
        { fingerprint := fingerprint
          status := .absent
          reason := some .registryFingerprintNotRegistered
          locallyKnown := known
          locallyRecomputable := recomputable }
    | some descriptor =>
        let agrees : Bool := hexdigest descriptor = fingerprint
        { fingerprint := fingerprint
          status := if agrees then .agrees else .disagrees
          reason := if agrees then none else some .registryDisagreement
          locallyKnown := known
          locallyRecomputable := recomputable
          onchainDescriptor := decodeDescriptor descriptor
          onchainDescriptorHex := some (hex descriptor) }

/-- A registry that holds nothing is no disagreement. -/
theorem status_crossCheck_none (registry : VersionRegistry) (fingerprint : PyStr) :
    (crossCheck registry fingerprint none true).status = .absent := rfl

/-- **A descriptor agrees when its digest is the fingerprint**, as it is spelled. -/
theorem status_crossCheck_some (registry : VersionRegistry) (fingerprint : PyStr)
    (descriptor : Bytes) :
    (crossCheck registry fingerprint (some descriptor) true).status
      = if hexdigest descriptor = fingerprint then .agrees else .disagrees := by
  by_cases h : hexdigest descriptor = fingerprint
  · simp [crossCheck, h]
  · simp [crossCheck, h]

omit [Hashlib] in
/-- No finding is a break. -/
theorem RegistryFinding.toVerdict_ne_broken (finding : RegistryFinding) :
    finding.toVerdict ≠ .broken := by
  rcases hstatus : finding.status <;> simp [toVerdict, hstatus]

end Waxseal
