import Waxseal.Adapters.Attest
import Waxseal.Domain.Registry

/-!
# Verifying the sidecar

`log/_attestation.py`: the attestations are read, laid against the trail row by row, counted,
laid against the key file, and only then are their seals or signatures checked.

A report that is ok has found, for each entry of the trail, an attestation of its hash in its
own place (`verifySidecar_covers`).
-/

namespace Waxseal

open Json

/-- `Verifier`. -/
structure Verifier where
  algorithm : PyStr
  verify : Bytes → Bytes → Except PyErr Bool

/-- `except (ValueError, KeyError, TypeError)`. -/
def PyErr.isSidecarError (e : PyErr) : Bool := e.isValueError || e == .keyError || e == .typeError

/-- What reading a sidecar comes to, where a malformed one is a finding. -/
def orMalformed {α : Type} (x : Except PyErr α) : Except PyErr (Option α) :=
  match x with
  | .ok a => .ok (some a)
  | .error e => if e.isSidecarError then .ok none else .error e

/-- A malformed one gives no value, and anything else that is raised stays. -/
theorem orMalformed_eq_ok_some_iff {α : Type} {x : Except PyErr α} {a : α} :
    orMalformed x = .ok (some a) ↔ x = .ok a := by
  cases x with
  | ok b =>
      rw [orMalformed, Except.ok.injEq, Option.some.injEq, Except.ok.injEq]
  | error e =>
      rw [orMalformed]
      split
      · exact ⟨nofun, nofun⟩
      · exact ⟨nofun, nofun⟩

section Trail

variable [Hashlib]

/-- The hash a row of the trail has to be attested under: recomputed, where the registry can. -/
def expectedHash (registry : VersionRegistry) (entry : Entry) : Except PyErr PyStr :=
  match registry.encoderFor entry.header.hashVersion with
  | some encoder => computeEntryHash encoder entry.header
  | none => .ok entry.entryHash

/-- The first attestation that is not the one of its row, by the seq it gives itself. -/
def trailMismatch (registry : VersionRegistry) :
    List (Attestation Json) → List Entry → Except PyErr (Option ℤ)
  | [], _ => .ok none
  | att :: _, [] => .ok (some att.seq)
  | att :: atts, entry :: entries => do
      let expected ← expectedHash registry entry
      if att.entryHash ≠ expected then return some att.seq
      trailMismatch registry atts entries

end Trail

/-- The loop over the signatures, with the accumulators. -/
def verifySignaturesLoop (verifier : Verifier) :
    ℕ → List ℤ → List (Attestation Json) → Except PyErr AttestResult
  | checked, unverifiable, [] => .ok (.passed checked unverifiable)
  | checked, unverifiable, att :: atts =>
      if att.scheme ≠ str "sig-" ++ verifier.algorithm ++ str "-v1" then
        verifySignaturesLoop verifier checked (unverifiable ++ [att.seq]) atts
      else
        match sealFrame att.entryHash, fromhex att.value with
        | .ok frame, some signature => do
            if ← verifier.verify frame signature then
              verifySignaturesLoop verifier (checked + 1) unverifiable atts
            else return .broken .signatureInvalid (some att.seq) checked unverifiable
        | _, _ => .ok (.broken .malformedAttestation (some att.seq) checked unverifiable)

variable [Hashlib] [Interpreter]

/-- The aggregate, once the seals are intact. -/
def verifySealedAggregate (sealagg : Option Bytes) (atts : List (Attestation Json))
    (initialKey : Bytes) (result : AttestResult) : Except PyErr AttestResult := do
  match ← orMalformed (readAggregate sealagg) with
  | none => return .broken .malformedAggregate none result.checked result.unverifiable
  | some none =>
      if atts.any (·.scheme = fsHmacAggScheme) then
        return .broken .aggregateMissing none result.checked result.unverifiable
      return result
  | some (some (aggStart, epoch, agg)) =>
      match ← verifyAggregate atts initialKey aggStart epoch agg with
      | some reason => return .broken reason none result.checked result.unverifiable
      | none => return result

/-- The seals, under the initial key, and then the aggregate. -/
def verifySealed (sealagg : Option Bytes) (atts : List (Attestation Json)) (initialKey : Bytes) :
    Except PyErr AttestResult :=
  if (verifySeals atts initialKey).ok then
    verifySealedAggregate sealagg atts initialKey (verifySeals atts initialKey)
  else .ok (verifySeals atts initialKey)

/-- What the key file says of so many attestations. -/
def continuityReason (mode : SealMode) (sealkey : Option Bytes) (initialKey : Option Bytes)
    (count : ℕ) : Except PyErr (Option AttestReason) :=
  match initialKey with
  | none => .ok none
  | some initialKey => do
      return (← orMalformed (checkContinuity mode sealkey initialKey count)).getD
        (some .malformedKeyfile)

/-- What is left once the attestations cover the trail. -/
def verifyAttested (mode : SealMode) (files : SealFiles) (atts : List (Attestation Json))
    (initialKey : Option Bytes) (verifier : Option Verifier) : Except PyErr AttestResult := do
  match ← continuityReason mode files.sealkey initialKey atts.length with
  | some reason => return .broken reason none 0 []
  | none =>
      match verifier, initialKey with
      | some verifier, _ => verifySignaturesLoop verifier 0 [] atts
      | none, none => .error .valueError
      | none, some initialKey => verifySealed files.sealagg atts initialKey

/-- `verify_sidecar(attestor, backend, registry, initial_key=..., verifier=...)`. -/
def verifySidecar (registry : VersionRegistry) (mode : SealMode) (files : SealFiles)
    (entries : List Entry) (initialKey : Option Bytes) (verifier : Option Verifier) :
    Except PyErr AttestResult := do
  match ← orMalformed (attestations files.attest) with
  | none => return .broken .malformedAttestation none 0 []
  | some atts =>
      match ← trailMismatch registry atts entries with
      | some seq => return .broken .attestTrailMismatch (some seq) 0 []
      | none =>
          if atts.length < entries.length then
            return .broken .attestationGap (some atts.length) 0 []
          verifyAttested mode files atts initialKey verifier

/-! ## What a report that is ok has found -/

variable {registry : VersionRegistry} {mode : SealMode} {files : SealFiles}
  {entries : List Entry} {atts : List (Attestation Json)} {initialKey : Bytes}
  {verifier : Option Verifier} {result : AttestResult}

/-- The attestations are those of the entries, each in its place. -/
def Attests (registry : VersionRegistry) (atts : List (Attestation Json)) (entries : List Entry) :
    Prop :=
  List.Forall₂ (fun att entry => expectedHash registry entry = .ok att.entryHash) atts entries

omit [Interpreter] in
/-- Attestations without a mismatch are those of the entries they reach. -/
theorem attests_take_of_trailMismatch (h : trailMismatch registry atts entries = .ok none) :
    atts.length ≤ entries.length ∧ Attests registry atts (entries.take atts.length) := by
  induction atts generalizing entries with
  | nil => exact ⟨Nat.zero_le _, .nil⟩
  | cons att atts ih =>
      cases entries with
      | nil => cases Except.ok.inj h
      | cons entry entries =>
          obtain ⟨expected, hexpected, hrest⟩ := bind_eq_ok_iff.mp h
          by_cases heq : att.entryHash = expected
          · simp only [ne_eq, heq, not_true_eq_false, if_false] at hrest
            obtain ⟨hlength, hattests⟩ := ih hrest
            refine ⟨Nat.succ_le_succ hlength, .cons ?_ hattests⟩
            rw [hexpected, heq]
          · simp only [ne_eq, heq, not_false_iff, if_true] at hrest
            cases Except.ok.inj hrest

/-- A report that is ok has read the attestations and laid them against the whole trail. -/
theorem verifySidecar_ok_cases {key : Option Bytes}
    (h : verifySidecar registry mode files entries key verifier = .ok result)
    (hok : result.ok = true) :
    ∃ atts, attestations files.attest = .ok atts ∧ Attests registry atts entries ∧
      verifyAttested mode files atts key verifier = .ok result := by
  obtain ⟨read, hread, h⟩ := bind_eq_ok_iff.mp h
  cases read with
  | none =>
      obtain rfl := Except.ok.inj h
      cases hok
  | some atts =>
      obtain ⟨mismatch, hmismatch, h⟩ := bind_eq_ok_iff.mp h
      cases mismatch with
      | some seq =>
          obtain rfl := Except.ok.inj h
          cases hok
      | none =>
          by_cases hgap : atts.length < entries.length
          · simp only [hgap, if_true] at h
            obtain rfl := Except.ok.inj h
            cases hok
          · simp only [hgap, if_false] at h
            obtain ⟨-, hattests⟩ := attests_take_of_trailMismatch hmismatch
            rw [List.take_of_length_le (Nat.not_lt.mp hgap)] at hattests
            exact ⟨atts, orMalformed_eq_ok_some_iff.mp hread, hattests, h⟩

/-- **A report that is ok covers the trail**, whatever else it is given. -/
theorem verifySidecar_covers {key : Option Bytes}
    (h : verifySidecar registry mode files entries key verifier = .ok result)
    (hok : result.ok = true) :
    ∃ atts, attestations files.attest = .ok atts ∧ Attests registry atts entries := by
  obtain ⟨atts, hread, hattests, -⟩ := verifySidecar_ok_cases h hok
  exact ⟨atts, hread, hattests⟩

end Waxseal
