import Mathlib.Data.List.Induction
import Mathlib.Logic.Function.Basic
import Waxseal.Base.Sha256
import Waxseal.Contracts.CheckpointCodec

/-!
# The FingerprintRegistry contract

One mapping from fingerprints to descriptors, written by one function that computes the
fingerprint itself and never overwrites.  `Wf` is what every run keeps, `lookup_keeps` says
that a descriptor stays, and `lookup_ne_nil_iff` that one is there exactly when some call
registered it.
-/

namespace Waxseal.FingerprintRegistry

/-- `FingerprintRegistered`. -/
structure FingerprintRegistered where
  fingerprint : Bytes32
  descriptor : Bytes

/-- The errors of the contract. -/
inductive Revert where
  | emptyDescriptor
  | alreadyRegistered (fingerprint : Bytes32)

/-- The storage of the contract, and the log of its events. -/
structure World where
  descriptors : Bytes32 → Bytes
  log : List FingerprintRegistered

/-- The contract as deployed. -/
def World.init : World := ⟨fun _ => [], []⟩

/-- A call of `register`, from any sender.  The length of call data is a `uint256`. -/
structure Tx where
  sender : Address
  descriptor : Bytes
  fits : descriptor.length < 2 ^ 256

/-- `lookup`. -/
def lookup (w : World) (fingerprint : Bytes32) : Bytes := w.descriptors fingerprint

/-- `isRegistered`. -/
def isRegistered (w : World) (fingerprint : Bytes32) : Bool :=
  (w.descriptors fingerprint).length ≠ 0

variable [Hashlib]

/-- `register`. -/
def register (w : World) (descriptor : Bytes) : Except Revert (World × Bytes32) :=
  if descriptor.length = 0 then .error .emptyDescriptor
  else
    let fingerprint := sha256 descriptor
    if (w.descriptors fingerprint).length ≠ 0 then .error (.alreadyRegistered fingerprint)
    else
      .ok ({ descriptors := Function.update w.descriptors fingerprint descriptor
             log := w.log ++ [⟨fingerprint, descriptor⟩] }, fingerprint)

/-- A transaction; one that reverts changes nothing. -/
def exec (w : World) (tx : Tx) : World :=
  match register w tx.descriptor with
  | .ok (after, _) => after
  | .error _ => w

/-- A run of the contract. -/
def run (txs : List Tx) : World := txs.foldl exec .init

theorem run_append (txs more : List Tx) : run (txs ++ more) = more.foldl exec (run txs) :=
  List.foldl_append

/-- **What a transaction does**: it stores a descriptor under its digest where there was none,
or nothing. -/
theorem exec_cases (w : World) (tx : Tx) :
    (w.descriptors (sha256 tx.descriptor) = [] ∧ tx.descriptor ≠ [] ∧
        register w tx.descriptor = .ok (exec w tx, sha256 tx.descriptor) ∧
        (exec w tx).descriptors
          = Function.update w.descriptors (sha256 tx.descriptor) tx.descriptor) ∨
      exec w tx = w ∧ (∃ e, register w tx.descriptor = .error e) ∧
        (tx.descriptor = [] ∨ w.descriptors (sha256 tx.descriptor) ≠ []) := by
  by_cases hempty : tx.descriptor.length = 0
  · have hregister : register w tx.descriptor = .error .emptyDescriptor := by
      rw [register, if_pos hempty]
    exact .inr ⟨by rw [exec, hregister], ⟨_, hregister⟩, .inl (List.length_eq_zero_iff.mp hempty)⟩
  · by_cases htaken : (w.descriptors (sha256 tx.descriptor)).length = 0
    · have hregister : register w tx.descriptor
          = .ok (⟨Function.update w.descriptors (sha256 tx.descriptor) tx.descriptor,
            w.log ++ [⟨sha256 tx.descriptor, tx.descriptor⟩]⟩, sha256 tx.descriptor) := by
        rw [register, if_neg hempty]
        exact if_neg (not_not.mpr htaken)
      refine .inl ⟨List.length_eq_zero_iff.mp htaken, fun h => hempty (by rw [h]; rfl), ?_, ?_⟩
      · rw [exec, hregister]
      · rw [exec, hregister]
    · have hregister : register w tx.descriptor
          = .error (.alreadyRegistered (sha256 tx.descriptor)) := by
        rw [register, if_neg hempty]
        exact if_pos htaken
      exact .inr ⟨by rw [exec, hregister], ⟨_, hregister⟩, .inr fun h => htaken (by rw [h]; rfl)⟩

/-! ## What every run keeps -/

/-- Every descriptor is stored under its own digest, and is one that call data can hold. -/
structure Wf (w : World) : Prop where
  digest : ∀ fp, lookup w fp ≠ [] → sha256 (lookup w fp) = fp
  fits : ∀ fp, (lookup w fp).length < 2 ^ 256

theorem Wf.init : Wf .init where
  digest _ h := absurd rfl h
  fits _ := Nat.two_pow_pos 256

theorem Wf.exec {w : World} (h : Wf w) (tx : Tx) : Wf (exec w tx) := by
  rcases exec_cases w tx with ⟨-, -, -, hafter⟩ | ⟨heq, -⟩
  · constructor
    · intro fp hne
      rw [lookup, hafter] at hne ⊢
      by_cases hfp : fp = sha256 tx.descriptor
      · rw [hfp, Function.update_self]
      · rw [Function.update_of_ne hfp] at hne ⊢
        exact h.digest fp hne
    · intro fp
      rw [lookup, hafter]
      by_cases hfp : fp = sha256 tx.descriptor
      · rw [hfp, Function.update_self]
        exact tx.fits
      · rw [Function.update_of_ne hfp]
        exact h.fits fp
  · rwa [heq]

/-- **Over every run**, whoever calls. -/
theorem Wf.foldl {w : World} (h : Wf w) (txs : List Tx) :
    Wf (txs.foldl FingerprintRegistry.exec w) := by
  induction txs generalizing w with
  | nil => exact h
  | cons tx txs ih => exact ih (h.exec tx)

theorem run_wf (txs : List Tx) : Wf (run txs) := Wf.init.foldl txs

/-- A transaction keeps every descriptor. -/
theorem exec_keeps {w : World} {fp : Bytes32} (h : lookup w fp ≠ []) (tx : Tx) :
    lookup (exec w tx) fp = lookup w fp := by
  rcases exec_cases w tx with ⟨hfree, -, -, hafter⟩ | ⟨heq, -⟩
  · rw [lookup, hafter, Function.update_of_ne]
    · rfl
    · rintro rfl
      exact h hfree
  · rw [heq]

/-- **A registered descriptor never changes.** -/
theorem lookup_keeps {w : World} {fp : Bytes32} (h : lookup w fp ≠ []) (txs : List Tx) :
    lookup (txs.foldl exec w) fp = lookup w fp := by
  induction txs generalizing w with
  | nil => rfl
  | cons tx txs ih =>
      have hkeeps := exec_keeps h tx
      exact (ih (hkeeps ▸ h)).trans hkeeps

/-- Some call of the run registered a descriptor that hashes to the fingerprint. -/
def Registered (txs : List Tx) (fp : Bytes32) : Prop :=
  ∃ before tx later after, txs = before ++ tx :: later ∧
    register (run before) tx.descriptor = .ok (after, fp) ∧ sha256 tx.descriptor = fp

/-- **There is a descriptor exactly if somebody registered one.** -/
theorem lookup_ne_nil_iff (txs : List Tx) (fp : Bytes32) :
    lookup (run txs) fp ≠ [] ↔ Registered txs fp := by
  constructor
  · intro h
    induction txs using List.reverseRecOn with
    | nil => exact absurd rfl h
    | append_singleton txs tx ih =>
        by_cases hbefore : lookup (run txs) fp ≠ []
        · obtain ⟨before, tx', later, after, rfl, hregister, hdigest⟩ := ih hbefore
          exact ⟨before, tx', later ++ [tx], after, List.append_assoc _ _ _, hregister, hdigest⟩
        · rw [run_append, List.foldl_cons, List.foldl_nil] at h
          rcases exec_cases (run txs) tx with ⟨-, -, hregister, hafter⟩ | ⟨heq, -⟩
          · have hfp : sha256 tx.descriptor = fp := by
              by_contra hne
              rw [lookup, hafter, Function.update_of_ne (Ne.symm hne)] at h
              exact hbefore h
            exact ⟨txs, tx, [], _, rfl, hfp ▸ hregister, hfp⟩
          · rw [heq] at h
            exact absurd h hbefore
  · rintro ⟨before, tx, later, after, rfl, hregister, rfl⟩
    rcases exec_cases (run before) tx with ⟨-, hne, -, hafter⟩ | ⟨-, ⟨e, he⟩, -⟩
    · have hstored : lookup (exec (run before) tx) (sha256 tx.descriptor) = tx.descriptor := by
        rw [lookup, hafter, Function.update_self]
      have hkept : lookup (exec (run before) tx) (sha256 tx.descriptor) ≠ [] := by
        rwa [hstored]
      rw [run_append, List.foldl_cons, lookup_keeps hkept]
      exact hkept
    · rw [he] at hregister
      cases hregister

end Waxseal.FingerprintRegistry
