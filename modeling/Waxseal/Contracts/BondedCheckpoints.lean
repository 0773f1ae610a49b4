import Mathlib.Algebra.BigOperators.Group.Finset.Piecewise
import Mathlib.Algebra.Order.BigOperators.Group.Finset
import Mathlib.Data.Fintype.Basic
import Waxseal.Base.ForeignCode
import Waxseal.Contracts.AnchoringLiveness

/-!
# The BondedCheckpoints contract

Bonds, their withdrawal after a delay, and their slashing on evidence.  Two of the five
functions transfer ether, and the recipient may call straight back in; both write the
storage first, so a call is its storage change followed by foreign code.

Two ghost fields go with the storage: the ether that arrived through `deposit` and is still
there, and the history of what the functions did, in the order they wrote the storage.
`Wf` ties them to the bonds, `enter_respects` is the step lemma, and the run lemma of
`ForeignCode` carries it to every point where foreign code runs.
-/

namespace Waxseal.BondedCheckpoints

open Rfc9162 AnchoringLiveness

/-- `struct SignedCheckpoint`. -/
structure SignedCheckpoint where
  seq : Uint64
  entryHash : Bytes32
  root : Bytes32
  signature : Bytes

/-- `struct LeafClaim`. -/
structure LeafClaim where
  index : Uint256
  entryHash : Bytes32
  proof : List Bytes32

/-- `struct Bond`. -/
structure Bond where
  amount : Uint256
  unlockAt : Uint64
  withdrawRequested : Bool
  slashed : Bool

/-- `PROVER_SHARE_BPS`. -/
def proverShareBps : Uint256 := 5000

/-- `BPS_DENOMINATOR`. -/
def bpsDenominator : Uint256 := 10000

/-- The errors of the contract, and the panic of checked arithmetic. -/
inductive Revert where
  | zeroDeposit
  | alreadySlashed
  | noBond
  | withdrawNotRequested
  | withdrawNotDue (unlockAt : Uint64)
  | signerMismatch (a b : Address)
  | notBonded (writer : Address)
  | sameCheckpoint
  | seqNotOlder (older newer : Uint64)
  | leafIndexOutsideOlderTree (index : Uint256) (olderSeq : Uint64)
  | leavesAgree (entryHash : Bytes32)
  | inclusionProofFailed (olderOk newerOk : Bool)
  | panic

/-- What a function did, with the block time where it matters. -/
inductive Act where
  | deposited (writer : Address)
  | requested (writer : Address) (time : ℕ)
  | withdrawn (writer : Address) (time : ℕ)
  | slashed (writer : Address)

/-- Whose bond an act is about. -/
def Act.writer : Act → Address
  | .deposited writer | .requested writer _ | .withdrawn writer _ | .slashed writer => writer

/-- The storage of the contract, with the ether it holds from deposits and the history of
its acts. -/
structure World where
  bonds : Address → Bond
  burnedTotal : Uint256
  balance : ℕ
  history : List Act

/-- The contract as deployed. -/
def World.init : World where
  bonds _ := ⟨0, 0, false, false⟩
  burnedTotal := 0
  balance := 0
  history := []

/-- The block a transaction is in.  Block times are 64-bit numbers, whatever the width of
`block.timestamp`. -/
structure Block where
  timestamp : Uint256
  timestamp_lt : timestamp.toNat < 2 ^ 64

/-- A call, from any sender with any arguments.  Only `deposit` is payable. -/
inductive Call where
  | deposit (sender : Address) (value : Uint256)
  | requestWithdraw (sender : Address)
  | withdraw (sender : Address)
  | proveEquivocation (sender : Address) (trailId : Bytes32) (seq : Uint64)
      (a b : SignedCheckpoint)
  | proveNonExtension (sender : Address) (trailId : Bytes32) (older newer : SignedCheckpoint)
      (inOlder inNewer : LeafClaim)

/-- Checked addition. -/
def checkedAdd {n : ℕ} (a b : BitVec n) : Except Revert (BitVec n) :=
  if a.toNat + b.toNat < 2 ^ n then .ok (a + b) else .error .panic

/-- Checked multiplication. -/
def checkedMul {n : ℕ} (a b : BitVec n) : Except Revert (BitVec n) :=
  if a.toNat * b.toNat < 2 ^ n then .ok (a * b) else .error .panic

/-- Checked subtraction. -/
def checkedSub {n : ℕ} (a b : BitVec n) : Except Revert (BitVec n) :=
  if b.toNat ≤ a.toNat then .ok (a - b) else .error .panic

/-- Write a bond. -/
def World.setBond (w : World) (writer : Address) (bond : Bond) : World :=
  { w with bonds := Function.update w.bonds writer bond }

/-- Log an act. -/
def World.log (w : World) (act : Act) : World := { w with history := w.history ++ [act] }

/-- Send ether out. -/
def World.pay (w : World) (amount : Uint256) : World :=
  { w with balance := w.balance - amount.toNat }

/-- `deposit`. -/
def deposit (w : World) (sender : Address) (value : Uint256) : Except Revert World :=
  if value = 0 then .error .zeroDeposit
  else
    let bond := w.bonds sender
    if bond.slashed then .error .alreadySlashed
    else do
      let amount ← checkedAdd bond.amount value
      return { w with balance := w.balance + value.toNat }
        |>.setBond sender { bond with amount := amount, withdrawRequested := false, unlockAt := 0 }
        |>.log (.deposited sender)

/-- `requestWithdraw`. -/
def requestWithdraw (withdrawDelay : Uint64) (block : Block) (w : World) (sender : Address) :
    Except Revert World :=
  let bond := w.bonds sender
  if bond.amount = 0 then .error .noBond
  else if bond.slashed then .error .alreadySlashed
  else do
    let unlockAt ← checkedAdd (block.timestamp.setWidth 64) withdrawDelay
    return w.setBond sender { bond with withdrawRequested := true, unlockAt := unlockAt }
      |>.log (.requested sender block.timestamp.toNat)

/-- `withdraw`, up to the transfer to the sender. -/
def withdraw (block : Block) (w : World) (sender : Address) : Except Revert World :=
  let bond := w.bonds sender
  if bond.slashed then .error .alreadySlashed
  else if !bond.withdrawRequested then .error .withdrawNotRequested
  else if block.timestamp < bond.unlockAt.setWidth 256 then .error (.withdrawNotDue bond.unlockAt)
  else if bond.amount = 0 then .error .noBond
  else
    .ok (w.setBond sender { bond with amount := 0, withdrawRequested := false, unlockAt := 0 }
      |>.log (.withdrawn sender block.timestamp.toNat)
      |>.pay bond.amount)

/-- `_slash`, up to the transfer to the prover. -/
def slash (w : World) (writer : Address) : Except Revert World :=
  let bond := w.bonds writer
  if bond.slashed then .error .alreadySlashed
  else do
    let product ← checkedMul bond.amount proverShareBps
    let toProver := product / bpsDenominator
    let burned ← checkedSub bond.amount toProver
    let burnedTotal ← checkedAdd w.burnedTotal burned
    return { w with burnedTotal := burnedTotal }
      |>.setBond writer ⟨0, 0, false, true⟩
      |>.log (.slashed writer)
      |>.pay toProver

section Evidence

variable [Hashlib] [Precompiles]

/-- `_recoverBoth`. -/
def recoverBoth (w : World) (digestA : Bytes32) (sigA : Bytes) (digestB : Bytes32) (sigB : Bytes) :
    Except Revert Address :=
  let recoveredA := CheckpointCodec.recoverSigner digestA sigA
  let recoveredB := CheckpointCodec.recoverSigner digestB sigB
  if recoveredA ≠ recoveredB ∨ recoveredA = 0 then .error (.signerMismatch recoveredA recoveredB)
  else if (w.bonds recoveredA).amount = 0 then .error (.notBonded recoveredA)
  else .ok recoveredA

/-- The digest of a signed checkpoint, at a sequence number of its own. -/
def digestOf (trailId : Bytes32) (seq : Uint64) (cp : SignedCheckpoint) : Bytes32 :=
  CheckpointCodec.signingDigest trailId (seq.setWidth 256) cp.entryHash cp.root

/-- `proveEquivocation`. -/
def proveEquivocation (w : World) (trailId : Bytes32) (seq : Uint64) (a b : SignedCheckpoint) :
    Except Revert World :=
  if a.entryHash = b.entryHash ∧ a.root = b.root then .error .sameCheckpoint
  else do
    let writer ← recoverBoth w (digestOf trailId seq a) a.signature (digestOf trailId seq b)
      b.signature
    slash w writer

/-- An inclusion proof against the root of a signed checkpoint. -/
def claimIncluded (cp : SignedCheckpoint) (claim : LeafClaim) : Bool :=
  Rfc9162.verifyInclusion claim.entryHash claim.index (cp.seq.setWidth 256 + 1) claim.proof cp.root

/-- `proveNonExtension`. -/
def proveNonExtension (w : World) (trailId : Bytes32) (older newer : SignedCheckpoint)
    (inOlder inNewer : LeafClaim) : Except Revert World :=
  if older.seq ≥ newer.seq then .error (.seqNotOlder older.seq newer.seq)
  else if inOlder.index ≠ inNewer.index ∨ inOlder.index > older.seq.setWidth 256 then
    .error (.leafIndexOutsideOlderTree inOlder.index older.seq)
  else if inOlder.entryHash = inNewer.entryHash then .error (.leavesAgree inOlder.entryHash)
  else do
    let writer ← recoverBoth w (digestOf trailId older.seq older) older.signature
      (digestOf trailId newer.seq newer) newer.signature
    let olderOk := claimIncluded older inOlder
    let newerOk := claimIncluded newer inNewer
    if !olderOk || !newerOk then .error (.inclusionProofFailed olderOk newerOk)
    else slash w writer

/-- A call up to its transfer, and whether there is one. -/
def exec (withdrawDelay : Uint64) (block : Block) (w : World) : Call → Except Revert (World × Bool)
  | .deposit sender value => (deposit w sender value).map (·, false)
  | .requestWithdraw sender => (requestWithdraw withdrawDelay block w sender).map (·, false)
  | .withdraw sender => (withdraw block w sender).map (·, true)
  | .proveEquivocation _ trailId seq a b => (proveEquivocation w trailId seq a b).map (·, true)
  | .proveNonExtension _ trailId older newer inOlder inNewer =>
      (proveNonExtension w trailId older newer inOlder inNewer).map (·, true)

/-- A transaction: a block, and the code of everyone but the contract. -/
structure Tx where
  block : Block
  code : ForeignCode Call

/-- Run a transaction.  One that reverts as a whole leaves the world as it was. -/
def runTx (withdrawDelay : Uint64) (w : World) (tx : Tx) : ForeignCode.Outcome World :=
  let o := ForeignCode.run (fun w c => (exec withdrawDelay tx.block w c).toOption) tx.code w
  { o with state := if o.accepted then o.state else w }

/-- The worlds in which foreign code runs, over a run of transactions, and the one the run
ends in. -/
def runTxs (withdrawDelay : Uint64) : World → List Tx → List World × World
  | w, [] => ([], w)
  | w, tx :: txs =>
      let o := runTx withdrawDelay w tx
      let (seen, last) := runTxs withdrawDelay o.state txs
      (o.seen ++ seen, last)

end Evidence

/-! ## What one call does -/

/-- An address is one of finitely many. -/
instance : Fintype Address :=
  Fintype.ofEquiv (Fin (2 ^ 160)) ⟨BitVec.ofFin, BitVec.toFin, fun _ => rfl, fun _ => rfl⟩

/-- The sum of all recorded bonds. -/
def World.recorded (w : World) : ℕ := ∑ a, (w.bonds a).amount.toNat

/-- Everything a successful call can have done: it acted on one bond that was not slashed. -/
structure Change (withdrawDelay : Uint64) (w w' : World) (writer : Address) (bond : Bond)
    (act : Act) : Prop where
  bonds : w'.bonds = Function.update w.bonds writer bond
  history : w'.history = w.history ++ [act]
  about : act.writer = writer
  unslashed : (w.bonds writer).slashed = false
  kept : (w.bonds writer).amount.toNat ≤ w.balance →
    w'.balance + (w.bonds writer).amount.toNat + w.burnedTotal.toNat
      = w.balance + bond.amount.toNat + w'.burnedTotal.toNat
  slashes : bond.slashed = true ↔ act = .slashed writer
  empties : bond.slashed = true → bond.amount = 0
  requests : bond.withdrawRequested = true → ∃ time, act = .requested writer time ∧
    time + withdrawDelay.toNat = bond.unlockAt.toNat
  due : ∀ time, act = .withdrawn writer time →
    (w.bonds writer).withdrawRequested = true ∧ (w.bonds writer).unlockAt.toNat ≤ time

variable {withdrawDelay : Uint64} {block : Block} {w w' : World}

theorem checkedAdd_eq_ok {n : ℕ} {a b c : BitVec n} (h : checkedAdd a b = .ok c) :
    c.toNat = a.toNat + b.toNat := by
  rw [checkedAdd] at h
  split_ifs at h with hlt
  rw [← Except.ok.inj h, BitVec.toNat_add, Nat.mod_eq_of_lt hlt]

theorem checkedSub_eq_ok {n : ℕ} {a b c : BitVec n} (h : checkedSub a b = .ok c) :
    c.toNat + b.toNat = a.toNat := by
  rw [checkedSub] at h
  split_ifs at h with hle
  rw [← Except.ok.inj h, BitVec.toNat_sub_of_le (BitVec.le_def.mpr hle)]
  omega

/-- One step of a monadic transaction. -/
theorem bind_ok {α β : Type} {x : Except Revert α} {f : α → Except Revert β} {b : β}
    (h : x >>= f = .ok b) : ∃ a, x = .ok a ∧ f a = .ok b := by
  cases x with
  | error e => cases h
  | ok a => exact ⟨a, rfl, h⟩

theorem deposit_change {sender : Address} {value : Uint256} (h : deposit w sender value = .ok w') :
    ∃ bond act, Change withdrawDelay w w' sender bond act := by
  rw [deposit] at h
  dsimp only at h
  split_ifs at h with hzero hslashed
  obtain ⟨amount, hamount, h⟩ := bind_ok h
  obtain rfl := Except.ok.inj h
  have hsum := checkedAdd_eq_ok hamount
  refine ⟨_, _, rfl, rfl, rfl, Bool.not_eq_true _ |>.mp hslashed, fun _ => ?_, ?_, ?_, ?_, ?_⟩
  · simp only [World.log, World.setBond, hsum]
    omega
  · simp [hslashed]
  · exact fun h => absurd h hslashed
  · exact nofun
  · exact nofun

theorem requestWithdraw_change {sender : Address}
    (h : requestWithdraw withdrawDelay block w sender = .ok w') :
    ∃ bond act, Change withdrawDelay w w' sender bond act := by
  rw [requestWithdraw] at h
  split_ifs at h with hzero hslashed
  obtain ⟨unlockAt, hunlock, h⟩ := bind_ok h
  obtain rfl := Except.ok.inj h
  have hsum := checkedAdd_eq_ok hunlock
  rw [BitVec.toNat_setWidth, Nat.mod_eq_of_lt block.timestamp_lt] at hsum
  refine ⟨_, _, rfl, rfl, rfl, Bool.not_eq_true _ |>.mp hslashed, fun _ => ?_, ?_, ?_, ?_, ?_⟩
  · simp only [World.log, World.setBond]
  · simp [hslashed]
  · exact fun h => absurd h hslashed
  · exact fun _ => ⟨_, rfl, hsum.symm⟩
  · exact nofun

theorem withdraw_change {sender : Address} (h : withdraw block w sender = .ok w') :
    ∃ bond act, Change withdrawDelay w w' sender bond act := by
  rw [withdraw] at h
  split_ifs at h with hslashed hrequested hdue hzero
  obtain rfl := Except.ok.inj h
  refine ⟨_, _, rfl, rfl, rfl, Bool.not_eq_true _ |>.mp hslashed, fun hle => ?_, ?_, ?_, ?_, ?_⟩
  · simp only [World.pay, World.log, World.setBond]
    rw [show (0 : Uint256).toNat = 0 from rfl]
    omega
  · simp [hslashed]
  · exact fun h => absurd h hslashed
  · exact nofun
  · intro time htime
    obtain ⟨-, rfl⟩ := Act.withdrawn.inj htime
    refine ⟨by simpa using hrequested, ?_⟩
    have hle := BitVec.le_def.mp (BitVec.not_lt.mp hdue)
    rwa [BitVec.toNat_setWidth, Nat.mod_eq_of_lt (by have := (w.bonds sender).unlockAt.isLt; omega)]
      at hle

theorem slash_change {writer : Address} (h : slash w writer = .ok w') :
    ∃ bond act, Change withdrawDelay w w' writer bond act := by
  rw [slash] at h
  split_ifs at h with hslashed
  obtain ⟨product, hproduct, h⟩ := bind_ok h
  obtain ⟨burned, hburned, h⟩ := bind_ok h
  obtain ⟨burnedTotal, htotal, h⟩ := bind_ok h
  obtain rfl := Except.ok.inj h
  have hsub := checkedSub_eq_ok hburned
  have hsum := checkedAdd_eq_ok htotal
  refine ⟨_, _, rfl, rfl, rfl, Bool.not_eq_true _ |>.mp hslashed, fun hle => ?_, ?_, ?_, ?_, ?_⟩
  · simp only [World.pay, World.log, World.setBond, hsum]
    rw [show (0 : Uint256).toNat = 0 from rfl]
    omega
  · simp
  · exact fun _ => rfl
  · exact nofun
  · exact nofun

section Exec

variable [Hashlib] [Precompiles]

theorem proveEquivocation_slashes {trailId : Bytes32} {seq : Uint64} {a b : SignedCheckpoint}
    (h : proveEquivocation w trailId seq a b = .ok w') : ∃ writer, slash w writer = .ok w' := by
  rw [proveEquivocation] at h
  split_ifs at h
  obtain ⟨writer, -, h⟩ := bind_ok h
  exact ⟨writer, h⟩

theorem proveNonExtension_slashes {trailId : Bytes32} {older newer : SignedCheckpoint}
    {inOlder inNewer : LeafClaim}
    (h : proveNonExtension w trailId older newer inOlder inNewer = .ok w') :
    ∃ writer, slash w writer = .ok w' := by
  rw [proveNonExtension] at h
  split_ifs at h
  obtain ⟨writer, -, h⟩ := bind_ok h
  dsimp only at h
  split_ifs at h
  exact ⟨writer, h⟩

/-- **The inversion lemma**: whatever the call, one bond changes as `Change` says. -/
theorem exec_change {c : Call} {sends : Bool}
    (h : exec withdrawDelay block w c = .ok (w', sends)) :
    ∃ writer bond act, Change withdrawDelay w w' writer bond act := by
  have hmap : ∀ {x : Except Revert World} {flag : Bool}, x.map (·, flag) = .ok (w', sends) →
      x = .ok w' := by
    intro x flag hx
    cases x with
    | error e => cases hx
    | ok v => rw [(Prod.mk.inj (Except.ok.inj hx)).1]
  cases c with
  | deposit sender value => exact ⟨sender, deposit_change (hmap h)⟩
  | requestWithdraw sender => exact ⟨sender, requestWithdraw_change (hmap h)⟩
  | withdraw sender => exact ⟨sender, withdraw_change (hmap h)⟩
  | proveEquivocation sender trailId seq a b =>
      obtain ⟨writer, hslash⟩ := proveEquivocation_slashes (hmap h)
      exact ⟨writer, slash_change hslash⟩
  | proveNonExtension sender trailId older newer inOlder inNewer =>
      obtain ⟨writer, hslash⟩ := proveNonExtension_slashes (hmap h)
      exact ⟨writer, slash_change hslash⟩

end Exec

/-! ## The invariant -/

/-- A writer's request in the history: long enough before a time, and no deposit and no
withdrawal of the writer since. -/
def Requested (withdrawDelay : Uint64) (history : List Act) (writer : Address) (time : ℕ) : Prop :=
  ∃ before after since, history = before ++ .requested writer since :: after ∧
    since + withdrawDelay.toNat ≤ time ∧ .deposited writer ∉ after ∧
    ∀ t, .withdrawn writer t ∉ after

/-- The bonds, the ether and the history belong together. -/
structure Wf (withdrawDelay : Uint64) (w : World) : Prop where
  solvent : w.balance = w.recorded + w.burnedTotal.toNat
  slashed_iff : ∀ a, (w.bonds a).slashed = true ↔ .slashed a ∈ w.history
  slashed_empty : ∀ a, (w.bonds a).slashed = true → (w.bonds a).amount = 0
  slashed_last : ∀ a before after, w.history = before ++ .slashed a :: after →
    ∀ act ∈ after, act.writer ≠ a
  pending : ∀ a, (w.bonds a).withdrawRequested = true →
    Requested withdrawDelay w.history a (w.bonds a).unlockAt.toNat
  withdrawn_due : ∀ a time before after, w.history = before ++ .withdrawn a time :: after →
    Requested withdrawDelay before a time

theorem Wf.init : Wf withdrawDelay .init where
  solvent := by simp [World.init, World.recorded]
  slashed_iff a := by simp [World.init]
  slashed_empty a h := by cases h
  slashed_last a before after h := by simp [World.init] at h
  pending a h := by cases h
  withdrawn_due a time before after h := by simp [World.init] at h

/-- The last act of a history, or one before it. -/
theorem append_act_cases {history before after : List Act} {act x : Act}
    (h : history ++ [act] = before ++ x :: after) :
    (before = history ∧ x = act ∧ after = []) ∨
      ∃ rest, after = rest ++ [act] ∧ history = before ++ x :: rest := by
  rcases List.eq_nil_or_concat after with rfl | ⟨rest, last, rfl⟩
  · obtain ⟨rfl, hx⟩ := List.append_inj' h rfl
    exact Or.inl ⟨rfl, (List.cons.inj hx).1.symm, rfl⟩
  · rw [List.concat_eq_append, ← List.cons_append, ← List.append_assoc] at h
    obtain ⟨rfl, hlast⟩ := List.append_inj' h rfl
    refine Or.inr ⟨rest, ?_, rfl⟩
    rw [List.concat_eq_append, (List.cons.inj hlast).1]

/-- A request stays good until the writer deposits or withdraws. -/
theorem Requested.append {history : List Act} {writer : Address} {time : ℕ} {act : Act}
    (h : Requested withdrawDelay history writer time) (hact : act.writer ≠ writer) :
    Requested withdrawDelay (history ++ [act]) writer time := by
  obtain ⟨before, after, since, rfl, hdue, hdeposit, hwithdraw⟩ := h
  refine ⟨before, after ++ [act], since, by simp, hdue, ?_, ?_⟩
  · rw [List.mem_append, List.mem_singleton]
    rintro (hmem | rfl)
    · exact hdeposit hmem
    · exact hact rfl
  · intro t
    rw [List.mem_append, List.mem_singleton]
    rintro (hmem | rfl)
    · exact hwithdraw t hmem
    · exact hact rfl

/-- Writing one bond moves the sum by the difference. -/
theorem sum_update (bonds : Address → Bond) (writer : Address) (bond : Bond) :
    ∑ a, (Function.update bonds writer bond a).amount.toNat + (bonds writer).amount.toNat
      = ∑ a, (bonds a).amount.toNat + bond.amount.toNat := by
  have hrest : ∑ a ∈ Finset.univ.erase writer, (Function.update bonds writer bond a).amount.toNat
      = ∑ a ∈ Finset.univ.erase writer, (bonds a).amount.toNat := by
    refine Finset.sum_congr rfl fun a ha => ?_
    rw [Function.update_of_ne (Finset.ne_of_mem_erase ha)]
  rw [← Finset.add_sum_erase _ _ (Finset.mem_univ writer), hrest, Function.update_self,
    ← Finset.add_sum_erase Finset.univ (fun a => (bonds a).amount.toNat) (Finset.mem_univ writer)]
  omega

/-- **The step lemma.** -/
theorem Change.wf {writer : Address} {bond : Bond} {act : Act}
    (h : Change withdrawDelay w w' writer bond act) (hwf : Wf withdrawDelay w) :
    Wf withdrawDelay w' := by
  have hself : w'.bonds writer = bond := by rw [h.bonds, Function.update_self]
  have hother : ∀ a, a ≠ writer → w'.bonds a = w.bonds a := fun a ha => by
    rw [h.bonds, Function.update_of_ne ha]
  -- the writer has not been slashed before
  have hfresh : .slashed writer ∉ w.history := fun hmem => by
    have := (hwf.slashed_iff writer).mpr hmem
    rw [h.unslashed] at this
    cases this
  refine ⟨?_, ?_, ?_, ?_, ?_, ?_⟩
  · have hsum := sum_update w.bonds writer bond
    have hsolvent := hwf.solvent
    have hle : (w.bonds writer).amount.toNat ≤ w.recorded :=
      Finset.single_le_sum (f := fun a => (w.bonds a).amount.toNat) (fun _ _ => Nat.zero_le _)
        (Finset.mem_univ writer)
    have hkept := h.kept (by omega)
    rw [World.recorded] at hsolvent hle
    rw [World.recorded, h.bonds]
    omega
  · intro a
    by_cases ha : a = writer
    · subst ha
      rw [hself, h.slashes, h.history, List.mem_append, List.mem_singleton]
      exact ⟨fun hact => Or.inr hact.symm, fun hmem => (hmem.resolve_left hfresh).symm⟩
    · rw [hother a ha, hwf.slashed_iff, h.history, List.mem_append, List.mem_singleton]
      refine ⟨Or.inl, fun hmem => hmem.resolve_right ?_⟩
      rintro rfl
      exact ha h.about
  · intro a hslashed
    by_cases ha : a = writer
    · subst ha
      rw [hself] at hslashed ⊢
      exact h.empties hslashed
    · rw [hother a ha] at hslashed ⊢
      exact hwf.slashed_empty a hslashed
  · intro a before after heq x hx
    rw [h.history] at heq
    rcases append_act_cases heq with ⟨-, -, rfl⟩ | ⟨rest, rfl, hhistory⟩
    · cases hx
    · rcases List.mem_append.mp hx with hx | hx
      · exact hwf.slashed_last a before rest hhistory x hx
      · rw [List.mem_singleton.mp hx, h.about]
        rintro rfl
        exact hfresh (by rw [hhistory]; simp)
  · intro a hrequested
    by_cases ha : a = writer
    · subst ha
      rw [hself] at hrequested ⊢
      obtain ⟨time, rfl, htime⟩ := h.requests hrequested
      refine ⟨w.history, [], time, h.history, htime.le, by simp, by simp⟩
    · rw [hother a ha] at hrequested ⊢
      rw [h.history]
      exact (hwf.pending a hrequested).append (by rw [h.about]; exact fun heq => ha heq.symm)
  · intro a time before after heq
    rw [h.history] at heq
    rcases append_act_cases heq with ⟨rfl, rfl, -⟩ | ⟨rest, -, hhistory⟩
    · obtain rfl : a = writer := h.about
      obtain ⟨hrequested, hle⟩ := h.due time rfl
      obtain ⟨before, after, since, hhistory, hdue, hdeposit, hwithdraw⟩ :=
        hwf.pending a hrequested
      exact ⟨before, after, since, hhistory, hdue.trans hle, hdeposit, hwithdraw⟩
    · exact hwf.withdrawn_due a time before rest hhistory

/-! ## Runs -/

/-- What every state change respects. -/
def Respects (withdrawDelay : Uint64) (w w' : World) : Prop :=
  Wf withdrawDelay w → Wf withdrawDelay w' ∧ w.history <+: w'.history

theorem Respects.refl (w : World) : Respects withdrawDelay w w := fun hwf => ⟨hwf, List.prefix_rfl⟩

theorem Respects.trans {u v : World} (h : Respects withdrawDelay u v)
    (h' : Respects withdrawDelay v w) : Respects withdrawDelay u w := by
  intro hwf
  obtain ⟨hwf', hprefix⟩ := h hwf
  obtain ⟨hwf'', hprefix'⟩ := h' hwf'
  exact ⟨hwf'', hprefix.trans hprefix'⟩

section Runs

variable [Hashlib] [Precompiles]

theorem enter_respects {c : Call} {sends : Bool}
    (h : (exec withdrawDelay block w c).toOption = some (w', sends)) :
    Respects withdrawDelay w w' := by
  intro hwf
  rcases hexec : exec withdrawDelay block w c with e | ⟨v, flag⟩
  · rw [hexec] at h
    cases h
  · rw [hexec] at h
    obtain ⟨rfl, rfl⟩ := Prod.mk.inj (Option.some.inj h)
    obtain ⟨writer, bond, act, hchange⟩ := exec_change hexec
    refine ⟨hchange.wf hwf, ?_⟩
    rw [hchange.history]
    exact List.prefix_append _ _

theorem runTx_respects (w : World) (tx : Tx) :
    (runTx withdrawDelay w tx).All (Respects withdrawDelay w) := by
  have hrun := @ForeignCode.run_rel _ _ (fun w c => (exec withdrawDelay tx.block w c).toOption)
    (Respects withdrawDelay) .refl (fun _ _ _ => .trans) (fun _ _ _ _ => enter_respects) tx.code w
  refine ⟨?_, hrun.2⟩
  rw [runTx]
  dsimp only
  split
  · exact hrun.1
  · exact .refl w

/-- **The run lemma**, over the transactions. -/
theorem runTxs_respects (w : World) (txs : List Tx) :
    Respects withdrawDelay w (runTxs withdrawDelay w txs).2 ∧
      ∀ v ∈ (runTxs withdrawDelay w txs).1, Respects withdrawDelay w v := by
  induction txs generalizing w with
  | nil => exact ⟨.refl w, nofun⟩
  | cons tx txs ih =>
      obtain ⟨hstate, hseen⟩ := @runTx_respects withdrawDelay _ _ w tx
      obtain ⟨hlast, hrest⟩ := ih (runTx withdrawDelay w tx).state
      refine ⟨hstate.trans hlast, fun v hv => ?_⟩
      rcases List.mem_append.mp hv with hv | hv
      · exact hseen v hv
      · exact hstate.trans (hrest v hv)

/-- **Bond accounting.**  At every point where foreign code runs, the deposited ether is the
recorded bonds and what was burned; a slashed bond is empty and its writer never acts again,
neither in what happened so far nor in any continuation; and a withdrawal comes at least the
delay after a request of its writer with no deposit in between. -/
theorem bond_accounting (withdrawDelay : Uint64) (txs : List Tx) :
    (∀ w ∈ (runTxs withdrawDelay .init txs).1,
      w.balance = ∑ a, (w.bonds a).amount.toNat + w.burnedTotal.toNat ∧
      (∀ writer before after, w.history = before ++ .slashed writer :: after →
        (w.bonds writer).slashed = true ∧ (w.bonds writer).amount = 0 ∧
          ∀ act ∈ after, act.writer ≠ writer) ∧
      (∀ writer time before after, w.history = before ++ .withdrawn writer time :: after →
        ∃ earlier since between, before = earlier ++ .requested writer since :: between ∧
          since + withdrawDelay.toNat ≤ time ∧ .deposited writer ∉ between)) ∧
    ∀ writer, ((runTxs withdrawDelay .init txs).2.bonds writer).slashed = true →
      ∀ more, ∀ w ∈ (runTxs withdrawDelay (runTxs withdrawDelay .init txs).2 more).1,
        (w.bonds writer).slashed = true ∧ (w.bonds writer).amount = 0 ∧
          ∃ acts, w.history = (runTxs withdrawDelay .init txs).2.history ++ acts ∧
            ∀ act ∈ acts, act.writer ≠ writer := by
  obtain ⟨hlast, hseen⟩ := @runTxs_respects withdrawDelay _ _ .init txs
  refine ⟨fun w hw => ?_, fun writer hslashed more w hw => ?_⟩
  · obtain ⟨hwf, -⟩ := hseen w hw .init
    refine ⟨hwf.solvent, fun writer before after hhistory => ?_,
      fun writer time before after hhistory => ?_⟩
    · have hslashed : (w.bonds writer).slashed = true :=
        (hwf.slashed_iff writer).mpr (by rw [hhistory]; simp)
      exact ⟨hslashed, hwf.slashed_empty writer hslashed,
        hwf.slashed_last writer before after hhistory⟩
    · obtain ⟨earlier, between, since, hbefore, hdue, hdeposit, -⟩ :=
        hwf.withdrawn_due writer time before after hhistory
      exact ⟨earlier, since, between, hbefore, hdue, hdeposit⟩
  · obtain ⟨hwf, -⟩ := hlast .init
    obtain ⟨hwf', acts, hacts⟩ := (runTxs_respects _ more).2 w hw hwf
    obtain ⟨before, after, hhistory⟩ := List.append_of_mem ((hwf.slashed_iff writer).mp hslashed)
    have hhistory' : w.history = before ++ .slashed writer :: (after ++ acts) := by
      rw [← hacts, hhistory, List.append_assoc, List.cons_append]
    have hslashed' : (w.bonds writer).slashed = true :=
      (hwf'.slashed_iff writer).mpr (by rw [hhistory']; simp)
    refine ⟨hslashed', hwf'.slashed_empty writer hslashed', acts, hacts.symm, fun act hact => ?_⟩
    exact hwf'.slashed_last writer before _ hhistory' act (List.mem_append_right _ hact)

end Runs

end Waxseal.BondedCheckpoints
