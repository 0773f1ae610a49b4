import Mathlib.Data.Rat.Defs
import Waxseal.Base.JsonIndent
import Waxseal.Base.SurrogatePairs
import Waxseal.Domain.Checkpoint

/-!
# Pins

What a verifier remembers about a trail: the checkpoint it last confirmed, and what the
operator declared about the trail's surroundings (`domain/pinning.py`, `domain/separation.py`).
A pin is kept in a file of its own; `load_save` says that what is written there is read
back.
-/

namespace Waxseal

open Json

/-! ## Separation -/

/-- `SeparationTopology`. -/
structure SeparationTopology where
  sealEscrow : Bool
  anchorSinks : ℤ
  witness : Bool
  pinSeparate : Bool
  /-- `none` where the topology does not mention a ledger. -/
  ledger : Option Bool
  deriving DecidableEq

/-- `separation_shortfall`. -/
def separationShortfall (declared : SeparationTopology) (observedAnchorSinks : ℤ)
    (observedWitnessConsistent : Bool) : Bool :=
  declared.anchorSinks > observedAnchorSinks || (declared.witness && !observedWitnessConsistent)

/-- `ledger_shortfall`. -/
def ledgerShortfall (declared : SeparationTopology) (observedLedgerOk : Bool) : Bool :=
  declared.ledger.getD false && !observedLedgerOk

/-! ## Checks -/

/-- The reasons a pin check reports. -/
inductive PinReason where
  | malformedPin
  | pinBeyondHead
  | pinMismatch
  | pinTargetMismatch
  | pinVersionUnknown
  | trustOnFirstUse
  | emptyTrailNotPinned
  | anchorStale
  | anchorTimestampUnparseable
  | anchorPolicyDowngrade
  | anchorBindingUnreadable
  | ledgerShortfall
  | separationShortfall
  deriving DecidableEq

/-- `_REASONS`. -/
def PinReason.ofCheckpoint : CheckpointReason → PinReason
  | .malformedCheckpoint => .malformedPin
  | .anchorBeyondHead => .pinBeyondHead
  | .anchorEntryHashMismatch => .pinMismatch
  | .anchorRootMismatch => .pinMismatch

/-- `check_pin`. -/
def checkPin [Hashlib] (entryHashes : List PyStr) (pin : Checkpoint) : Option PinReason :=
  (verifyCheckpoint entryHashes pin).map .ofCheckpoint

/-- `max(records, key=lambda record: record.checkpoint.seq)`: the first of the highest. -/
def newestRecord : List (ℤ × PyStr) → Option (ℤ × PyStr)
  | [] => none
  | record :: records =>
      some (records.foldl (fun best record => if best.1 < record.1 then record else best) record)

/-- `anchor_staleness`.  `age` says how many seconds before now a timestamp is, where it parses
and compares with now. -/
def anchorStaleness (age : PyStr → Option ℚ) (maxAgeS : ℤ) (records : List (ℤ × PyStr)) :
    Option PinReason :=
  match newestRecord records with
  | none => some .anchorStale
  | some (_, newestTs) =>
      match age newestTs with
      | none => some .anchorTimestampUnparseable
      | some ageS => if ageS > maxAgeS then some .anchorStale else none

/-- `anchor_policy_downgrade`. -/
def anchorPolicyDowngrade (pinnedSeq : ℤ) (records : List (ℤ × Option PyStr))
    (anyUnreadable : Bool) : Option PinReason :=
  if records.any fun r => r.1 ≥ pinnedSeq && r.2.isSome then none
  else if anyUnreadable then some .anchorBindingUnreadable
  else some .anchorPolicyDowngrade

/-! ## The state -/

/-- `PinState`. -/
structure PinState where
  target : PyStr
  chainId : Option PyStr
  checkpoint : Checkpoint
  pinnedTs : PyStr
  declaredTopology : Option SeparationTopology
  maxAnchorAgeS : Option ℤ
  expectAnchorBinding : Bool

/-- `check_pin_target`. -/
def checkPinTarget (state : PinState) (target : PyStr) (chainId : Option PyStr) :
    Option PinReason :=
  if state.target ≠ target ∨ state.chainId ≠ chainId then some .pinTargetMismatch else none

/-- Why a pin could not be loaded: `PinMalformed`, `PinVersionUnknown`, or an exception
`load` does not catch. -/
inductive PinError where
  | malformed
  | versionUnknown
  | other (e : PyErr)

/-! ## Writing -/

/-- The `declared_topology` object. -/
def SeparationTopology.toJson (topology : SeparationTopology) : Json :=
  .obj ([(Waxseal.str "seal_escrow", .bool topology.sealEscrow),
      (Waxseal.str "anchor_sinks", .int topology.anchorSinks),
      (Waxseal.str "witness", .bool topology.witness),
      (Waxseal.str "pin_separate", .bool topology.pinSeparate)]
    ++ (topology.ledger.map fun ledger => (Waxseal.str "ledger", .bool ledger)).toList)

/-- The object `render_pin_state` writes. -/
def PinState.toJson (state : PinState) : Json :=
  .obj ([(Waxseal.str "v", .int 1),
      (Waxseal.str "target", .str state.target),
      (Waxseal.str "chain_id", (state.chainId.map .str).getD .null),
      (Waxseal.str "seq", .int state.checkpoint.seq),
      (Waxseal.str "entry_hash", .str state.checkpoint.entryHash),
      (Waxseal.str "root", .str state.checkpoint.root),
      (Waxseal.str "pinned_ts", .str state.pinnedTs),
      (Waxseal.str "expect_anchor_binding", .bool state.expectAnchorBinding)]
    ++ (state.declaredTopology.map fun topology =>
      (Waxseal.str "declared_topology", topology.toJson)).toList
    ++ (state.maxAnchorAgeS.map fun age => (Waxseal.str "max_anchor_age_s", .int age)).toList)

variable [Interpreter]

/-- `render_pin_state`. -/
def renderPinState (state : PinState) : PyStr := dumpsIndent 2 0 (sortKeys state.toJson)

/-! ## Reading -/

namespace Pinning

section Fields

omit [Interpreter]

variable {α : Type}

/-- A field that has to be there and to have its type. -/
def requireField (read : Json → Option α) (obj : Json) (key : PyStr) : Except PinError α :=
  match get? obj key with
  | .ok value =>
      match read value with
      | some a => .ok a
      | none => .error .malformed
  | .error _ => .error .malformed

/-- A field that may be missing, or `null`. -/
def optionalField (read : Json → Option α) (obj : Json) (key : PyStr) :
    Except PinError (Option α) :=
  match get? obj key with
  | .ok .null => .ok none
  | _ => (requireField read obj key).map some

/-- `isinstance(value, str)`. -/
def asStr : Json → Option PyStr
  | .str s => some s
  | _ => none

/-- `isinstance(value, int) and not isinstance(value, bool)`. -/
def asInt : Json → Option ℤ
  | .int n => some n
  | _ => none

/-- `isinstance(value, bool)`. -/
def asBool : Json → Option Bool
  | .bool b => some b
  | _ => none

/-- `_require_str`. -/
def requireStr : Json → PyStr → Except PinError PyStr := requireField asStr

/-- `_optional_str`. -/
def optionalStr : Json → PyStr → Except PinError (Option PyStr) := optionalField asStr

/-- `_require_int`. -/
def requireInt : Json → PyStr → Except PinError ℤ := requireField asInt

/-- `_optional_int`. -/
def optionalInt : Json → PyStr → Except PinError (Option ℤ) := optionalField asInt

/-- `_require_bool`. -/
def requireBool : Json → PyStr → Except PinError Bool := requireField asBool

/-- `_optional_bool`. -/
def optionalBool (obj : Json) (key : PyStr) (default : Bool) : Except PinError Bool :=
  (optionalField asBool obj key).map fun value => value.getD default

/-- `_optional_bool_or_none`. -/
def optionalBoolOrNone : Json → PyStr → Except PinError (Option Bool) := optionalField asBool

/-- `_optional_topology`. -/
def optionalTopology (obj : Json) (key : PyStr) : Except PinError (Option SeparationTopology) :=
  match get? obj key with
  | .ok .null => .ok none
  | .ok (.obj members) => do
      return some {
        sealEscrow := ← requireBool (.obj members) (Waxseal.str "seal_escrow")
        anchorSinks := ← requireInt (.obj members) (Waxseal.str "anchor_sinks")
        witness := ← requireBool (.obj members) (Waxseal.str "witness")
        pinSeparate := ← requireBool (.obj members) (Waxseal.str "pin_separate")
        ledger := ← optionalBoolOrNone (.obj members) (Waxseal.str "ledger") }
  | _ => .error .malformed

/-- `parse_pin_state`, once the text is JSON. -/
def pinStateOfJson (obj : Json) : Except PinError PinState :=
  match obj with
  | .obj _ => do
      let version ← requireInt obj (Waxseal.str "v")
      if version ≠ 1 then .error .versionUnknown
      return {
        target := ← requireStr obj (Waxseal.str "target")
        chainId := ← optionalStr obj (Waxseal.str "chain_id")
        checkpoint := .bare (← requireInt obj (Waxseal.str "seq"))
          (← requireStr obj (Waxseal.str "entry_hash")) (← requireStr obj (Waxseal.str "root"))
        pinnedTs := ← requireStr obj (Waxseal.str "pinned_ts")
        declaredTopology := ← optionalTopology obj (Waxseal.str "declared_topology")
        maxAnchorAgeS := ← optionalInt obj (Waxseal.str "max_anchor_age_s")
        expectAnchorBinding :=
          ← optionalBool obj (Waxseal.str "expect_anchor_binding") false }
  | _ => .error .malformed

end Fields

end Pinning

/-- `parse_pin_state`. -/
def parsePinState (text : PyStr) : Except PinError PinState :=
  match loads text with
  | .ok parsed => Pinning.pinStateOfJson parsed
  | .error e =>
      if e.isValueError || e == .typeError then .error .malformed else .error (.other e)

/-- `FilePinStore.load`, on what the file holds; `none` where there is no file. -/
def FilePinStore.load (file : Option Bytes) : Except PinError (Option PinState) :=
  match file with
  | none => .ok none
  | some bytes =>
      match (decodeUtf8 bytes).map universalNewlines with
      | none => .error .malformed
      | some text => (parsePinState text).map some

/-- What `FilePinStore.save` writes. -/
def FilePinStore.save (state : PinState) : Bytes := asciiBytes (renderPinState state)

/-! ## What is written is read back -/

omit [Interpreter] in
/-- The sorted members of a topology. -/
theorem sortKeys_topology (topology : SeparationTopology) :
    sortKeys topology.toJson = .obj ([(Waxseal.str "anchor_sinks", .int topology.anchorSinks)]
      ++ (topology.ledger.map fun ledger => (Waxseal.str "ledger", .bool ledger)).toList
      ++ [(Waxseal.str "pin_separate", .bool topology.pinSeparate),
        (Waxseal.str "seal_escrow", .bool topology.sealEscrow),
        (Waxseal.str "witness", .bool topology.witness)]) := by
  obtain ⟨_, _, _, _, - | _⟩ := topology <;> rfl

omit [Interpreter] in
/-- The sorted members of a pin. -/
theorem sortKeys_toJson (state : PinState) :
    sortKeys state.toJson = .obj ([(Waxseal.str "chain_id", (state.chainId.map .str).getD .null)]
      ++ (state.declaredTopology.map fun topology =>
        (Waxseal.str "declared_topology", sortKeys topology.toJson)).toList
      ++ [(Waxseal.str "entry_hash", .str state.checkpoint.entryHash),
        (Waxseal.str "expect_anchor_binding", .bool state.expectAnchorBinding)]
      ++ (state.maxAnchorAgeS.map fun age => (Waxseal.str "max_anchor_age_s", .int age)).toList
      ++ [(Waxseal.str "pinned_ts", .str state.pinnedTs),
        (Waxseal.str "root", .str state.checkpoint.root),
        (Waxseal.str "seq", .int state.checkpoint.seq),
        (Waxseal.str "target", .str state.target),
        (Waxseal.str "v", .int 1)]) := by
  obtain ⟨_, - | _, _, _, - | _, - | _, _⟩ := state <;> rfl

/-- The pin with the surrogate pairs of its strings joined. -/
def PinState.joined (state : PinState) : PinState :=
  { state with
    target := joinPairs state.target
    chainId := state.chainId.map joinPairs
    checkpoint := .bare state.checkpoint.seq (joinPairs state.checkpoint.entryHash)
      (joinPairs state.checkpoint.root)
    pinnedTs := joinPairs state.pinnedTs }

omit [Interpreter] in
/-- The fields of a pin are read back from its members. -/
theorem pinStateOfJson_sortKeys (state : PinState) :
    Pinning.pinStateOfJson (sortKeys state.joined.toJson) = .ok state.joined := by
  rw [sortKeys_toJson]
  obtain ⟨_, - | _, _, _, - | ⟨_, _, _, _, - | _⟩, - | _, _⟩ := state <;> rfl

/-- The joined pin is written the same way. -/
theorem renderPinState_joined (state : PinState) :
    renderPinState state.joined = renderPinState state := by
  rw [renderPinState, renderPinState, sortKeys_toJson, sortKeys_toJson]
  obtain ⟨_, - | _, _, _, - | _, - | _, _⟩ := state <;>
    simp only [PinState.joined, Checkpoint.bare, Option.map_none, Option.map_some,
      Option.getD_none, Option.getD_some, Option.toList_none, Option.toList_some,
      List.cons_append, List.nil_append, dumpsIndent, dumpsIndentMembers, dumps,
      dumpsStr_joinPairs]

section Writable

omit [Interpreter]

/-- The member of an optional value. -/
theorem keys_optional {α : Type} (key : PyStr) (write : α → Json) (value : Option α) :
    ((value.map fun a => (key, write a)).toList.map Prod.fst).Sublist [key] := by
  cases value with
  | none => exact List.nil_sublist _
  | some a => exact List.Sublist.refl _

theorem writable_optional {α : Type} {depth : ℕ} (key : PyStr) {write : α → Json}
    (h : ∀ a, Writable depth (write a)) (value : Option α) :
    ∀ m ∈ (value.map fun a => (key, write a)).toList, Writable depth m.2 := by
  cases value with
  | none => exact List.forall_mem_nil _
  | some a => exact List.forall_mem_singleton.mpr (h a)

theorem writable_topology (topology : SeparationTopology) :
    Writable 1 (sortKeys topology.toJson) := by
  rw [sortKeys_topology]
  refine @writable_obj 0 ([Waxseal.str "anchor_sinks"] ++ [Waxseal.str "ledger"]
    ++ [Waxseal.str "pin_separate", Waxseal.str "seal_escrow", Waxseal.str "witness"]) _
    (by decide +kernel) (by decide +kernel) ?_ ?_
  · rw [List.map_append, List.map_append]
    exact ((List.Sublist.refl _).append (keys_optional _ _ _)).append (List.Sublist.refl _)
  · rw [List.forall_mem_append, List.forall_mem_append]
    refine ⟨⟨List.forall_mem_singleton.mpr trivial, @writable_optional _ 0 _ Json.bool (fun _ => trivial) _⟩, ?_⟩
    simp only [List.forall_mem_cons]
    exact ⟨trivial, trivial, trivial, List.forall_mem_nil _⟩

theorem writable_joined (state : PinState) : Writable 2 (sortKeys state.joined.toJson) := by
  rw [sortKeys_toJson]
  refine @writable_obj 1 ([Waxseal.str "chain_id"] ++ [Waxseal.str "declared_topology"]
    ++ [Waxseal.str "entry_hash", Waxseal.str "expect_anchor_binding"]
    ++ [Waxseal.str "max_anchor_age_s"]
    ++ [Waxseal.str "pinned_ts", Waxseal.str "root", Waxseal.str "seq", Waxseal.str "target",
      Waxseal.str "v"]) _ (by decide +kernel) (by decide +kernel) ?_ ?_
  · simp only [List.map_append]
    exact ((((List.Sublist.refl _).append (keys_optional _ _ _)).append
      (List.Sublist.refl _)).append (keys_optional _ _ _)).append (List.Sublist.refl _)
  · have hchain : Writable 1 ((state.joined.chainId.map Json.str).getD .null) := by
      obtain ⟨_, - | s, _, _, _, _, _⟩ := state
      · trivial
      · exact noSurrogatePair_joinPairs s
    simp only [List.forall_mem_append, List.forall_mem_cons]
    refine ⟨⟨⟨⟨⟨hchain, List.forall_mem_nil _⟩,
      writable_optional _ (fun topology => writable_topology topology) _⟩,
      noSurrogatePair_joinPairs _, trivial, List.forall_mem_nil _⟩,
      @writable_optional _ 1 _ Json.int (fun _ => trivial) _⟩, ?_⟩
    exact ⟨noSurrogatePair_joinPairs _, noSurrogatePair_joinPairs _, trivial,
      noSurrogatePair_joinPairs _, trivial, List.forall_mem_nil _⟩

end Writable

/-- **What is saved is loaded**, with the surrogate pairs of its strings joined. -/
theorem load_save (state : PinState) :
    FilePinStore.load (some (FilePinStore.save state)) = .ok (some state.joined) := by
  have hwritable : Writable recursionLimit (sortKeys state.joined.toJson) :=
    (writable_joined state).mono (le_trans (by decide) Interpreter.recursionLimit_large)
  rw [FilePinStore.load, FilePinStore.save, ← renderPinState_joined, renderPinState]
  rw [readText_dumpsIndent hwritable]
  dsimp only
  rw [parsePinState]
  have hloads : loads (dumpsIndent 2 0 (sortKeys state.joined.toJson))
      = .ok (sortKeys state.joined.toJson) := by
    rw [sortKeys_toJson] at hwritable ⊢
    exact loads_dumpsIndent hwritable
  rw [hloads]
  dsimp only
  rw [pinStateOfJson_sortKeys]
  rfl

end Waxseal
