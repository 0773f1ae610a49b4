import Waxseal.Base.JsonWriting
import Waxseal.Domain.Pinning

/-!
# Pins as text

`render_pin_state` and `parse_pin_state`, where integers may have too many digits to convert.
A pin is read back as it was written unless a string of it holds a surrogate pair or an integer
is too long, and the parser raises its own two exceptions unless the text nests too deep
(`pinText_iff`).
-/

namespace Waxseal

open Json

variable [Interpreter]

/-- `render_pin_state`. -/
def renderPinText (state : PinState) : Except PyErr PyStr :=
  dumpsIndentDigits 2 (sortKeys state.toJson)

/-- `parse_pin_state`. -/
def parsePinText (text : PyStr) : Except PinError PinState :=
  match loadsTextDigits text with
  | .ok parsed => Pinning.pinStateOfJson parsed
  | .error e =>
      if e.isValueError || e == .typeError then .error .malformed else .error (.other e)

/-- Without the limit on digits the parser is `parsePinState`. -/
theorem parsePinText_unlimited (h : maxStrDigits = 0) : parsePinText = parsePinState := by
  funext text
  rw [parsePinText, loadsTextDigits_unlimited h]
  rfl

/-! ## What the parser raises -/

section Raises

omit [Interpreter]

variable {α β : Type}

/-- A part of the parser that raises `PinMalformed` only. -/
def OnlyMalformed (x : Except PinError α) : Prop := ∀ e, x = .error e → e = .malformed

theorem onlyMalformed_pure (a : α) : OnlyMalformed (pure a) := nofun

theorem OnlyMalformed.bind {x : Except PinError α} {f : α → Except PinError β}
    (hx : OnlyMalformed x) (hf : ∀ a, OnlyMalformed (f a)) : OnlyMalformed (x >>= f) := by
  intro e h
  rcases bind_eq_error_iff.mp h with h | ⟨a, -, h⟩
  · exact hx e h
  · exact hf a e h

namespace Pinning

theorem onlyMalformed_requireField (read : Json → Option α) (obj : Json) (key : PyStr) :
    OnlyMalformed (requireField read obj key) := by
  intro e h
  unfold requireField at h
  split at h
  · split at h
    · cases h
    · exact (Except.error.inj h).symm
  · exact (Except.error.inj h).symm

theorem onlyMalformed_map {x : Except PinError α} (h : OnlyMalformed x) (f : α → β) :
    OnlyMalformed (x.map f) := by
  intro e he
  cases x with
  | error e' => exact h e (congrArg Except.error (Except.error.inj he))
  | ok a => cases he

theorem onlyMalformed_optionalField (read : Json → Option α) (obj : Json) (key : PyStr) :
    OnlyMalformed (optionalField read obj key) := by
  intro e h
  unfold optionalField at h
  split at h
  · cases h
  · exact onlyMalformed_map (onlyMalformed_requireField read obj key) some e h

theorem onlyMalformed_optionalTopology (obj : Json) (key : PyStr) :
    OnlyMalformed (optionalTopology obj key) := by
  unfold optionalTopology
  split
  · exact onlyMalformed_pure none
  · refine (onlyMalformed_requireField _ _ _).bind fun sealEscrow => ?_
    refine (onlyMalformed_requireField _ _ _).bind fun anchorSinks => ?_
    refine (onlyMalformed_requireField _ _ _).bind fun witness => ?_
    refine (onlyMalformed_requireField _ _ _).bind fun pinSeparate => ?_
    refine (onlyMalformed_optionalField _ _ _).bind fun ledger => ?_
    exact onlyMalformed_pure _
  · exact fun e h => (Except.error.inj h).symm

/-- **What the parser makes of a parsed text**: the version decides before any other field. -/
theorem pinStateOfJson_cases (obj : Json) :
    (∃ members n, obj = .obj members ∧ get? obj (Waxseal.str "v") = .ok (.int n) ∧ n ≠ 1 ∧
      pinStateOfJson obj = .error .versionUnknown) ∨
    ((∀ members n, obj = .obj members → get? obj (Waxseal.str "v") = .ok (.int n) → n = 1) ∧
      OnlyMalformed (pinStateOfJson obj)) := by
  cases obj with
  | obj members =>
      unfold pinStateOfJson
      dsimp only
      cases hversion : requireInt (.obj members) (Waxseal.str "v") with
      | error e =>
          refine .inr ⟨fun members' n hobj hget => ?_, ?_⟩
          · cases hobj
            rw [requireInt, requireField, hget] at hversion
            cases hversion
          · exact (onlyMalformed_requireField _ _ _ e hversion) ▸ fun e' h => (Except.error.inj h).symm
      | ok version =>
          have hget : get? (.obj members) (Waxseal.str "v") = .ok (.int version) := by
            rw [requireInt, requireField] at hversion
            split at hversion
            · rename_i value hvalue
              cases value with
              | int n =>
                  obtain rfl := Except.ok.inj hversion
                  exact hvalue
              | null | bool | float | str | arr | obj => cases hversion
            · cases hversion
          by_cases hone : version = 1
          · refine .inr ⟨fun members' n hobj hget' => ?_, ?_⟩
            · cases hobj
              rw [hget] at hget'
              cases hget'
              exact hone
            · subst hone
              refine (onlyMalformed_requireField _ _ _).bind fun target => ?_
              refine (onlyMalformed_optionalField _ _ _).bind fun chainId => ?_
              refine (onlyMalformed_requireField _ _ _).bind fun seq => ?_
              refine (onlyMalformed_requireField _ _ _).bind fun entryHash => ?_
              refine (onlyMalformed_requireField _ _ _).bind fun root => ?_
              refine (onlyMalformed_requireField _ _ _).bind fun pinnedTs => ?_
              refine (onlyMalformed_optionalTopology _ _).bind fun declaredTopology => ?_
              refine (onlyMalformed_optionalField _ _ _).bind fun maxAnchorAgeS => ?_
              refine (onlyMalformed_map (onlyMalformed_optionalField _ _ _) _).bind fun expect => ?_
              exact onlyMalformed_pure _
          · refine .inl ⟨members, version, rfl, hget, hone, ?_⟩
            exact if_pos hone
  | null | bool | int | float | str | arr =>
      exact .inr ⟨nofun, fun e h => (Except.error.inj h).symm⟩

end Pinning

end Raises

/-- The parser raises its own exceptions, and says an unknown version of just the objects whose
integer version is another. -/
structure ParsesTotally (text : PyStr) : Prop where
  raises : ∀ e, parsePinText text = .error e → e = .malformed ∨ e = .versionUnknown
  versionUnknown_iff : parsePinText text = .error .versionUnknown ↔
    ∃ members n, loadsTextDigits text = .ok (.obj members) ∧
      get? (.obj members) (Waxseal.str "v") = .ok (.int n) ∧ n ≠ 1

theorem parsesTotally_iff (text : PyStr) : ParsesTotally text ↔ ¬ NestsTooDeep text := by
  constructor
  · intro h hdeep
    have hparse : parsePinText text = .error (.other .recursionError) := by
      rw [parsePinText, hdeep]
      rfl
    rcases h.raises _ hparse with h | h <;> cases h
  · intro hdeep
    cases hloads : loadsTextDigits text with
    | error e =>
        have hparse : parsePinText text = .error .malformed := by
          rw [parsePinText, hloads]
          rcases loadsTextDigits_raises hloads with rfl | rfl | rfl
          · rfl
          · rfl
          · exact absurd hloads hdeep
        refine ⟨fun e h => .inl (Except.error.inj (h.symm.trans hparse)), ?_⟩
        rw [hparse, hloads]
        exact ⟨nofun, nofun⟩
    | ok obj =>
        have hparse : parsePinText text = Pinning.pinStateOfJson obj := by rw [parsePinText, hloads]
        rcases Pinning.pinStateOfJson_cases obj with
          ⟨members, n, rfl, hget, hne, hunknown⟩ | ⟨hknown, honly⟩
        · have hraised := hparse.trans hunknown
          exact
            { raises := fun e h => .inr (Except.error.inj (h.symm.trans hraised))
              versionUnknown_iff := ⟨fun _ => ⟨members, n, hloads, hget, hne⟩, fun _ => hraised⟩ }
        · have hraised : ∀ e, parsePinText text = .error e → e = .malformed := fun e h =>
            honly e (hparse.symm.trans h)
          refine ⟨fun e h => .inl (hraised e h), fun h => ?_, ?_⟩
          · cases hraised _ h
          · rintro ⟨members, n, hobj, hget, hne⟩
            obtain rfl := Except.ok.inj (hloads.symm.trans hobj)
            exact absurd (hknown members n rfl hget) hne

/-! ## What is written is read back -/

/-- A pin whose strings hold no surrogate pair and whose integers are not too long. -/
structure PinState.Plain (state : PinState) : Prop where
  target : NoSurrogatePair state.target
  chainId : ∀ s ∈ state.chainId, NoSurrogatePair s
  entryHash : NoSurrogatePair state.checkpoint.entryHash
  root : NoSurrogatePair state.checkpoint.root
  pinnedTs : NoSurrogatePair state.pinnedTs
  seq : intFits state.checkpoint.seq = true
  anchorSinks : ∀ topology ∈ state.declaredTopology, intFits topology.anchorSinks = true
  maxAnchorAgeS : ∀ age ∈ state.maxAnchorAgeS, intFits age = true

/-- The integers of a pin. -/
theorem intsFit_toJson (state : PinState) : intsFit (sortKeys state.toJson) = true ↔
    intFits state.checkpoint.seq = true ∧
      (∀ topology ∈ state.declaredTopology, intFits topology.anchorSinks = true) ∧
      ∀ age ∈ state.maxAnchorAgeS, intFits age = true := by
  have hone : intFits 1 = true := intFits_small (by decide)
  have htopology : ∀ topology : SeparationTopology,
      intsFit (sortKeys topology.toJson) = intFits topology.anchorSinks := by
    intro topology
    rw [sortKeys_topology]
    obtain ⟨_, _, _, _, - | _⟩ := topology <;>
      simp [intsFit, intsFitMembers]
  rw [sortKeys_toJson]
  obtain ⟨_, - | _, _, _, - | topology, - | _, _⟩ := state <;>
    simp [intsFit, intsFitMembers, htopology, hone, and_comm, and_left_comm,
      and_assoc]

/-- What is written is read back with its surrogate pairs joined. -/
theorem parsePinText_render {state : PinState} (hfit : intsFit (sortKeys state.toJson) = true) :
    renderPinText state = .ok (renderPinState state) ∧
      parsePinText (renderPinState state) = .ok state.joined := by
  refine ⟨if_pos hfit, ?_⟩
  have hwritable : Writable recursionLimit (sortKeys state.joined.toJson) :=
    (writable_joined state).mono (le_trans (by decide) Interpreter.recursionLimit_large)
  have hjoined : intsFit (sortKeys state.joined.toJson) = true := by
    rw [intsFit_toJson] at hfit ⊢
    exact hfit
  have hloads : loadsTextDigits (renderPinState state) = .ok (sortKeys state.joined.toJson) := by
    rw [← renderPinState_joined, renderPinState]
    rw [sortKeys_toJson] at hwritable hjoined ⊢
    exact loadsTextDigits_dumpsIndent hwritable hjoined
  rw [parsePinText, hloads]
  exact pinStateOfJson_sortKeys state

/-- The pin comes back from the text it is written as. -/
def PinState.RoundTrips (state : PinState) : Prop :=
  ∃ text, renderPinText state = .ok text ∧ parsePinText text = .ok state

/-- **When a pin round-trips.** -/
theorem PinState.roundTrips_iff {state : PinState}
    (hbare : state.checkpoint.aggCommit = none ∧ state.checkpoint.aggEpoch = none) :
    state.RoundTrips ↔ state.Plain := by
  obtain ⟨target, chainId, ⟨seq, entryHash, root, aggCommit, aggEpoch, both⟩, pinnedTs,
    declaredTopology, maxAnchorAgeS, expect⟩ := state
  obtain ⟨rfl, rfl⟩ := hbare
  constructor
  · rintro ⟨text, hrender, hparse⟩
    have hfit : intsFit (sortKeys (PinState.toJson ⟨target, chainId, ⟨seq, entryHash, root, none,
        none, both⟩, pinnedTs, declaredTopology, maxAnchorAgeS, expect⟩)) = true := by
      by_contra hlong
      rw [renderPinText, dumpsIndentDigits, if_neg hlong] at hrender
      cases hrender
    obtain ⟨hrender', hjoined⟩ := parsePinText_render hfit
    obtain rfl := Except.ok.inj (hrender.symm.trans hrender')
    have hsame := Except.ok.inj (hjoined.symm.trans hparse)
    simp only [PinState.joined, PinState.mk.injEq, Checkpoint.bare, Checkpoint.mk.injEq,
      joinPairs_eq_self_iff] at hsame
    obtain ⟨htarget, hchain, ⟨-, hhash, hroot, -⟩, hts, -⟩ := hsame
    obtain ⟨hseq, hsinks, hage⟩ := (intsFit_toJson _).mp hfit
    refine ⟨htarget, ?_, hhash, hroot, hts, hseq, hsinks, hage⟩
    rintro s rfl
    exact joinPairs_eq_self_iff.mp (Option.some.inj hchain)
  · intro h
    obtain ⟨hrender, hparse⟩ := parsePinText_render
      ((intsFit_toJson _).mpr ⟨h.seq, h.anchorSinks, h.maxAnchorAgeS⟩)
    refine ⟨_, hrender, hparse.trans (congrArg _ ?_)⟩
    have hchain : chainId.map joinPairs = chainId := by
      cases chainId with
      | none => rfl
      | some s => exact congrArg some (joinPairs_eq_self (h.chainId s rfl))
    simp only [PinState.joined, hchain, joinPairs_eq_self h.target, joinPairs_eq_self h.entryHash,
      joinPairs_eq_self h.root, joinPairs_eq_self h.pinnedTs]
    rfl

/-- **Pins as text**: which of them round-trip, and for which texts the parser raises its own
exceptions only. -/
theorem pinText_iff :
    (∀ state : PinState, state.checkpoint.aggCommit = none ∧ state.checkpoint.aggEpoch = none →
      (state.RoundTrips ↔ state.Plain)) ∧
    ∀ text, ParsesTotally text ↔ ¬ NestsTooDeep text :=
  ⟨fun _ hbare => PinState.roundTrips_iff hbare, parsesTotally_iff⟩

/-- A pin of an empty trail, with a topology that never mentions a ledger. -/
def emptyPin : PinState where
  target := str "trail.jsonl"
  chainId := none
  checkpoint := .bare 0 [] []
  pinnedTs := []
  declaredTopology := some ⟨false, 1, true, false, none⟩
  maxAnchorAgeS := some 3600
  expectAnchorBinding := false

omit [Interpreter] in
theorem pinText_iff_empty :
    letI := Interpreter.plain
    (emptyPin.checkpoint.aggCommit = none ∧ emptyPin.checkpoint.aggEpoch = none) ∧
      (emptyPin.RoundTrips ↔ emptyPin.Plain) :=
  ⟨⟨rfl, rfl⟩, (@pinText_iff Interpreter.plain).1 emptyPin ⟨rfl, rfl⟩⟩

omit [Interpreter] in
/-- Brackets beyond the recursion limit: the parser raises neither of its exceptions. -/
theorem pinText_brackets :
    letI := Interpreter.plain
    ¬ ((∀ state : PinState, state.checkpoint.aggCommit = none ∧ state.checkpoint.aggEpoch = none →
      state.RoundTrips) ∧ ∀ text, ParsesTotally text) := by
  let _ := Interpreter.plain
  rintro ⟨-, htotal⟩
  exact (parsesTotally_iff _).mp (htotal _) loadsTextDigits_brackets

end Waxseal
