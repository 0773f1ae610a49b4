import Mathlib.Data.List.Chain
import Mathlib.Data.List.DropRight
import Waxseal.Domain.Handoff
import Waxseal.Domain.Verdict
import Waxseal.Domain.Verify

/-!
# Sealed segments

`domain/segments.py`: the names of a trail's segments, and what a directory of segments
adds up to.  A new segment is a new chain; its first entry is a binding that names the
closing segment and its head.

`verify_segments` resolves each binding by the name in it, among the segments it was
handed.  On a directory that rotation produced (`Rotated`) a segment that was taken away
is missed by the one that follows it, so nothing but the newest segments can go unnoticed
(`verifySegments_deletion`).
-/

namespace Waxseal

open Json

/-! ## Names -/

/-- `ROTATION_PAYLOAD_TYPE`. -/
def rotationPayloadType : PyStr := str "application/vnd.waxseal.rotation-binding+json"

/-- `SEGMENT_DIGITS`. -/
def segmentDigits : ℕ := 5

/-- `SEGMENT_SUFFIX`. -/
def segmentSuffix : PyStr := str ".jsonl"

/-- `s.rpartition(sep)[2]`. -/
def afterLast (sep : CodePoint) (s : PyStr) : PyStr := s.rtakeWhile (· ≠ sep)

/-- `s.rpartition(sep)[0]`. -/
def beforeLast (sep : CodePoint) (s : PyStr) : PyStr := (s.rdropWhile (· ≠ sep)).dropLast

/-- `segment_name(stem, ordinal)`. -/
def segmentName (stem : PyStr) (ordinal : ℤ) : Except PyErr PyStr :=
  if ordinal < 0 then .error .valueError
  else if ordinal > 10 ^ segmentDigits - 1 then .error .valueError
  else .ok (stem ++ str "." ++ (strNat ordinal.toNat).leftpad segmentDigits (.ofChar '0')
    ++ segmentSuffix)

/-- `segment_ordinal(name, stem)`. -/
def segmentOrdinal (name stem : PyStr) : Option ℕ :=
  let front := stem ++ str "."
  if front.isPrefixOf name ∧ segmentSuffix.isSuffixOf name then
    let middle := (name.take (name.length - segmentSuffix.length)).drop front.length
    if middle.length = segmentDigits ∧ middle.all isDigit then some (ofDigits middle) else none
  else none

/-- `segment_identity(name)`. -/
def segmentIdentity (name : PyStr) : PyStr :=
  if segmentSuffix.isSuffixOf name then name.take (name.length - segmentSuffix.length) else name

/-- `segment_chain_id(slug, identity)`. -/
def segmentChainId (slug identity : PyStr) : PyStr := slug ++ str "/" ++ identity

/-- The identity a binding's `chain_id` resolves to. -/
def namedIdentity (binding : HandoffBinding) : PyStr := afterLast (.ofChar '/') binding.chainId

theorem afterLast_append {sep : CodePoint} {t : PyStr} (h : sep ∉ t) (s : PyStr) :
    afterLast sep (s ++ sep :: t) = t := by
  have hall : ∀ c ∈ t, decide (c ≠ sep) = true := fun c hc =>
    decide_eq_true fun heq => h (heq ▸ hc)
  have hsep : ([sep] ++ s.reverse).takeWhile (fun c => decide (c ≠ sep)) = [] := by simp
  rw [afterLast, List.rtakeWhile, List.reverse_append, List.reverse_cons, List.append_assoc,
    List.takeWhile_append_of_pos (by simpa using hall)]
  rw [hsep, List.append_nil, List.reverse_reverse]

/-- A `chain_id` names its segment, wherever the directory has moved. -/
theorem namedIdentity_eq {binding : HandoffBinding} {slug identity : PyStr}
    (hslash : CodePoint.ofChar '/' ∉ identity)
    (hchain : binding.chainId = segmentChainId slug identity) :
    namedIdentity binding = identity := by
  have hsplit : segmentChainId slug identity = slug ++ CodePoint.ofChar '/' :: identity := by
    rw [segmentChainId, List.append_assoc]
    rfl
  rw [namedIdentity, hchain, hsplit, afterLast_append hslash]

/-! ## Verification -/

/-- The state of one segment. -/
inductive SegmentStatus where
  | ok
  | broken
  | unverifiable
  | missing
  deriving DecidableEq

/-- The reason of a state. -/
inductive SegmentReason where
  | segmentUnreadable
  | segmentMissing
  | bindingMissing
  | bindingUnreadable
  | bindingUnchecked
  | bindingMismatch
  | unknownFingerprint
  /-- A break inside the segment's own chain. -/
  | chain (reason : BreakReason)
  deriving DecidableEq

/-- `_STATE_VERDICT`. -/
def SegmentStatus.verdict : SegmentStatus → Verdict
  | ok => .ok
  | unverifiable => .unverifiable
  | broken => .broken
  | missing => .broken

/-- `SegmentRead`. -/
structure SegmentRead where
  identity : PyStr
  /-- No chain: the stored lines could not be parsed. -/
  chain : Option VerifyResult
  entryHashes : List PyStr
  genesisPayloadType : Option PyStr
  genesisPayload : Option Json

/-- `SegmentState`. -/
structure SegmentState where
  identity : PyStr
  state : SegmentStatus
  reason : Option SegmentReason
  brokenSeq : Option ℤ
  deriving DecidableEq

/-- `SegmentsResult`. -/
structure SegmentsResult where
  segments : List SegmentState
  verdict : Verdict

/-- The state of a predecessor that a binding names and that is not there. -/
def missingState (identity : PyStr) : SegmentState :=
  ⟨identity, .missing, some .segmentMissing, none⟩

/-- `_binding_finding(seg, index=..., present=...)`. -/
def bindingFinding (present : PyStr → Option SegmentRead) (index : ℕ) (seg : SegmentRead) :
    Option SegmentState × Option PyStr :=
  if seg.genesisPayloadType ≠ some rotationPayloadType then
    if index = 0 then (none, none)
    else (some ⟨seg.identity, .broken, some .bindingMissing, some 0⟩, none)
  else
    match HandoffBinding.fromPayload (seg.genesisPayload.getD .null) with
    | .error _ => (some ⟨seg.identity, .unverifiable, some .bindingUnreadable, some 0⟩, none)
    | .ok binding =>
        match present (namedIdentity binding) with
        | none => (none, some (namedIdentity binding))
        | some predecessor =>
            if predecessor.chain = none then
              (some ⟨seg.identity, .unverifiable, some .bindingUnchecked, some 0⟩, none)
            else if binding.holds predecessor.entryHashes = false then
              (some ⟨seg.identity, .broken, some .bindingMismatch, some 0⟩, none)
            else (none, none)

/-- The loop body of `verify_segments`: the state of the segment itself, and the absent
predecessor its binding names. -/
def segmentOutcome (present : PyStr → Option SegmentRead) (index : ℕ) (seg : SegmentRead) :
    SegmentState × Option PyStr :=
  match seg.chain with
  | none => (⟨seg.identity, .unverifiable, some .segmentUnreadable, none⟩, none)
  | some chain =>
      if chain.ok = false then
        (⟨seg.identity, .broken, chain.reason.map .chain, chain.brokenSeq⟩, none)
      else
        match bindingFinding present index seg with
        | (some finding, missing) => (finding, missing)
        | (none, missing) =>
            match chain.unverifiable with
            | seq :: _ =>
                (⟨seg.identity, .unverifiable, some .unknownFingerprint, some seq⟩, missing)
            | [] => (⟨seg.identity, .ok, none, none⟩, missing)

/-- The loop of `verify_segments`; an absent predecessor is reported once, before the
segment that names it. -/
def verifySegmentsLoop (present : PyStr → Option SegmentRead) :
    ℕ → List PyStr → List SegmentRead → List SegmentState
  | _, _, [] => []
  | index, emittedMissing, seg :: segs =>
      match segmentOutcome present index seg with
      | (state, none) => state :: verifySegmentsLoop present (index + 1) emittedMissing segs
      | (state, some missing) =>
          if missing ∈ emittedMissing then
            state :: verifySegmentsLoop present (index + 1) emittedMissing segs
          else
            missingState missing :: state ::
              verifySegmentsLoop present (index + 1) (missing :: emittedMissing) segs

/-- `present`: the last segment of each identity. -/
def presentIn (segs : List SegmentRead) (identity : PyStr) : Option SegmentRead :=
  segs.reverse.find? (·.identity = identity)

/-- `verify_segments(segments)`. -/
def verifySegments (segs : List SegmentRead) : SegmentsResult :=
  let states := verifySegmentsLoop (presentIn segs) 0 [] segs
  ⟨states, (states.map (·.state.verdict)).foldl Verdict.join .ok⟩

/-- The verdict is a break when some state is a break or a missing segment. -/
theorem verdict_eq_broken_iff {segs : List SegmentRead} :
    (verifySegments segs).verdict = .broken ↔
      ∃ s ∈ (verifySegments segs).segments, s.state.verdict = .broken := by
  simp only [verifySegments, Verdict.foldl_join_eq_broken, List.mem_map]
  simp

/-! ## States of a run -/

section Loop

variable {present : PyStr → Option SegmentRead}

/-- What the loop reports: the outcome of each segment at its place, and the absent
predecessors, each of them once. -/
theorem mem_verifySegmentsLoop {s : SegmentState} {segs : List SegmentRead} :
    ∀ {index : ℕ} {emitted : List PyStr}, s ∈ verifySegmentsLoop present index emitted segs →
      ∃ i seg, segs[i]? = some seg ∧ (s = (segmentOutcome present (index + i) seg).1 ∨
        ∃ missing, (segmentOutcome present (index + i) seg).2 = some missing ∧
          s = missingState missing) := by
  induction segs with
  | nil => exact fun hs => by simp [verifySegmentsLoop] at hs
  | cons seg segs ih =>
      intro index emitted hs
      have later : ∀ {emitted : List PyStr},
          s ∈ verifySegmentsLoop present (index + 1) emitted segs → ∃ i seg', (seg :: segs)[i]? = some seg' ∧
            (s = (segmentOutcome present (index + i) seg').1 ∨
              ∃ missing, (segmentOutcome present (index + i) seg').2 = some missing ∧
                s = missingState missing) := by
        intro emitted hs
        obtain ⟨i, seg', hseg, h⟩ := ih hs
        refine ⟨i + 1, seg', hseg, ?_⟩
        rwa [show index + (i + 1) = index + 1 + i by omega]
      have own : ∀ {state : SegmentState} {missing : Option PyStr},
          segmentOutcome present index seg = (state, missing) →
            s = state ∨ (∃ m, missing = some m ∧ s = missingState m) →
            ∃ i seg', (seg :: segs)[i]? = some seg' ∧
              (s = (segmentOutcome present (index + i) seg').1 ∨
                ∃ missing, (segmentOutcome present (index + i) seg').2 = some missing ∧
                  s = missingState missing) := by
        intro state missing hout h
        refine ⟨0, seg, rfl, ?_⟩
        rwa [Nat.add_zero, hout]
      rw [verifySegmentsLoop] at hs
      split at hs
      · next state hout =>
          rcases List.mem_cons.mp hs with rfl | hs
          · exact own hout (.inl rfl)
          · exact later hs
      · next state missing hout =>
          split_ifs at hs with hmem
          · rcases List.mem_cons.mp hs with rfl | hs
            · exact own hout (.inl rfl)
            · exact later hs
          · rcases List.mem_cons.mp hs with rfl | hs
            · exact own hout (.inr ⟨missing, rfl, rfl⟩)
            · rcases List.mem_cons.mp hs with rfl | hs
              · exact own hout (.inl rfl)
              · exact later hs

/-- Each segment has its state in the report, and an absent predecessor has one as well. -/
theorem verifySegmentsLoop_reports {segs : List SegmentRead} :
    ∀ {index i : ℕ} {emitted : List PyStr} {seg : SegmentRead}, segs[i]? = some seg →
      (segmentOutcome present (index + i) seg).1 ∈ verifySegmentsLoop present index emitted segs ∧
        ∀ missing, (segmentOutcome present (index + i) seg).2 = some missing →
          missing ∈ emitted ∨ missingState missing ∈ verifySegmentsLoop present index emitted segs := by
  induction segs with
  | nil => exact fun h => by simp at h
  | cons head segs ih =>
      intro index i emitted seg hseg
      rw [verifySegmentsLoop]
      cases i with
      | zero =>
          obtain rfl : head = seg := by simpa using hseg
          simp only [Nat.add_zero]
          split
          · next state hout => simp [hout]
          · next state missing hout =>
              rw [hout]
              split_ifs with hmem
              · exact ⟨List.mem_cons_self, fun m hm => .inl (Option.some.inj hm ▸ hmem)⟩
              · refine ⟨by simp, fun m hm => .inr ?_⟩
                obtain rfl := Option.some.inj hm
                exact List.mem_cons_self
      | succ i =>
          have hseg : segs[i]? = some seg := by simpa using hseg
          rw [show index + (i + 1) = index + 1 + i by omega]
          split
          · obtain ⟨hstate, hmissing⟩ := @ih (index + 1) i emitted seg hseg
            exact ⟨List.mem_cons_of_mem _ hstate, fun m hm =>
              (hmissing m hm).imp_right (List.mem_cons_of_mem _)⟩
          · next state missing hout =>
              split_ifs with hmem
              · obtain ⟨hstate, hmissing⟩ := @ih (index + 1) i emitted seg hseg
                exact ⟨List.mem_cons_of_mem _ hstate, fun m hm =>
                  (hmissing m hm).imp_right (List.mem_cons_of_mem _)⟩
              · obtain ⟨hstate, hmissing⟩ := @ih (index + 1) i (missing :: emitted) seg hseg
                refine ⟨List.mem_cons_of_mem _ (List.mem_cons_of_mem _ hstate), fun m hm => ?_⟩
                rcases hmissing m hm with hm | hm
                · rcases List.mem_cons.mp hm with rfl | hm
                  · exact .inr List.mem_cons_self
                  · exact .inl hm
                · exact .inr (List.mem_cons_of_mem _ (List.mem_cons_of_mem _ hm))

end Loop

/-! ## Lookups -/

theorem presentIn_eq_none {segs : List SegmentRead} {identity : PyStr} :
    presentIn segs identity = none ↔ ∀ seg ∈ segs, seg.identity ≠ identity := by
  simp [presentIn, List.find?_eq_none]

/-- Among distinct identities each segment is the one its identity resolves to. -/
theorem presentIn_eq_some {segs : List SegmentRead} (hnodup : (segs.map (·.identity)).Nodup)
    {seg : SegmentRead} (hseg : seg ∈ segs) : presentIn segs seg.identity = some seg := by
  rcases hfind : presentIn segs seg.identity with _ | found
  · exact absurd rfl (presentIn_eq_none.mp hfind seg hseg)
  · have hid : found.identity = seg.identity := by
      simpa using List.find?_some hfind
    have hmem : found ∈ segs := List.mem_reverse.mp (List.mem_of_find?_eq_some hfind)
    rw [List.inj_on_of_nodup_map hnodup hmem hseg hid]

/-! ## Directories that rotation produced -/

/-- The segment opens with a binding of its predecessor's head. -/
structure Binds (predecessor seg : SegmentRead) : Prop where
  type : seg.genesisPayloadType = some rotationPayloadType
  binding : ∃ binding slug,
    HandoffBinding.fromPayload (seg.genesisPayload.getD .null) = .ok binding ∧
      binding.chainId = segmentChainId slug predecessor.identity ∧
      binding.holds predecessor.entryHashes = true

/-- The segments of one trail, oldest first, as rotation leaves them: each of them readable
and verifying, and each but the first opening with a binding of the one before. -/
structure Rotated (segs : List SegmentRead) : Prop where
  verifying : ∀ seg ∈ segs, ∃ chain, seg.chain = some chain ∧ chain.ok = true
  identities : (segs.map (·.identity)).Nodup
  names : ∀ seg ∈ segs, CodePoint.ofChar '/' ∉ seg.identity
  first : ∀ seg, segs.head? = some seg → seg.genesisPayloadType ≠ some rotationPayloadType
  bound : segs.IsChain Binds

theorem Binds.bindingFinding_absent {predecessor seg : SegmentRead} (h : Binds predecessor seg)
    (hslash : CodePoint.ofChar '/' ∉ predecessor.identity) {present : PyStr → Option SegmentRead}
    (habsent : present predecessor.identity = none) (index : ℕ) :
    bindingFinding present index seg = (none, some predecessor.identity) := by
  obtain ⟨binding, slug, hpayload, hchain, -⟩ := h.binding
  have hnamed := namedIdentity_eq hslash hchain
  simp only [bindingFinding, h.type, hpayload, hnamed, habsent, ne_eq, not_true, if_false]

theorem Binds.bindingFinding_present {predecessor seg : SegmentRead} (h : Binds predecessor seg)
    (hslash : CodePoint.ofChar '/' ∉ predecessor.identity) {present : PyStr → Option SegmentRead}
    (hpresent : present predecessor.identity = some predecessor)
    (hchain : predecessor.chain ≠ none) (index : ℕ) :
    bindingFinding present index seg = (none, none) := by
  obtain ⟨binding, slug, hpayload, hid, hholds⟩ := h.binding
  have hnamed := namedIdentity_eq hslash hid
  simp only [bindingFinding, h.type, hpayload, hnamed, hpresent, hchain, hholds, ne_eq, not_true,
    if_false, reduceCtorEq]

/-- A part of a list that is no initial part holds an element without the one before. -/
theorem exists_kept_without_predecessor {α : Type} {kept xs : List α} (hsub : kept.Sublist xs)
    (hnodup : xs.Nodup) (hnot : ¬ kept <+: xs) :
    ∃ before p x after, xs = before ++ p :: x :: after ∧ x ∈ kept ∧ p ∉ kept := by
  induction hsub with
  | slnil => exact absurd (List.prefix_refl _) hnot
  | @cons kept xs a hsub ih =>
      obtain ⟨ha, hnodup⟩ := List.nodup_cons.mp hnodup
      have hakept : a ∉ kept := fun h => ha (hsub.subset h)
      cases xs with
      | nil =>
          rw [List.sublist_nil.mp hsub] at hnot
          exact absurd (List.nil_prefix) hnot
      | cons x xs =>
          by_cases hx : x ∈ kept
          · exact ⟨[], a, x, xs, rfl, hx, hakept⟩
          · have hnot' : ¬ kept <+: x :: xs := by
              rintro ⟨rest, hrest⟩
              cases kept with
              | nil => exact hnot List.nil_prefix
              | cons y kept =>
                  obtain ⟨rfl, -⟩ := List.cons.inj hrest
                  exact hx List.mem_cons_self
            obtain ⟨before, p, y, after, hxs, hy, hp⟩ := ih hnodup hnot'
            exact ⟨a :: before, p, y, after, by rw [hxs]; rfl, hy, hp⟩
  | @cons_cons kept xs a hsub ih =>
      obtain ⟨ha, hnodup⟩ := List.nodup_cons.mp hnodup
      obtain ⟨before, p, y, after, hxs, hy, hp⟩ := ih hnodup fun hpre =>
        hnot (List.cons_prefix_cons.mpr ⟨rfl, hpre⟩)
      refine ⟨a :: before, p, y, after, by rw [hxs]; rfl, List.mem_cons_of_mem _ hy, ?_⟩
      rintro hmem
      rcases List.mem_cons.mp hmem with rfl | hmem
      · exact ha (by simp [hxs])
      · exact hp hmem

/-- A verifying segment whose binding is in order is no break. -/
theorem segmentOutcome_of_bindingFinding {present : PyStr → Option SegmentRead} {index : ℕ}
    {seg : SegmentRead} {chain : VerifyResult} {missing : Option PyStr}
    (hchain : seg.chain = some chain) (hok : chain.ok = true)
    (hfinding : bindingFinding present index seg = (none, missing)) :
    (segmentOutcome present index seg).2 = missing ∧
      (segmentOutcome present index seg).1.state =
        if chain.unverifiable = [] then .ok else .unverifiable := by
  simp only [segmentOutcome, hchain, hok, hfinding, reduceCtorEq, if_false]
  split <;> next h => simp [h]

section Rotated

variable {segs kept : List SegmentRead}

theorem Rotated.isChain_getElem? (h : Rotated segs) {i : ℕ} {seg : SegmentRead}
    (hseg : segs[i + 1]? = some seg) : ∃ predecessor, segs[i]? = some predecessor ∧
      Binds predecessor seg := by
  obtain ⟨hlt, rfl⟩ := List.getElem?_eq_some_iff.mp hseg
  exact ⟨segs[i], List.getElem?_eq_getElem (by omega), List.isChain_iff_getElem.mp h.bound i hlt⟩

/-- What is left of a rotated directory still has distinct identities. -/
theorem Rotated.presentIn_kept (h : Rotated segs) (hkept : kept.Sublist segs) {seg : SegmentRead}
    (hseg : seg ∈ kept) : presentIn kept seg.identity = some seg :=
  presentIn_eq_some (h.identities.sublist (hkept.map _)) hseg

theorem Rotated.presentIn_removed (h : Rotated segs) (hkept : kept.Sublist segs) {p : SegmentRead}
    (hp : p ∈ segs) (hremoved : p ∉ kept) : presentIn kept p.identity = none := by
  refine presentIn_eq_none.mpr fun seg hseg hid => hremoved ?_
  rwa [List.inj_on_of_nodup_map h.identities (hkept.subset hseg) hp hid] at hseg

/-- A segment whose predecessor was taken away reports it. -/
theorem Rotated.missing_of_removed (h : Rotated segs) (hkept : kept.Sublist segs)
    {before after : List SegmentRead} {p seg : SegmentRead} (hsegs : segs = before ++ p :: seg :: after)
    (hseg : seg ∈ kept) (hremoved : p ∉ kept) :
    missingState p.identity ∈ (verifySegments kept).segments := by
  have hp : p ∈ segs := by simp [hsegs]
  have hbinds : Binds p seg := by
    have hbound := h.bound
    rw [hsegs] at hbound
    exact (List.isChain_append.mp hbound).2.1.rel
  obtain ⟨i, hi⟩ := List.getElem?_of_mem hseg
  obtain ⟨chain, hchain, hok⟩ := h.verifying seg (hkept.subset hseg)
  have hfinding := hbinds.bindingFinding_absent (h.names p hp)
    (h.presentIn_removed hkept hp hremoved) i
  have hmissing := (segmentOutcome_of_bindingFinding hchain hok hfinding).1
  obtain ⟨-, hreports⟩ := @verifySegmentsLoop_reports (presentIn kept) kept 0 i [] seg hi
  rw [Nat.zero_add] at hreports
  exact (hreports _ hmissing).resolve_left List.not_mem_nil

/-- In an initial part of a rotated directory every binding is in order. -/
theorem Rotated.bindingFinding_of_prefix (h : Rotated segs) (hpre : kept <+: segs) {i : ℕ}
    {seg : SegmentRead} (hseg : kept[i]? = some seg) :
    bindingFinding (presentIn kept) i seg = (none, none) := by
  have hget : ∀ {j : ℕ} {s : SegmentRead}, kept[j]? = some s → segs[j]? = some s := by
    intro j s hs
    obtain ⟨rest, rfl⟩ := hpre
    rw [List.getElem?_append_left (List.getElem?_eq_some_iff.mp hs).1, hs]
  cases i with
  | zero =>
      have hfirst := h.first seg (by rw [List.head?_eq_getElem?, hget hseg])
      simp only [bindingFinding, hfirst, ne_eq, not_false_iff, if_true]
  | succ i =>
      obtain ⟨p, hp, hbinds⟩ := h.isChain_getElem? (hget hseg)
      have hpmem : p ∈ segs := List.mem_of_getElem? hp
      have hpkept : p ∈ kept := by
        have hlt : i < kept.length := Nat.lt_of_succ_lt (List.getElem?_eq_some_iff.mp hseg).1
        have hi := hget (List.getElem?_eq_getElem hlt)
        rw [hp] at hi
        rw [Option.some.inj hi]
        exact List.getElem_mem hlt
      obtain ⟨chain, hchain, -⟩ := h.verifying p hpmem
      exact hbinds.bindingFinding_present (h.names p hpmem)
        (h.presentIn_kept hpre.sublist hpkept) (by rw [hchain]; exact nofun) (i + 1)

/-- **Deletion of segments.**  Of the segments rotation produced, any that are left either
are the oldest ones, and then nothing is reported broken, or the report is a break that
names a missing segment. -/
theorem verifySegments_deletion (h : Rotated segs) (hkept : kept.Sublist segs) :
    (¬ kept <+: segs → (verifySegments kept).verdict = .broken ∧
      ∃ identity, missingState identity ∈ (verifySegments kept).segments) ∧
    (kept <+: segs → (verifySegments kept).verdict ≠ .broken) := by
  constructor
  · intro hnot
    have hnodup : segs.Nodup := List.Nodup.of_map _ h.identities
    obtain ⟨before, p, seg, after, hsegs, hseg, hp⟩ :=
      exists_kept_without_predecessor hkept hnodup hnot
    have hmissing := h.missing_of_removed hkept hsegs hseg hp
    exact ⟨verdict_eq_broken_iff.mpr ⟨_, hmissing, rfl⟩, p.identity, hmissing⟩
  · intro hpre hbroken
    obtain ⟨s, hs, hverdict⟩ := verdict_eq_broken_iff.mp hbroken
    obtain ⟨i, seg, hseg, hstate⟩ := mem_verifySegmentsLoop hs
    obtain ⟨chain, hchain, hok⟩ :=
      h.verifying seg (hpre.sublist.subset (List.mem_of_getElem? hseg))
    obtain ⟨hnone, hown⟩ := segmentOutcome_of_bindingFinding hchain hok
      (h.bindingFinding_of_prefix hpre hseg)
    rw [Nat.zero_add] at hstate
    rcases hstate with rfl | ⟨missing, hmissing, -⟩
    · rw [hown] at hverdict
      split_ifs at hverdict <;> cases hverdict
    · rw [hnone] at hmissing
      cases hmissing

end Rotated

/-! ## A rotated pair -/

/-- A binding of the only entry of `trail`. -/
def pairBinding : HandoffBinding where
  chainId := segmentChainId (str "project") (str "trail")
  seq := 0
  headHash := genesisPrevHash
  chainId_ne_nil := by decide
  headHash_hex := by decide

/-- `trail`, and the segment it was rotated into. -/
def rotatedPair : List SegmentRead :=
  let chain : VerifyResult := ⟨true, 1, none, none, [], none, none⟩
  [⟨str "trail", some chain, [genesisPrevHash], some (str "application/vnd.x+json"), none⟩,
    ⟨str "trail.00000", some chain, [genesisPrevHash], some rotationPayloadType,
      some pairBinding.toPayload⟩]

theorem rotated_rotatedPair : Rotated rotatedPair where
  verifying := by
    simp only [rotatedPair, List.forall_mem_cons]
    exact ⟨⟨_, rfl, rfl⟩, ⟨_, rfl, rfl⟩, nofun⟩
  identities := by decide
  names := by decide
  first := by
    rintro seg hseg
    obtain rfl := Option.some.inj hseg
    decide
  bound := by
    refine List.isChain_pair.mpr ⟨rfl, pairBinding, str "project", ?_, rfl, by decide⟩
    exact HandoffBinding.fromPayload_toPayload pairBinding

/-- Without `trail` the other segment is a break, and `trail` is missing. -/
theorem verifySegments_deletion_pair :
    (verifySegments (rotatedPair.drop 1)).verdict = .broken ∧
      ∃ identity, missingState identity ∈ (verifySegments (rotatedPair.drop 1)).segments := by
  refine (verifySegments_deletion rotated_rotatedPair (List.drop_sublist 1 _)).1 ?_
  rintro ⟨rest, hrest⟩
  have hid := congrArg SegmentRead.identity (List.cons.inj hrest).1
  exact absurd hid (by decide)

end Waxseal
