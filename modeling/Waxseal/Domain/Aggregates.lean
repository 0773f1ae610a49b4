import Mathlib.Data.List.Induction
import Mathlib.Data.List.Nodup
import Waxseal.Domain.Sealing

/-!
# The running aggregate

The accumulator after some rows is a fold over those of them that the aggregate scheme
sealed from its start on (`aggRows`, `foldAgg`): `aggregateLoop_eq`.  Where HMAC has no
collisions on what two folds authenticate, equal accumulators come from the same rows with
the same values (`foldAgg_inj`), so a commitment that both pass binds them
(`verifyAnchoredAggregate_binds`).
-/

namespace Waxseal

section Fold

variable [Hashlib] {κ : Type}

/-- The rows a fold takes in, each with its position: those the aggregate scheme sealed, from
`aggStart` up to `epoch`. -/
def aggRows (aggStart epoch : ℤ) : ℕ → List (Attestation κ) → List (ℕ × PyStr)
  | _, [] => []
  | position, att :: atts =>
      if epoch ≤ position then []
      else if aggStart ≤ position ∧ att.scheme = fsHmacAggScheme then
        (position, att.value) :: aggRows aggStart epoch (position + 1) atts
      else aggRows aggStart epoch (position + 1) atts

/-- The accumulator after some rows. -/
def foldAgg (initialKey : Bytes) : PyStr → List (ℕ × PyStr) → Except PyErr PyStr
  | running, [] => .ok running
  | running, row :: rows => do
      let running ← aggregateStep (epochKey initialKey row.1) running row.2
      foldAgg initialKey running rows

/-- **The loop of `verify_aggregate` is the fold over its rows.** -/
theorem aggregateLoop_eq (initialKey : Bytes) (aggStart epoch : ℤ) {position : ℕ}
    {running : PyStr} {atts : List (Attestation κ)} :
    aggregateLoop aggStart epoch position (epochKey initialKey position) running atts =
      foldAgg initialKey running (aggRows aggStart epoch position atts) := by
  induction atts generalizing position running with
  | nil => rfl
  | cons att atts ih =>
      rw [aggregateLoop, aggRows]
      split_ifs with hepoch hrow
      · rfl
      · simp only [foldAgg, ← epochKey_succ, ih]
      · rw [← epochKey_succ, ih]

theorem foldAgg_append {initialKey : Bytes} {running : PyStr} {rows more : List (ℕ × PyStr)} :
    foldAgg initialKey running (rows ++ more) =
      foldAgg initialKey running rows >>= fun running => foldAgg initialKey running more := by
  induction rows generalizing running with
  | nil => rfl
  | cons row rows ih => simp only [List.cons_append, foldAgg, ih, bind_assoc]

omit [Hashlib] in
/-- Rows past the epoch are not taken in. -/
theorem aggRows_append_of_le {aggStart epoch : ℤ} {position : ℕ} {atts more : List (Attestation κ)}
    (h : epoch ≤ position + atts.length) :
    aggRows aggStart epoch position (atts ++ more) = aggRows aggStart epoch position atts := by
  induction atts generalizing position with
  | nil =>
      cases more with
      | nil => rfl
      | cons att more => exact if_pos (by simpa using h)
  | cons att atts ih =>
      rw [List.length_cons] at h
      have hrest := @ih (position + 1) (by push_cast at h ⊢; omega)
      rw [List.cons_append, aggRows, aggRows, hrest]

omit [Hashlib] in
/-- One more row, and one more epoch. -/
theorem aggRows_snoc {aggStart epoch : ℤ} {position : ℕ} {atts : List (Attestation κ)}
    (att : Attestation κ) (h : epoch = position + atts.length) :
    aggRows aggStart (epoch + 1) position (atts ++ [att]) =
      aggRows aggStart epoch position atts ++
        if aggStart ≤ epoch ∧ att.scheme = fsHmacAggScheme then
          [(position + atts.length, att.value)] else [] := by
  induction atts generalizing position with
  | nil =>
      obtain rfl : epoch = position := by simpa using h
      have hinside : ¬ (position : ℤ) + 1 ≤ position := by omega
      simp only [List.nil_append, aggRows, if_neg hinside]
      rfl
  | cons first atts ih =>
      rw [List.length_cons, Nat.cast_succ] at h
      have hrest := @ih (position + 1) (by push_cast; omega)
      have hinside : ¬ epoch + 1 ≤ (position : ℤ) := by omega
      have hinside' : ¬ epoch ≤ (position : ℤ) := by omega
      have hlast : position + (first :: atts).length = position + 1 + atts.length := by
        rw [List.length_cons]
        omega
      rw [List.cons_append, aggRows, if_neg hinside, hrest, aggRows, if_neg hinside', hlast]
      split_ifs with hfirst hrow
      · rfl
      · rfl
      · rfl
      · rfl

/-- A row of the aggregate scheme at a position. -/
def AggregatedAt (atts : List (Attestation κ)) (i : ℕ) (value : PyStr) : Prop :=
  ∃ att, atts[i]? = some att ∧ att.scheme = fsHmacAggScheme ∧ att.value = value

/-! ## What a fold authenticates -/

/-- The message of one fold. -/
def aggregateFrame (prevAgg value : PyStr) : Except PyErr Bytes :=
  match fromhex prevAgg with
  | none => .error .valueError
  | some prev => do return aggFramePrefix ++ prev ++ (← lp (some value))

theorem aggregateStep_eq (key : Bytes) (prevAgg value : PyStr) :
    aggregateStep key prevAgg value =
      (aggregateFrame prevAgg value).map fun frame => hex (hmacSha256 key frame).val := by
  unfold aggregateStep aggregateFrame
  cases fromhex prevAgg with
  | none => rfl
  | some prev =>
      cases lp (some value) with
      | error e => rfl
      | ok b => rfl

/-- The keys and messages of a fold. -/
def aggInputs (initialKey : Bytes) : PyStr → List (ℕ × PyStr) → List (Bytes × Bytes)
  | _, [] => []
  | running, row :: rows =>
      match aggregateFrame running row.2 with
      | .error _ => []
      | .ok frame =>
          let key := epochKey initialKey row.1
          (key, frame) :: aggInputs initialKey (hex (hmacSha256 key frame).val) rows

/-- HMAC has no collisions on these keys and messages, and does not give the value the
accumulator starts from. -/
structure HmacFree (inputs : List (Bytes × Bytes)) : Prop where
  inj : ∀ p ∈ inputs, ∀ q ∈ inputs, hmacSha256 p.1 p.2 = hmacSha256 q.1 q.2 → p = q
  genesis : ∀ p ∈ inputs, hex (hmacSha256 p.1 p.2).val ≠ aggGenesis

theorem HmacFree.mono {inputs inputs' : List (Bytes × Bytes)} (h : HmacFree inputs')
    (hsub : inputs ⊆ inputs') : HmacFree inputs where
  inj := fun p hp q hq => h.inj p (hsub hp) q (hsub hq)
  genesis := fun p hp => h.genesis p (hsub hp)

variable {initialKey : Bytes} {running agg : PyStr} {rows rows' : List (ℕ × PyStr)}

/-- **The last fold**, what it started from, and what it authenticated. -/
theorem foldAgg_snoc {row : ℕ × PyStr}
    (h : foldAgg initialKey running (rows ++ [row]) = .ok agg) :
    ∃ prev frame, foldAgg initialKey running rows = .ok prev ∧
      aggregateFrame prev row.2 = .ok frame ∧
      agg = hex (hmacSha256 (epochKey initialKey row.1) frame).val ∧
      aggInputs initialKey running (rows ++ [row]) =
        aggInputs initialKey running rows ++ [(epochKey initialKey row.1, frame)] := by
  induction rows generalizing running with
  | nil =>
      obtain ⟨next, hstep, hrest⟩ := bind_eq_ok_iff.mp h
      obtain rfl := Except.ok.inj hrest
      rw [aggregateStep_eq] at hstep
      cases hframe : aggregateFrame running row.2 with
      | error e =>
          rw [hframe] at hstep
          cases hstep
      | ok frame =>
          rw [hframe] at hstep
          refine ⟨running, frame, rfl, hframe, (Except.ok.inj hstep).symm, ?_⟩
          simp only [List.nil_append, aggInputs, hframe]
  | cons first rows ih =>
      obtain ⟨next, hstep, hrest⟩ := bind_eq_ok_iff.mp h
      obtain ⟨prev, frame, hprev, hframe, hagg, hinputs⟩ := ih hrest
      refine ⟨prev, frame, bind_eq_ok_iff.mpr ⟨next, hstep, hprev⟩, hframe, hagg, ?_⟩
      rw [aggregateStep_eq] at hstep
      rw [List.cons_append, aggInputs, aggInputs]
      cases hfirst : aggregateFrame running first.2 with
      | error e =>
          rw [hfirst] at hstep
          cases hstep
      | ok frame' =>
          rw [hfirst] at hstep
          obtain rfl := Except.ok.inj hstep
          exact congrArg _ hinputs

/-- An accumulator is a digest, or the value it started from. -/
theorem foldAgg_digest (h : foldAgg initialKey aggGenesis rows = .ok agg) :
    ∃ digest : Bytes32, agg = hex digest.val := by
  induction rows using List.reverseRecOn with
  | nil => exact ⟨⟨List.replicate 32 0, rfl⟩, (Except.ok.inj h).symm⟩
  | append_singleton rows row _ =>
      obtain ⟨prev, frame, -, -, rfl, -⟩ := foldAgg_snoc h
      exact ⟨_, rfl⟩

omit [Hashlib] in
/-- A frame over a digest determines the digest and the value. -/
theorem aggregateFrame_inj {d d' : Bytes32} {value value' : PyStr} {frame : Bytes}
    (h : aggregateFrame (hex d.val) value = .ok frame)
    (h' : aggregateFrame (hex d'.val) value' = .ok frame) : d = d' ∧ value = value' := by
  rw [aggregateFrame, fromhex_hex] at h h'
  obtain ⟨b, hb, hframe⟩ := bind_eq_ok_iff.mp h
  obtain ⟨b', hb', hframe'⟩ := bind_eq_ok_iff.mp h'
  have heq := Except.ok.inj (hframe.trans hframe'.symm)
  rw [List.append_assoc, List.append_assoc] at heq
  obtain ⟨hdigest, hvalue⟩ := List.append_inj (List.append_cancel_left heq)
    (d.property.trans d'.property.symm)
  refine ⟨Subtype.ext hdigest, (@lp_append_inj _ _ _ _ [] [] hb hb' ?_).1⟩
  rw [List.append_nil, List.append_nil, hvalue]

/-- The accumulator of any rows at all is not the one it starts from. -/
theorem foldAgg_ne_genesis {row : ℕ × PyStr}
    (hfree : HmacFree (aggInputs initialKey aggGenesis (rows ++ [row]))) :
    foldAgg initialKey aggGenesis (rows ++ [row]) ≠ .ok aggGenesis := by
  intro h
  obtain ⟨prev, frame, -, -, hagg, hinputs⟩ := foldAgg_snoc h
  rw [hinputs] at hfree
  exact hfree.genesis (epochKey initialKey row.1, frame)
    (List.mem_append_right _ List.mem_cons_self) hagg.symm

/-- **Equal accumulators come from equal rows.** -/
theorem foldAgg_inj (hfree : HmacFree (aggInputs initialKey aggGenesis rows ++
      aggInputs initialKey aggGenesis rows'))
    (hkeys : ∀ row ∈ rows, ∀ row' ∈ rows',
      epochKey initialKey row.1 = epochKey initialKey row'.1 → row.1 = row'.1)
    (h : foldAgg initialKey aggGenesis rows = .ok agg)
    (h' : foldAgg initialKey aggGenesis rows' = .ok agg) : rows = rows' := by
  have hleft := hfree.mono (List.subset_append_left _ _)
  have hright := hfree.mono (List.subset_append_right _ _)
  induction rows using List.reverseRecOn generalizing rows' agg with
  | nil =>
      obtain rfl := Except.ok.inj h
      rcases List.eq_nil_or_concat' rows' with rfl | ⟨rows', row', rfl⟩
      · rfl
      · exact absurd h' (foldAgg_ne_genesis hright)
  | append_singleton rows row ih =>
      rcases List.eq_nil_or_concat' rows' with rfl | ⟨rows', row', rfl⟩
      · obtain rfl := Except.ok.inj h'
        exact absurd h (foldAgg_ne_genesis hleft)
      · obtain ⟨prev, frame, hprev, hframe, hagg, hinputs⟩ := foldAgg_snoc h
        obtain ⟨prev', frame', hprev', hframe', hagg', hinputs'⟩ := foldAgg_snoc h'
        rw [hinputs, hinputs'] at hfree
        have hsame := hfree.inj (epochKey initialKey row.1, frame)
          (List.mem_append_left _ (List.mem_append_right _ List.mem_cons_self))
          (epochKey initialKey row'.1, frame')
          (List.mem_append_right _ (List.mem_append_right _ List.mem_cons_self))
          (Subtype.ext (hex_injective (hagg.symm.trans hagg')))
        obtain ⟨hkey, rfl⟩ := Prod.mk.inj hsame
        have hposition := hkeys row (List.mem_append_right _ List.mem_cons_self) row'
          (List.mem_append_right _ List.mem_cons_self) hkey
        obtain ⟨d, rfl⟩ := foldAgg_digest hprev
        obtain ⟨d', rfl⟩ := foldAgg_digest hprev'
        obtain ⟨rfl, hvalue⟩ := aggregateFrame_inj hframe hframe'
        have hinit := hfree.mono (List.append_subset.mpr
          ⟨fun p hp => List.mem_append_left _ (List.mem_append_left _ hp),
            fun p hp => List.mem_append_right _ (List.mem_append_left _ hp)⟩)
        rw [ih hinit (fun r hr r' hr' => hkeys r (List.mem_append_left _ hr) r'
            (List.mem_append_left _ hr')) hprev hprev'
          (hinit.mono (List.subset_append_left _ _)) (hinit.mono (List.subset_append_right _ _)),
          Prod.ext hposition hvalue]

omit [Hashlib] in
/-- The rows of a fold stand at the position it starts from and after. -/
theorem le_of_mem_aggRows {aggStart epoch : ℤ} {position : ℕ} {row : ℕ × PyStr}
    {atts : List (Attestation κ)} (h : row ∈ aggRows aggStart epoch position atts) :
    position ≤ row.1 := by
  induction atts generalizing position with
  | nil => cases h
  | cons att atts ih =>
      rw [aggRows] at h
      split_ifs at h with hepoch hrow
      · cases h
      · rcases List.mem_cons.mp h with rfl | h
        · exact Nat.le_refl _
        · exact Nat.le_of_succ_le (ih h)
      · exact Nat.le_of_succ_le (ih h)

omit [Hashlib] in
/-- The rows of a fold, one by one. -/
theorem mem_aggRows {aggStart epoch : ℤ} {position i : ℕ} {value : PyStr}
    {atts : List (Attestation κ)} :
    (position + i, value) ∈ aggRows aggStart epoch position atts ↔
      aggStart ≤ (position + i : ℕ) ∧ ((position + i : ℕ) : ℤ) < epoch ∧
        AggregatedAt atts i value := by
  induction atts generalizing position i with
  | nil =>
      constructor
      · intro h
        cases h
      · rintro ⟨-, -, att, hatt, -⟩
        cases hatt
  | cons att atts ih =>
      rw [aggRows]
      by_cases hepoch : epoch ≤ position
      · rw [if_pos hepoch]
        constructor
        · intro h
          cases h
        · rintro ⟨-, hlt, -⟩
          omega
      · rw [if_neg hepoch]
        cases i with
        | zero =>
            have hrest : ¬ (position + 0, value) ∈ aggRows aggStart epoch (position + 1) atts :=
              fun h => absurd (le_of_mem_aggRows h) (Nat.not_succ_le_self position)
            have hlt : ((position + 0 : ℕ) : ℤ) < epoch := by omega
            split_ifs with hrow
            · constructor
              · intro h
                rcases List.mem_cons.mp h with heq | h
                · exact ⟨hrow.1, hlt, att, rfl, hrow.2, (Prod.mk.inj heq).2.symm⟩
                · exact absurd h hrest
              · rintro ⟨-, -, att', hatt, -, rfl⟩
                obtain rfl := Option.some.inj hatt
                exact List.mem_cons_self
            · constructor
              · exact fun h => absurd h hrest
              · rintro ⟨hstart, -, att', hatt, hscheme, -⟩
                obtain rfl := Option.some.inj hatt
                exact absurd ⟨hstart, hscheme⟩ hrow
        | succ i =>
            have hshift : position + (i + 1) = position + 1 + i := by omega
            have hrest := @ih (position + 1) i
            rw [hshift]
            split_ifs with hrow
            · rw [List.mem_cons, hrest]
              constructor
              · rintro (heq | h)
                · have := (Prod.mk.inj heq).1
                  omega
                · exact h
              · exact Or.inr
            · exact hrest

/-! ## Commitments -/

/-- What a commitment hashes. -/
def aggregateCommitFrame (epoch : ℤ) (agg : PyStr) : Except PyErr Bytes :=
  match fromhex agg with
  | none => .error .valueError
  | some _ => do return aggCommitFramePrefix ++ be64 2 ++ (← lpAll [strInt epoch, agg])

theorem aggregateCommit_eq (epoch : ℤ) (agg : PyStr) :
    aggregateCommit epoch agg = (aggregateCommitFrame epoch agg).map hexdigest := by
  unfold aggregateCommit aggregateCommitFrame
  cases fromhex agg with
  | none => rfl
  | some b =>
      cases lpAll [strInt epoch, agg] with
      | error e => rfl
      | ok b => rfl

omit [Hashlib] in
/-- The frame of a commitment determines what it commits to. -/
theorem aggregateCommitFrame_inj {epoch epoch' : ℤ} {agg agg' : PyStr} {frame : Bytes}
    (h : aggregateCommitFrame epoch agg = .ok frame)
    (h' : aggregateCommitFrame epoch' agg' = .ok frame) : epoch = epoch' ∧ agg = agg' := by
  unfold aggregateCommitFrame at h h'
  split at h
  · cases h
  · split at h'
    · cases h'
    · obtain ⟨b, hb, hframe⟩ := bind_eq_ok_iff.mp h
      obtain ⟨b', hb', hframe'⟩ := bind_eq_ok_iff.mp h'
      have heq := Except.ok.inj (hframe.trans hframe'.symm)
      obtain rfl := List.append_cancel_left heq
      have hfields := @lpAll_inj [strInt epoch, agg] [strInt epoch', agg'] rfl _ hb hb'
      simp only [List.cons.injEq, and_true] at hfields
      exact ⟨strInt_injective hfields.1, hfields.2⟩

/-- The keys and messages of the fold of an anchored check. -/
def anchoredFolds (initialKey : Bytes) (aggStart anchoredEpoch : ℤ)
    (atts : List (Attestation κ)) : List (Bytes × Bytes) :=
  aggInputs initialKey aggGenesis (aggRows aggStart anchoredEpoch 0 atts)

/-- What the commitment of an anchored check hashes. -/
def anchoredFrames (initialKey : Bytes) (aggStart anchoredEpoch : ℤ)
    (atts : List (Attestation κ)) : List Bytes :=
  (foldAgg initialKey aggGenesis (aggRows aggStart anchoredEpoch 0 atts) >>=
    aggregateCommitFrame anchoredEpoch).toOption.toList

/-- **What an anchored check has found**: a fold over the rows that gives the commitment. -/
theorem verifyAnchoredAggregate_eq_ok_none {aggStart anchoredEpoch : ℤ} {commit : PyStr}
    {atts : List (Attestation κ)}
    (h : verifyAnchoredAggregate atts initialKey aggStart anchoredEpoch commit = .ok none) :
    ∃ running, foldAgg initialKey aggGenesis (aggRows aggStart anchoredEpoch 0 atts) =
      .ok running ∧ aggregateCommit anchoredEpoch running = .ok commit := by
  have hloop := @aggregateLoop_eq _ κ initialKey aggStart anchoredEpoch 0 aggGenesis atts
  rw [show epochKey initialKey 0 = initialKey from rfl] at hloop
  rw [verifyAnchoredAggregate, hloop] at h
  split_ifs at h
  · cases h
  · cases h
  · split at h
    · split_ifs at h
      · cases h
    · next running hfold =>
        obtain ⟨commit', hcommit, hsame⟩ := bind_eq_ok_iff.mp h
        obtain ⟨same, hcompare, hreason⟩ := bind_eq_ok_iff.mp hsame
        unfold compareDigest at hcompare
        split_ifs at hcompare
        obtain rfl := Except.ok.inj hcompare
        have hreason := Except.ok.inj hreason
        split_ifs at hreason with heq
        obtain rfl := of_decide_eq_true heq
        exact ⟨running, hfold, hcommit⟩
  · cases h

/-- The commitment of a clean anchored check is the digest of a frame. -/
theorem anchoredFrame_of_ok {aggStart anchoredEpoch : ℤ} {commit running : PyStr}
    {atts : List (Attestation κ)}
    (hfold : foldAgg initialKey aggGenesis (aggRows aggStart anchoredEpoch 0 atts) = .ok running)
    (hcommit : aggregateCommit anchoredEpoch running = .ok commit) :
    ∃ frame, aggregateCommitFrame anchoredEpoch running = .ok frame ∧ commit = hexdigest frame ∧
      anchoredFrames initialKey aggStart anchoredEpoch atts = [frame] := by
  rw [aggregateCommit_eq] at hcommit
  unfold anchoredFrames
  rw [hfold]
  cases hframe : aggregateCommitFrame anchoredEpoch running with
  | error e =>
      rw [hframe] at hcommit
      cases hcommit
  | ok frame =>
      rw [hframe] at hcommit
      refine ⟨frame, rfl, (Except.ok.inj hcommit).symm, ?_⟩
      exact congrArg (fun e : Except PyErr Bytes => e.toOption.toList) hframe

/-- Two clean anchored checks have folded the same rows. -/
theorem aggRows_eq_of_anchored {aggStart anchoredEpoch : ℤ} {commit : PyStr}
    {atts atts' : List (Attestation κ)}
    (hkeys : ((List.range anchoredEpoch.toNat).map (epochKey initialKey)).Nodup)
    (hfolds : HmacFree (anchoredFolds initialKey aggStart anchoredEpoch atts ++
      anchoredFolds initialKey aggStart anchoredEpoch atts'))
    (hframes : CollisionFree (anchoredFrames initialKey aggStart anchoredEpoch atts ++
      anchoredFrames initialKey aggStart anchoredEpoch atts'))
    (h : verifyAnchoredAggregate atts initialKey aggStart anchoredEpoch commit = .ok none)
    (h' : verifyAnchoredAggregate atts' initialKey aggStart anchoredEpoch commit = .ok none) :
    aggRows aggStart anchoredEpoch 0 atts = aggRows aggStart anchoredEpoch 0 atts' := by
  obtain ⟨running, hfold, hcommit⟩ := verifyAnchoredAggregate_eq_ok_none h
  obtain ⟨running', hfold', hcommit'⟩ := verifyAnchoredAggregate_eq_ok_none h'
  obtain ⟨frame, hframe, rfl, hone⟩ := anchoredFrame_of_ok hfold hcommit
  obtain ⟨frame', hframe', heq, hone'⟩ := anchoredFrame_of_ok hfold' hcommit'
  rw [hone, hone'] at hframes
  obtain rfl := hframes frame (by simp) frame' (by simp) (Subtype.ext (hex_injective heq))
  obtain ⟨-, rfl⟩ := aggregateCommitFrame_inj hframe hframe'
  have hlt : ∀ {atts : List (Attestation κ)} {row}, row ∈ aggRows aggStart anchoredEpoch 0 atts →
      row.1 < anchoredEpoch.toNat := by
    intro atts row hrow
    have hmem := (@mem_aggRows κ aggStart anchoredEpoch 0 row.1 row.2 atts).mp
      (by rwa [Nat.zero_add])
    have := hmem.2.1
    omega
  refine foldAgg_inj hfolds (fun row hrow row' hrow' hkey => ?_) hfold hfold'
  exact List.inj_on_of_nodup_map hkeys (List.mem_range.mpr (hlt hrow))
    (List.mem_range.mpr (hlt hrow')) hkey

/-- A list that is too short fails an anchored check. -/
theorem verifyAnchoredAggregate_short {aggStart anchoredEpoch : ℤ} {commit : PyStr}
    {atts : List (Attestation κ)} (h : (atts.length : ℤ) < anchoredEpoch) :
    ∃ reason, verifyAnchoredAggregate atts initialKey aggStart anchoredEpoch commit =
      .ok (some reason) := by
  rw [verifyAnchoredAggregate]
  split_ifs
  · exact ⟨_, rfl⟩
  · exact ⟨_, rfl⟩
  · exact ⟨_, rfl⟩

/-- **An anchored commitment binds the rows below it**: two lists that both pass hold the same
rows of the aggregate scheme in the same places, and no list with too few rows passes. -/
theorem verifyAnchoredAggregate_binds (initialKey : Bytes) (aggStart anchoredEpoch : ℤ)
    (commit : PyStr) (atts atts' : List (Attestation κ))
    (hkeys : ((List.range anchoredEpoch.toNat).map (epochKey initialKey)).Nodup)
    (hfolds : HmacFree (anchoredFolds initialKey aggStart anchoredEpoch atts ++
      anchoredFolds initialKey aggStart anchoredEpoch atts'))
    (hframes : CollisionFree (anchoredFrames initialKey aggStart anchoredEpoch atts ++
      anchoredFrames initialKey aggStart anchoredEpoch atts')) :
    (verifyAnchoredAggregate atts initialKey aggStart anchoredEpoch commit = .ok none →
      verifyAnchoredAggregate atts' initialKey aggStart anchoredEpoch commit = .ok none →
        ∀ i : ℕ, aggStart ≤ i → i < anchoredEpoch →
          ∀ value, AggregatedAt atts i value ↔ AggregatedAt atts' i value) ∧
    ∀ short : List (Attestation κ), short.length < anchoredEpoch →
      ∃ reason, verifyAnchoredAggregate short initialKey aggStart anchoredEpoch commit =
        .ok (some reason) := by
  refine ⟨fun h h' i hstart hepoch value => ?_, fun short => verifyAnchoredAggregate_short⟩
  have hrows := aggRows_eq_of_anchored hkeys hfolds hframes h h'
  have hmem := @mem_aggRows κ aggStart anchoredEpoch 0 i value
  simp only [Nat.zero_add, hstart, hepoch, true_and] at hmem
  rw [← hmem, ← hmem, hrows]

/-! ## Honest accumulators -/

/-- An accumulator that is the fold over the rows of its trail: it has no row to take in yet, or
holds all of them from its start up to its epoch. -/
inductive Accumulated (initialKey : Bytes) (atts : List (Attestation κ)) :
    Option (ℤ × ℤ × PyStr) → Prop
  | missing (h : ∀ att ∈ atts, att.scheme ≠ fsHmacAggScheme) : Accumulated initialKey atts none
  | running {aggStart epoch : ℤ} {agg : PyStr} (hzero : 0 ≤ aggStart) (hstart : aggStart ≤ epoch)
      (hlength : epoch ≤ atts.length)
      (hfold : foldAgg initialKey aggGenesis (aggRows aggStart epoch 0 atts) = .ok agg)
      (hrows : ∀ i value, AggregatedAt atts i value → aggStart ≤ i ∧ i < epoch) :
      Accumulated initialKey atts (some (aggStart, epoch, agg))

omit [Hashlib] in
theorem aggregatedAt_snoc {atts : List (Attestation κ)} {att : Attestation κ} {i : ℕ}
    {value : PyStr} (h : AggregatedAt (atts ++ [att]) i value) :
    AggregatedAt atts i value ∨ i = atts.length ∧ att.scheme = fsHmacAggScheme := by
  obtain ⟨att', hatt, hscheme, hvalue⟩ := h
  rcases Nat.lt_trichotomy i atts.length with hlt | rfl | hgt
  · rw [List.getElem?_append_left hlt] at hatt
    exact .inl ⟨att', hatt, hscheme, hvalue⟩
  · rw [List.getElem?_concat_length] at hatt
    obtain rfl := Option.some.inj hatt
    exact .inr ⟨rfl, hscheme⟩
  · rw [List.getElem?_eq_none (by rw [List.length_append, List.length_singleton]; omega)] at hatt
    cases hatt

omit [Hashlib] in
/-- No fold takes in rows of other schemes. -/
theorem aggRows_eq_nil {aggStart epoch : ℤ} {position : ℕ} {atts : List (Attestation κ)}
    (h : ∀ att ∈ atts, att.scheme ≠ fsHmacAggScheme) :
    aggRows aggStart epoch position atts = [] := by
  induction atts generalizing position with
  | nil => rfl
  | cons att atts ih =>
      rw [List.forall_mem_cons] at h
      rw [aggRows]
      split_ifs with hepoch hrow
      · rfl
      · exact absurd hrow.2 h.1
      · exact ih h.2

/-- A row of another scheme changes no accumulator. -/
theorem Accumulated.snoc_plain {atts : List (Attestation κ)} {att : Attestation κ}
    {state : Option (ℤ × ℤ × PyStr)} (h : Accumulated initialKey atts state)
    (hscheme : att.scheme ≠ fsHmacAggScheme) : Accumulated initialKey (atts ++ [att]) state := by
  cases h with
  | missing h =>
      exact .missing (List.forall_mem_append.mpr ⟨h, List.forall_mem_singleton.mpr hscheme⟩)
  | running hzero hstart hlength hfold hrows =>
      refine .running hzero hstart ?_ ?_ fun i value hrow => ?_
      · rw [List.length_append]
        push_cast
        omega
      · rwa [aggRows_append_of_le (by push_cast; omega)]
      · rcases aggregatedAt_snoc hrow with hrow | ⟨-, hscheme'⟩
        · exact hrows i value hrow
        · exact absurd hscheme' hscheme

/-- A new row of the aggregate scheme is folded into the accumulator of the epoch before. -/
theorem Accumulated.snoc_fold {atts : List (Attestation κ)} {att : Attestation κ}
    {aggStart : ℤ} {prev agg : PyStr}
    (h : Accumulated initialKey atts (some (aggStart, (atts.length : ℤ), prev)))
    (hscheme : att.scheme = fsHmacAggScheme)
    (hstep : aggregateStep (epochKey initialKey atts.length) prev att.value = .ok agg) :
    Accumulated initialKey (atts ++ [att]) (some (aggStart, (atts.length : ℤ) + 1, agg)) := by
  cases h with
  | running hzero hstart hlength hfold hrows =>
      refine .running hzero (by omega) ?_ ?_ fun i value hrow => ?_
      · rw [List.length_append]
        exact Int.le_refl _
      · rw [aggRows_snoc att (by push_cast; omega), if_pos ⟨hstart, hscheme⟩, foldAgg_append,
          hfold, Nat.zero_add]
        exact bind_eq_ok_iff.mpr ⟨prev, rfl, bind_eq_ok_iff.mpr ⟨agg, hstep, rfl⟩⟩
      · rcases aggregatedAt_snoc hrow with hrow | ⟨rfl, -⟩
        · have := hrows i value hrow
          omega
        · omega

/-- The first row of the aggregate scheme starts the accumulator. -/
theorem Accumulated.snoc_first {atts : List (Attestation κ)} {att : Attestation κ} {agg : PyStr}
    (h : Accumulated initialKey atts none) (hscheme : att.scheme = fsHmacAggScheme)
    (hstep : aggregateStep (epochKey initialKey atts.length) aggGenesis att.value = .ok agg) :
    Accumulated initialKey (atts ++ [att]) (some ((atts.length : ℤ), (atts.length : ℤ) + 1, agg)) := by
  cases h with
  | missing h =>
      refine Accumulated.snoc_fold (.running (by omega) (Int.le_refl _) (Int.le_refl _) ?_ ?_) hscheme hstep
      · rw [aggRows_eq_nil h]
        rfl
      · rintro i value ⟨att', hatt, hscheme', -⟩
        exact absurd hscheme' (h att' (List.mem_of_getElem? hatt))

/-- An honest accumulator is a digest, or the value it started from. -/
theorem Accumulated.digest {atts : List (Attestation κ)} {aggStart epoch : ℤ}
    (h : Accumulated initialKey atts (some (aggStart, epoch, agg))) :
    ∃ digest : Bytes32, agg = hex digest.val := by
  cases h with
  | running hzero hstart hlength hfold hrows => exact foldAgg_digest hfold

/-- **An honest accumulator verifies.** -/
theorem Accumulated.verifyAggregate {atts : List (Attestation κ)} {aggStart epoch : ℤ}
    (h : Accumulated initialKey atts (some (aggStart, epoch, agg))) :
    verifyAggregate atts initialKey aggStart epoch agg = .ok none := by
  obtain ⟨digest, hdigest⟩ := h.digest
  cases h with
  | running hzero hstart hlength hfold hrows =>
      have hloop := @aggregateLoop_eq _ κ initialKey aggStart epoch 0 aggGenesis atts
      rw [show epochKey initialKey 0 = initialKey from rfl, hfold] at hloop
      have hpast : ¬ (atts.drop epoch.toNat).any (·.scheme = fsHmacAggScheme) = true := by
        intro hany
        obtain ⟨att, hatt, hscheme⟩ := List.any_eq_true.mp hany
        obtain ⟨i, hi⟩ := List.mem_iff_getElem?.mp hatt
        rw [List.getElem?_drop] at hi
        have := hrows (epoch.toNat + i) att.value ⟨att, hi, of_decide_eq_true hscheme, rfl⟩
        omega
      have hhex : ¬ (fromhex agg).isNone = true := by
        rw [hdigest, fromhex_hex]
        exact Bool.false_ne_true
      rw [Waxseal.verifyAggregate, if_neg (not_not.mpr ⟨hzero, hstart⟩), if_neg (Int.not_lt.mpr hlength),
        if_neg hhex, if_neg hpast]
      simp only [hloop, ne_eq, not_true_eq_false, if_false]

/-- **The commitment to a fold passes the anchored check** on every trail that goes on from
there. -/
theorem verifyAnchoredAggregate_of_fold {atts : List (Attestation κ)} {aggStart epoch : ℤ}
    {commit : PyStr} (hzero : 0 ≤ aggStart) (hstart : aggStart ≤ epoch)
    (hlength : epoch ≤ atts.length)
    (hfold : foldAgg initialKey aggGenesis (aggRows aggStart epoch 0 atts) = .ok agg)
    (hcommit : aggregateCommit epoch agg = .ok commit) :
    verifyAnchoredAggregate atts initialKey aggStart epoch commit = .ok none := by
  have hloop := @aggregateLoop_eq _ κ initialKey aggStart epoch 0 aggGenesis atts
  rw [show epochKey initialKey 0 = initialKey from rfl, hfold] at hloop
  have hdigest : ∃ b, commit = hex b := by
    rw [aggregateCommit_eq] at hcommit
    cases hframe : aggregateCommitFrame epoch agg with
    | error e =>
        rw [hframe] at hcommit
        cases hcommit
    | ok frame =>
        rw [hframe] at hcommit
        exact ⟨_, (Except.ok.inj hcommit).symm⟩
  obtain ⟨b, rfl⟩ := hdigest
  have hhex : ¬ (fromhex (hex b)).isNone = true := by
    rw [fromhex_hex]
    exact Bool.false_ne_true
  rw [verifyAnchoredAggregate, if_neg (not_not.mpr ⟨hzero, hstart⟩), if_neg hhex,
    if_neg (Int.not_lt.mpr hlength)]
  simp only [hloop, hcommit]
  exact bind_eq_ok_iff.mpr ⟨hex b, rfl, bind_eq_ok_iff.mpr ⟨true, compareDigest_hex b, rfl⟩⟩

/-- What an honest accumulator commits to passes on its own trail and on all that follow. -/
theorem Accumulated.verifyAnchoredAggregate {atts more : List (Attestation κ)}
    {aggStart epoch : ℤ} {commit : PyStr}
    (h : Accumulated initialKey atts (some (aggStart, epoch, agg)))
    (hcommit : aggregateCommit epoch agg = .ok commit) :
    verifyAnchoredAggregate (atts ++ more) initialKey aggStart epoch commit = .ok none := by
  cases h with
  | running hzero hstart hlength hfold hrows =>
      refine verifyAnchoredAggregate_of_fold hzero hstart ?_ ?_ hcommit
      · rw [List.length_append]
        push_cast
        omega
      · rwa [aggRows_append_of_le (by push_cast; omega)]

/-! ## Two trails of one prefix -/

/-- A row with a scheme and a value. -/
def rowOf (scheme value : PyStr) : Attestation Unit := ⟨0, [], scheme, value, ()⟩

/-- One row of the aggregate scheme, and one that is not. -/
def sealedTrail : List (Attestation Unit) :=
  [rowOf fsHmacAggScheme (str "aa"), rowOf fsHmacScheme (str "bb")]

/-- It has grown, and the row that no fold takes in is another one. -/
def grownTrail : List (Attestation Unit) :=
  [rowOf fsHmacAggScheme (str "aa"), rowOf fsHmacScheme (str "cc"),
    rowOf fsHmacAggScheme (str "dd")]

/-- The commitment to two rows of the shorter one. -/
def sealedCommit : PyStr :=
  ((foldAgg [] aggGenesis (aggRows 0 2 0 sealedTrail) >>= aggregateCommit 2).toOption).getD []

omit [Hashlib] in
/-- Both pass, and hold the same row. -/
theorem verifyAnchoredAggregate_binds_grown :
    letI := Sha256.hashlib
    AggregatedAt sealedTrail 0 (str "aa") ↔ AggregatedAt grownTrail 0 (str "aa") := by
  let _ := Sha256.hashlib
  have hbinds := verifyAnchoredAggregate_binds [] 0 2 sealedCommit sealedTrail grownTrail
    (by decide +kernel) ⟨by decide +kernel, by decide +kernel⟩ (by decide +kernel)
  exact hbinds.1 (by decide +kernel) (by decide +kernel) 0 (by decide) (by decide) (str "aa")

end Fold

end Waxseal
