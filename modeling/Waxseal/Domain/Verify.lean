import Mathlib.Data.Set.Function
import Waxseal.Base.HashChain
import Waxseal.Domain.Registry

/-!
# Chain verification

`domain/verify.py`.  `verifyChain` walks the entries once and reports the first
break; rows whose fingerprint the registry cannot recompute are collected as
unverifiable and still anchor the next row.

The loop body is `verifyRow`, one outcome a row, and `verifyLoop` threads the
accumulators.  Both guarantees of the file are read off the rows:

* `verifyChain_tamper_evident` — a report with nothing unverifiable makes the
  list a hash chain in the sense of `Waxseal.Base.HashChain`, whose last hash
  commits to everything before it;
* `verifyChain_knowledge_monotone` — at each row a registry that knows more
  gives the same outcome, or checks what the other left unverifiable.
-/

namespace Waxseal

/-- Why a row is a break. -/
inductive BreakReason where
  | seqGap
  | prevHashMismatch
  | entryHashMismatch
  | payloadHashMismatch
  deriving DecidableEq, Repr

/-- `VerifyResult`. -/
structure VerifyResult where
  ok : Bool
  checked : ℕ
  brokenSeq : Option ℤ
  reason : Option BreakReason
  unverifiable : List ℤ
  droppedWrites : Option ℕ
  dropsSource : Option PyStr
  deriving DecidableEq

/-- What one pass of the loop body concludes about a row. -/
inductive RowOutcome where
  | broken (reason : BreakReason)
  | unverifiable
  | checked
  deriving DecidableEq

variable [Hashlib]

/-- The `else` branch of the loop body: recompute the row under `encoder`. -/
def recomputeRow (encoder : Encoder) (entry : Entry) : Except PyErr RowOutcome :=
  match computeEntryHash encoder entry.header with
  -- a header with no UTF-8 form can never reproduce the stored hash
  | .error .lpEncodingError => .ok (.broken .entryHashMismatch)
  | .error e => .error e
  | .ok recomputed =>
      if recomputed ≠ entry.entryHash then .ok (.broken .entryHashMismatch)
      else
        match entry.payload with
        | none => .ok .checked
        | some payload =>
            if computePayloadHash payload ≠ entry.header.payloadHash then
              .ok (.broken .payloadHashMismatch)
            else .ok .checked

/-- The loop body of `verify_chain`, in the order it makes its checks. -/
def verifyRow (registry : VersionRegistry) (expectedSeq : ℕ) (expectedPrev : PyStr)
    (entry : Entry) : Except PyErr RowOutcome :=
  if entry.header.seq ≠ expectedSeq then .ok (.broken .seqGap)
  else if entry.header.prevHash ≠ expectedPrev then .ok (.broken .prevHashMismatch)
  else
    match registry.encoderFor entry.header.hashVersion with
    | none => .ok .unverifiable
    | some encoder => recomputeRow encoder entry

/-- The loop of `verify_chain` with its accumulators. -/
def verifyLoop (registry : VersionRegistry) :
    ℕ → PyStr → ℕ → List ℤ → List Entry → Except PyErr VerifyResult
  | _, _, checked, unverifiable, [] =>
      .ok { ok := true, checked, brokenSeq := none, reason := none, unverifiable,
            droppedWrites := none, dropsSource := none }
  | expectedSeq, expectedPrev, checked, unverifiable, entry :: entries =>
      match verifyRow registry expectedSeq expectedPrev entry with
      | .error e => .error e
      | .ok (.broken reason) =>
          .ok { ok := false, checked, brokenSeq := some entry.header.seq,
                reason := some reason, unverifiable,
                droppedWrites := none, dropsSource := none }
      -- `expected_prev` advances through unverifiable rows too
      | .ok .unverifiable =>
          verifyLoop registry (expectedSeq + 1) entry.entryHash checked
            (unverifiable ++ [entry.header.seq]) entries
      | .ok .checked =>
          verifyLoop registry (expectedSeq + 1) entry.entryHash (checked + 1)
            unverifiable entries

/-- `verify_chain(entries, registry)`. -/
def verifyChain (entries : List Entry) (registry : VersionRegistry) :
    Except PyErr VerifyResult :=
  verifyLoop registry 0 genesisPrevHash 0 [] entries

/-- The rows a report accounts for before it stops. -/
def VerifyResult.accepted (r : VerifyResult) : ℕ := r.checked + r.unverifiable.length

/-! ## One row -/

section Row

variable {registry : VersionRegistry} {n : ℕ} {prev : PyStr} {entry : Entry}

/-- What a checked row has passed. -/
structure RowChecked (registry : VersionRegistry) (n : ℕ) (prev : PyStr) (entry : Entry) :
    Prop where
  seq : entry.header.seq = n
  link : entry.header.prevHash = prev
  recomputable : registry.encoderFor entry.header.hashVersion = some headerFrame
  hash : computeEntryHash headerFrame entry.header = .ok entry.entryHash
  payload : ∀ p, entry.payload = some p → computePayloadHash p = entry.header.payloadHash

theorem recomputeRow_eq_checked_iff {encoder : Encoder} :
    recomputeRow encoder entry = .ok .checked ↔
      computeEntryHash encoder entry.header = .ok entry.entryHash ∧
        ∀ p, entry.payload = some p → computePayloadHash p = entry.header.payloadHash := by
  unfold recomputeRow
  cases computeEntryHash encoder entry.header with
  | error e => cases e <;> simp
  | ok recomputed =>
      by_cases hhash : recomputed = entry.entryHash
      · cases entry.payload with
        | none => simp [hhash]
        | some p => by_cases hpay : computePayloadHash p = entry.header.payloadHash <;> simp [hhash, hpay]
      · simp [hhash]

theorem recomputeRow_ne_unverifiable {encoder : Encoder} :
    recomputeRow encoder entry ≠ .ok .unverifiable := by
  unfold recomputeRow
  cases computeEntryHash encoder entry.header with
  | error e => cases e <;> simp
  | ok recomputed =>
      cases entry.payload <;> simp only <;> split_ifs <;> simp

/-- A row in its place, with its link intact, is decided by the registry. -/
theorem verifyRow_of_linked (hseq : entry.header.seq = n) (hlink : entry.header.prevHash = prev) :
    verifyRow registry n prev entry =
      match registry.encoderFor entry.header.hashVersion with
      | none => .ok .unverifiable
      | some encoder => recomputeRow encoder entry := by
  rw [verifyRow, if_neg (not_not.mpr hseq), if_neg (not_not.mpr hlink)]

/-- Any other row is a break, whatever the registry knows. -/
theorem verifyRow_of_not_linked
    (h : ¬ (entry.header.seq = n ∧ entry.header.prevHash = prev)) :
    ∃ reason, ∀ registry, verifyRow registry n prev entry = .ok (.broken reason) := by
  by_cases hseq : entry.header.seq = n
  · have hlink : entry.header.prevHash ≠ prev := fun hlink => h ⟨hseq, hlink⟩
    exact ⟨.prevHashMismatch, fun _ => by rw [verifyRow, if_neg (not_not.mpr hseq), if_pos hlink]⟩
  · exact ⟨.seqGap, fun _ => by rw [verifyRow, if_pos hseq]⟩

/-- A row that is not a break is in its place, with its link intact. -/
theorem linked_of_verifyRow {outcome : RowOutcome}
    (h : verifyRow registry n prev entry = .ok outcome) (hne : ∀ reason, outcome ≠ .broken reason) :
    entry.header.seq = n ∧ entry.header.prevHash = prev := by
  by_contra hnot
  obtain ⟨reason, hbroken⟩ := verifyRow_of_not_linked hnot
  rw [hbroken registry] at h
  exact hne reason (Except.ok.inj h).symm

theorem verifyRow_eq_checked_iff :
    verifyRow registry n prev entry = .ok .checked ↔ RowChecked registry n prev entry := by
  constructor
  · intro h
    obtain ⟨hseq, hlink⟩ := linked_of_verifyRow h (by simp)
    rw [verifyRow_of_linked hseq hlink] at h
    cases henc : registry.encoderFor entry.header.hashVersion with
    | none => rw [henc] at h; cases h
    | some encoder =>
        obtain rfl := VersionRegistry.eq_headerFrame_of_encoderFor henc
        rw [henc] at h
        obtain ⟨hhash, hpay⟩ := recomputeRow_eq_checked_iff.mp h
        exact ⟨hseq, hlink, henc, hhash, hpay⟩
  · intro hc
    rw [verifyRow_of_linked hc.seq hc.link, hc.recomputable]
    exact recomputeRow_eq_checked_iff.mpr ⟨hc.hash, hc.payload⟩

theorem verifyRow_eq_unverifiable_iff :
    verifyRow registry n prev entry = .ok .unverifiable ↔
      (entry.header.seq = n ∧ entry.header.prevHash = prev) ∧
        registry.encoderFor entry.header.hashVersion = none := by
  constructor
  · intro h
    obtain ⟨hseq, hlink⟩ := linked_of_verifyRow h (by simp)
    rw [verifyRow_of_linked hseq hlink] at h
    refine ⟨⟨hseq, hlink⟩, ?_⟩
    cases henc : registry.encoderFor entry.header.hashVersion with
    | none => rfl
    | some encoder => rw [henc] at h; exact absurd h recomputeRow_ne_unverifiable
  · rintro ⟨⟨hseq, hlink⟩, henc⟩
    rw [verifyRow_of_linked hseq hlink, henc]

theorem recomputeRow_error {e : PyErr} (h : recomputeRow headerFrame entry = .error e) :
    ¬ entry.header.Fits := by
  unfold recomputeRow at h
  cases hhash : computeEntryHash headerFrame entry.header with
  | ok recomputed =>
      rw [hhash] at h
      cases hp : entry.payload <;> simp only [hp] at h <;> split_ifs at h
  | error e' =>
      have herr := headerFrame_error (computeEntryHash_eq_error_iff.mp hhash)
      refine herr.resolve_left ?_
      rintro rfl
      rw [hhash] at h
      cases h

/-- A row raises only when a header field is too long to length-prefix. -/
theorem verifyRow_error {e : PyErr} (h : verifyRow registry n prev entry = .error e) :
    ¬ entry.header.Fits := by
  by_cases hlinked : entry.header.seq = n ∧ entry.header.prevHash = prev
  · rw [verifyRow_of_linked hlinked.1 hlinked.2] at h
    cases henc : registry.encoderFor entry.header.hashVersion with
    | none => rw [henc] at h; cases h
    | some encoder =>
        obtain rfl := VersionRegistry.eq_headerFrame_of_encoderFor henc
        rw [henc] at h
        exact recomputeRow_error h
  · obtain ⟨reason, hbroken⟩ := verifyRow_of_not_linked hlinked
    rw [hbroken registry] at h
    cases h

end Row

/-! ## Tamper evidence -/

/-- The inputs `verify_chain` hashes on one row: its frame, when the registry can
recompute it, and its payload, when it is available. -/
def rowInputs (registry : VersionRegistry) (entry : Entry) : List Bytes :=
  ((registry.encoderFor entry.header.hashVersion).bind
      fun encoder => (encoder entry.header).toOption).toList ++ entry.payload.toList

/-- The inputs `verify_chain` hashes on a list of entries. -/
def verifyInputs (registry : VersionRegistry) (entries : List Entry) : List Bytes :=
  entries.flatMap (rowInputs registry)

theorem frame_mem_verifyInputs {registry : VersionRegistry} {entries : List Entry} {e : Entry}
    {encoder : Encoder} {b : Bytes} (he : e ∈ entries)
    (henc : registry.encoderFor e.header.hashVersion = some encoder)
    (hb : encoder e.header = .ok b) : b ∈ verifyInputs registry entries :=
  List.mem_flatMap.mpr ⟨e, he, by simp [rowInputs, henc, hb, Except.toOption]⟩

theorem payload_mem_verifyInputs {registry : VersionRegistry} {entries : List Entry} {e : Entry}
    {p : Bytes} (he : e ∈ entries) (hp : e.payload = some p) :
    p ∈ verifyInputs registry entries :=
  List.mem_flatMap.mpr ⟨e, he, by simp [rowInputs, hp]⟩

/-- A report that is ok has accounted for every row: the loop's accumulators
start where it started and grow by one a row. -/
theorem verifyLoop_ok_accepted {registry : VersionRegistry} {entries : List Entry} :
    ∀ {n : ℕ} {prev : PyStr} {checked : ℕ} {unverifiable : List ℤ} {r : VerifyResult},
      verifyLoop registry n prev checked unverifiable entries = .ok r → r.ok = true →
        r.accepted = checked + unverifiable.length + entries.length := by
  induction entries with
  | nil =>
      intro n prev checked unverifiable r h _
      obtain rfl := Except.ok.inj h
      simp [VerifyResult.accepted]
  | cons entry entries ih =>
      intro n prev checked unverifiable r h hok
      rw [verifyLoop] at h
      cases hrow : verifyRow registry n prev entry with
      | error e => rw [hrow] at h; cases h
      | ok outcome =>
          rw [hrow] at h
          cases outcome with
          | broken reason =>
              obtain rfl := Except.ok.inj h
              cases hok
          | unverifiable =>
              rw [ih h hok]
              simp only [List.length_append, List.length_cons, List.length_nil]
              omega
          | checked =>
              rw [ih h hok]
              simp only [List.length_cons]
              omega

/-- The loop never forgets a row it called unverifiable. -/
theorem verifyLoop_unverifiable_subset {registry : VersionRegistry} {entries : List Entry} :
    ∀ {n : ℕ} {prev : PyStr} {checked : ℕ} {unverifiable : List ℤ} {r : VerifyResult},
      verifyLoop registry n prev checked unverifiable entries = .ok r →
        unverifiable ⊆ r.unverifiable := by
  induction entries with
  | nil =>
      intro n prev checked unverifiable r h
      obtain rfl := Except.ok.inj h
      exact fun _ hx => hx
  | cons entry entries ih =>
      intro n prev checked unverifiable r h
      rw [verifyLoop] at h
      cases hrow : verifyRow registry n prev entry with
      | error e => rw [hrow] at h; cases h
      | ok outcome =>
          rw [hrow] at h
          cases outcome with
          | broken reason =>
              obtain rfl := Except.ok.inj h
              exact fun _ hx => hx
          | unverifiable =>
              exact fun x hx => ih h (List.mem_append_left _ hx)
          | checked => exact ih h

/-- **A clean report makes the entries a hash chain** of rows that were all
recomputed. -/
theorem verifyLoop_clean {registry : VersionRegistry} {entries : List Entry} :
    ∀ {n : ℕ} {prev : PyStr} {checked : ℕ} {r : VerifyResult},
      verifyLoop registry n prev checked [] entries = .ok r → r.ok = true →
      r.unverifiable = [] →
        Chained (fun e : Entry => e.header.prevHash) Entry.entryHash prev entries ∧
        ∀ e ∈ entries, ∃ m p, RowChecked registry m p e := by
  induction entries with
  | nil => intro n prev checked r _ _ _; exact ⟨trivial, by simp⟩
  | cons entry entries ih =>
      intro n prev checked r h hok hclean
      rw [verifyLoop] at h
      cases hrow : verifyRow registry n prev entry with
      | error e => rw [hrow] at h; cases h
      | ok outcome =>
          rw [hrow] at h
          cases outcome with
          | broken reason =>
              obtain rfl := Except.ok.inj h
              cases hok
          | unverifiable =>
              have hmem := verifyLoop_unverifiable_subset h
                (List.mem_append_right [] List.mem_cons_self)
              rw [hclean] at hmem
              cases hmem
          | checked =>
              have hchecked := verifyRow_eq_checked_iff.mp hrow
              obtain ⟨hchain, hrows⟩ := ih h hok hclean
              refine ⟨⟨hchecked.link, hchain⟩, fun e he => ?_⟩
              rcases List.mem_cons.mp he with rfl | he
              · exact ⟨n, prev, hchecked⟩
              · exact hrows e he

/-- **Tamper evidence of `verify_chain`.**  Two lists of one length that both
verify with nothing unverifiable and end in the same entry hash carry the same
headers and entry hashes throughout, and the same payloads wherever both have
one.  SHA-256 is assumed injective on the inputs the two runs hash. -/
theorem verifyChain_tamper_evident (registry : VersionRegistry) (es es' : List Entry)
    (r r' : VerifyResult) (hlen : es.length = es'.length)
    (hr : verifyChain es registry = .ok r) (hok : r.ok = true) (hclean : r.unverifiable = [])
    (hr' : verifyChain es' registry = .ok r') (hok' : r'.ok = true)
    (hclean' : r'.unverifiable = [])
    (hend : es.getLast?.map Entry.entryHash = es'.getLast?.map Entry.entryHash)
    (hfree : CollisionFree (verifyInputs registry es ++ verifyInputs registry es')) :
    List.Forall₂ (fun e e' => e.header = e'.header ∧ e.entryHash = e'.entryHash ∧
      ∀ p p', e.payload = some p → e'.payload = some p' → p = p') es es' := by
  obtain ⟨hchain, hrows⟩ := verifyLoop_clean hr hok hclean
  obtain ⟨hchain', hrows'⟩ := verifyLoop_clean hr' hok' hclean'
  -- equal entry hashes come from equal frames, hence from equal headers
  have hkey : ∀ e ∈ es, ∀ e' ∈ es', e.entryHash = e'.entryHash → e.header = e'.header := by
    intro e he e' he' heq
    obtain ⟨m, p, hc⟩ := hrows e he
    obtain ⟨m', p', hc'⟩ := hrows' e' he'
    obtain ⟨b, hb, hbe⟩ := computeEntryHash_eq_ok_iff.mp hc.hash
    obtain ⟨b', hb', hbe'⟩ := computeEntryHash_eq_ok_iff.mp hc'.hash
    have hsha : sha256 b = sha256 b' :=
      hexdigest_eq_iff.mp (hbe.trans (heq.trans hbe'.symm))
    have hbb : b = b' :=
      hfree b (List.mem_append_left _ (frame_mem_verifyInputs he hc.recomputable hb))
        b' (List.mem_append_right _ (frame_mem_verifyInputs he' hc'.recomputable hb')) hsha
    exact headerFrame_inj hb (hbb ▸ hb')
  have hhead : headHash Entry.entryHash genesisPrevHash es
      = headHash Entry.entryHash genesisPrevHash es' := by
    rw [headHash_eq_getLast?, headHash_eq_getLast?, hend]
  have hprev : ∀ e e' : Entry, e.header = e'.header → e.header.prevHash = e'.header.prevHash :=
    fun _ _ h => congrArg EntryHeader.prevHash h
  obtain ⟨-, hall⟩ := Chained.commits hprev hkey hlen hchain hchain' hhead
  rw [List.forall₂_iff_get] at hall ⊢
  refine ⟨hall.1, fun i hi hi' => ?_⟩
  obtain ⟨hheader, hhash⟩ := hall.2 i hi hi'
  refine ⟨hheader, hhash, fun p p' hp hp' => ?_⟩
  obtain ⟨m, q, hc⟩ := hrows _ (List.get_mem es ⟨i, hi⟩)
  obtain ⟨m', q', hc'⟩ := hrows' _ (List.get_mem es' ⟨i, hi'⟩)
  have hpay : computePayloadHash p = computePayloadHash p' := by
    rw [hc.payload p hp, hc'.payload p' hp', hheader]
  exact hfree p (List.mem_append_left _ (payload_mem_verifyInputs (List.get_mem es ⟨i, hi⟩) hp))
    p' (List.mem_append_right _ (payload_mem_verifyInputs (List.get_mem es' ⟨i, hi'⟩) hp'))
    (hexdigest_eq_iff.mp hpay)

omit [Hashlib] in
/-- A one-row chain under SHA-256 itself. -/
def tamperEvidentRow (payload : Option Bytes) : Entry :=
  letI := Sha256.hashlib
  let header : EntryHeader :=
    { seq := 0, ts := str "t", hashVersion := fingerprint, payloadType := str "a",
      payloadHash := computePayloadHash [1, 2], prevHash := genesisPrevHash }
  { header, entryHash := (computeEntryHash headerFrame header).toOption.getD [], payload }

omit [Hashlib] in
theorem verifyChain_tamper_evident_row :
    letI := Sha256.hashlib
    List.Forall₂ (fun e e' : Entry => e.header = e'.header ∧ e.entryHash = e'.entryHash ∧
      ∀ p p', e.payload = some p → e'.payload = some p' → p = p')
      [tamperEvidentRow (some [1, 2])] [tamperEvidentRow none] := by
  let _ := Sha256.hashlib
  have report : ∀ payload ∈ [some [1, 2], none],
      verifyChain [tamperEvidentRow payload] VersionRegistry.new =
        .ok ⟨true, 1, none, none, [], none, none⟩ := by decide +kernel
  exact verifyChain_tamper_evident VersionRegistry.new _ _ ⟨true, 1, none, none, [], none, none⟩
    ⟨true, 1, none, none, [], none, none⟩ rfl (report _ (by simp)) rfl rfl (report _ (by simp))
    rfl rfl rfl (by decide +kernel)

/-! ## Knowledge monotonicity -/

/-- The rows called unverifiable are distinct positions, in order. -/
theorem verifyLoop_unverifiable_pairwise {registry : VersionRegistry} {entries : List Entry} :
    ∀ {n : ℕ} {prev : PyStr} {checked : ℕ} {unverifiable : List ℤ} {r : VerifyResult},
      verifyLoop registry n prev checked unverifiable entries = .ok r →
      unverifiable.Pairwise (· < ·) → (∀ seq ∈ unverifiable, seq < n) →
        r.unverifiable.Pairwise (· < ·) := by
  induction entries with
  | nil =>
      intro n prev checked unverifiable r h hsorted _
      obtain rfl := Except.ok.inj h
      exact hsorted
  | cons entry entries ih =>
      intro n prev checked unverifiable r h hsorted hlt
      have hlt' : ∀ seq ∈ unverifiable, seq < ((n + 1 : ℕ) : ℤ) := by
        intro seq hseq
        have := hlt seq hseq
        omega
      rw [verifyLoop] at h
      cases hrow : verifyRow registry n prev entry with
      | error e => rw [hrow] at h; cases h
      | ok outcome =>
          rw [hrow] at h
          cases outcome with
          | broken reason =>
              obtain rfl := Except.ok.inj h
              exact hsorted
          | unverifiable =>
              have hseq : entry.header.seq = n := (verifyRow_eq_unverifiable_iff.mp hrow).1.1
              refine ih h ?_ ?_
              · rw [List.pairwise_append]
                refine ⟨hsorted, List.pairwise_singleton _ _, fun a ha b hb => ?_⟩
                rw [List.mem_singleton.mp hb, hseq]
                exact hlt a ha
              · intro seq hmem
                rcases List.mem_append.mp hmem with hold | hnew
                · exact hlt' seq hold
                · rw [List.mem_singleton.mp hnew, hseq]
                  omega
          | checked => exact ih h hsorted hlt'

/-- `R₂` can recompute every fingerprint `R₁` can, with the same encoder. -/
def VersionRegistry.KnowsAtLeast (R₂ R₁ : VersionRegistry) : Prop :=
  ∀ fp encoder, R₁.encoderFor fp = some encoder → R₂.encoderFor fp = some encoder

/-- At one row, knowing more changes nothing except where knowing less could not
decide. -/
theorem verifyRow_of_knowsAtLeast {R₁ R₂ : VersionRegistry} (hle : R₂.KnowsAtLeast R₁) (n : ℕ)
    (prev : PyStr) (entry : Entry) :
    verifyRow R₁ n prev entry = .ok .unverifiable ∨
      verifyRow R₂ n prev entry = verifyRow R₁ n prev entry := by
  by_cases hlinked : entry.header.seq = n ∧ entry.header.prevHash = prev
  · cases henc : R₁.encoderFor entry.header.hashVersion with
    | none => exact .inl (verifyRow_eq_unverifiable_iff.mpr ⟨hlinked, henc⟩)
    | some encoder =>
        right
        rw [verifyRow_of_linked hlinked.1 hlinked.2, verifyRow_of_linked hlinked.1 hlinked.2,
          henc, hle _ _ henc]
  · obtain ⟨reason, hbroken⟩ := verifyRow_of_not_linked hlinked
    exact .inr ((hbroken R₂).trans (hbroken R₁).symm)

/-- A report accounts for at least the rows the accumulators held. -/
theorem verifyLoop_accepted_ge {registry : VersionRegistry} {entries : List Entry} :
    ∀ {n : ℕ} {prev : PyStr} {checked : ℕ} {unverifiable : List ℤ} {r : VerifyResult},
      verifyLoop registry n prev checked unverifiable entries = .ok r →
        checked + unverifiable.length ≤ r.accepted := by
  induction entries with
  | nil =>
      intro n prev checked unverifiable r h
      obtain rfl := Except.ok.inj h
      exact le_rfl
  | cons entry entries ih =>
      intro n prev checked unverifiable r h
      rw [verifyLoop] at h
      cases hrow : verifyRow registry n prev entry with
      | error e => rw [hrow] at h; cases h
      | ok outcome =>
          rw [hrow] at h
          cases outcome with
          | broken reason =>
              obtain rfl := Except.ok.inj h
              exact le_rfl
          | unverifiable =>
              have := ih h
              simp only [List.length_append, List.length_cons, List.length_nil] at this
              omega
          | checked =>
              have := ih h
              omega

section Monotone

variable {R₁ R₂ : VersionRegistry} (hle : R₂.KnowsAtLeast R₁)
include hle

/-- Forgetting never turns an ok report into a break. -/
theorem verifyLoop_ok_of_knowsAtLeast {entries : List Entry} :
    ∀ {n : ℕ} {prev : PyStr} {c₁ c₂ : ℕ} {u₁ u₂ : List ℤ} {r₂ : VerifyResult},
      u₂ ⊆ u₁ → verifyLoop R₂ n prev c₂ u₂ entries = .ok r₂ → r₂.ok = true →
        ∃ r₁, verifyLoop R₁ n prev c₁ u₁ entries = .ok r₁ ∧ r₁.ok = true ∧
          r₂.unverifiable ⊆ r₁.unverifiable := by
  induction entries with
  | nil =>
      intro n prev c₁ c₂ u₁ u₂ r₂ hsub h _
      obtain rfl := Except.ok.inj h
      exact ⟨_, rfl, rfl, hsub⟩
  | cons entry entries ih =>
      intro n prev c₁ c₂ u₁ u₂ r₂ hsub h hok
      rw [verifyLoop] at h ⊢
      cases hrow : verifyRow R₂ n prev entry with
      | error e => rw [hrow] at h; cases h
      | ok outcome =>
          rw [hrow] at h
          cases outcome with
          | broken reason =>
              obtain rfl := Except.ok.inj h
              cases hok
          | unverifiable =>
              have happend : u₂ ++ [entry.header.seq] ⊆ u₁ ++ [entry.header.seq] :=
                List.append_subset.mpr ⟨fun x hx => List.mem_append_left _ (hsub hx),
                  fun x hx => List.mem_append_right _ hx⟩
              rcases verifyRow_of_knowsAtLeast hle n prev entry with h₁ | h₁
              · rw [h₁]
                exact ih happend h hok
              · rw [← h₁, hrow]
                exact ih happend h hok
          | checked =>
              rcases verifyRow_of_knowsAtLeast hle n prev entry with h₁ | h₁
              · rw [h₁]
                exact ih (fun x hx => List.mem_append_left _ (hsub hx)) h hok
              · rw [← h₁, hrow]
                exact ih hsub h hok

/-- Learning never moves a break later. -/
theorem verifyLoop_broken_of_knowsAtLeast {entries : List Entry} :
    ∀ {n : ℕ} {prev : PyStr} {c₁ c₂ : ℕ} {u₁ u₂ : List ℤ} {r₁ : VerifyResult},
      c₂ + u₂.length = c₁ + u₁.length →
      verifyLoop R₁ n prev c₁ u₁ entries = .ok r₁ → r₁.ok = false →
        (∃ r₂, verifyLoop R₂ n prev c₂ u₂ entries = .ok r₂ ∧ r₂.ok = false ∧
          r₂.accepted ≤ r₁.accepted) ∨ ∃ e ∈ entries, ¬ e.header.Fits := by
  induction entries with
  | nil =>
      intro n prev c₁ c₂ u₁ u₂ r₁ _ h hbroken
      obtain rfl := Except.ok.inj h
      cases hbroken
  | cons entry entries ih =>
      intro n prev c₁ c₂ u₁ u₂ r₁ hacc h hbroken
      -- a verdict on the rest of the list is a verdict on the whole of it
      have lift : ∀ {result : Except PyErr VerifyResult},
          ((∃ r₂, result = .ok r₂ ∧ r₂.ok = false ∧ r₂.accepted ≤ r₁.accepted) ∨
            ∃ e ∈ entries, ¬ e.header.Fits) →
          (∃ r₂, result = .ok r₂ ∧ r₂.ok = false ∧ r₂.accepted ≤ r₁.accepted) ∨
            ∃ e ∈ entry :: entries, ¬ e.header.Fits := by
        intro result hres
        exact hres.imp id fun ⟨e, he, hfits⟩ => ⟨e, List.mem_cons_of_mem _ he, hfits⟩
      rw [verifyLoop] at h ⊢
      rcases verifyRow_of_knowsAtLeast hle n prev entry with h₁ | h₁
      · rw [h₁] at h
        have hge := verifyLoop_accepted_ge h
        simp only [List.length_append, List.length_cons, List.length_nil] at hge
        cases hrow : verifyRow R₂ n prev entry with
        | error e => exact .inr ⟨entry, List.mem_cons_self, verifyRow_error hrow⟩
        | ok outcome =>
            cases outcome with
            | broken reason =>
                refine .inl ⟨_, rfl, rfl, ?_⟩
                simp only [VerifyResult.accepted] at hge ⊢
                omega
            | unverifiable =>
                refine lift (ih ?_ h hbroken)
                simp only [List.length_append, List.length_cons, List.length_nil]
                omega
            | checked =>
                refine lift (ih ?_ h hbroken)
                simp only [List.length_append, List.length_cons, List.length_nil]
                omega
      · rw [h₁]
        cases hrow : verifyRow R₁ n prev entry with
        | error e => rw [hrow] at h; cases h
        | ok outcome =>
            rw [hrow] at h
            cases outcome with
            | broken reason =>
                obtain rfl := Except.ok.inj h
                exact .inl ⟨_, rfl, rfl, hacc.le⟩
            | unverifiable =>
                refine lift (ih ?_ h hbroken)
                simp only [List.length_append, List.length_cons, List.length_nil]
                omega
            | checked => exact lift (ih (by omega) h hbroken)

end Monotone

/-- **Knowledge monotonicity of `verify_chain`.**  Against a registry that knows
less: (a) an ok report stays ok and can only call more rows unverifiable;
(b) a break it reports after accepting `k` rows is reported by the one that knows
more after at most `k` rows, unless some header field is too long for a 64-bit
length prefix, which makes that run raise `struct.error`; (c) an ok report
accounts for every row exactly once, the unverifiable ones at distinct positions. -/
theorem verifyChain_knowledge_monotone (entries : List Entry) (R₁ R₂ : VersionRegistry)
    (hle : R₂.KnowsAtLeast R₁) :
    (∀ r₂, verifyChain entries R₂ = .ok r₂ → r₂.ok = true →
      ∃ r₁, verifyChain entries R₁ = .ok r₁ ∧ r₁.ok = true ∧
        r₂.unverifiable ⊆ r₁.unverifiable) ∧
    (∀ r₁, verifyChain entries R₁ = .ok r₁ → r₁.ok = false →
      (∃ r₂, verifyChain entries R₂ = .ok r₂ ∧ r₂.ok = false ∧ r₂.accepted ≤ r₁.accepted) ∨
        ∃ e ∈ entries, ¬ e.header.Fits) ∧
    (∀ R r, verifyChain entries R = .ok r → r.ok = true →
      r.checked + r.unverifiable.length = entries.length ∧
        r.unverifiable.Pairwise (· < ·)) := by
  refine ⟨fun r₂ h hok => ?_, fun r₁ h hbroken => ?_, fun R r h hok => ⟨?_, ?_⟩⟩
  · exact verifyLoop_ok_of_knowsAtLeast hle (List.Subset.refl _) h hok
  · exact verifyLoop_broken_of_knowsAtLeast hle rfl h hbroken
  · simpa [VerifyResult.accepted] using verifyLoop_ok_accepted h hok
  · exact verifyLoop_unverifiable_pairwise h List.Pairwise.nil (by simp)

/-- A registry that has forgotten the released schema. -/
def forgetful : VersionRegistry where
  schemas := fun _ => none
  encoding := VersionRegistry.new.encoding
  seeded := VersionRegistry.new.seeded
  implemented := by simp

omit [Hashlib] in
theorem verifyChain_knowledge_monotone_forgetful :
    letI := Sha256.hashlib
    ∃ r₁, verifyChain [tamperEvidentRow none] forgetful = .ok r₁ ∧ r₁.ok = true ∧
      [] ⊆ r₁.unverifiable := by
  let _ := Sha256.hashlib
  have hle : VersionRegistry.new.KnowsAtLeast forgetful := by
    intro fp encoder h
    simp [VersionRegistry.encoderFor, forgetful] at h
  have report : verifyChain [tamperEvidentRow none] VersionRegistry.new =
      .ok ⟨true, 1, none, none, [], none, none⟩ := by decide +kernel
  exact (verifyChain_knowledge_monotone [tamperEvidentRow none] forgetful VersionRegistry.new
    hle).1 _ report rfl

end Waxseal
