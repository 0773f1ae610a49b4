import Waxseal.Sources.OpenClaw

/-!
# What a run of the ingest appends

The rows a run tries to append are settled before the first append (`plannedRows`): in an
unfiltered run each record comes behind the gap entry of the hole in front of it
(`plannedRows_foundGaps`).  The chain it leaves is the chain it found and those of the rows
that were stored (`ingestRun_rows`).
-/

namespace Waxseal

open Json

/-! ## Reading rows -/

/-- The sequences of the ingested records, in the order of the chain. -/
def ingestedSequences (chain : List ChainRow) : List ℤ :=
  chain.filterMap fun row => (rowSequence row).toOption.join

/-- The range a gap entry names. -/
def gapRange (row : ChainRow) : Option (ℤ × ℤ) :=
  if row.payloadType ≠ gapPayloadType then none
  else
    match row.payload with
    | some (.ok payload) =>
        match get? payload (str "missing_after"), get? payload (str "missing_before") with
        | .ok (.int a), .ok (.int b) => some (a, b)
        | _, _ => none
    | _ => none

theorem auditPayloadType_ne_gap : auditPayloadType ≠ gapPayloadType := by decide

@[simp] theorem ingestedSequences_append (chain rows : List ChainRow) :
    ingestedSequences (chain ++ rows) = ingestedSequences chain ++ ingestedSequences rows :=
  List.filterMap_append

theorem mem_ingestedSequences {chain : List ChainRow} {s : ℤ} :
    s ∈ ingestedSequences chain ↔ ∃ row ∈ chain, rowSequence row = .ok (some s) := by
  rw [ingestedSequences, List.mem_filterMap]
  refine exists_congr fun row => and_congr_right fun _ => ?_
  cases rowSequence row with
  | error e => exact ⟨nofun, nofun⟩
  | ok found => cases found <;> simp [Except.toOption]

/-- Redaction leaves numbers alone, and the keys of the ingest are no secrets. -/
theorem get?_redactPayload {redactor : Option (PyStr → PyStr)} {payload : Json} {key : PyStr} {n : ℤ}
    (hkey : isSensitive key = false) (h : get? payload key = .ok (.int n)) :
    get? (redactPayload redactor payload) key = .ok (.int n) := by
  cases redactor with
  | none => exact h
  | some redactText =>
      cases payload with
      | obj members =>
          rw [redactPayload, walkValue, get?, find?_redactMembers redactText hkey]
          rw [get?] at h
          cases hfind : members.find? (fun m => m.1 = key) with
          | none =>
              rw [hfind] at h
              cases h
          | some m =>
              simp only [hfind] at h
              rw [Option.map_some]
              simp only [Except.ok.inj h, walkValue]
      | null | bool b | int m | float lexeme | str s | arr items => cases h

theorem sequenceOf_eq_some {record : Json} {s : ℤ} (h : sequenceOf record = some s) :
    get? record (str "sequence") = .ok (.int s) ∧ 1 ≤ s := by
  rw [sequenceOf] at h
  cases hget : get? record (str "sequence") with
  | error e =>
      rw [hget] at h
      cases h
  | ok value =>
      simp only [hget] at h
      obtain ⟨hvalue, hpos⟩ := Option.filter_eq_some_iff.mp h
      cases value with
      | int n =>
          obtain rfl := Option.some.inj hvalue
          exact ⟨rfl, of_decide_eq_true hpos⟩
      | null | bool b | float lexeme | str t | arr items | obj members => cases hvalue

section

variable (redactor : Option (PyStr → PyStr))

/-- The entry of a record has the sequence of the record. -/
theorem rowSequence_recordRow {s : ℤ} (record : LedgerRecord s) :
    rowSequence (recordRow redactor record.value) = .ok (some s) := by
  have hget := @get?_redactPayload redactor _ _ _ (by decide +kernel)
    (sequenceOf_eq_some record.sequence_eq).1
  rw [rowSequence, recordRow, if_neg (not_not.mpr rfl)]
  simp only [bind, Except.bind, hget]
  rfl

theorem rowSequence_gapRow (gap : Gap) : rowSequence (gapRow redactor gap) = .ok none :=
  if_pos auditPayloadType_ne_gap.symm

/-- A gap entry names the range of its gap. -/
theorem gapRange_gapRow (gap : Gap) :
    gapRange (gapRow redactor gap) = some (gap.missingAfter, gap.missingBefore) := by
  have hafter : get? (gapPayload gap) (str "missing_after") = .ok (.int gap.missingAfter) := rfl
  have hbefore : get? (gapPayload gap) (str "missing_before") = .ok (.int gap.missingBefore) := rfl
  rw [gapRange, gapRow, if_neg (not_not.mpr rfl)]
  simp only [@get?_redactPayload redactor _ _ _ (by decide +kernel) hafter,
    @get?_redactPayload redactor _ _ _ (by decide +kernel) hbefore]

end

/-! ## The resume point -/

/-- The resume point is the highest sequence of the chain, if it has one. -/
structure IsHighest (highest : Option ℤ) (sequences : List ℤ) : Prop where
  mem : ∀ m, highest = some m → m ∈ sequences
  ge : ∀ s ∈ sequences, ∃ m, highest = some m ∧ s ≤ m

theorem IsHighest.higher {highest : Option ℤ} {sequences : List ℤ}
    (h : IsHighest highest sequences) (found : Option ℤ) :
    IsHighest (higher highest found) (sequences ++ found.toList) := by
  cases found with
  | none =>
      rw [Option.toList_none, List.append_nil]
      exact h
  | some s =>
      rw [Waxseal.higher, Option.toList_some]
      cases highest with
      | none =>
          refine ⟨fun m hm => ?_, fun t ht => ?_⟩
          · obtain rfl := Option.some.inj hm
            exact List.mem_append_right _ List.mem_cons_self
          · rcases List.mem_append.mp ht with ht | ht
            · obtain ⟨m, hm, -⟩ := h.ge t ht
              cases hm
            · exact ⟨s, rfl, (List.mem_singleton.mp ht).le⟩
      | some top =>
          rw [Option.all_some]
          by_cases hlt : top < s
          · rw [decide_eq_true hlt, if_pos rfl]
            refine ⟨fun m hm => ?_, fun t ht => ?_⟩
            · obtain rfl := Option.some.inj hm
              exact List.mem_append_right _ List.mem_cons_self
            · rcases List.mem_append.mp ht with ht | ht
              · obtain ⟨m, hm, hle⟩ := h.ge t ht
                obtain rfl := Option.some.inj hm
                exact ⟨s, rfl, hle.trans hlt.le⟩
              · exact ⟨s, rfl, (List.mem_singleton.mp ht).le⟩
          · rw [decide_eq_false hlt, if_neg Bool.false_ne_true]
            refine ⟨fun m hm => List.mem_append_left _ (h.mem m hm), fun t ht => ?_⟩
            rcases List.mem_append.mp ht with ht | ht
            · exact h.ge t ht
            · exact ⟨top, rfl, (List.mem_singleton.mp ht).le.trans (not_lt.mp hlt)⟩

/-- **`last_ingested_sequence` is the highest sequence on the chain.** -/
theorem isHighest_lastIngestedSequence {chain : List ChainRow} {highest : Option ℤ}
    (h : lastIngestedSequence chain = .ok highest) :
    IsHighest highest (ingestedSequences chain) := by
  induction chain using List.reverseRecOn generalizing highest with
  | nil =>
      obtain rfl := Except.ok.inj h
      exact ⟨nofun, nofun⟩
  | append_singleton chain row ih =>
      rw [lastIngestedSequence, List.foldlM_append] at h
      obtain ⟨before, hbefore, h⟩ := bind_eq_ok_iff.mp h
      rw [List.foldlM_cons] at h
      obtain ⟨after, hafter, h⟩ := bind_eq_ok_iff.mp h
      obtain rfl := Except.ok.inj h
      cases hrow : rowSequence row with
      | error e =>
          rw [hrow] at hafter
          cases hafter
      | ok found =>
          rw [hrow] at hafter
          obtain rfl := Except.ok.inj hafter
          have hone : ingestedSequences [row] = found.toList := by
            cases found <;> simp [ingestedSequences, hrow, Except.toOption]
          rw [ingestedSequences_append, hone]
          exact (ih hbefore).higher found

/-! ## The new records -/

theorem isKnown_eq_true_iff {resumeFrom : Option ℤ} {s : ℤ} :
    isKnown resumeFrom s = true ↔ ∃ m, resumeFrom = some m ∧ s ≤ m := by
  cases resumeFrom with
  | none => exact ⟨nofun, nofun⟩
  | some m => simp [isKnown]

theorem isKnown_some_eq_false_iff {m s : ℤ} : isKnown (some m) s = false ↔ m < s := by
  rw [isKnown, Option.any_some, decide_eq_false_iff_not, not_le]

/-- The records that were taken are new. -/
def Paged.IsNew (paged : Paged) (resumeFrom : Option ℤ) : Prop :=
  ∀ s ∈ paged.fresh, isKnown resumeFrom s = false

theorem takeRecord_isNew {resumeFrom : Option ℤ} {page : Paged × Bool}
    (h : page.1.IsNew resumeFrom) (record : Json) :
    (takeRecord resumeFrom page record).1.IsNew resumeFrom := by
  unfold takeRecord
  split
  · exact h
  · split
    · exact h
    · next s hs hknown =>
        intro t ht
        rcases (AList.mem_insert _).mp ht with rfl | ht
        · exact Bool.eq_false_iff.mpr hknown
        · exact h t ht

theorem foldl_takeRecord_isNew {resumeFrom : Option ℤ} (records : List Json)
    {page : Paged × Bool} (h : page.1.IsNew resumeFrom) :
    (records.foldl (takeRecord resumeFrom) page).1.IsNew resumeFrom := by
  induction records generalizing page with
  | nil => exact h
  | cons record records ih => exact ih (takeRecord_isNew h record)

theorem paging_isNew [Interpreter] {fetch : ℕ → List PyStr → Except PyErr PyStr} {limit : ℤ}
    {kind : Option PyStr} {resumeFrom : Option ℤ} {left pages : ℕ} {cursor : Option ℤ}
    {paged out : Paged} {truncated : Bool} (h : paged.IsNew resumeFrom)
    (harrived : paging fetch limit kind resumeFrom left pages cursor paged
      = .arrived out truncated) : out.IsNew resumeFrom := by
  induction left generalizing pages cursor paged with
  | zero =>
      obtain ⟨rfl, -⟩ := Export.arrived.inj harrived
      exact h
  | succ left ih =>
      unfold paging at harrived
      split at harrived
      · cases harrived
      · split at harrived
        · cases harrived
        · obtain ⟨rfl, -⟩ := Export.arrived.inj harrived
          exact h
        · next event events hevents =>
            have hnew := @foldl_takeRecord_isNew resumeFrom (event :: events) (paged, false) h
            split at harrived
            · next hfold =>
                rw [hfold] at hnew
                obtain ⟨rfl, -⟩ := Export.arrived.inj harrived
                exact hnew
            · next hfold =>
                rw [hfold] at hnew
                split at harrived
                · obtain ⟨rfl, -⟩ := Export.arrived.inj harrived
                  exact hnew
                · exact ih hnew harrived

/-- The sequences of the new records, as they are appended. -/
def Paged.sequences (paged : Paged) : List ℤ := paged.ordered.map (·.1)

theorem Paged.mem_sequences {paged : Paged} {s : ℤ} : s ∈ paged.sequences ↔ s ∈ paged.fresh := by
  rw [sequences, ordered, ((List.perm_insertionSort _ _).map _).mem_iff]
  rfl

/-- **The records are appended in ascending order, each once.** -/
theorem Paged.pairwise_sequences (paged : Paged) : paged.sequences.Pairwise (· < ·) := by
  have htotal : Std.Total fun a b : Sigma LedgerRecord => a.1 ≤ b.1 := ⟨fun a b => le_total a.1 b.1⟩
  have htrans : IsTrans (Sigma LedgerRecord) fun a b => a.1 ≤ b.1 := ⟨fun _ _ _ h h' => h.trans h'⟩
  have hsorted := List.pairwise_insertionSort (fun a b : Sigma LedgerRecord => a.1 ≤ b.1)
    paged.fresh.entries
  have hle : paged.sequences.Pairwise (· ≤ ·) := List.pairwise_map.mpr hsorted
  have hnodup : paged.sequences.Nodup :=
    (((List.perm_insertionSort _ _).map _).nodup_iff).mpr paged.fresh.nodupKeys
  exact (List.pairwise_and_iff.mpr ⟨hle, hnodup⟩).imp fun h => lt_of_le_of_ne h.1 h.2

/-! ## The rows of a run -/

theorem gapBefore_append (gaps more : List Gap) (s : ℤ) :
    gapBefore (gaps ++ more) s = (gapBefore more s).or (gapBefore gaps s) := by
  rw [gapBefore, List.reverse_append, List.find?_append]
  rfl

theorem gapBefore_eq_none {gaps : List Gap} {s : ℤ} (h : ∀ gap ∈ gaps, gap.missingBefore ≠ s) :
    gapBefore gaps s = none := by
  refine List.find?_eq_none.mpr fun gap hgap => ?_
  rw [decide_eq_true_eq]
  exact h gap (List.mem_reverse.mp hgap)

theorem missingBefore_of_mem_holeBetween {previous s : ℤ} {cause : GapCause} {gap : Gap}
    (h : gap ∈ holeBetween previous s cause) : gap.missingBefore = s := by
  unfold holeBetween at h
  split at h
  · rw [List.mem_singleton.mp h]
  · cases h

theorem missingBefore_of_mem_holesAfter {previous : ℤ} {rest : List ℤ} {gap : Gap}
    (h : gap ∈ holesAfter previous rest) : gap.missingBefore ∈ rest := by
  induction rest generalizing previous with
  | nil => cases h
  | cons s rest ih =>
      rcases List.mem_append.mp h with h | h
      · rw [missingBefore_of_mem_holeBetween h]
        exact List.mem_cons_self
      · exact List.mem_cons_of_mem _ (ih h)

/-- There is at most one gap in front of a record. -/
theorem gapBefore_holeBetween (previous s : ℤ) (cause : GapCause) :
    (gapBefore (holeBetween previous s cause) s).toList = holeBetween previous s cause := by
  unfold holeBetween
  split
  · simp [gapBefore]
  · rfl

section

variable (redactor : Option (PyStr → PyStr))

/-- The rows a run tries to append, in their order. -/
def plannedRows (gaps : List Gap) (records : List (Sigma LedgerRecord)) : List ChainRow :=
  records.flatMap fun record =>
    (gapBefore gaps record.1).toList.map (gapRow redactor) ++ [recordRow redactor record.2.value]

/-- Records behind `previous`, each with the gap entry of the hole in front of it. -/
def rowsBehind (cause : GapCause) (previous : Option ℤ) : List (Sigma LedgerRecord) → List ChainRow
  | [] => []
  | record :: records =>
      (previous.toList.flatMap fun p => (holeBetween p record.1 cause).map (gapRow redactor))
        ++ recordRow redactor record.2.value
          :: rowsBehind .pruneOrDrop (some record.1) records

theorem plannedRows_holesAfter {records : List (Sigma LedgerRecord)} {gaps : List Gap} {p : ℤ}
    (hsorted : (records.map (·.1)).Pairwise (· < ·))
    (hgaps : ∀ gap ∈ gaps, gap.missingBefore ∉ records.map (·.1)) :
    plannedRows redactor (gaps ++ holesAfter p (records.map (·.1))) records
      = rowsBehind redactor .pruneOrDrop (some p) records := by
  induction records generalizing gaps p with
  | nil => rfl
  | cons record records ih =>
      rw [List.map_cons] at hsorted hgaps
      obtain ⟨hlt, hsorted⟩ := List.pairwise_cons.mp hsorted
      have hbehind : gapBefore (holesAfter record.1 (records.map (·.1))) record.1 = none :=
        gapBefore_eq_none fun gap hgap heq =>
          absurd (hlt _ (missingBefore_of_mem_holesAfter hgap)) (heq ▸ lt_irrefl _)
      have hbefore : gapBefore gaps record.1 = none :=
        gapBefore_eq_none fun gap hgap heq => hgaps gap hgap (heq ▸ List.mem_cons_self)
      have hhead : (gapBefore (gaps ++ holesAfter p (record.1 :: records.map (·.1)))
          record.1).toList = holeBetween p record.1 .pruneOrDrop := by
        rw [gapBefore_append, hbefore, holesAfter, gapBefore_append, hbehind, Option.none_or,
          Option.or_none, gapBefore_holeBetween]
      -- The gaps in front of the first record are in front of no other.
      have hrest := @ih (gaps ++ holeBetween p record.1 .pruneOrDrop) record.1 hsorted (by
        intro gap hgap hmem
        rcases List.mem_append.mp hgap with hgap | hgap
        · exact hgaps gap hgap (List.mem_cons_of_mem _ hmem)
        · rw [missingBefore_of_mem_holeBetween hgap] at hmem
          exact absurd (hlt _ hmem) (lt_irrefl _))
      rw [plannedRows, List.map_cons, List.flatMap_cons, hhead, rowsBehind, holesAfter,
        ← List.append_assoc gaps, ← hrest, plannedRows, Option.toList_some, List.flatMap_singleton,
        List.append_assoc]
      rfl

/-- **The rows of an unfiltered run.** -/
theorem plannedRows_foundGaps {records : List (Sigma LedgerRecord)}
    (hsorted : (records.map (·.1)).Pairwise (· < ·)) (resumeFrom : Option ℤ) (truncated : Bool) :
    plannedRows redactor (foundGaps resumeFrom truncated (records.map (·.1))) records
      = rowsBehind redactor (if truncated then .pageCap else .pruneOrDrop) resumeFrom records := by
  cases records with
  | nil => rfl
  | cons record records =>
      rw [List.map_cons] at hsorted
      obtain ⟨hlt, hsorted⟩ := List.pairwise_cons.mp hsorted
      generalize hcause : (if truncated then GapCause.pageCap else .pruneOrDrop) = cause
      have hfirst : ∀ gap ∈ resumeFrom.toList.flatMap fun p => holeBetween p record.1 cause,
          gap.missingBefore = record.1 := by
        intro gap hgap
        obtain ⟨p, -, hgap⟩ := List.mem_flatMap.mp hgap
        exact missingBefore_of_mem_holeBetween hgap
      have hbehind : gapBefore (holesAfter record.1 (records.map (·.1))) record.1 = none :=
        gapBefore_eq_none fun gap hgap heq =>
          absurd (hlt _ (missingBefore_of_mem_holesAfter hgap)) (heq ▸ lt_irrefl _)
      have hhead : (gapBefore (resumeFrom.toList.flatMap fun p => holeBetween p record.1 cause)
          record.1).toList = resumeFrom.toList.flatMap fun p => holeBetween p record.1 cause := by
        cases resumeFrom with
        | none => rfl
        | some p =>
            rw [Option.toList_some, List.flatMap_singleton, gapBefore_holeBetween]
      have hrest := @plannedRows_holesAfter redactor records
        (resumeFrom.toList.flatMap fun p => holeBetween p record.1 cause) record.1 hsorted
        (fun gap hgap hmem => by
          rw [hfirst gap hgap] at hmem
          exact absurd (hlt _ hmem) (lt_irrefl _))
      rw [List.map_cons, foundGaps, hcause, plannedRows, List.flatMap_cons, gapBefore_append,
        hbehind, Option.none_or, hhead, rowsBehind, ← hrest, plannedRows, List.map_flatMap,
        List.append_assoc]
      rfl

/-- The rows of a filtered run. -/
theorem plannedRows_nil (records : List (Sigma LedgerRecord)) :
    plannedRows redactor [] records = records.map fun record => recordRow redactor record.2.value := by
  rw [plannedRows, List.map_eq_flatMap]
  rfl

end

/-! ## Appending them -/

section

variable (appends : ℕ → AppendOutcome)

/-- The rows that are stored, when the first of them is append `k` of the run. -/
def persistedRows : ℕ → List ChainRow → List ChainRow
  | _, [] => []
  | k, row :: rows => (if (appends k).persisted then [row] else []) ++ persistedRows (k + 1) rows

/-- How many of the appends return `False`. -/
def refusedCount : ℕ → List ChainRow → ℕ
  | _, [] => 0
  | k, _ :: rows => (if (appends k).returned then 0 else 1) + refusedCount (k + 1) rows

theorem persistedRows_append (k : ℕ) (rows more : List ChainRow) :
    persistedRows appends k (rows ++ more)
      = persistedRows appends k rows ++ persistedRows appends (k + rows.length) more := by
  induction rows generalizing k with
  | nil => rfl
  | cons row rows ih =>
      rw [List.cons_append, persistedRows, persistedRows, ih, List.append_assoc, List.length_cons,
        Nat.add_right_comm, Nat.add_assoc]

theorem refusedCount_append (k : ℕ) (rows more : List ChainRow) :
    refusedCount appends k (rows ++ more)
      = refusedCount appends k rows + refusedCount appends (k + rows.length) more := by
  induction rows generalizing k with
  | nil => exact (Nat.zero_add _).symm
  | cons row rows ih =>
      rw [List.cons_append, refusedCount, refusedCount, ih, List.length_cons, ← Nat.add_assoc,
        Nat.add_right_comm k, Nat.add_assoc k]

theorem AppendOutcome.persisted_of_returned {outcome : AppendOutcome}
    (h : outcome.returned = true) : outcome.persisted = true := by
  cases outcome with
  | stored => rfl
  | failed | storedThenFailed => cases h

/-- A row that is not on the chain is one whose append returned `False`. -/
theorem mem_persistedRows_or_refused {k : ℕ} {rows : List ChainRow} {row : ChainRow}
    (h : row ∈ rows) : row ∈ persistedRows appends k rows ∨
      ∃ i, rows[i]? = some row ∧ (appends (k + i)).returned = false := by
  induction rows generalizing k with
  | nil => cases h
  | cons first rows ih =>
      rcases List.mem_cons.mp h with rfl | h
      · cases hreturned : (appends k).returned with
        | true =>
            refine .inl (List.mem_append_left _ ?_)
            rw [if_pos (AppendOutcome.persisted_of_returned hreturned)]
            exact List.mem_cons_self
        | false => exact .inr ⟨0, rfl, hreturned⟩
      · rcases @ih (k + 1) h with h | ⟨i, hi, hrefused⟩
        · exact .inl (List.mem_append_right _ h)
        · refine .inr ⟨i + 1, hi, ?_⟩
          rwa [show k + (i + 1) = k + 1 + i by omega]

/-- Where no append returned `False`, every row is on the chain. -/
theorem returned_of_refusedCount {k : ℕ} {rows : List ChainRow}
    (h : refusedCount appends k rows = 0) {i : ℕ} (hi : i < rows.length) :
    (appends (k + i)).returned = true := by
  induction rows generalizing k i with
  | nil => cases hi
  | cons row rows ih =>
      rw [refusedCount] at h
      obtain ⟨hfirst, hrest⟩ := Nat.add_eq_zero_iff.mp h
      cases i with
      | zero =>
          by_contra hfalse
          rw [Nat.add_zero] at hfalse
          rw [if_neg hfalse] at hfirst
          cases hfirst
      | succ i =>
          rw [show k + (i + 1) = k + 1 + i by omega]
          exact ih hrest (Nat.lt_of_succ_lt_succ hi)

theorem persistedRows_of_stored (h : ∀ k, appends k = .stored) (k : ℕ) (rows : List ChainRow) :
    persistedRows appends k rows = rows := by
  induction rows generalizing k with
  | nil => rfl
  | cons row rows ih =>
      rw [persistedRows, ih, h k]
      rfl

theorem persistedRows_subset (k : ℕ) (rows : List ChainRow) : persistedRows appends k rows ⊆ rows := by
  induction rows generalizing k with
  | nil => exact List.Subset.refl _
  | cons row rows ih =>
      intro r hr
      rcases List.mem_append.mp hr with hr | hr
      · split at hr
        · exact List.mem_cons.mpr (.inl (List.mem_singleton.mp hr))
        · cases hr
      · exact List.mem_cons_of_mem _ (ih _ hr)

/-- The appends of some rows lead from one state to another. -/
structure Appends (rows : List ChainRow) (st st' : Appending) : Prop where
  chain : st'.chain = st.chain ++ persistedRows appends st.tried rows
  tried : st'.tried = st.tried + rows.length
  dropped : st'.dropped = st.dropped + refusedCount appends st.tried rows
  lastSequence : ∀ s, st'.lastSequence = some s →
    st.lastSequence = some s ∨ s ∈ ingestedSequences st'.chain

variable {appends} {st st' st'' : Appending}

theorem Appends.refl (st : Appending) : Appends appends [] st st where
  chain := (List.append_nil _).symm
  tried := rfl
  dropped := rfl
  lastSequence := fun _ h => .inl h

theorem Appends.trans {rows more : List ChainRow} (h : Appends appends rows st st')
    (h' : Appends appends more st' st'') : Appends appends (rows ++ more) st st'' where
  chain := by rw [h'.chain, h.chain, h.tried, persistedRows_append, List.append_assoc]
  tried := by rw [h'.tried, h.tried, List.length_append, Nat.add_assoc]
  dropped := by rw [h'.dropped, h.dropped, h.tried, refusedCount_append, Nat.add_assoc]
  lastSequence := fun s hs => by
    rcases h'.lastSequence s hs with hs | hs
    · rcases h.lastSequence s hs with hs | hs
      · exact .inl hs
      · refine .inr ?_
        rw [h'.chain, ingestedSequences_append]
        exact List.mem_append_left _ hs
    · exact .inr hs

variable (redactor : Option (PyStr → PyStr))

theorem appends_appendGap (gap : Gap) (st : Appending) :
    Appends appends [gapRow redactor gap] st (appendGap redactor appends gap st) := by
  cases houtcome : appends st.tried <;>
    refine ⟨?_, ?_, ?_, fun s hs => .inl ?_⟩ <;>
    simp_all [appendGap, tryAppend, persistedRows, refusedCount, AppendOutcome.persisted,
      AppendOutcome.returned]

theorem appends_appendRecord {s : ℤ} (record : LedgerRecord s) (st : Appending) :
    Appends appends [recordRow redactor record.value] st
      (appendRecord redactor appends s record.value st) := by
  cases houtcome : appends st.tried with
  | stored =>
      refine ⟨?_, ?_, ?_, fun t ht => .inr ?_⟩
      · simp [appendRecord, tryAppend, houtcome, persistedRows, AppendOutcome.persisted,
          AppendOutcome.returned]
      · simp [appendRecord, tryAppend, houtcome, AppendOutcome.returned]
      · simp [appendRecord, tryAppend, houtcome, refusedCount, AppendOutcome.returned]
      · simp only [appendRecord, tryAppend, houtcome, AppendOutcome.returned,
          AppendOutcome.persisted, if_true] at ht ⊢
        obtain rfl := Option.some.inj ht
        exact mem_ingestedSequences.mpr ⟨_, List.mem_append_right _ List.mem_cons_self,
          rowSequence_recordRow redactor record⟩
  | failed | storedThenFailed =>
      refine ⟨?_, ?_, ?_, fun t ht => .inl ?_⟩ <;>
        simp_all [appendRecord, tryAppend, persistedRows, refusedCount, AppendOutcome.persisted,
          AppendOutcome.returned]

/-- One turn of the loop appends the gap entry, if there is one, and the entry of the record. -/
theorem appends_ingestRecord (gaps : List Gap) (record : Sigma LedgerRecord) (st : Appending) :
    Appends appends ((gapBefore gaps record.1).toList.map (gapRow redactor)
      ++ [recordRow redactor record.2.value]) st (ingestRecord redactor appends gaps st record) := by
  unfold ingestRecord
  cases gapBefore gaps record.1 with
  | none => exact appends_appendRecord redactor record.2 st
  | some gap =>
      exact (appends_appendGap redactor gap st).trans (appends_appendRecord redactor record.2 _)

/-- **The appending loop** appends the planned rows. -/
theorem appends_foldl (gaps : List Gap) (records : List (Sigma LedgerRecord)) (st : Appending) :
    Appends appends (plannedRows redactor gaps records) st
      (records.foldl (ingestRecord redactor appends gaps) st) := by
  induction records generalizing st with
  | nil => exact Appends.refl st
  | cons record records ih => exact (appends_ingestRecord redactor gaps record st).trans (ih _)

end

/-! ## What a run does -/

section

variable [Interpreter] (redactor : Option (PyStr → PyStr))

/-- A run that read the export: where it resumed, and what was new to it. -/
structure Fetched (call : IngestCall) (chain : List ChainRow) (resumeFrom : Option ℤ)
    (paged : Paged) (truncated : Bool) : Prop where
  lock : call.io.lock = none
  readTrail : call.io.readTrail = none
  resume : lastIngestedSequence chain = .ok resumeFrom
  arrived : call.export resumeFrom = .arrived paged truncated

/-- The rows such a run tries to append. -/
def IngestCall.rows (call : IngestCall) (resumeFrom : Option ℤ) (paged : Paged)
    (truncated : Bool) : List ChainRow :=
  plannedRows redactor (call.gaps resumeFrom paged truncated) paged.ordered

/-- What a run read of the export settles what it appends. -/
theorem ingest_cases_fetched {call : IngestCall} {chain chain' : List ChainRow}
    {result : IngestResult} {resumeFrom : Option ℤ} {paged : Paged} {truncated : Bool}
    (hfetched : Fetched call chain resumeFrom paged truncated)
    (h : ingest redactor call chain = .ok (chain', result)) :
    ∃ st : Appending,
      Appends call.io.appends (call.rows redactor resumeFrom paged truncated)
        ⟨chain, 0, 0, 0, resumeFrom⟩ st ∧
      st.chain = chain' ∧ st.dropped = result.dropped ∧
      st.lastSequence = result.lastSequence := by
  refine ⟨call.append redactor chain resumeFrom (call.gaps resumeFrom paged truncated) paged,
    appends_foldl redactor _ _ _, ?_⟩
  rw [ingest] at h
  split at h
  · cases h
  · simp only [hfetched.lock, Except.ok.injEq, ingestRun, hfetched.readTrail, orFail, bind,
      Except.bind, hfetched.resume, hfetched.arrived] at h
    split at h
    · next hempty =>
        obtain ⟨rfl, rfl⟩ := Prod.mk.inj h
        rw [IngestCall.append, hempty]
        exact ⟨rfl, rfl, rfl⟩
    · obtain ⟨rfl, rfl⟩ := Prod.mk.inj h
      exact ⟨rfl, rfl, rfl⟩

/-- **What a run does**: nothing, or the appends of its rows. -/
theorem ingest_cases {call : IngestCall} {chain chain' : List ChainRow} {result : IngestResult}
    (h : ingest redactor call chain = .ok (chain', result)) :
    (chain' = chain ∧
        ∀ last, result.lastSequence = some last → lastIngestedSequence chain = .ok (some last)) ∨
      ∃ (resumeFrom : Option ℤ) (paged : Paged) (truncated : Bool) (st : Appending),
        Fetched call chain resumeFrom paged truncated ∧
        Appends call.io.appends (call.rows redactor resumeFrom paged truncated)
          ⟨chain, 0, 0, 0, resumeFrom⟩ st ∧
        st.chain = chain' ∧ st.dropped = result.dropped ∧
        st.lastSequence = result.lastSequence := by
  have hall := h
  rw [ingest] at h
  split at h
  · cases h
  · cases hlock : call.io.lock with
    | some e =>
        simp only [hlock] at h
        obtain ⟨rfl, rfl⟩ := Prod.mk.inj (Except.ok.inj h)
        exact .inl ⟨rfl, nofun⟩
    | none =>
        simp only [hlock, Except.ok.injEq, ingestRun] at h
        cases hread : call.io.readTrail with
        | some e =>
            simp only [hread, orFail, bind, Except.bind] at h
            obtain ⟨rfl, rfl⟩ := Prod.mk.inj h
            exact .inl ⟨rfl, nofun⟩
        | none =>
            simp only [hread, orFail, bind, Except.bind] at h
            cases hresume : lastIngestedSequence chain with
            | error e =>
                simp only [hresume] at h
                obtain ⟨rfl, rfl⟩ := Prod.mk.inj h
                exact .inl ⟨rfl, nofun⟩
            | ok resumeFrom =>
                simp only [hresume] at h
                cases harrived : call.export resumeFrom with
                | failed e =>
                    simp only [harrived] at h
                    obtain ⟨rfl, rfl⟩ := Prod.mk.inj h
                    exact .inl ⟨rfl, fun last hlast => congrArg Except.ok hlast⟩
                | notAPage unusable =>
                    simp only [harrived] at h
                    obtain ⟨rfl, rfl⟩ := Prod.mk.inj h
                    exact .inl ⟨rfl, fun last hlast => congrArg Except.ok hlast⟩
                | arrived paged truncated =>
                    have hfetched : Fetched call chain resumeFrom paged truncated :=
                      ⟨hlock, hread, hresume, harrived⟩
                    obtain ⟨st, hst⟩ := ingest_cases_fetched redactor hfetched hall
                    exact .inr ⟨resumeFrom, paged, truncated, st, hfetched, hst⟩

end

end Waxseal
