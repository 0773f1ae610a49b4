import Waxseal.Sources.OpenClawHistory

/-!
# Ingest in order

Histories in which no run is filtered and every append succeeds.  They leave the chain
`Gapped`: the records are in order, and a hole between two of them is what one gap entry
directly in front of the second says (`ingest_in_order`).  What the ledger does meanwhile,
and how it is served, makes no difference to that.
-/

namespace Waxseal

open Json

variable [Interpreter] {redactor : Option (PyStr → PyStr)}

/-! ## Chains in order -/

/-- A chain of ingested records in order: each is the successor of the one before it, or one
gap entry stands directly in front of it that names the hole between the two.  Entries of
other kinds may stand anywhere but there. -/
inductive Gapped : List ChainRow → Prop
  | nil : Gapped []
  | other {chain : List ChainRow} {row : ChainRow} (h : Gapped chain)
      (notAudit : row.payloadType ≠ auditPayloadType)
      (notGap : row.payloadType ≠ gapPayloadType) : Gapped (chain ++ [row])
  | next {chain : List ChainRow} {row : ChainRow} {b : ℤ} (h : Gapped chain)
      (hrow : rowSequence row = .ok (some b))
      (hlast : ∀ a ∈ (ingestedSequences chain).getLast?, b = a + 1) : Gapped (chain ++ [row])
  | hole {chain : List ChainRow} {gap row : ChainRow} {a b : ℤ} (h : Gapped chain)
      (hlast : (ingestedSequences chain).getLast? = some a) (hlt : a + 1 < b)
      (hgap : gapRange gap = some (a, b)) (hrow : rowSequence row = .ok (some b)) :
      Gapped (chain ++ [gap] ++ [row])

section Rows

omit [Interpreter]

theorem payloadType_of_rowSequence {row : ChainRow} {s : ℤ} (h : rowSequence row = .ok (some s)) :
    row.payloadType = auditPayloadType := by
  by_contra hne
  rw [rowSequence_other hne] at h
  cases h

theorem payloadType_of_gapRange {row : ChainRow} {range : ℤ × ℤ} (h : gapRange row = some range) :
    row.payloadType = gapPayloadType := by
  by_contra hne
  rw [gapRange, if_pos hne] at h
  cases h

theorem ingestedSequences_record {row : ChainRow} {s : ℤ} (h : rowSequence row = .ok (some s)) :
    ingestedSequences [row] = [s] := by
  simp [ingestedSequences, h, Except.toOption]

theorem ingestedSequences_none {row : ChainRow} (h : row.payloadType ≠ auditPayloadType) :
    ingestedSequences [row] = [] := by
  simp [ingestedSequences, rowSequence_other h, Except.toOption]

theorem ingestedSequences_gap {row : ChainRow} {range : ℤ × ℤ} (h : gapRange row = some range) :
    ingestedSequences [row] = [] := by
  refine ingestedSequences_none ?_
  rw [payloadType_of_gapRange h]
  exact auditPayloadType_ne_gap.symm

/-- The last of an ascending list is its greatest. -/
theorem le_of_getLast? {l : List ℤ} (h : l.Pairwise (· < ·)) {a : ℤ} (ha : l.getLast? = some a) :
    ∀ s ∈ l, s ≤ a := by
  obtain ⟨init, rfl⟩ := List.getLast?_eq_some_iff.mp ha
  intro s hs
  rcases List.mem_append.mp hs with hs | hs
  · exact ((List.pairwise_append.mp h).2.2 s hs a List.mem_cons_self).le
  · exact (List.mem_singleton.mp hs).le

theorem pairwise_snoc {l : List ℤ} (h : l.Pairwise (· < ·)) {b : ℤ}
    (hb : ∀ a ∈ l.getLast?, a < b) : (l ++ [b]).Pairwise (· < ·) := by
  refine List.pairwise_append.mpr ⟨h, List.pairwise_singleton _ _, fun s hs t ht => ?_⟩
  obtain ⟨a, ha⟩ := Option.isSome_iff_exists.mp
    (List.getLast?_isSome.mpr (List.ne_nil_of_mem hs))
  rw [List.mem_singleton.mp ht]
  exact (le_of_getLast? h ha s hs).trans_lt (hb a ha)

/-- **The sequences of a chain in order ascend.** -/
theorem Gapped.pairwise {chain : List ChainRow} (h : Gapped chain) :
    (ingestedSequences chain).Pairwise (· < ·) := by
  induction h with
  | nil => exact List.Pairwise.nil
  | other h notAudit notGap ih =>
      rwa [ingestedSequences_append, ingestedSequences_none notAudit, List.append_nil]
  | next h hrow hlast ih =>
      rw [ingestedSequences_append, ingestedSequences_record hrow]
      refine pairwise_snoc ih fun a ha => ?_
      have := hlast a ha
      omega
  | hole h hlast hlt hgap hrow ih =>
      rw [ingestedSequences_append, ingestedSequences_append, ingestedSequences_gap hgap,
        List.append_nil, ingestedSequences_record hrow]
      refine pairwise_snoc ih fun a' ha => ?_
      rw [hlast] at ha
      obtain rfl := Option.some.inj ha
      omega

/-- Splitting a list at an item, with an item behind it or without. -/
theorem split_snoc {α : Type} {l before after : List α} {x y : α}
    (h : l ++ [x] = before ++ y :: after) :
    (after = [] ∧ before = l ∧ y = x) ∨ ∃ rest, after = rest ++ [x] ∧ l = before ++ y :: rest := by
  rcases List.eq_nil_or_concat' after with rfl | ⟨rest, z, rfl⟩
  · obtain ⟨hl, hx⟩ := List.append_inj' h rfl
    exact .inl ⟨rfl, hl.symm, (List.cons.inj hx).1.symm⟩
  · have hassoc : l ++ [x] = (before ++ y :: rest) ++ [z] := by
      rw [h, List.append_assoc]
      rfl
    obtain ⟨hl, hx⟩ := List.append_inj' hassoc rfl
    exact .inr ⟨rest, by rw [(List.cons.inj hx).1], hl⟩

/-- The rows of a chain in order that are not gap entries do not end in one. -/
theorem Gapped.last_not_gap {chain : List ChainRow} (h : Gapped chain) {row : ChainRow}
    (hrow : chain.getLast? = some row) : row.payloadType ≠ gapPayloadType := by
  cases h with
  | nil => cases hrow
  | other h notAudit notGap =>
      rw [List.getLast?_concat] at hrow
      rwa [← Option.some.inj hrow]
  | next h hsequence hlast =>
      rw [List.getLast?_concat] at hrow
      rw [← Option.some.inj hrow, payloadType_of_rowSequence hsequence]
      exact auditPayloadType_ne_gap
  | hole h hlast hlt hgap hsequence =>
      rw [List.getLast?_concat] at hrow
      rw [← Option.some.inj hrow, payloadType_of_rowSequence hsequence]
      exact auditPayloadType_ne_gap

/-- **A hole has its gap entry.**  In front of a record that does not follow on the one before
it stands one gap entry, which names the hole. -/
theorem Gapped.gap_of_hole {chain before after : List ChainRow} {row : ChainRow} {a b : ℤ}
    (h : Gapped chain) (hsplit : chain = before ++ row :: after)
    (hrow : rowSequence row = .ok (some b))
    (ha : (ingestedSequences before).getLast? = some a) (hlt : a + 1 < b) :
    ∃ front gap, before = front ++ [gap] ∧ gapRange gap = some (a, b) ∧
      ∀ last ∈ front.getLast?, last.payloadType ≠ gapPayloadType := by
  induction h generalizing after with
  | nil => exact absurd hsplit.symm (List.append_ne_nil_of_right_ne_nil _ (List.cons_ne_nil _ _))
  | other h notAudit notGap ih =>
      rcases split_snoc hsplit with ⟨rfl, rfl, rfl⟩ | ⟨rest, rfl, hrest⟩
      · exact absurd (payloadType_of_rowSequence hrow) notAudit
      · exact ih hrest
  | next h hsequence hlast ih =>
      rcases split_snoc hsplit with ⟨rfl, rfl, rfl⟩ | ⟨rest, rfl, hrest⟩
      · rw [hsequence] at hrow
        obtain rfl := Option.some.inj (Except.ok.inj hrow)
        have := hlast a ha
        omega
      · exact ih hrest
  | hole h hlast hlt' hgap hsequence ih =>
      rcases split_snoc hsplit with ⟨rfl, rfl, rfl⟩ | ⟨rest, rfl, hrest⟩
      · rw [hsequence] at hrow
        obtain rfl := Option.some.inj (Except.ok.inj hrow)
        rw [ingestedSequences_append, ingestedSequences_gap hgap, List.append_nil, hlast] at ha
        obtain rfl := Option.some.inj ha
        exact ⟨_, _, rfl, hgap, fun last hlast' => h.last_not_gap hlast'⟩
      · rcases split_snoc hrest with ⟨rfl, rfl, rfl⟩ | ⟨rest', rfl, hrest'⟩
        · exact absurd ((payloadType_of_rowSequence hrow).symm.trans (payloadType_of_gapRange hgap))
            auditPayloadType_ne_gap
        · exact ih hrest'

/-- **A gap entry has its hole.**  It stands directly in front of a record, and names what is
missing between it and the record before. -/
theorem Gapped.hole_of_gap {chain before after : List ChainRow} {gap : ChainRow}
    (h : Gapped chain) (hsplit : chain = before ++ gap :: after)
    (hgap : gap.payloadType = gapPayloadType) :
    ∃ a b row rest, after = row :: rest ∧ rowSequence row = .ok (some b) ∧
      (ingestedSequences before).getLast? = some a ∧ a + 1 < b ∧ gapRange gap = some (a, b) := by
  induction h generalizing after with
  | nil => exact absurd hsplit.symm (List.append_ne_nil_of_right_ne_nil _ (List.cons_ne_nil _ _))
  | other h notAudit notGap ih =>
      rcases split_snoc hsplit with ⟨rfl, rfl, rfl⟩ | ⟨rest, rfl, hrest⟩
      · exact absurd hgap notGap
      · obtain ⟨a, b, row, rest', rfl, hfacts⟩ := ih hrest
        exact ⟨a, b, row, _, rfl, hfacts⟩
  | next h hsequence hlast ih =>
      rcases split_snoc hsplit with ⟨rfl, rfl, rfl⟩ | ⟨rest, rfl, hrest⟩
      · exact absurd ((payloadType_of_rowSequence hsequence).symm.trans hgap) auditPayloadType_ne_gap
      · obtain ⟨a, b, row, rest', rfl, hfacts⟩ := ih hrest
        exact ⟨a, b, row, _, rfl, hfacts⟩
  | hole h hlast hlt hrange hsequence ih =>
      rcases split_snoc hsplit with ⟨rfl, rfl, rfl⟩ | ⟨rest, rfl, hrest⟩
      · exact absurd ((payloadType_of_rowSequence hsequence).symm.trans hgap) auditPayloadType_ne_gap
      · rcases split_snoc hrest with ⟨rfl, rfl, rfl⟩ | ⟨rest', rfl, hrest'⟩
        · exact ⟨_, _, _, _, rfl, hsequence, hlast, hlt, hrange⟩
        · obtain ⟨a, b, row, rest'', rfl, hfacts⟩ := ih hrest'
          exact ⟨a, b, row, _, rfl, hfacts⟩

/-- The rows of an unfiltered run put a chain in order in order. -/
theorem Gapped.append_rowsBehind {chain : List ChainRow} (h : Gapped chain) {cause : GapCause}
    {previous : Option ℤ} {records : List (Sigma LedgerRecord)}
    (hprevious : (ingestedSequences chain).getLast? = previous)
    (hsorted : (records.map (·.1)).Pairwise (· < ·))
    (hnew : ∀ p ∈ previous, ∀ s ∈ records.map (·.1), p < s) :
    Gapped (chain ++ rowsBehind redactor cause previous records) := by
  induction records generalizing chain cause previous with
  | nil => rwa [rowsBehind, List.append_nil]
  | cons record records ih =>
      rw [List.map_cons] at hsorted hnew
      obtain ⟨hlt, hsorted⟩ := List.pairwise_cons.mp hsorted
      have hrow := rowSequence_recordRow redactor record.2
      have hbehind : ∀ p ∈ (some record.1 : Option ℤ), ∀ s ∈ records.map (·.1), p < s := by
        intro p hp s hs
        obtain rfl := Option.some.inj hp
        exact hlt s hs
      -- What is left is behind the record, however the record was put on the chain.
      have go : ∀ {front : List ChainRow}, Gapped (front ++ [recordRow redactor record.2.value]) →
          Gapped (front ++ recordRow redactor record.2.value
            :: rowsBehind redactor .pruneOrDrop (some record.1) records) := by
        intro front hfront
        rw [List.append_cons]
        refine ih hfront ?_ hsorted hbehind
        rw [ingestedSequences_append, ingestedSequences_record hrow, List.getLast?_concat]
      rw [rowsBehind, ← List.append_assoc]
      refine go ?_
      cases previous with
      | none =>
          rw [Option.toList_none, List.flatMap_nil, List.append_nil]
          refine h.next hrow fun a ha => ?_
          rw [hprevious] at ha
          cases ha
      | some p =>
          have hp := hnew p rfl record.1 List.mem_cons_self
          rw [Option.toList_some, List.flatMap_singleton, holeBetween]
          split
          · next hhole =>
              exact h.hole hprevious hhole (gapRange_gapRow redactor _) hrow
          · next hnone =>
              rw [List.map_nil, List.append_nil]
              refine h.next hrow fun a ha => ?_
              rw [hprevious] at ha
              obtain rfl := Option.some.inj ha
              omega

end Rows

/-- **One run** that filters nothing and loses nothing. -/
theorem Gapped.ingest {call : IngestCall} {chain chain' : List ChainRow} {result : IngestResult}
    (h : Gapped chain) (hkind : call.kind = none) (hstored : ∀ k, call.io.appends k = .stored)
    (hrun : ingest redactor call chain = .ok (chain', result)) : Gapped chain' := by
  rcases ingest_cases redactor hrun with ⟨rfl, -⟩ | ⟨resumeFrom, paged, truncated, st, hfetched,
    happends, rfl, -, -⟩
  · exact h
  have htop := isHighest_lastIngestedSequence hfetched.resume
  have hisNew : paged.IsNew resumeFrom := paging_isNew (fun s hs => absurd hs (AList.notMem_empty s))
    hfetched.arrived
  rw [happends.chain, persistedRows_of_stored _ hstored, IngestCall.rows, IngestCall.gaps, hkind,
    if_neg (by decide), plannedRows_foundGaps redactor paged.pairwise_sequences]
  refine h.append_rowsBehind ?_ paged.pairwise_sequences fun p hp s hs => ?_
  · -- In a chain in order the highest sequence is the last.
    cases hlast : (ingestedSequences chain).getLast? with
    | none =>
        cases hresume : resumeFrom with
        | none => rfl
        | some m =>
            have hmem := htop.mem m hresume
            rw [List.getLast?_eq_none_iff.mp hlast] at hmem
            cases hmem
    | some a =>
        obtain ⟨m, rfl, hle⟩ := htop.ge a (List.mem_of_getLast? hlast)
        have hge := le_of_getLast? h.pairwise hlast m (htop.mem m rfl)
        rw [le_antisymm hle hge]
  · obtain rfl : resumeFrom = some p := hp
    exact isKnown_some_eq_false_iff.mp (hisNew s (Paged.mem_sequences.mp hs))

/-- Nothing in a history was filtered, and every append of its runs succeeded. -/
def Undisturbed (events : List IngestEvent) : Prop :=
  ∀ call, IngestEvent.run call ∈ events → call.kind = none ∧ ∀ k, call.io.appends k = .stored

/-- **Any history** without filters and failures leaves the chain in order. -/
theorem gapped_historyChain {events : List IngestEvent} (h : Undisturbed events) :
    Gapped (historyChain redactor events) := by
  induction events using List.reverseRecOn with
  | nil => exact .nil
  | append_singleton events event ih =>
      have hevents := ih fun call hcall => h call (List.mem_append_left _ hcall)
      rw [historyChain_snoc]
      cases event with
      | other row notAudit notGap => exact hevents.other notAudit notGap
      | run call =>
          obtain ⟨hkind, hstored⟩ := h call (List.mem_append_right _ List.mem_cons_self)
          cases hrun : ingest redactor call (historyChain redactor events) with
          | error e =>
              rw [ingestStep, hrun]
              exact hevents
          | ok out =>
              rw [ingestStep, hrun]
              exact hevents.ingest hkind hstored hrun

/-- **Ingest never duplicates, reorders or hides a hole.**  In any history of unfiltered runs
whose appends all succeed, the sequences on the chain ascend; in front of a record behind a
hole stands exactly one gap entry, which names the hole; and no gap entry stands elsewhere. -/
theorem ingest_in_order (events : List IngestEvent) (h : Undisturbed events) :
    (ingestedSequences (historyChain redactor events)).Pairwise (· < ·) ∧
    (∀ before row after a b, historyChain redactor events = before ++ row :: after →
      rowSequence row = .ok (some b) → (ingestedSequences before).getLast? = some a → a + 1 < b →
      ∃ front gap, before = front ++ [gap] ∧ gapRange gap = some (a, b) ∧
        ∀ last ∈ front.getLast?, last.payloadType ≠ gapPayloadType) ∧
    (∀ before gap after, historyChain redactor events = before ++ gap :: after →
      gap.payloadType = gapPayloadType →
      ∃ a b row rest, after = row :: rest ∧ rowSequence row = .ok (some b) ∧
        (ingestedSequences before).getLast? = some a ∧ a + 1 < b ∧
        gapRange gap = some (a, b)) := by
  have hgapped := @gapped_historyChain _ redactor events h
  exact ⟨hgapped.pairwise,
    fun before row after a b hsplit hrow ha hlt => hgapped.gap_of_hole hsplit hrow ha hlt,
    fun before gap after hsplit hgap => hgapped.hole_of_gap hsplit hgap⟩

/-- The page of one record. -/
def firstRecord : PyStr :=
  str "\x7b\"events\":[\x7b\"sequence\":1\x7d]\x7d"

/-- A run over the first of three records, and a run that finds only the third. -/
def prunedBetween : List IngestEvent :=
  [.run (onePage firstRecord none),
    .run (onePage (str "\x7b\"events\":[\x7b\"sequence\":3\x7d]\x7d") none)]

omit [Interpreter] in
/-- The second record was pruned between two runs. -/
theorem ingest_in_order_pruned :
    letI := Interpreter.plain
    ingestedSequences (historyChain none prunedBetween) = [1, 3] ∧
      (ingestedSequences (historyChain none prunedBetween)).Pairwise (· < ·) := by
  let _ := Interpreter.plain
  have hundisturbed : Undisturbed prunedBetween := by
    intro call hcall
    rcases List.mem_cons.mp hcall with heq | hcall
    · obtain rfl := IngestEvent.run.inj heq
      exact ⟨rfl, fun _ => rfl⟩
    · obtain rfl := IngestEvent.run.inj (List.mem_singleton.mp hcall)
      exact ⟨rfl, fun _ => rfl⟩
  exact ⟨by decide +kernel, (@ingest_in_order _ none prunedBetween hundisturbed).1⟩

end Waxseal
