import Waxseal.Sources.OpenClawRuns

/-!
# Histories of ingest runs

Any number of runs on one chain, whatever the ledger does meanwhile, and whatever else is
appended to the chain between them.

Every sequence between two ingested ones is accounted for by an entry, or an earlier run
passed it over or failed to append it (`ingest_accounts_for`).
-/

namespace Waxseal

open Json

variable [Interpreter] (redactor : Option (PyStr → PyStr))

/-! ## Histories -/

/-- What happens to the chain: a run of the ingest, or an entry of another kind. -/
inductive IngestEvent where
  | run (call : IngestCall)
  | other (row : ChainRow) (notAudit : row.payloadType ≠ auditPayloadType)
      (notGap : row.payloadType ≠ gapPayloadType)

/-- The chain after an event; a run that raises leaves it alone. -/
def ingestStep (chain : List ChainRow) : IngestEvent → List ChainRow
  | .run call =>
      match ingest redactor call chain with
      | .ok (chain, _) => chain
      | .error _ => chain
  | .other row _ _ => chain ++ [row]

/-- The chain after a history. -/
def historyChain (events : List IngestEvent) : List ChainRow :=
  events.foldl (ingestStep redactor) []

theorem historyChain_snoc (events : List IngestEvent) (event : IngestEvent) :
    historyChain redactor (events ++ [event])
      = ingestStep redactor (historyChain redactor events) event := by
  rw [historyChain, List.foldl_append]
  rfl

omit [Interpreter] in
theorem rowSequence_other {row : ChainRow} (h : row.payloadType ≠ auditPayloadType) :
    rowSequence row = .ok none := if_pos h

/-! ## Accounting for sequences -/

/-- An entry accounts for a sequence: it is the record's own, or a gap entry whose range the
sequence is in. -/
def AccountsFor (row : ChainRow) (s : ℤ) : Prop :=
  rowSequence row = .ok (some s) ∨ ∃ range ∈ gapRange row, range.1 < s ∧ s < range.2

instance decidableAccountsFor (row : ChainRow) (s : ℤ) : Decidable (AccountsFor row s) :=
  inferInstanceAs (Decidable (_ ∨ _))

/-- A run narrowed by kind passed a sequence over: it lies behind the resume point and before
the newest record the export had, and the export did not have it. -/
def PassedOver (call : IngestCall) (chain : List ChainRow) (s : ℤ) : Prop :=
  call.kind.isSome = true ∧ ∃ resumeFrom paged truncated,
    Fetched call chain resumeFrom paged truncated ∧ isKnown resumeFrom s = false ∧
      s ∉ paged.fresh ∧ ∃ newest ∈ paged.fresh, s < newest

/-- An append of a run returned `False`, and its entry would have accounted for a sequence. -/
def AppendFailed (call : IngestCall) (chain : List ChainRow) (s : ℤ) : Prop :=
  ∃ resumeFrom paged truncated, Fetched call chain resumeFrom paged truncated ∧
    ∃ k row, (call.rows redactor resumeFrom paged truncated)[k]? = some row ∧
      (call.io.appends k).returned = false ∧ AccountsFor row s

/-- An earlier run of a history passed a sequence over or failed to append its entry. -/
def LostEarlier (events : List IngestEvent) (s : ℤ) : Prop :=
  ∃ before call, before ++ [.run call] <+: events ∧
    (PassedOver call (historyChain redactor before) s
      ∨ AppendFailed redactor call (historyChain redactor before) s)

variable {redactor}

omit [Interpreter] in
/-- **Nothing is left out behind the resume point**: every sequence up to the newest record
has a row that accounts for it. -/
theorem rowsBehind_accounts {cause : GapCause} {previous : Option ℤ}
    {records : List (Sigma LedgerRecord)} (hsorted : (records.map (·.1)).Pairwise (· < ·)) {s : ℤ}
    (hlow : (∃ p, previous = some p ∧ p < s) ∨ ∃ first, (records.map (·.1)).head? = some first ∧
      first ≤ s)
    (hhigh : ∃ t ∈ records.map (·.1), s ≤ t) :
    ∃ row ∈ rowsBehind redactor cause previous records, AccountsFor row s := by
  induction records generalizing cause previous with
  | nil =>
      obtain ⟨t, ht, -⟩ := hhigh
      cases ht
  | cons record records ih =>
      rw [List.map_cons] at hsorted hhigh
      obtain ⟨hlt, hsorted⟩ := List.pairwise_cons.mp hsorted
      rw [rowsBehind]
      rcases lt_trichotomy s record.1 with hs | rfl | hs
      · -- The sequence is in the hole in front of the record.
        obtain ⟨p, rfl, hp⟩ : ∃ p, previous = some p ∧ p < s := by
          refine hlow.resolve_right ?_
          rintro ⟨first, hfirst, hle⟩
          have heq : record.1 = first := Option.some.inj hfirst
          omega
        have hhole : holeBetween p record.1 cause = [⟨p, record.1, cause⟩] := if_pos (by omega)
        refine ⟨gapRow redactor ⟨p, record.1, cause⟩, List.mem_append_left _ ?_,
          .inr ⟨(p, record.1), gapRange_gapRow redactor _, hp, hs⟩⟩
        rw [Option.toList_some, List.flatMap_singleton, hhole]
        exact List.mem_cons_self
      · exact ⟨_, List.mem_append_right _ List.mem_cons_self,
          .inl (rowSequence_recordRow redactor record.2)⟩
      · obtain ⟨t, ht, hst⟩ := hhigh
        have htail : t ∈ records.map (·.1) := by
          rcases List.mem_cons.mp ht with rfl | ht
          · omega
          · exact ht
        obtain ⟨row, hrow, haccounts⟩ := @ih .pruneOrDrop (some record.1) hsorted
          (.inl ⟨record.1, rfl, hs⟩) ⟨t, htail, hst⟩
        exact ⟨row, List.mem_append_right _ (List.mem_cons_of_mem _ hrow), haccounts⟩

omit [Interpreter] in
/-- What a row is planned for is a record that is new to the run. -/
theorem mem_fresh_of_mem_rows {call : IngestCall} {resumeFrom : Option ℤ} {paged : Paged}
    {truncated : Bool} {row : ChainRow} {s : ℤ}
    (hrow : row ∈ call.rows redactor resumeFrom paged truncated)
    (hs : rowSequence row = .ok (some s)) : s ∈ paged.fresh := by
  rw [IngestCall.rows, plannedRows, List.mem_flatMap] at hrow
  obtain ⟨record, hrecord, hrow⟩ := hrow
  rcases List.mem_append.mp hrow with hrow | hrow
  · obtain ⟨gap, -, rfl⟩ := List.mem_map.mp hrow
    rw [rowSequence_gapRow] at hs
    cases hs
  · rw [List.mem_singleton.mp hrow, rowSequence_recordRow] at hs
    obtain rfl := Option.some.inj (Except.ok.inj hs)
    exact Paged.mem_sequences.mp (List.mem_map_of_mem hrecord)

/-- **One run**: between what it took to be known and its newest record, every sequence has a
row that accounts for it, or the run was narrowed and passed it over. -/
theorem rows_account {call : IngestCall} {chain : List ChainRow} {resumeFrom : Option ℤ}
    {paged : Paged} {truncated : Bool} (h : Fetched call chain resumeFrom paged truncated) {s : ℤ}
    (hnew : isKnown resumeFrom s = false)
    (hlow : resumeFrom.isSome = true ∨ ∃ first ∈ paged.fresh, first ≤ s)
    (hhigh : ∃ t ∈ paged.fresh, s ≤ t) :
    (∃ row ∈ call.rows redactor resumeFrom paged truncated, AccountsFor row s)
      ∨ PassedOver call chain s := by
  obtain ⟨t, ht, hst⟩ := hhigh
  cases hkind : call.kind.isSome with
  | false =>
      refine .inl ?_
      rw [IngestCall.rows, IngestCall.gaps, hkind, if_neg Bool.false_ne_true,
        plannedRows_foundGaps redactor paged.pairwise_sequences]
      refine rowsBehind_accounts paged.pairwise_sequences ?_
        ⟨t, Paged.mem_sequences.mpr ht, hst⟩
      rcases hlow with hlow | ⟨first, hfirst, hle⟩
      · obtain ⟨p, rfl⟩ := Option.isSome_iff_exists.mp hlow
        exact .inl ⟨p, rfl, isKnown_some_eq_false_iff.mp hnew⟩
      · refine .inr ?_
        have hmem := Paged.mem_sequences.mpr hfirst
        have hsorted := paged.pairwise_sequences
        rw [Paged.sequences] at hmem hsorted
        cases hlist : paged.ordered.map (·.1) with
        | nil =>
            rw [hlist] at hmem
            cases hmem
        | cons lowest rest =>
            rw [hlist] at hmem hsorted
            refine ⟨lowest, rfl, ?_⟩
            rcases List.mem_cons.mp hmem with rfl | hmem
            · exact hle
            · exact ((List.pairwise_cons.mp hsorted).1 _ hmem).le.trans hle
  | true =>
      by_cases hfresh : s ∈ paged.fresh
      · refine .inl ?_
        rw [IngestCall.rows, IngestCall.gaps, hkind, if_pos rfl, plannedRows_nil]
        obtain ⟨record, hrecord, rfl⟩ := List.mem_map.mp (Paged.mem_sequences.mpr hfresh)
        exact ⟨_, List.mem_map_of_mem hrecord, .inl (rowSequence_recordRow redactor record.2)⟩
      · refine .inr ⟨hkind, resumeFrom, paged, truncated, h, hnew, hfresh, t, ht, ?_⟩
        refine lt_of_le_of_ne hst fun heq => hfresh ?_
        rw [heq]
        exact ht

/-- Between the lowest ingested sequence and the highest, every sequence is accounted for. -/
def Complete (chain : List ChainRow) (lost : ℤ → Prop) : Prop :=
  ∀ s, (∃ low ∈ ingestedSequences chain, low ≤ s) → (∃ high ∈ ingestedSequences chain, s ≤ high) →
    (∃ row ∈ chain, AccountsFor row s) ∨ lost s

/-- **A run keeps the account**, but for what it passes over and what it fails to append. -/
theorem Complete.ingest {call : IngestCall} {chain chain' : List ChainRow} {result : IngestResult}
    {lost : ℤ → Prop} (h : Complete chain lost)
    (hrun : ingest redactor call chain = .ok (chain', result)) :
    Complete chain' fun s =>
      lost s ∨ PassedOver call chain s ∨ AppendFailed redactor call chain s := by
  rcases ingest_cases redactor hrun with ⟨rfl, -⟩ | ⟨resumeFrom, paged, truncated, st, hfetched,
    happends, rfl, -, -⟩
  · exact fun s hlow hhigh => (h s hlow hhigh).imp_right .inl
  have hchain := happends.chain
  have htop := isHighest_lastIngestedSequence hfetched.resume
  have hisNew : paged.IsNew resumeFrom := paging_isNew (fun s hs => absurd hs (AList.notMem_empty s))
    hfetched.arrived
  intro s hlow hhigh
  rw [hchain, ingestedSequences_append] at hlow hhigh
  rw [hchain]
  -- What was stored by this run is new to it.
  have stored : ∀ t ∈ ingestedSequences (persistedRows call.io.appends 0
      (call.rows redactor resumeFrom paged truncated)), t ∈ paged.fresh := by
    intro t ht
    obtain ⟨row, hrow, hseq⟩ := mem_ingestedSequences.mp ht
    exact mem_fresh_of_mem_rows (persistedRows_subset _ _ _ hrow) hseq
  cases hnew : isKnown resumeFrom s with
  | true =>
      -- Up to the resume point the account was there before.
      obtain ⟨resume, rfl, hle⟩ := isKnown_eq_true_iff.mp hnew
      have hold : ∃ low ∈ ingestedSequences chain, low ≤ s := by
        obtain ⟨low, hmem, hle'⟩ := hlow
        rcases List.mem_append.mp hmem with hmem | hmem
        · exact ⟨low, hmem, hle'⟩
        · have hunknown := isKnown_some_eq_false_iff.mp (hisNew low (stored low hmem))
          omega
      rcases h s hold ⟨resume, htop.mem resume rfl, hle⟩ with ⟨row, hrow, haccounts⟩ | hlost
      · exact .inl ⟨row, List.mem_append_left _ hrow, haccounts⟩
      · exact .inr (.inl hlost)
  | false =>
      have hhigh' : ∃ t ∈ paged.fresh, s ≤ t := by
        obtain ⟨t, hmem, hle⟩ := hhigh
        rcases List.mem_append.mp hmem with hmem | hmem
        · obtain ⟨m, rfl, hm⟩ := htop.ge t hmem
          have hbehind := isKnown_some_eq_false_iff.mp hnew
          omega
        · exact ⟨t, stored t hmem, hle⟩
      have hlow' : resumeFrom.isSome = true ∨ ∃ first ∈ paged.fresh, first ≤ s := by
        obtain ⟨low, hmem, hle⟩ := hlow
        rcases List.mem_append.mp hmem with hmem | hmem
        · obtain ⟨m, rfl, -⟩ := htop.ge low hmem
          exact .inl rfl
        · exact .inr ⟨low, stored low hmem, hle⟩
      rcases rows_account hfetched hnew hlow' hhigh' with ⟨row, hrow, haccounts⟩ | hpassed
      · rcases mem_persistedRows_or_refused call.io.appends hrow with hmem | ⟨k, hk, hrefused⟩
        · exact .inl ⟨row, List.mem_append_right _ hmem, haccounts⟩
        · rw [Nat.zero_add] at hrefused
          exact .inr (.inr (.inr ⟨resumeFrom, paged, truncated, hfetched, k, row, hk, hrefused,
            haccounts⟩))
      · exact .inr (.inr (.inl hpassed))

/-- Losing something earlier is not undone by what happens later. -/
theorem LostEarlier.snoc {events : List IngestEvent} {s : ℤ} (h : LostEarlier redactor events s)
    (event : IngestEvent) : LostEarlier redactor (events ++ [event]) s := by
  obtain ⟨before, call, hbefore, hlost⟩ := h
  exact ⟨before, call, hbefore.trans (List.prefix_append _ _), hlost⟩

/-- **Any history** accounts for every sequence it did not lose. -/
theorem complete_historyChain (events : List IngestEvent) :
    Complete (historyChain redactor events) (LostEarlier redactor events) := by
  induction events using List.reverseRecOn with
  | nil =>
      rintro s ⟨low, hlow, -⟩ -
      cases hlow
  | append_singleton events event ih =>
      rw [historyChain_snoc]
      cases event with
      | other row notAudit notGap =>
          have hsame : ingestedSequences (historyChain redactor events ++ [row])
              = ingestedSequences (historyChain redactor events) := by
            have hone : ingestedSequences [row] = [] := by
              simp [ingestedSequences, rowSequence_other notAudit, Except.toOption]
            rw [ingestedSequences_append, hone, List.append_nil]
          intro s hlow hhigh
          rw [ingestStep, hsame] at hlow hhigh
          rcases ih s hlow hhigh with ⟨r, hr, haccounts⟩ | hlost
          · exact .inl ⟨r, List.mem_append_left _ hr, haccounts⟩
          · exact .inr (hlost.snoc _)
      | run call =>
          cases hrun : ingest redactor call (historyChain redactor events) with
          | error e =>
              rw [ingestStep, hrun]
              exact fun s hlow hhigh => (ih s hlow hhigh).imp_right (LostEarlier.snoc · _)
          | ok out =>
              rw [ingestStep, hrun]
              intro s hlow hhigh
              rcases ih.ingest hrun s hlow hhigh with haccounts | hlost | hpassed | hfailed
              · exact .inl haccounts
              · exact .inr (hlost.snoc _)
              · exact .inr ⟨events, call, List.prefix_refl _, .inl hpassed⟩
              · exact .inr ⟨events, call, List.prefix_refl _, .inr hfailed⟩

/-- `gaps == ()`, `truncated == False`, `dropped == 0` and `unusable == 0`. -/
def IngestResult.Clean (result : IngestResult) : Prop :=
  result.gaps = some [] ∧ result.truncated = false ∧ result.dropped = 0 ∧ result.unusable = 0

instance decidableClean (result : IngestResult) : Decidable result.Clean :=
  inferInstanceAs (Decidable (_ ∧ _ ∧ _ ∧ _))

section Runs

variable {call : IngestCall} {chain chain' : List ChainRow} {result : IngestResult}

/-- The sequence a run reports is on the chain. -/
theorem lastSequence_mem (hrun : ingest redactor call chain = .ok (chain', result)) {last : ℤ}
    (hlast : result.lastSequence = some last) : last ∈ ingestedSequences chain' := by
  rcases ingest_cases redactor hrun with ⟨rfl, hresume⟩ | ⟨resumeFrom, paged, truncated, st,
    hfetched, happends, rfl, -, hst⟩
  · exact (isHighest_lastIngestedSequence (hresume last hlast)).mem last rfl
  · rcases happends.lastSequence last (hst.trans hlast) with hresume | hmem
    · rw [happends.chain, ingestedSequences_append]
      exact List.mem_append_left _
        ((isHighest_lastIngestedSequence hfetched.resume).mem last hresume)
    · exact hmem

/-- Where nothing was dropped, no append failed. -/
theorem not_appendFailed (hrun : ingest redactor call chain = .ok (chain', result))
    (hdropped : result.dropped = 0) (s : ℤ) : ¬ AppendFailed redactor call chain s := by
  rintro ⟨resumeFrom, paged, truncated, hfetched, k, row, hk, hrefused, -⟩
  rcases ingest_cases_fetched redactor hfetched hrun with ⟨st, happends, -, hst, -⟩
  have hcount := happends.dropped
  rw [hst, hdropped, Nat.zero_add] at hcount
  have hreturned := returned_of_refusedCount _ hcount.symm (List.getElem?_eq_some_iff.mp hk).1
  rw [Nat.zero_add, hrefused] at hreturned
  cases hreturned

end Runs

/-- **What a clean run says.**  After an unfiltered run that found no gap, was not cut short,
dropped nothing and met nothing unusable, every sequence from the lowest ingested one to the
one the run reports is accounted for by an entry of the chain, unless an earlier run of the
history passed it over or failed to append the entry that would account for it. -/
theorem ingest_accounts_for (events : List IngestEvent) (call : IngestCall)
    {chain' : List ChainRow} {result : IngestResult}
    (hrun : ingest redactor call (historyChain redactor events) = .ok (chain', result))
    (hkind : call.kind = none) (hclean : result.Clean) {low last s : ℤ}
    (hlow : low ∈ ingestedSequences chain') (hlast : result.lastSequence = some last)
    (hle : low ≤ s) (hge : s ≤ last) :
    (∃ row ∈ chain', AccountsFor row s) ∨ LostEarlier redactor events s := by
  obtain ⟨-, -, hdropped, -⟩ := hclean
  rcases (complete_historyChain events).ingest hrun s ⟨low, hlow, hle⟩
    ⟨last, lastSequence_mem hrun hlast, hge⟩ with haccounts | hlost | hpassed | hfailed
  · exact .inl haccounts
  · exact .inr hlost
  · rw [PassedOver, hkind] at hpassed
    cases hpassed.1
  · exact absurd hfailed (not_appendFailed hrun hdropped s)

/-! ## Two runs -/

/-- An export of one page. -/
def onePage (page : PyStr) (kind : Option PyStr) : IngestCall where
  kind := kind
  limit := 500
  maxPages := 250
  io := {
    lock := none
    readTrail := none
    fetch := fun _ _ => .ok page
    appends := fun _ => .stored }

/-- The page of three records. -/
def threeRecords : PyStr :=
  str "\x7b\"events\":[\x7b\"sequence\":3\x7d,\x7b\"sequence\":2\x7d,\x7b\"sequence\":1\x7d]\x7d"

/-- The page without the second record, which is of another kind. -/
def twoRecords : PyStr :=
  str "\x7b\"events\":[\x7b\"sequence\":3\x7d,\x7b\"sequence\":1\x7d]\x7d"

omit [Interpreter] in
/-- After a run over all three records a second run accounts for each of them. -/
theorem ingest_accounts_for_three :
    letI := Interpreter.plain
    ∃ chain' result,
      ingest none (onePage threeRecords none)
        (historyChain none [.run (onePage threeRecords none)]) = .ok (chain', result) ∧
      ((∃ row ∈ chain', AccountsFor row 2) ∨
        LostEarlier none [.run (onePage threeRecords none)] 2) := by
  let _ := Interpreter.plain
  have hout : (ingest none (onePage threeRecords none)
      (historyChain none [.run (onePage threeRecords none)])).toOption.any (fun out =>
        decide (out.2.Clean ∧ 1 ∈ ingestedSequences out.1 ∧ out.2.lastSequence = some 3)) = true := by
    decide +kernel
  obtain ⟨⟨chain', result⟩, hrun, hfacts⟩ := (Option.any_eq_true _ _).mp hout
  rw [toOption_eq_some_iff] at hrun
  obtain ⟨hclean, hlow, hlast⟩ := of_decide_eq_true hfacts
  exact ⟨chain', result, hrun, ingest_accounts_for [.run (onePage threeRecords none)]
    (onePage threeRecords none) hrun rfl hclean hlow hlast (by decide) (by decide)⟩

omit [Interpreter] in
/-- A run narrowed to one kind resumes the next run behind a record of another kind: that run
is clean, it is served the record, and nothing on the chain accounts for it. -/
theorem narrowed_run_hides_record :
    letI := Interpreter.plain
    ∃ chain' result,
      ingest none (onePage threeRecords none)
        (historyChain none [.run (onePage twoRecords (some (str "tool_action")))])
          = .ok (chain', result) ∧
      result.Clean ∧ 1 ∈ ingestedSequences chain' ∧ result.lastSequence = some 3 ∧
      ∀ row ∈ chain', ¬ AccountsFor row 2 := by
  let _ := Interpreter.plain
  have hout : (ingest none (onePage threeRecords none)
      (historyChain none [.run (onePage twoRecords (some (str "tool_action")))])).toOption.any
        (fun out => decide (out.2.Clean ∧ 1 ∈ ingestedSequences out.1 ∧
          out.2.lastSequence = some 3 ∧ ∀ row ∈ out.1, ¬ AccountsFor row 2)) = true := by
    decide +kernel
  obtain ⟨⟨chain', result⟩, hrun, hfacts⟩ := (Option.any_eq_true _ _).mp hout
  rw [toOption_eq_some_iff] at hrun
  exact ⟨chain', result, hrun, of_decide_eq_true hfacts⟩

end Waxseal
