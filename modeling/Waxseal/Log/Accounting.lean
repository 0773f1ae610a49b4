import Waxseal.Log.Facade

/-!
# The accounting of appends

An append either stores one entry or raises, and `try_append` counts what was raised as
dropped, so that calls minus drops are the entries stored.  The entries stored are read off
the file: what a reader can make of its lines, one by one (`completeEntries`).

One call is looked at in `handle_accounted`, any sequence of calls in `append_accounting`.
Both ask for the same condition at each call that gets as far as building its entry
(`Accountable`), because four things can go wrong behind the backend's back: the entry is
written behind a line that was not terminated; the write fails when the whole object is
already on disk; the lock or the file cannot be let go of; the Merkle forest has to be
rebuilt from a trail with a line that it cannot read.
-/

namespace Waxseal

open Json

variable [Interpreter]

/-! ## What a write adds to the trail -/

theorem completeEntries_storedBytes {file : Bytes} (hfile : EndsLine file) {e : Entry}
    (he : Storable e) :
    completeEntries (file ++ (storedBytes e ++ [LF])) = completeEntries file ++ [e] := by
  rw [completeEntries, readableLines_append fromObj hfile (storedLine_ne_LF e [LF])]
  exact congrArg _ (readableLines_eq fromObj (entries_storedBytes he))

/-- A line that was torn in its object adds nothing. -/
theorem completeEntries_torn {file : Bytes} (hfile : EndsLine file) {e : Entry} (he : Storable e)
    {n : ℕ} (hn : n < (storedBytes e).length) :
    completeEntries (file ++ (storedBytes e ++ [LF]).take n) = completeEntries file := by
  rw [List.take_append_of_le_length hn.le]
  rcases Nat.eq_zero_or_pos n with rfl | hpos
  · rw [List.take_zero, List.append_nil]
  have htake : (storedBytes e).take n = asciiBytes ((storedText e).take n) := List.map_take.symm
  have hlen : (storedBytes e).length = (storedText e).length := length_asciiBytes _
  have hne : (storedText e).take n ≠ [] := fun hnil => by
    have := congrArg List.length hnil
    rw [List.length_take, List.length_nil] at this
    omega
  have hdrop : (storedText e).drop n ≠ [] := fun hnil => by
    have := congrArg List.length hnil
    rw [List.length_drop, List.length_nil] at this
    omega
  have hunbroken : Unbroken ((storedBytes e).take n) := fun b hb =>
    unbroken_storedBytes he b (List.mem_of_mem_take hb)
  have hopen := (opensObject_of_start ⟨_, List.take_append_drop n (storedText e)⟩).resolve_left hne
  have hempty : completeEntries ((storedBytes e).take n) = [] := by
    have hbytes : (storedBytes e).take n ≠ [] := by
      rw [htake]
      exact fun hnil => hne (List.map_eq_nil_iff.mp hnil)
    rw [completeEntries, readableLines, textLines_unbroken hunbroken hbytes, htake]
    simp only [List.flatMap_cons, List.flatMap_nil, List.append_nil]
    cases hread : readLine fromObj (asciiBytes ((storedText e).take n)) with
    | error err => rfl
    | ok x =>
        exact absurd hread (readLine_torn fromObj (writable_storedMembers he)
          (List.take_append_drop n (storedText e)) hne hdrop x)
  rw [completeEntries, readableLines_append fromObj hfile
    (by rw [htake]; exact asciiBytes_ne_LF hopen)]
  exact (congrArg _ hempty).trans (List.append_nil _)

/-- What the backend leaves behind, by how far an append gets. -/
theorem append_cases (every : Option ℤ) (io : AppendIo) (b : Builder) (s : Store) :
    let out := JSONLBackend.append every io b.build s
    ((∃ err, out.1 = .error err) ∧ out.2.file = s.file) ∨
      ∃ tail entry, tailLocked s.file = .ok tail ∧ b.build tail.1 tail.2 = .ok entry ∧
        ((∃ n err, io.write = some (n, err) ∧ out.1 = .error err ∧
            out.2.file = s.file ++ (storedBytes entry ++ [LF]).take n) ∨
          (io.write = none ∧ (∃ err, io.release = some err ∧ out.1 = .error err) ∧
            out.2.file = s.file ++ (storedBytes entry ++ [LF])) ∨
          (out.1 = .ok entry ∧ out.2.file = s.file ++ (storedBytes entry ++ [LF]))) := by
  intro out
  rcases hprepare : prepare every io b.build s with ⟨result, s'⟩
  have hfile : s'.file = s.file := by
    have := @file_prepare _ every io b.build s
    rwa [hprepare] at this
  cases result with
  | error err =>
      have hout : out = (.error err, s') := by
        simp only [out, JSONLBackend.append, hprepare]
      exact .inl ⟨⟨err, by rw [hout]⟩, by rw [hout]; exact hfile⟩
  | ok written =>
      obtain ⟨entry, bytes⟩ := written
      obtain ⟨tail, htail, hbuild, -, hbytes⟩ := prepare_ok hprepare
      obtain rfl : storedBytes entry ++ [LF] = bytes :=
        Option.some.inj ((encodeUtf8_storedText (b.storable hbuild)).symm.trans hbytes)
      refine .inr ⟨tail, entry, htail, hbuild, ?_⟩
      cases hwrite : io.write with
      | some fault =>
          obtain ⟨n, err⟩ := fault
          refine .inl ⟨n, err, rfl, ?_, ?_⟩ <;>
            simp only [out, JSONLBackend.append, hprepare, hwrite, hfile]
      | none =>
          cases hrelease : io.release with
          | some err =>
              refine .inr (.inl ⟨rfl, ⟨err, rfl, ?_⟩, ?_⟩) <;>
                simp only [out, JSONLBackend.append, hprepare, hwrite, hrelease, hfile]
          | none =>
              refine .inr (.inr ⟨?_, ?_⟩) <;>
                simp only [out, JSONLBackend.append, hprepare, hwrite, hrelease, hfile]

/-! ## The forest -/

variable [Hashlib]

omit [Interpreter] in
theorem foldlM_push {hashes : List PyStr} (h : ∀ s ∈ hashes, (fromhex s).isSome = true)
    (tree : IncrementalMerkle) : ∃ tree', hashes.foldlM IncrementalMerkle.push tree = .ok tree' := by
  induction hashes generalizing tree with
  | nil => exact ⟨tree, rfl⟩
  | cons s hashes ih =>
      rw [List.forall_mem_cons] at h
      obtain ⟨leaf, hleaf⟩ := Option.isSome_iff_exists.mp h.1
      obtain ⟨tree', htree⟩ : ∃ tree', tree.push s = .ok tree' := by
        rw [IncrementalMerkle.push, hleaf]
        exact ⟨_, rfl⟩
      obtain ⟨tree'', hrest⟩ := ih h.2 tree'
      exact ⟨tree'', by rw [List.foldlM_cons, htree]; exact hrest⟩

/-- The forest can follow the trail: it has the size of the trail, or every line of the
trail gives it a leaf. -/
def Follows (readBack : Option PyErr) (file : Bytes) (merkle : IncrementalMerkle) (seq : ℤ) : Prop :=
  (merkle.size : ℤ) = seq ∨
    readBack = none ∧ ∃ hashes, entryHashes file = .ok hashes ∧
      ∀ s ∈ hashes, (fromhex s).isSome = true

theorem noteAppended_ok {readBack : Option PyErr} {file : Bytes} {merkle : IncrementalMerkle}
    {e : Entry} (hfile : EndsLine file) (he : Storable e)
    (hhash : (fromhex e.entryHash).isSome = true)
    (h : Follows readBack file merkle e.header.seq) :
    ∃ merkle', noteAppended readBack (file ++ (storedBytes e ++ [LF])) merkle e = .ok merkle' := by
  unfold noteAppended
  split_ifs with hsize
  · obtain ⟨leaf, hleaf⟩ := Option.isSome_iff_exists.mp hhash
    rw [IncrementalMerkle.push, hleaf]
    exact ⟨_, rfl⟩
  · obtain ⟨rfl, hashes, hread, hhex⟩ := h.resolve_left hsize
    have hafter : entryHashes (file ++ (storedBytes e ++ [LF])) = .ok (hashes ++ [e.entryHash]) := by
      have hline := entryHashes_storedBytes he
      rw [entryHashes] at hread hline ⊢
      rw [readLines_append_storedBytes _ hfile, hread, hline]
      rfl
    have hall : ∀ s ∈ hashes ++ [e.entryHash], (fromhex s).isSome = true :=
      List.forall_mem_append.mpr ⟨hhex, List.forall_mem_singleton.mpr hhash⟩
    obtain ⟨merkle', hmerkle⟩ := foldlM_push hall {}
    exact ⟨merkle', by rw [hafter]; exact hmerkle⟩

/-! ## Calls -/

/-- What a call gives back: the entry or the exception of `append`, the verdict of
`try_append`. -/
inductive Reply where
  | returned (entry : Entry)
  | raised (e : AppendError)
  | tried (ok : Bool)

/-- The write counts as lost: an exception other than `AttestationFailure`, or a counted
drop. -/
def Reply.lost : Reply → Bool
  | .raised (.other _) | .tried false => true
  | _ => false

/-- One call on the log. -/
def AuditLog.handle (config : LogConfig) (call : Call) (log : AuditLog) : Reply × AuditLog :=
  if call.viaTry then
    let out := log.tryAppend config call
    (.tried out.1, out.2)
  else
    match log.append config call with
    | (.ok entry, log) => (.returned entry, log)
    | (.error e, log) => (.raised e, log)

/-- The call gets as far as building `entry`. -/
def Builds (config : LogConfig) (log : AuditLog) (call : Call) (entry : Entry) : Prop :=
  ∃ tail d, tailLocked log.store.file = .ok tail ∧ draft config call = .ok d ∧
    d.build tail.1 tail.2 = .ok entry

/-- A call nothing goes wrong behind: if it builds an entry, then the last line of the trail
is terminated, a write that fails leaves less than the entry's object, nothing fails between
the write and the return of the backend, and the forest can follow the trail. -/
def Accountable (config : LogConfig) (log : AuditLog) (call : Call) : Prop :=
  ∀ entry, Builds config log call entry →
    EndsLine log.store.file ∧
    (∀ n e, call.io.write = some (n, e) → n < (storedBytes entry).length) ∧
    (call.io.write = none → call.io.release = none) ∧
    Follows call.readBack log.store.file log.merkle entry.header.seq

/-- The entries on disk. -/
def AuditLog.stored (log : AuditLog) : List Entry := completeEntries log.store.file

theorem autoAnchor_frame (config : LogConfig) (io : AnchorIo) (entry : Entry) (log : AuditLog) :
    (autoAnchor config io entry log).store = log.store ∧
      (autoAnchor config io entry log).dropped = log.dropped := by
  unfold autoAnchor
  split
  · exact ⟨rfl, rfl⟩
  · split_ifs
    · split <;> exact ⟨rfl, rfl⟩
    · exact ⟨rfl, rfl⟩

/-- What one `append` does to the entries on disk. -/
theorem append_accounted {config : LogConfig} {log : AuditLog} {call : Call}
    (h : Accountable config log call) :
    match log.append config call with
    | (.ok entry, after) => after.stored = log.stored ++ [entry] ∧ after.dropped = log.dropped
    | (.error (.attestationFailure _), after) =>
        (∃ entry, after.stored = log.stored ++ [entry]) ∧ after.dropped = log.dropped
    | (.error (.other _), after) => after.stored = log.stored ∧ after.dropped = log.dropped := by
  unfold AuditLog.append
  cases hdraft : draft config call with
  | error e => exact ⟨rfl, rfl⟩
  | ok d =>
      have hcases := append_cases config.integrityScanEvery call.io d.builder log.store
      have hbuilder : d.builder.build = d.build := rfl
      rw [hbuilder] at hcases
      simp only at hcases ⊢
      rcases hout : JSONLBackend.append config.integrityScanEvery call.io d.build log.store with
        ⟨result, store⟩
      rw [hout] at hcases
      rcases hcases with ⟨⟨err, rfl⟩, hfile⟩ | ⟨tail, entry, htail, hbuild, hcases⟩
      · simp only at hfile
        exact ⟨by rw [AuditLog.stored, AuditLog.stored, hfile], rfl⟩
      · obtain ⟨hends, htorn, hrelease, hfollows⟩ := h entry ⟨tail, d, htail, hdraft, hbuild⟩
        have he := Draft.storable_of_build hbuild
        rcases hcases with ⟨n, err, hwrite, rfl, hfile⟩ | ⟨hwrite, ⟨err, hfail, -⟩, -⟩ | ⟨rfl, hfile⟩
        · simp only at hfile
          refine ⟨?_, rfl⟩
          rw [AuditLog.stored, AuditLog.stored, hfile,
            completeEntries_torn hends he (htorn n err hwrite)]
        · rw [hrelease hwrite] at hfail
          cases hfail
        · obtain ⟨b, -, hhash, -, hseq, -⟩ := Draft.build_eq_ok hbuild
          have hhex : (fromhex entry.entryHash).isSome = true := by
            rw [hhash, hexdigest, fromhex_hex]
            rfl
          obtain ⟨merkle, hmerkle⟩ := noteAppended_ok hends he hhex hfollows
          simp only at hfile
          have hstored : ∀ after : AuditLog, after.store = store →
              after.stored = log.stored ++ [entry] := fun after hafter => by
            rw [AuditLog.stored, AuditLog.stored, hafter, hfile, completeEntries_storedBytes hends he]
          simp only [afterAppend, hfile, hmerkle]
          cases if config.hasAttestor = true then call.attest else none with
          | some cause => exact ⟨⟨entry, hstored _ rfl⟩, rfl⟩
          | none =>
              have hframe := autoAnchor_frame config call.anchor entry
                { log with store := store, merkle := merkle }
              exact ⟨hstored _ hframe.1, hframe.2⟩

/-! ## Runs -/

/-- One call of a run. -/
structure LogStep where
  before : AuditLog
  call : Call
  reply : Reply
  after : AuditLog

/-- A lost write has stored nothing; any other call has stored one entry, the one it
returned. -/
def LogStep.Accounted (step : LogStep) : Prop :=
  if step.reply.lost = true then step.after.stored = step.before.stored
  else ∃ entry, step.after.stored = step.before.stored ++ [entry] ∧
    ∀ entry', step.reply = .returned entry' → entry' = entry

/-- The calls of a run, one after another. -/
def logSteps (config : LogConfig) : List Call → AuditLog → List LogStep
  | [], _ => []
  | call :: calls, log =>
      let out := log.handle config call
      ⟨log, call, out.1, out.2⟩ :: logSteps config calls out.2

/-- The log after a run. -/
def afterCalls (config : LogConfig) (calls : List Call) (log : AuditLog) : AuditLog :=
  calls.foldl (fun log call => (log.handle config call).2) log

/-- The number of lost writes of a run. -/
def lostWrites (steps : List LogStep) : ℕ := steps.countP fun step => step.reply.lost

/-- The number of drops `try_append` counts in a run. -/
def countedDrops (steps : List LogStep) : ℕ :=
  steps.countP fun step => step.call.viaTry && step.reply.lost

omit [Interpreter] [Hashlib] in
theorem lostWrites_cons (step : LogStep) (steps : List LogStep) :
    lostWrites (step :: steps) = lostWrites steps + if step.reply.lost then 1 else 0 :=
  List.countP_cons

omit [Interpreter] [Hashlib] in
theorem countedDrops_cons (step : LogStep) (steps : List LogStep) :
    countedDrops (step :: steps)
      = countedDrops steps + if step.call.viaTry && step.reply.lost then 1 else 0 :=
  List.countP_cons

/-- **One call**: it stores one entry or counts as lost, and a drop is counted exactly when
`try_append` loses a write. -/
theorem handle_accounted {config : LogConfig} {log : AuditLog} {call : Call}
    (h : Accountable config log call) :
    LogStep.Accounted ⟨log, call, (log.handle config call).1, (log.handle config call).2⟩ ∧
      (log.handle config call).2.dropped
        = log.dropped + if call.viaTry && (log.handle config call).1.lost then 1 else 0 := by
  have happend := append_accounted h
  rcases hout : log.append config call with ⟨result, after⟩
  rw [hout] at happend
  unfold AuditLog.handle AuditLog.tryAppend
  rw [hout]
  cases hvia : call.viaTry with
  | false =>
      rcases result with ⟨cause | e⟩ | entry
      · obtain ⟨⟨entry, hstored⟩, hdropped⟩ := happend
        exact ⟨⟨entry, hstored, nofun⟩, hdropped⟩
      · exact ⟨happend.1, happend.2⟩
      · exact ⟨⟨entry, happend.1, fun entry' heq => (Reply.returned.inj heq).symm⟩, happend.2⟩
  | true =>
      rcases result with ⟨cause | e⟩ | entry
      · obtain ⟨⟨entry, hstored⟩, hdropped⟩ := happend
        exact ⟨⟨entry, hstored, nofun⟩, hdropped⟩
      · exact ⟨happend.1, congrArg (· + 1) happend.2⟩
      · exact ⟨⟨entry, happend.1, nofun⟩, happend.2⟩

/-- A log with nothing attached to it. -/
def bareConfig : LogConfig := ⟨some 1000, none, false, none, pos_of_mem_none⟩

/-- `try_append(payload=b"{}", ...)`, with nothing failing around it. -/
def plainCall : Call where
  viaTry := true
  payload := .bytes (ascii "{}")
  payloadType := str "application/vnd.x+json"
  now := .ok (str "2024-01-01T00:00:00+00:00")
  io := .sound
  readBack := none
  attest := none
  anchor := ⟨none, none, none⟩

theorem accountable_open (call : Call) (hio : call.io = .sound) :
    Accountable bareConfig (AuditLog.open []) call := by
  rintro entry ⟨tail, d, htail, -, hbuild⟩
  obtain rfl : genesisLink = tail := Except.ok.inj htail
  obtain ⟨b, -, -, -, hseq, -⟩ := Draft.build_eq_ok hbuild
  refine ⟨.inl rfl, ?_, fun _ => ?_, .inl hseq.symm⟩
  · rw [hio]
    exact nofun
  · rw [hio]
    rfl

end Waxseal
