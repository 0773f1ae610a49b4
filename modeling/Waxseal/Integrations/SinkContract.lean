import Waxseal.Integrations.AuditSink

/-!
# What the governance sink promises its host

A write returns just when nothing but a `ValueError` comes out of the texts of a decision, and
the line about a write that was dropped can be shown (`Survives`).  A write that returns has
stored one entry or left one drop on record, where the log accounts for its appends and a drop
beside the log reaches the sidecar (`Counts`).
-/

namespace Waxseal

open Json

variable [Interpreter] [Hashlib]

namespace AuditSink

variable {sink : AuditSink}

/-! ## Mapping -/

omit [Interpreter] [Hashlib] in
theorem optionalText_raises (value : PyValue) : OnlyValueError (optionalText value) := by
  cases value <;> first | exact .ok _ | exact .valueError

omit [Interpreter] in
/-- Whatever the texts are, a record made of them is refused with a `ValueError`. -/
theorem checkedRecord_raises (model : ModelRef) (payload : AgtPayload) (texts : DecisionTexts) :
    OnlyValueError (sink.checkedRecord model payload texts) :=
  .bind (requireNonempty_raises _) fun _ => .bind (requireNonempty_raises _) fun _ =>
    .bind (requireNonempty_raises _) fun _ => .bind (requireNonempty_raises _) fun _ =>
    .bind (optionalText_raises _) fun _ => .bind (optionalText_raises _) fun _ =>
    .bind (optionalText_raises _) fun _ => .ok _

variable (sink) in
/-- Of the texts of a decision, nothing raises but a `ValueError`: a sink with a model forms them
for an entry that is identified. -/
def Maps (entry : AgtEntry) (payload : AgtPayload) : Prop :=
  sink.model.isSome → identified payload = true →
    ∀ e, sink.decisionTexts entry payload = .error e → e.isValueError = true

theorem exists_decisionPayload_iff {entry : AgtEntry} {payload : AgtPayload} :
    (∃ decision, sink.decisionPayload entry payload = .ok decision) ↔ sink.Maps entry payload := by
  unfold decisionPayload Maps
  cases sink.model with
  | none => exact ⟨fun _ h => absurd h (by decide), fun _ => ⟨none, rfl⟩⟩
  | some model =>
      by_cases hidentified : identified payload = true
      · simp only [hidentified, if_true]
        cases htexts : sink.decisionTexts entry payload with
        | error e =>
            have hbind : (Except.error e : Except PyErr DecisionTexts) >>=
                sink.checkedRecord model payload = .error e := rfl
            simp only [hbind]
            cases hvalue : e.isValueError with
            | true =>
                refine ⟨fun _ _ _ e' he' => ?_, fun _ => ⟨none, rfl⟩⟩
                rw [← Except.error.inj he']
                exact hvalue
            | false =>
                refine ⟨fun ⟨decision, h⟩ => ?_, fun h => ?_⟩
                · cases h
                · rw [h rfl trivial e rfl] at hvalue
                  cases hvalue
        | ok texts =>
            have hbind : (Except.ok texts : Except PyErr DecisionTexts) >>=
                sink.checkedRecord model payload = sink.checkedRecord model payload texts := rfl
            simp only [hbind]
            refine ⟨fun _ _ _ e he => absurd he (by simp), fun _ => ?_⟩
            cases hrecord : sink.checkedRecord model payload texts with
            | error e =>
                rw [checkedRecord_raises model payload texts e hrecord]
                exact ⟨none, rfl⟩
            | ok record => exact ⟨some record.toPayload, rfl⟩
      · simp only [hidentified, Bool.false_eq_true, if_false]
        exact ⟨fun _ _ h => absurd h (by decide), fun _ => ⟨none, rfl⟩⟩

/-! ## When a write returns -/

/-- A drop beside the log can be told. -/
def SinkIo.Tells (io : SinkIo) : Prop := io.stderr = none ∧ io.locating = none

variable (sink) in
/-- Nothing gets past the sink. -/
def Survives (w : SinkWrite) (s : SinkState) : Prop :=
  match sink.payloadFor w.entry with
  | .error _ => w.io.Tells
  | .ok payload =>
      match openLog w.io s.trail with
      | none => w.io.Tells
      | some log => sink.Maps w.entry payload ∧
          ∀ decision, sink.decisionPayload w.entry payload = .ok decision →
            (log.tryAppend sinkConfig (sink.callFor w.io payload decision)).1 = false →
            (∃ shown, (payload.get (str "event_type")).repr sink.py sink.py.reprDepth = .ok shown) ∧
              w.io.stderr = none

omit [Interpreter] [Hashlib] in
theorem dropBeside_returns_iff {io : SinkIo} {s : SinkState} :
    (dropBeside io s).1 = .ok () ↔ io.Tells := by
  unfold dropBeside SinkIo.Tells
  cases io.stderr with
  | some e => simp
  | none =>
      cases io.locating with
      | some e => simp
      | none => simp

omit [Hashlib] in
theorem reportDropped_returns_iff {io : SinkIo} {payload : AgtPayload} :
    sink.reportDropped io payload = .ok () ↔
      (∃ shown, (payload.get (str "event_type")).repr sink.py sink.py.reprDepth = .ok shown) ∧
        io.stderr = none := by
  unfold reportDropped
  cases (payload.get (str "event_type")).repr sink.py sink.py.reprDepth with
  | error e =>
      constructor
      · rintro ⟨⟩
      · rintro ⟨⟨shown, ⟨⟩⟩, -⟩
  | ok shown =>
      cases io.stderr with
      | some e =>
          constructor
          · rintro ⟨⟩
          · rintro ⟨-, ⟨⟩⟩
      | none => exact ⟨fun _ => ⟨⟨shown, rfl⟩, rfl⟩, fun _ => rfl⟩

/-- **When a write returns.** -/
theorem writeOne_returns_iff {w : SinkWrite} {s : SinkState} :
    (sink.writeOne w s).1 = .ok () ↔ sink.Survives w s := by
  unfold writeOne Survives
  cases sink.payloadFor w.entry with
  | error e => exact dropBeside_returns_iff
  | ok payload =>
      dsimp only
      cases openLog w.io s.trail with
      | none => exact dropBeside_returns_iff
      | some log =>
          dsimp only
          rw [← exists_decisionPayload_iff]
          cases sink.decisionPayload w.entry payload with
          | error e =>
              constructor
              · rintro ⟨⟩
              · rintro ⟨⟨decision, ⟨⟩⟩, -⟩
          | ok decision =>
              dsimp only
              have hcall : ∀ d, (.ok decision : Except PyErr (Option Json)) = .ok d → decision = d :=
                fun d => Except.ok.inj
              rcases htry : log.tryAppend sinkConfig (sink.callFor w.io payload decision) with
                ⟨stored, after⟩
              constructor
              · intro h
                refine ⟨⟨decision, rfl⟩, ?_⟩
                intro d hd hlost
                obtain rfl := hcall d hd
                rw [htry] at hlost
                obtain rfl : stored = false := hlost
                exact reportDropped_returns_iff.mp h
              · rintro ⟨-, h⟩
                cases stored with
                | true => rfl
                | false => exact reportDropped_returns_iff.mpr (h decision rfl (by rw [htry]))

/-! ## What a write leaves -/

variable (sink) in
/-- The write is accounted for: the log can account for its append, or a drop beside the log
reaches the sidecar. -/
def Counts (w : SinkWrite) (s : SinkState) : Prop :=
  match sink.payloadFor w.entry with
  | .error _ => w.io.noted = true
  | .ok payload =>
      match openLog w.io s.trail with
      | none => w.io.noted = true
      | some log => ∀ decision, sink.decisionPayload w.entry payload = .ok decision →
          Accountable sinkConfig log (sink.callFor w.io payload decision)

/-- One entry more on the chain, or one drop more on record. -/
def OneEntryOrDrop (before after : SinkState) : Prop :=
  ((∃ entry, after.stored = before.stored ++ [entry]) ∧ after.drops = before.drops) ∨
    (after.stored = before.stored ∧ after.drops = before.drops + 1)

omit [Hashlib] in
theorem dropBeside_accounted {io : SinkIo} {s : SinkState} (htells : io.Tells)
    (hnoted : io.noted = true) : OneEntryOrDrop s (dropBeside io s).2 := by
  have hdrop : dropBeside io s = (.ok (), { s with noted := s.noted + 1 }) := by
    rw [dropBeside, htells.1, htells.2, hnoted]
    rfl
  rw [hdrop]
  refine .inr ⟨rfl, ?_⟩
  obtain ⟨trail, noted⟩ := s
  cases trail with
  | unopened file => rfl
  | opened log => exact Nat.add_right_comm noted 1 log.dropped

omit [Hashlib] in
/-- A trail that has been opened holds what it held, and has counted what it had. -/
theorem openLog_some {io : SinkIo} {s : SinkState} {log : AuditLog}
    (h : openLog io s.trail = some log) :
    log.stored = s.stored ∧ s.noted + log.dropped = s.drops := by
  obtain ⟨trail, noted⟩ := s
  cases trail with
  | unopened file =>
      unfold openLog at h
      split_ifs at h
      obtain rfl := Option.some.inj h
      exact ⟨rfl, rfl⟩
  | opened opened =>
      obtain rfl := Option.some.inj h
      exact ⟨rfl, rfl⟩

/-- An append the log can account for. -/
theorem tryAppend_accounted {log : AuditLog} {call : Call} (hvia : call.viaTry = true)
    (h : Accountable sinkConfig log call) :
    ((log.tryAppend sinkConfig call).1 = true →
      (∃ entry, (log.tryAppend sinkConfig call).2.stored = log.stored ++ [entry]) ∧
        (log.tryAppend sinkConfig call).2.dropped = log.dropped) ∧
    ((log.tryAppend sinkConfig call).1 = false →
      (log.tryAppend sinkConfig call).2.stored = log.stored ∧
        (log.tryAppend sinkConfig call).2.dropped = log.dropped + 1) := by
  obtain ⟨hstep, hdropped⟩ := handle_accounted h
  have hhandle : log.handle sinkConfig call =
      (.tried (log.tryAppend sinkConfig call).1, (log.tryAppend sinkConfig call).2) := by
    rw [AuditLog.handle, if_pos hvia]
  rw [hhandle] at hstep hdropped
  rw [hvia] at hdropped
  unfold LogStep.Accounted at hstep
  constructor
  · intro hstored
    rw [hstored] at hstep hdropped
    obtain ⟨entry, hentry, -⟩ := hstep
    exact ⟨⟨entry, hentry⟩, hdropped⟩
  · intro hlost
    rw [hlost] at hstep hdropped
    exact ⟨hstep, hdropped⟩

/-- **What a write leaves.** -/
theorem writeOne_accounted {w : SinkWrite} {s : SinkState} (hsurvives : sink.Survives w s)
    (hcounts : sink.Counts w s) : OneEntryOrDrop s (sink.writeOne w s).2 := by
  have hreturns := writeOne_returns_iff.mpr hsurvives
  unfold writeOne at hreturns ⊢
  unfold Survives at hsurvives
  unfold Counts at hcounts
  cases hpayload : sink.payloadFor w.entry with
  | error e =>
      rw [hpayload] at hsurvives hcounts
      exact dropBeside_accounted hsurvives hcounts
  | ok payload =>
      rw [hpayload] at hsurvives hcounts hreturns
      dsimp only at hsurvives hcounts hreturns ⊢
      cases hopen : openLog w.io s.trail with
      | none =>
          rw [hopen] at hsurvives hcounts
          exact dropBeside_accounted hsurvives hcounts
      | some log =>
          rw [hopen] at hcounts hreturns
          dsimp only at hcounts hreturns ⊢
          obtain ⟨hsame, hdrops⟩ := openLog_some hopen
          cases hdecision : sink.decisionPayload w.entry payload with
          | error e =>
              rw [hdecision] at hreturns
              cases hreturns
          | ok decision =>
              obtain ⟨hstored, hlost⟩ := tryAppend_accounted rfl (hcounts decision hdecision)
              dsimp only
              generalize log.tryAppend sinkConfig (sink.callFor w.io payload decision) = out
                at hstored hlost ⊢
              obtain ⟨stored, after⟩ := out
              cases stored with
              | true =>
                  obtain ⟨⟨entry, hentry⟩, hdropped⟩ := hstored rfl
                  refine .inl ⟨⟨entry, ?_⟩, ?_⟩
                  · rw [← hsame]
                    exact hentry
                  · rw [← hdrops]
                    exact congrArg (s.noted + ·) hdropped
              | false =>
                  obtain ⟨hnothing, hdropped⟩ := hlost rfl
                  refine .inr ⟨?_, ?_⟩
                  · rw [← hsame]
                    exact hnothing
                  · rw [← hdrops]
                    exact congrArg (s.noted + ·) hdropped

/-! ## Runs -/

/-- One write of a run. -/
structure SinkStep where
  before : SinkState
  write : SinkWrite
  after : SinkState

variable (sink) in
/-- The writes of a run, one after the other. -/
def steps : List SinkWrite → SinkState → List SinkStep
  | [], _ => []
  | w :: ws, s => ⟨s, w, (sink.writeOne w s).2⟩ :: steps ws (sink.writeOne w s).2

/-- A batch returns just when every write of it does. -/
theorem writeBatch_returns_iff (ws : List SinkWrite) (s : SinkState) :
    (sink.writeBatch ws s).1 = .ok () ↔
      ∀ step ∈ sink.steps ws s, sink.Survives step.write step.before := by
  induction ws generalizing s with
  | nil => exact ⟨fun _ step hstep => absurd hstep List.not_mem_nil, fun _ => rfl⟩
  | cons w ws ih =>
      rw [steps, List.forall_mem_cons, ← ih, ← writeOne_returns_iff, writeBatch]
      rcases sink.writeOne w s with ⟨e | ⟨⟩, after⟩
      · simp
      · simp

theorem steps_accounted (ws : List SinkWrite) (s : SinkState)
    (h : ∀ step ∈ sink.steps ws s,
      sink.Survives step.write step.before ∧ sink.Counts step.write step.before) :
    ∀ step ∈ sink.steps ws s, OneEntryOrDrop step.before step.after := by
  induction ws generalizing s with
  | nil => exact List.forall_mem_nil _
  | cons w ws ih =>
      rw [steps, List.forall_mem_cons] at h ⊢
      obtain ⟨⟨hsurvives, hcounts⟩, hrest⟩ := h
      exact ⟨writeOne_accounted hsurvives hcounts, ih _ hrest⟩

/-- What the values below leave to the interpreter: texts without quotes, no bytes, no two numbers
for keys. -/
def quotingPy : PyRuntime :=
  ⟨fun s => str "'" ++ s ++ str "'", fun _ => [], id, 300, 300, 900⟩

omit [Interpreter] [Hashlib] in
theorem assistant_ne_nil : str "assistant" ≠ [] := by decide

/-- A sink over text without secrets. -/
def quietSink (model : Option ModelRef) : AuditSink := ⟨model, str "agt", id, quotingPy⟩

/-- Nothing fails around a write. -/
def SinkIo.sound : SinkIo where
  opening := none
  locating := none
  noted := true
  stderr := none
  now := .ok (str "2024-01-01T00:00:00+00:00")
  append := .sound
  readBack := none

/-- A permitted read of a resource. -/
def readOf (resource : PyValue) : SinkWrite where
  entry := ⟨[
    (str "entry_id", .str (str "e1")),
    (str "action", .str (str "read")),
    (str "resource", resource),
    (str "outcome", .str (str "success"))]⟩
  io := .sound

/-- A sink nobody has written to, over no trail. -/
def SinkState.fresh : SinkState := ⟨.unopened [], 0⟩

/-- The first write of a sink, with nothing failing around it, is accounted for. -/
theorem counts_fresh {w : SinkWrite} (hio : w.io = .sound) : sink.Counts w .fresh := by
  unfold Counts
  rw [hio]
  cases sink.payloadFor w.entry with
  | error e => rfl
  | ok payload => exact fun decision _ => accountable_open _ rfl

end AuditSink

end Waxseal
