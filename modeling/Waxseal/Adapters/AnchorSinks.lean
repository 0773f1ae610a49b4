import Waxseal.Adapters.AnchorSidecar
import Waxseal.Adapters.EvmAnchor
import Waxseal.Adapters.EvmReader
import Waxseal.Base.Base64

/-!
# Anchoring through several sinks

`RecordingAnchorSink` and `MultiAnchorSink` of `adapters/anchors.py`.  One checkpoint goes to
every sink; a sink that publishes files its own record in the sidecar of the trail, and one that
raises is to be reported, not to cost the others their anchor.

What a sink raises comes from its own stack: the transport, the encoders, the clock or the file
system.  `MultiAnchorSink.anchor` catches two classes of it, and `isolates_iff` says that the
fan-out is what it should be exactly when nothing else is raised.

An append to the sidecar is complete or does not start; what a torn one does is the subject of
`Waxseal.Base.JsonRecords`.
-/

namespace Waxseal

/-! ## Exceptions -/

/-- What an `except` clause and `str` see of an exception. -/
structure SinkFailure where
  isOSError : Bool
  isRuntimeError : Bool
  text : PyStr
  deriving DecidableEq

namespace SinkFailure

/-- `except (OSError, RuntimeError)`. -/
def isCaught (e : SinkFailure) : Bool := e.isOSError || e.isRuntimeError

/-- `RuntimeError(text)`. -/
def runtimeError (text : PyStr) : SinkFailure := ⟨false, true, text⟩

/-- `ValueError(text)`. -/
def valueError (text : PyStr) : SinkFailure := ⟨false, false, text⟩

/-- An exception of the library, with its `str`; `RecursionError` is a `RuntimeError`. -/
def ofPyErr (e : PyErr) (text : PyStr) : SinkFailure :=
  ⟨e == .osError, e == .runtimeError || e == .recursionError, text⟩

theorem isCaught_ofPyErr {e : PyErr} {text : PyStr} :
    (ofPyErr e text).isCaught = true ↔ e = .osError ∨ e = .runtimeError ∨ e = .recursionError := by
  simp [isCaught, ofPyErr]

/-- No `ValueError` is caught: that is what the encoders and the transport refuse with. -/
theorem isCaught_of_isValueError {e : PyErr} (h : e.isValueError = true) (text : PyStr) :
    (ofPyErr e text).isCaught = false := by
  cases e <;> first | rfl | cases h

end SinkFailure

/-! ## The transport -/

/-- A `Transport`. -/
abbrev Transport := RemoteRequest → Except SinkFailure RemoteResponse

/-- What `urllib` does behind the check of the scheme. -/
structure Urllib where
  /-- What `urlsplit` raises about the network location. -/
  netloc : PyStr → Option SinkFailure
  opener : Transport

/-- The characters `urlsplit` strips from the left. -/
def isC0OrSpace (c : CodePoint) : Bool := c.val ≤ 0x20

/-- The characters `urlsplit` removes. -/
def isUnsafeInUrl (c : CodePoint) : Bool := c = 0x09 || c = 0x0D || c = 0x0A

/-- `scheme_chars`. -/
def isSchemeChar (c : CodePoint) : Bool :=
  isLetter c || Json.isDigit c || c = .ofChar '+' || c = .ofChar '-' || c = .ofChar '.'
where
  /-- An ASCII letter. -/
  isLetter (c : CodePoint) : Bool := (0x41 ≤ c.val && c.val ≤ 0x5A) || (0x61 ≤ c.val && c.val ≤ 0x7A)

/-- `urlsplit(url).scheme.lower()`. -/
def urlScheme (url : PyStr) : PyStr :=
  let url := (url.dropWhile isC0OrSpace).filter (!isUnsafeInUrl ·)
  let front := url.takeWhile (· ≠ .ofChar ':')
  if front.length < url.length ∧ (front.head?.map isSchemeChar.isLetter).getD false
      ∧ front.all isSchemeChar then
    lowerAscii front
  else []

/-- `_ALLOWED_SCHEMES`. -/
def allowedSchemes : List PyStr := [str "http", str "https"]

/-- What `urllib_transport` says of a scheme it does not open. -/
def refusedScheme (scheme : PyStr) : PyStr :=
  str "refusing URL scheme '" ++ (if scheme = [] then str "(none)" else scheme)
    ++ str "': this transport opens only http, https"

/-- `urllib_transport(...)`. -/
def urllibTransport (urllib : Urllib) : Transport := fun request =>
  match urllib.netloc request.url with
  | some e => .error e
  | none =>
      if urlScheme request.url ∉ allowedSchemes then
        .error (.valueError (refusedScheme (urlScheme request.url)))
      else urllib.opener request

/-- A scheme that is not opened is refused with what no fan-out catches. -/
theorem urllibTransport_refused {urllib : Urllib} {request : RemoteRequest}
    (hnetloc : urllib.netloc request.url = none) (h : urlScheme request.url ∉ allowedSchemes) :
    ∃ e, urllibTransport urllib request = .error e ∧ e.isCaught = false := by
  refine ⟨.valueError (refusedScheme (urlScheme request.url)), ?_, rfl⟩
  rw [urllibTransport]
  simp only [hnetloc]
  exact if_pos h

/-! ## External sinks -/

/-- `SinkReceipt`, or what a sink returns instead. -/
structure SinkReceipt where
  receipt : Option PyStr
  nonce : Option ℤ
  deriving DecidableEq

section External

variable [Hashlib]

/-- `OtsAnchorSink.anchor`.  `describe` is the `str` of an exception of the library. -/
def otsAnchor (describe : PyErr → PyStr) (calendarUrl : PyStr) (transport : Transport)
    (cp : Checkpoint) : Except SinkFailure SinkReceipt := do
  let url := calendarUrl.rdropWhile (· = .ofChar '/') ++ str "/digest"
  let frame ← (checkpointFrame cp).mapError fun e => .ofPyErr e (describe e)
  let response ← transport ⟨url, (sha256 frame).val⟩
  if response.status ≠ 200 then
    .error (.runtimeError (str "calendar " ++ url ++ str " refused the digest: HTTP "
      ++ strInt response.status))
  else if response.body = [] then
    .error (.runtimeError (str "calendar " ++ url ++ str " returned an empty proof"))
  else return ⟨some (str "ots:" ++ b64encode response.body), none⟩

/-- `EvmAnchorSink.anchor`, for what its ledger sink makes of the call data. -/
def EvmAnchorSink.anchor (sink : EvmAnchorSink) (describe : PyErr → PyStr)
    (send : Bytes → Except SinkFailure PyStr) (cp : Checkpoint) : Except SinkFailure SinkReceipt := do
  let (_, _, calldata) ← (sink.submission cp).mapError fun e => .ofPyErr e (describe e)
  return ⟨some (← send calldata), none⟩

/-- A checkpoint that cannot be encoded is refused with what no fan-out catches. -/
theorem EvmAnchorSink.anchor_uncaught {sink : EvmAnchorSink} {describe : PyErr → PyStr}
    {send : Bytes → Except SinkFailure PyStr} {cp : Checkpoint} {e : PyErr}
    (h : sink.submission cp = .error e) (hvalue : e.isValueError = true) :
    ∃ failure, sink.anchor describe send cp = .error failure ∧ failure.isCaught = false := by
  refine ⟨.ofPyErr e (describe e), ?_, SinkFailure.isCaught_of_isValueError hvalue _⟩
  rw [anchor, h]
  rfl

end External

/-! ## Recording -/

/-- How an append to the sidecar goes. -/
structure SidecarIo where
  /-- The lock, or the file, cannot be had. -/
  openFailure : Option SinkFailure
  /-- The record is written, and then closing the file or giving up the lock raises. -/
  closeFailure : Option SinkFailure

/-- `RecordingAnchorSink`, with what its external sink and its clock do in one call. -/
structure RecordingAnchorSink where
  name : PyStr
  external : Checkpoint → Except SinkFailure SinkReceipt
  now : Except SinkFailure PyStr
  io : SidecarIo

section Recording

variable [Interpreter]

/-- `_append_record(path, record)`. -/
def SidecarIo.appendRecord (io : SidecarIo) (record : SidecarRecord) (file : Option Bytes) :
    Except SinkFailure Unit × Option Bytes :=
  match io.openFailure with
  | some e => (.error e, file)
  | none =>
      let file := some (file.getD [] ++ record.line)
      match io.closeFailure with
      | some e => (.error e, file)
      | none => (.ok (), file)

namespace RecordingAnchorSink

/-- `anchor(checkpoint)`: publish first, record second. -/
def anchor (sink : RecordingAnchorSink) (cp : Checkpoint) (file : Option Bytes) :
    Except SinkFailure (Option PyStr) × Option Bytes :=
  match sink.external cp with
  | .error e => (.error e, file)
  | .ok result =>
      match sink.now with
      | .error e => (.error e, file)
      | .ok ts =>
          match sink.io.appendRecord (.of cp sink.name result.receipt ts result.nonce) file with
          | (.error e, file) => (.error e, file)
          | (.ok (), file) => (.ok result.receipt, file)

/-- The outcome of a call, which the sidecar has no part in. -/
def outcome (sink : RecordingAnchorSink) (cp : Checkpoint) : Except SinkFailure (Option PyStr) :=
  (sink.anchor cp none).1

/-- What a call raises. -/
def raised (sink : RecordingAnchorSink) (cp : Checkpoint) : Option SinkFailure :=
  match sink.outcome cp with
  | .ok _ => none
  | .error e => some e

theorem raised_eq_some {sink : RecordingAnchorSink} {cp : Checkpoint} {e : SinkFailure} :
    sink.raised cp = some e ↔ sink.outcome cp = .error e := by
  unfold raised
  cases sink.outcome cp with
  | ok receipt => exact ⟨nofun, nofun⟩
  | error e' => exact ⟨fun h => congrArg _ (Option.some.inj h), fun h => congrArg _ (Except.error.inj h)⟩

/-- The record a call files. -/
def record (sink : RecordingAnchorSink) (cp : Checkpoint) : Option SidecarRecord :=
  match sink.external cp, sink.now, sink.io.openFailure with
  | .ok result, .ok ts, none => some (.of cp sink.name result.receipt ts result.nonce)
  | _, _, _ => none

omit [Interpreter] in
/-- Where a record comes from. -/
theorem record_eq_some {sink : RecordingAnchorSink} {cp : Checkpoint} {r : SidecarRecord}
    (h : sink.record cp = some r) : ∃ result ts, sink.external cp = .ok result ∧
      sink.now = .ok ts ∧ r = .of cp sink.name result.receipt ts result.nonce := by
  unfold record at h
  split at h
  · next result ts hexternal hnow hopen =>
      exact ⟨result, ts, hexternal, hnow, (Option.some.inj h).symm⟩
  · cases h

/-- **A call** has its outcome, and adds its record. -/
theorem anchor_eq (sink : RecordingAnchorSink) (cp : Checkpoint) (file : Option Bytes) :
    sink.anchor cp file = (sink.outcome cp,
      (sink.record cp).elim file fun r => some (file.getD [] ++ r.line)) := by
  unfold outcome record anchor SidecarIo.appendRecord
  cases sink.external cp with
  | error e => rfl
  | ok result =>
      cases sink.now with
      | error e => rfl
      | ok ts =>
          cases sink.io.openFailure with
          | some e => rfl
          | none => cases sink.io.closeFailure <;> rfl

/-- **A sink that published has its record**: of this checkpoint, under its name, with the receipt
it returned. -/
theorem record_of_published {sink : RecordingAnchorSink} {cp : Checkpoint} {receipt : Option PyStr}
    (h : sink.outcome cp = .ok receipt) :
    ∃ r, sink.record cp = some r ∧ r.checkpoint = cp ∧ r.sink = sink.name ∧ r.receipt = receipt := by
  unfold outcome anchor SidecarIo.appendRecord at h
  unfold record
  cases hexternal : sink.external cp with
  | error e =>
      simp only [hexternal] at h
      cases h
  | ok result =>
      cases hnow : sink.now with
      | error e =>
          simp only [hexternal, hnow] at h
          cases h
      | ok ts =>
          cases hopen : sink.io.openFailure with
          | some e =>
              simp only [hexternal, hnow, hopen] at h
              cases h
          | none =>
              refine ⟨_, rfl, rfl, rfl, ?_⟩
              cases hclose : sink.io.closeFailure with
              | some e =>
                  simp only [hexternal, hnow, hopen, hclose] at h
                  cases h
              | none =>
                  simp only [hexternal, hnow, hopen, hclose] at h
                  exact Except.ok.inj h

end RecordingAnchorSink

/-! ## Fanning out -/

/-- `MultiAnchorSink`: the constructor refuses fewer than two sinks. -/
structure MultiAnchorSink where
  sinks : List RecordingAnchorSink
  two : 2 ≤ sinks.length

/-- What a call has done so far. -/
structure FanOut where
  sidecar : Option Bytes
  /-- The sinks that were called. -/
  called : List RecordingAnchorSink
  failures : List (PyStr × PyStr)
  published : ℕ

/-- `"; ".join(f"{name}: {reason}" for name, reason in failures)`. -/
def joinFailures (failures : List (PyStr × PyStr)) : PyStr :=
  (str "; ").intercalate (failures.map fun failure => failure.1 ++ str ": " ++ failure.2)

/-- The failures of the sinks that raise. -/
def failuresOf (cp : Checkpoint) (sinks : List RecordingAnchorSink) : List (PyStr × PyStr) :=
  sinks.filterMap fun sink => (sink.raised cp).map fun e => (sink.name, e.text)

namespace MultiAnchorSink

/-- The loop over the sinks: what it raises, and what it has done. -/
def loop (cp : Checkpoint) : List RecordingAnchorSink → FanOut → Option SinkFailure × FanOut
  | [], w => (none, w)
  | sink :: sinks, w =>
      match sink.anchor cp w.sidecar with
      | (.ok _, sidecar) => loop cp sinks
          { w with sidecar, called := w.called ++ [sink], published := w.published + 1 }
      | (.error e, sidecar) =>
          if e.isCaught then loop cp sinks
            { w with
              sidecar
              called := w.called ++ [sink]
              failures := w.failures ++ [(sink.name, e.text)] }
          else (some e, { w with sidecar, called := w.called ++ [sink] })

/-- `anchor(checkpoint)`. -/
def anchor (multi : MultiAnchorSink) (cp : Checkpoint) (file : Option Bytes) :
    Except SinkFailure Unit × FanOut :=
  match loop cp multi.sinks ⟨file, [], [], 0⟩ with
  | (some e, w) => (.error e, w)
  | (none, w) =>
      if w.published = 0 then (.error (.runtimeError (joinFailures w.failures)), w) else (.ok (), w)

/-- **The fan-out isolates failures**: every sink is called once and in order, the sidecar gets the
records of those that published, the failures are those of the sinks that raised, and the call
raises if and only if all of them did. -/
structure Isolates (multi : MultiAnchorSink) (cp : Checkpoint) (file : Option Bytes) : Prop where
  called : (multi.anchor cp file).2.called = multi.sinks
  recorded : (multi.anchor cp file).2.sidecar.getD [] =
    file.getD [] ++ (multi.sinks.filterMap (·.record cp)).flatMap SidecarRecord.line
  failures : (multi.anchor cp file).2.failures = failuresOf cp multi.sinks
  raises : (∃ e, (multi.anchor cp file).1 = .error e) ↔
    ∀ sink ∈ multi.sinks, ∃ e, sink.outcome cp = .error e

/-- All that the sinks raise is caught. -/
def AllCaught (cp : Checkpoint) (sinks : List RecordingAnchorSink) : Prop :=
  ∀ sink ∈ sinks, ∀ e, sink.outcome cp = .error e → e.isCaught = true

/-- How many sinks published. -/
def publishedOf (cp : Checkpoint) (sinks : List RecordingAnchorSink) : ℕ :=
  sinks.countP fun sink => (sink.outcome cp).isOk

/-- The sidecar with more records. -/
def filed (file : Option Bytes) (records : List SidecarRecord) : Option Bytes :=
  records.foldl (fun file r => some (file.getD [] ++ r.line)) file

theorem getD_filed (file : Option Bytes) (records : List SidecarRecord) :
    (filed file records).getD [] = file.getD [] ++ records.flatMap SidecarRecord.line := by
  induction records generalizing file with
  | nil => exact (List.append_nil _).symm
  | cons r records ih =>
      show (filed (some (file.getD [] ++ r.line)) records).getD [] = _
      rw [ih, Option.getD_some, List.flatMap_cons, List.append_assoc]

/-- What is done after calls of these sinks. -/
def after (cp : Checkpoint) (w : FanOut) (sinks : List RecordingAnchorSink) : FanOut where
  sidecar := filed w.sidecar (sinks.filterMap (·.record cp))
  called := w.called ++ sinks
  failures := w.failures ++ failuresOf cp sinks
  published := w.published + publishedOf cp sinks

theorem after_append (cp : Checkpoint) (w : FanOut) (sinks more : List RecordingAnchorSink) :
    after cp w (sinks ++ more) = after cp (after cp w sinks) more := by
  simp only [after, filed, failuresOf, publishedOf, List.filterMap_append, List.foldl_append,
    List.append_assoc, List.countP_append, Nat.add_assoc]

/-- **One call** that publishes, or raises what is caught. -/
theorem loop_cons {cp : Checkpoint} {sink : RecordingAnchorSink}
    (h : ∀ e, sink.outcome cp = .error e → e.isCaught = true) (sinks : List RecordingAnchorSink)
    (w : FanOut) : loop cp (sink :: sinks) w = loop cp sinks (after cp w [sink]) := by
  have hfiled : (sink.record cp).elim w.sidecar (fun r => some (w.sidecar.getD [] ++ r.line)) =
      filed w.sidecar ([sink].filterMap (·.record cp)) := by
    cases hrecord : sink.record cp with
    | none => simp [filed, hrecord]
    | some r => simp [filed, hrecord]
  rw [loop, sink.anchor_eq, hfiled]
  cases houtcome : sink.outcome cp with
  | ok receipt =>
      have hraised : sink.raised cp = none := by rw [RecordingAnchorSink.raised, houtcome]
      simp [after, failuresOf, publishedOf, hraised, houtcome, Except.isOk, Except.toBool]
  | error e =>
      have hraised := RecordingAnchorSink.raised_eq_some.mpr houtcome
      simp only [h e houtcome, if_true]
      simp [after, failuresOf, publishedOf, hraised, houtcome, Except.isOk, Except.toBool]

/-- **The loop** runs through what is caught. -/
theorem loop_append {cp : Checkpoint} {sinks : List RecordingAnchorSink} (h : AllCaught cp sinks)
    (more : List RecordingAnchorSink) (w : FanOut) :
    loop cp (sinks ++ more) w = loop cp more (after cp w sinks) := by
  induction sinks generalizing w with
  | nil => simp [after, filed, failuresOf, publishedOf]
  | cons sink sinks ih =>
      rw [AllCaught, List.forall_mem_cons] at h
      rw [List.cons_append, loop_cons h.1, ih h.2, ← after_append, List.singleton_append]

/-- **The loop ends** with what is not caught. -/
theorem loop_uncaught {cp : Checkpoint} {sink : RecordingAnchorSink} {e : SinkFailure}
    (houtcome : sink.outcome cp = .error e) (h : e.isCaught = false)
    (sinks : List RecordingAnchorSink) (w : FanOut) :
    ∃ w', loop cp (sink :: sinks) w = (some e, w') ∧ w'.failures = w.failures := by
  rw [loop, sink.anchor_eq, houtcome]
  simp only [h]
  exact ⟨_, rfl, rfl⟩

/-- **The loop** calls the first so many sinks, and the sidecar gets their records. -/
theorem loop_called (cp : Checkpoint) (sinks : List RecordingAnchorSink) (w : FanOut) :
    ∃ k ≤ sinks.length, (loop cp sinks w).2.called = w.called ++ sinks.take k ∧
      (loop cp sinks w).2.sidecar = filed w.sidecar ((sinks.take k).filterMap (·.record cp)) := by
  induction sinks generalizing w with
  | nil => exact ⟨0, le_refl 0, (List.append_nil _).symm, rfl⟩
  | cons sink sinks ih =>
      by_cases hsink : ∀ e, sink.outcome cp = .error e → e.isCaught = true
      · obtain ⟨k, hk, hcalled, hsidecar⟩ := ih (after cp w [sink])
        refine ⟨k + 1, Nat.succ_le_succ hk, ?_, ?_⟩
        · rw [loop_cons hsink, hcalled, List.take_succ_cons]
          exact List.append_assoc _ _ _
        · have hfiled := congrArg FanOut.sidecar (after_append cp w [sink] (sinks.take k))
          rw [loop_cons hsink, hsidecar, List.take_succ_cons]
          exact hfiled.symm
      · -- the sink that ends the loop is the last to be called
        simp only [not_forall] at hsink
        obtain ⟨e, houtcome, he⟩ := hsink
        refine ⟨1, Nat.succ_le_succ (Nat.zero_le _), ?_, ?_⟩
        · rw [loop, sink.anchor_eq, houtcome]
          simp only [he]
          rfl
        · rw [loop, sink.anchor_eq, houtcome]
          simp only [he]
          rw [List.take_succ_cons, List.take_zero, List.filterMap_cons]
          cases sink.record cp <;> rfl

/-- Either everything is caught, or there is a first sink whose exception is not. -/
theorem first_uncaught (cp : Checkpoint) (sinks : List RecordingAnchorSink) :
    AllCaught cp sinks ∨ ∃ before sink after e, sinks = before ++ sink :: after ∧
      AllCaught cp before ∧ sink.outcome cp = .error e ∧ e.isCaught = false := by
  induction sinks with
  | nil => exact .inl (List.forall_mem_nil _)
  | cons sink sinks ih =>
      by_cases hsink : ∀ e, sink.outcome cp = .error e → e.isCaught = true
      · rcases ih with hall | ⟨before, s, rest, e, rfl, hbefore, houtcome, he⟩
        · exact .inl (List.forall_mem_cons.mpr ⟨hsink, hall⟩)
        · exact .inr ⟨sink :: before, s, rest, e, rfl, List.forall_mem_cons.mpr ⟨hsink, hbefore⟩,
            houtcome, he⟩
      · simp only [not_forall] at hsink
        obtain ⟨e, houtcome, he⟩ := hsink
        exact .inr ⟨[], sink, sinks, e, rfl, List.forall_mem_nil _, houtcome,
          Bool.eq_false_of_not_eq_true he⟩

/-- No sink published if and only if all of them raised. -/
theorem publishedOf_eq_zero {cp : Checkpoint} {sinks : List RecordingAnchorSink} :
    publishedOf cp sinks = 0 ↔ ∀ sink ∈ sinks, ∃ e, sink.outcome cp = .error e := by
  rw [publishedOf, List.countP_eq_zero]
  refine forall₂_congr fun sink _ => ?_
  cases sink.outcome cp with
  | ok receipt => exact ⟨fun h => absurd rfl h, fun ⟨e, he⟩ => by cases he⟩
  | error e => exact ⟨fun _ => ⟨e, rfl⟩, fun _ => Bool.false_ne_true⟩

/-- **A fan-out isolates failures if and only if everything its sinks raise is an `OSError` or a
`RuntimeError`**: for every list of sinks, every outcome of each, and every sidecar. -/
theorem isolates_iff (multi : MultiAnchorSink) (cp : Checkpoint) (file : Option Bytes) :
    multi.Isolates cp file ↔
      ∀ sink ∈ multi.sinks, ∀ e, sink.outcome cp = .error e →
        e.isOSError = true ∨ e.isRuntimeError = true := by
  have hcaught : (∀ sink ∈ multi.sinks, ∀ e, sink.outcome cp = .error e →
      e.isOSError = true ∨ e.isRuntimeError = true) ↔ AllCaught cp multi.sinks := by
    simp only [AllCaught, SinkFailure.isCaught, Bool.or_eq_true]
  rw [hcaught]
  constructor
  · intro h
    refine (first_uncaught cp multi.sinks).resolve_right ?_
    rintro ⟨before, sink, rest, e, hsinks, hbefore, houtcome, he⟩
    -- the failures end before the sink that raised
    obtain ⟨w', hloop, hfailures⟩ :=
      loop_uncaught houtcome he rest (after cp ⟨file, [], [], 0⟩ before)
    have hrun : multi.anchor cp file = (.error e, w') := by
      rw [anchor, hsinks, loop_append hbefore, hloop]
    have hall := h.failures
    rw [hrun, hfailures, hsinks] at hall
    simp [after, failuresOf, RecordingAnchorSink.raised_eq_some.mpr houtcome] at hall
  · intro h
    have hloop : loop cp multi.sinks ⟨file, [], [], 0⟩ =
        (none, after cp ⟨file, [], [], 0⟩ multi.sinks) := by
      have := loop_append h [] ⟨file, [], [], 0⟩
      rwa [List.append_nil] at this
    have hwork : (multi.anchor cp file).2 = after cp ⟨file, [], [], 0⟩ multi.sinks := by
      rw [anchor, hloop]
      simp only
      split_ifs <;> rfl
    refine ⟨?_, ?_, ?_, ?_⟩
    · rw [hwork]
      exact List.nil_append _
    · rw [hwork]
      exact getD_filed _ _
    · rw [hwork]
      exact List.nil_append _
    · rw [← publishedOf_eq_zero, anchor, hloop]
      simp only [after, Nat.zero_add]
      split_ifs with hzero
      · exact ⟨fun _ => hzero, fun _ => ⟨_, rfl⟩⟩
      · refine ⟨?_, fun hall => absurd hall hzero⟩
        rintro ⟨e, he⟩
        cases he

/-- What was filed is read back, after the records that were there. -/
theorem Isolates.read {multi : MultiAnchorSink} {cp : Checkpoint} {file : Option Bytes}
    (h : multi.Isolates cp file) {records : List SidecarRecord}
    (hfile : file.getD [] = SidecarRecord.fileBytes records)
    (hstorable : ∀ r ∈ records ++ multi.sinks.filterMap (·.record cp), r.Storable) :
    readAnchorRecords (multi.anchor cp file).2.sidecar =
      .ok ⟨records ++ multi.sinks.filterMap (·.record cp), []⟩ := by
  rw [readAnchorRecords_getD, h.recorded, hfile, ← SidecarRecord.fileBytes_append]
  exact SidecarRecord.readAnchorRecords_fileBytes hstorable

end MultiAnchorSink

end Recording

/-! ## Two calendars -/

section Example

/-- A calendar behind the transport, with a working clock and file system. -/
def calendarSink [Hashlib] (url : PyStr) : RecordingAnchorSink where
  name := str "ots"
  external := otsAnchor (fun _ => []) url (urllibTransport ⟨fun _ => none, fun _ => .ok ⟨200, [1]⟩⟩)
  now := .ok (str "2025-01-01T00:00:00+00:00")
  io := ⟨none, none⟩

/-- The first of the calendars has a scheme the transport does not open. -/
def refusedFirst [Hashlib] : MultiAnchorSink where
  sinks := [calendarSink (str "file:///calendar"), calendarSink (str "https://calendar")]
  two := le_refl 2

/-- A checkpoint. -/
def someCheckpoint : Checkpoint :=
  .bare 0 (List.replicate 64 (.ofChar 'a')) (List.replicate 64 (.ofChar 'b'))

/-- The second calendar would have published; it is never called, and nothing is reported of the
first. -/
theorem refused_first :
    letI := Sha256.hashlib
    letI := Interpreter.plain
    ¬ refusedFirst.Isolates someCheckpoint none ∧
      (calendarSink (str "file:///calendar")).raised someCheckpoint =
        some (.valueError (str "refusing URL scheme 'file': this transport opens only http, https")) ∧
      (calendarSink (str "https://calendar")).raised someCheckpoint = none ∧
      (refusedFirst.anchor someCheckpoint none).1.isOk = false ∧
      (refusedFirst.anchor someCheckpoint none).2.called.length = 1 ∧
      (refusedFirst.anchor someCheckpoint none).2.failures = [] ∧
      (refusedFirst.anchor someCheckpoint none).2.sidecar = none := by
  let _ := Sha256.hashlib
  let _ := Interpreter.plain
  have hsinks : (calendarSink (str "file:///calendar")).raised someCheckpoint =
        some (.valueError (str "refusing URL scheme 'file': this transport opens only http, https")) ∧
      (calendarSink (str "https://calendar")).raised someCheckpoint = none := by decide +kernel
  have hrun : (refusedFirst.anchor someCheckpoint none).1.isOk = false ∧
      (refusedFirst.anchor someCheckpoint none).2.called.length = 1 ∧
      (refusedFirst.anchor someCheckpoint none).2.failures = [] ∧
      (refusedFirst.anchor someCheckpoint none).2.sidecar = none := by decide +kernel
  refine ⟨fun h => ?_, hsinks.1, hsinks.2, hrun⟩
  have hcalled := congrArg List.length h.called
  rw [hrun.2.1] at hcalled
  cases hcalled

end Example

end Waxseal
