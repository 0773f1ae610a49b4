import Waxseal.Log.GenuineTrail
import Waxseal.Sources.SegmentFiles

/-!
# Rotation

`open_segmented` of `sources/rotation.py`, and what any number of writers do with the logs
it hands out.

A call of `open_segmented` looks at the active segment once without the lock (`open`), and
when that one is over the threshold takes `segments.lock` and looks again (`lock`).  Under
the lock it hands out the active segment after all, or it has settled what to write: the
name of the successor and the binding of the closing segment's tail (`settle`).  The
binding is appended to the successor by an ordinary `AuditLog.append` (`bind`), which
creates the file; only then is the lock given up.  A process that dies in between has
written nothing (`crash`).  Whoever holds a log appends to its file whenever it likes,
without `segments.lock` (`append`).

Files are those of the JSONL backend; the sidecars and the notices are left out.
-/

namespace Waxseal

open Json

variable [Interpreter] [Hashlib]

/-! ## Opening -/

/-- A name a file can have: no separator, and nothing the file system cannot encode. -/
def IsFileName (name : PyStr) : Prop :=
  CodePoint.ofChar '/' ∉ name ∧ ∀ c ∈ name, isHigh c.val = false

/-- The name of a file. -/
abbrev FileName := { name : PyStr // IsFileName name }

/-- `DEFAULT_MAX_SEGMENT_BYTES`. -/
def defaultMaxSegmentBytes : ℤ := 16 * 1024 * 1024

/-- What `open_segmented` has settled under the lock. -/
inductive Opening where
  /-- The log of the active segment. -/
  | onto (name : PyStr)
  /-- A successor to create, and the binding it opens with. -/
  | sealing (successor : PyStr) (binding : HandoffBinding)

/-- The check before the lock: the active segment when it is under the threshold. -/
def openUnlocked (dir : Directory) (base : PyStr) (maxSegmentBytes : ℤ) :
    Except PyErr (Option PyStr) := do
  let active ← activeSegment dir base
  return if fileSize dir active < maxSegmentBytes then some active else none

/-- What `open_segmented` does about a tail it cannot read: these are labelled, any other
exception is raised. -/
def PyErr.isTailError (e : PyErr) : Bool := e.isValueError || e == .keyError || e == .typeError

/-- The part of `open_segmented` under the lock, up to the first write, for any decoder of the
tail. -/
def settleBy (loads : Loads) (slug : PyStr) (dir : Directory) (base : PyStr)
    (maxSegmentBytes : ℤ) : Except PyErr Opening := do
  let active ← activeSegment dir base
  if fileSize dir active < maxSegmentBytes then return .onto active
  else
    match readLastLine (fileOf dir active) with
    -- over the threshold with no complete entry: nothing to seal yet
    | none => return .onto active
    | some tail =>
        match loads tail >>= tailFields with
        | .error e => if e.isTailError then return .onto active else .error e
        | .ok (lastSeq, lastHash) => do
            let successor ← segmentName (baseStem base) (nextOrdinal dir (baseStem base))
            let binding ← HandoffBinding.new
              (.str (segmentChainId slug (segmentIdentity active))) (.int lastSeq) (.str lastHash)
            return .sealing successor binding

/-- The part of `open_segmented` under the lock, up to the first write. -/
def settle : PyStr → Directory → PyStr → ℤ → Except PyErr Opening := settleBy loadsBytes

/-! ## Writers -/

/-- An `AuditLog` somebody holds. -/
structure Handle where
  name : PyStr
  config : LogConfig
  log : AuditLog

/-- A rotation that holds `segments.lock`. -/
structure PendingRotation where
  successor : PyStr
  config : LogConfig
  binding : HandoffBinding

/-- The directory, who holds its `segments.lock`, and the logs that were handed out. -/
structure SegmentedDir where
  dir : Directory
  rotating : Option PendingRotation
  handles : List Handle

/-- One `append` of a log to its file. -/
def appendTo (dir : Directory) (name : PyStr) (config : LogConfig) (call : Call) (log : AuditLog) :
    Directory × Except AppendError Entry × AuditLog :=
  let log := { log with store := { log.store with file := fileOf dir name } }
  let out := log.append config call
  (if log.opensTrail config call then dir.insert name out.2.store.file else dir, out)

/-- The append of a rotation binding. -/
def bindingCall (binding : HandoffBinding) (call : Call) : Call :=
  { call with payload := .dict binding.toPayload, payloadType := rotationPayloadType }

/-- What a writer can do. -/
inductive RotationAction where
  | open (base : FileName) (maxSegmentBytes : ℤ) (config : LogConfig)
  | lock (base : FileName) (maxSegmentBytes : ℤ) (config : LogConfig)
  | bind (call : Call)
  | crash
  | append (handle : ℕ) (call : Call)

namespace SegmentedDir

/-- Hand out the log of a segment. -/
def handOut (w : SegmentedDir) (name : PyStr) (config : LogConfig) : SegmentedDir :=
  { w with handles := w.handles ++ [⟨name, config, .open (fileOf w.dir name)⟩] }

/-- One step of some writer; a step that is not possible changes nothing. -/
def step (slug : PyStr) (w : SegmentedDir) : RotationAction → SegmentedDir
  | .open base maxSegmentBytes config =>
      match openUnlocked w.dir base maxSegmentBytes with
      | .ok (some name) => w.handOut name config
      | _ => w
  | .lock base maxSegmentBytes config =>
      match w.rotating with
      | some _ => w
      | none =>
          match settle slug w.dir base maxSegmentBytes with
          | .error _ => w
          | .ok (.onto name) => w.handOut name config
          | .ok (.sealing successor binding) =>
              { w with rotating := some ⟨successor, config, binding⟩ }
  | .bind call =>
      match w.rotating with
      | none => w
      | some r =>
          let out := appendTo w.dir r.successor r.config (bindingCall r.binding call)
            (.open (fileOf w.dir r.successor))
          match out.2.1 with
          | .ok _ =>
              ⟨out.1, none, w.handles ++ [⟨r.successor, r.config, out.2.2⟩]⟩
          | .error _ => ⟨out.1, none, w.handles⟩
  | .crash => { w with rotating := none }
  | .append handle call =>
      match w.handles[handle]? with
      | none => w
      | some h =>
          let out := appendTo w.dir h.name h.config call h.log
          { w with dir := out.1, handles := w.handles.set handle { h with log := out.2.2 } }

/-- A run of the writers. -/
def run (slug : PyStr) (w : SegmentedDir) (actions : List RotationAction) : SegmentedDir :=
  actions.foldl (step slug) w

/-- A directory without a trail. -/
def empty : SegmentedDir := ⟨∅, none, []⟩

/-- **The run lemma**: what the first state has and every step keeps, every state has. -/
theorem run_induction {slug : PyStr} {P : SegmentedDir → Prop} {Q : RotationAction → Prop}
    (hstep : ∀ w a, P w → Q a → P (w.step slug a)) {w : SegmentedDir} (hw : P w)
    {actions : List RotationAction} (hactions : ∀ a ∈ actions, Q a) : P (w.run slug actions) := by
  induction actions generalizing w with
  | nil => exact hw
  | cons a actions ih =>
      rw [List.forall_mem_cons] at hactions
      exact ih (hstep w a hw hactions.1) hactions.2

end SegmentedDir

/-! ## What a step writes -/

/-- The state of a file some writer left: it can be read, as entries this build wrote, or
not any more. -/
def FileSound (file : Bytes) : Prop := (∃ es, Holds file es ∧ GenuineTrail es) ∨ Stuck file

omit [Hashlib] in
theorem Holds.not_stuck {file : Bytes} {es : List Entry} (h : Holds file es)
    (hes : ∀ e ∈ es, Storable e) : ¬ Stuck file := fun hstuck =>
  hstuck.entries es (h.entries hes)

omit [Hashlib] in
/-- The entries a file holds. -/
theorem Holds.unique {file : Bytes} {es es' : List Entry} (h : Holds file es) (h' : Holds file es')
    (hes : ∀ e ∈ es, Storable e) (hes' : ∀ e ∈ es', Storable e) : es = es' :=
  Except.ok.inj ((h.entries hes).symm.trans (h'.entries hes'))

/-- One entry more, as an append to a file leaves it. -/
structure Extends (config : LogConfig) (call : Call) (file after : Bytes) (es : List Entry)
    (draft : Draft) (e : Entry) : Prop where
  holds : Holds file es
  genuine : GenuineTrail es
  drafted : Waxseal.draft config call = .ok draft
  built : draft.build (nextLink es).1 (nextLink es).2 = .ok e
  written : after = file ++ call.io.written (storedBytes e ++ [LF])
  result : after = file ∨ Holds after (es ++ [e]) ∨ Stuck after

theorem Extends.genuine_append {config : LogConfig} {call : Call} {file after : Bytes}
    {es : List Entry} {draft : Draft} {e : Entry} (h : Extends config call file after es draft e) :
    GenuineTrail (es ++ [e]) := h.genuine.append h.built

theorem Extends.sound {config : LogConfig} {call : Call} {file after : Bytes}
    {es : List Entry} {draft : Draft} {e : Entry} (h : Extends config call file after es draft e) :
    FileSound after := by
  rcases h.result with heq | hholds | hstuck
  · exact .inl ⟨es, heq ▸ h.holds, h.genuine⟩
  · exact .inl ⟨es ++ [e], hholds, h.genuine_append⟩
  · exact .inr hstuck

/-- **What an append does to the directory.** -/
theorem appendTo_cases {dir : Directory} {name : PyStr} (hfile : FileSound (fileOf dir name))
    (config : LogConfig) (call : Call) (log : AuditLog) :
    ((appendTo dir name config call log).1 = dir ∧
        ∃ err, (appendTo dir name config call log).2.1 = .error err) ∨
      ∃ after es draft e, Extends config call (fileOf dir name) after es draft e ∧
        (appendTo dir name config call log).1 = dir.insert name after := by
  generalize hlog : ({ log with store := { log.store with file := fileOf dir name } } : AuditLog)
    = opened
  have hopened : opened.store.file = fileOf dir name := by rw [← hlog]
  have hdir : (appendTo dir name config call log).1 =
      if opened.opensTrail config call then
        dir.insert name (opened.append config call).2.store.file else dir := by
    rw [appendTo, hlog]
  have hresult : (appendTo dir name config call log).2.1 = (opened.append config call).1 := by
    rw [appendTo, hlog]
  rw [hdir, hresult]
  rcases append_effect config call opened with ⟨hclosed, hraised, -⟩ | ⟨d, tail, e, hopen, hdraft,
    htail, hbuild, hafter⟩
  · exact .inl ⟨by rw [hclosed]; rfl, hraised⟩
  · rw [hopened] at htail hafter
    rcases hfile with ⟨es, hholds, hgenuine⟩ | hstuck
    · refine .inr ⟨_, es, d, e, ?_, by rw [hopen]; rfl⟩
      rw [hholds.tailLocked hgenuine.storable] at htail
      obtain rfl := (Except.ok.inj htail)
      refine ⟨hholds, hgenuine, hdraft, hbuild, hafter, ?_⟩
      rw [hafter]
      have he := Draft.storable_of_build hbuild
      unfold AppendIo.written
      split
      · have hfull := holds_extend he hholds hgenuine.storable (storedBytes e ++ [LF]).length
        rwa [List.take_length] at hfull
      · exact holds_extend he hholds hgenuine.storable _
    · obtain ⟨err, herr⟩ := hstuck.tail
      rw [herr] at htail
      cases htail

end Waxseal
