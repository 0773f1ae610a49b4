import Waxseal.Domain.Anchoring
import Waxseal.Log.EntryBuilder

/-!
# The public facade

`AuditLog.append` and `try_append`: redact, take the canonical bytes of the payload, have
the backend store an entry built on the tail it finds, keep the Merkle forest in step with
the trail, attest, and every so often anchor.

Whatever surrounds the log (the operating system, the clock, the redactor, the attestor,
the anchor sink) enters through the call: a `Call` says for each step whether and how it
fails.  `AttestationFailure` is the log's own, so it is no `PyErr`.
-/

namespace Waxseal

open Json

/-- What `AuditLog.append` can raise. -/
inductive AppendError where
  /-- `AttestationFailure`: the entry is on the chain, its seal is not. -/
  | attestationFailure (cause : PyErr)
  /-- Any other exception. -/
  | other (e : PyErr)

/-- A payload, as the caller hands it over. -/
inductive Payload where
  | bytes (b : Bytes)
  | dict (payload : Json)
  /-- A dict with something in it that `json.dumps` refuses. -/
  | unserializable (e : PyErr)
  /-- Neither a dict nor bytes. -/
  | other

/-- What an `AuditLog` is opened with. -/
structure LogConfig where
  integrityScanEvery : Option ℤ
  redactor : Option (Json → Except PyErr Json)
  hasAttestor : Bool
  /-- The anchor sink's interval, where there is a sink and an interval. -/
  anchorEvery : Option ℕ
  anchorEvery_pos : ∀ n ∈ anchorEvery, 0 < n

/-- No interval is none of zero. -/
theorem pos_of_mem_none : ∀ n ∈ (none : Option ℕ), 0 < n := fun n h => absurd h (Option.not_mem_none n)

/-- What happens to the publication of a checkpoint. -/
structure AnchorIo where
  /-- Reading the trail. -/
  read : Option PyErr
  /-- Reading the aggregate the checkpoint binds. -/
  binding : Option PyErr
  /-- The sink. -/
  sink : Option PyErr

/-- One call of `append` or `try_append`, and what happens to each of its steps. -/
structure Call where
  viaTry : Bool
  payload : Payload
  payloadType : PyStr
  /-- The clock. -/
  now : Except PyErr PyStr
  /-- The backend. -/
  io : AppendIo
  /-- Reading the trail back for the Merkle forest. -/
  readBack : Option PyErr
  /-- The attestor. -/
  attest : Option PyErr
  anchor : AnchorIo

/-- `_REJECTED_PAYLOAD_TYPES`. -/
def rejectedPayloadTypes : List PyStr := [str "application/json", str "text/json"]

section Payloads

variable [Interpreter]

/-- `canonical_json(payload)`. -/
def canonicalJson (payload : Json) : Bytes := asciiBytes (dumps .compact (sortKeys payload))

/-- `_canonical_payload(payload)`. -/
def canonicalPayload (redactor : Option (Json → Except PyErr Json)) :
    Payload → Except PyErr Bytes
  | .bytes b => if redactor.isSome then .error .valueError else .ok b
  | .dict payload =>
      match redactor with
      | none => .ok (canonicalJson payload)
      | some redact => (redact payload).map canonicalJson
  | .unserializable e => .error e
  | .other => .error .typeError

end Payloads

/-- The state of an `AuditLog`: the trail as its backend sees it, the forest over it, and
the counters. -/
structure AuditLog where
  store : Store
  merkle : IncrementalMerkle
  dropped : ℕ
  attestFailures : ℕ
  anchorFailures : ℕ

/-- `AuditLog.open(path)`: the forest is empty until the first append or anchor. -/
def AuditLog.open (file : Bytes) : AuditLog := ⟨Store.opened file, {}, 0, 0, 0⟩

variable [Interpreter] [Hashlib]

/-- `_note_appended(entry)`. -/
def noteAppended (readBack : Option PyErr) (file : Bytes) (merkle : IncrementalMerkle)
    (entry : Entry) : Except PyErr IncrementalMerkle :=
  if (merkle.size : ℤ) = entry.header.seq then merkle.push entry.entryHash
  else do
    orFail readBack
    IncrementalMerkle.fromHashes (← entryHashes file)

/-- `_merkle_root_for(hashes)`: the root, and the forest to keep. -/
def merkleRootFor (merkle : IncrementalMerkle) (hashes : List PyStr) :
    Except PyErr (PyStr × IncrementalMerkle) :=
  if merkle.size = hashes.length then
    if hashes ≠ [] ∧ merkle.lastLeaf ≠ hashes.getLast? then do
      let tree ← IncrementalMerkle.fromHashes hashes
      return (tree.root, tree)
    else .ok (merkle.root, merkle)
  else do
    let tree ← IncrementalMerkle.fromHashes hashes
    return (tree.root, if merkle.size = 0 then tree else merkle)

/-- `anchor()`: the root it publishes, and the forest it keeps. -/
def anchor (io : AnchorIo) (file : Bytes) (merkle : IncrementalMerkle) :
    Except PyErr PyStr × IncrementalMerkle :=
  match (do
    orFail io.read
    let hashes ← entryHashes file
    if hashes = [] then .error .valueError
    orFail io.binding
    merkleRootFor merkle hashes) with
  | .error e => (.error e, merkle)
  | .ok (root, merkle) => ((orFail io.sink).map fun _ => root, merkle)

/-- The best-effort anchor after an append. -/
def autoAnchor (config : LogConfig) (io : AnchorIo) (entry : Entry) (log : AuditLog) : AuditLog :=
  match config.anchorEvery with
  | none => log
  | some every =>
      if (entry.header.seq + 1) % every = 0 then
        match anchor io log.store.file log.merkle with
        | (.ok _, merkle) => { log with merkle := merkle }
        | (.error _, merkle) =>
            { log with merkle := merkle, anchorFailures := log.anchorFailures + 1 }
      else log

/-- What `append` settles before it takes the lock. -/
def draft (config : LogConfig) (call : Call) : Except PyErr Draft := do
  if call.payloadType ∈ rejectedPayloadTypes then .error .valueError
  let payloadBytes ← canonicalPayload config.redactor call.payload
  let ts ← call.now
  return { ts := ts, payloadType := call.payloadType, payloadBytes := payloadBytes }

/-- What `append` does once the entry is on the chain. -/
def afterAppend (config : LogConfig) (call : Call) (entry : Entry) (log : AuditLog) :
    Except AppendError Entry × AuditLog :=
  match noteAppended call.readBack log.store.file log.merkle entry with
  | .error e => (.error (.other e), log)
  | .ok merkle =>
      let log := { log with merkle := merkle }
      match if config.hasAttestor then call.attest else none with
      | some cause => (.error (.attestationFailure cause), log)
      | none => (.ok entry, autoAnchor config call.anchor entry log)

/-- `append(payload=..., payload_type=...)`. -/
def AuditLog.append (config : LogConfig) (call : Call) (log : AuditLog) :
    Except AppendError Entry × AuditLog :=
  match draft config call with
  | .error e => (.error (.other e), log)
  | .ok draft =>
      match JSONLBackend.append config.integrityScanEvery call.io draft.build log.store with
      | (.error e, store) => (.error (.other e), { log with store := store })
      | (.ok entry, store) => afterAppend config call entry { log with store := store }

/-- `try_append(payload=..., payload_type=...)`. -/
def AuditLog.tryAppend (config : LogConfig) (call : Call) (log : AuditLog) : Bool × AuditLog :=
  match log.append config call with
  | (.ok _, log) => (true, log)
  | (.error (.attestationFailure _), log) =>
      (true, { log with attestFailures := log.attestFailures + 1 })
  | (.error (.other _), log) => (false, { log with dropped := log.dropped + 1 })

/-! ## Seen from outside -/

/-- What becomes of a `try_append`. -/
inductive AppendOutcome where
  | stored
  | failed
  /-- The entry is on the chain, and the append failed behind it. -/
  | storedThenFailed

/-- What `try_append` returns. -/
def AppendOutcome.returned : AppendOutcome → Bool
  | .stored => true
  | .failed | .storedThenFailed => false

/-- Whether the entry is on the chain. -/
def AppendOutcome.persisted : AppendOutcome → Bool
  | .stored | .storedThenFailed => true
  | .failed => false

end Waxseal
