import Waxseal.Cli.Segments
import Waxseal.Server.EnvelopeParsing
import Waxseal.Sources.Rotation

/-!
# A chain of the server

`ChainStore.append` of the server's `storage/chains.py`, for any number of requests on one
chain.  A request parses its envelope, has `open_segmented` rotate if the active segment is
over the threshold, and then takes `segments.lock` to resolve the active segment and to
append to it.  The builder it hands to the backend is the compare-and-set: it refuses a tail
that is not the one the client named.

The steps are those between which another request can run.  `open_segmented` looks for the
active segment (`look`) and at its size (`measure`) without the lock.  What is done under
`segments.lock` is done by its holder alone, one step at a time (`work`): a rotation settles
what to write and writes it; an append resolves the segment and compares and sets.  A file
of the directory that is no segment may change at any time (`other`): the receipt log is
one.

Writes are complete: what a torn one does is the subject of `Waxseal.Sources.RotationCrash`.
-/

namespace Waxseal

open Json

/-- `TRAIL_NAME`. -/
def trailName : PyStr := str "trail.jsonl"

/-- The stem of the trail of a chain. -/
def trailStem : PyStr := str "trail"

/-- A chain: its identifier, which names its directory, and the threshold of its segments. -/
structure ChainStore where
  chainId : PyStr
  maxSegmentBytes : ℤ
  chainId_safe : isSafeName chainId = true

/-- What the holder of `segments.lock` is about to do. -/
inductive Critical where
  /-- Look at the active segment again. -/
  | settling (entry : Envelope)
  /-- Append the binding to the successor. -/
  | binding (entry : Envelope) (successor : PyStr) (binding : HandoffBinding)
  /-- Resolve the active segment. -/
  | resolving (entry : Envelope)
  /-- Compare and set. -/
  | comparing (entry : Envelope) (name : PyStr)

/-- Where a request is. -/
inductive PostState where
  | looking (entry : Envelope)
  | measuring (entry : Envelope) (active : PyStr)
  /-- Waiting for the lock, to rotate. -/
  | rotating (entry : Envelope)
  /-- Waiting for the lock, to append. -/
  | appending (entry : Envelope)
  /-- Holding the lock. -/
  | inside
  | malformed (defect : MalformedEnvelope)
  | failed (e : PyErr)
  /-- The entry was stored in this segment. -/
  | won (name : PyStr) (entry : Entry)

/-- The directory of a chain, who holds its `segments.lock`, and the requests so far. -/
structure ChainDir where
  dir : Directory
  holder : Option (ℕ × Critical)
  posts : List PostState

/-- What one of the requests can do next. -/
inductive ServerStep where
  | post (body : Bytes)
  | look (i : ℕ)
  | measure (i : ℕ)
  | enter (i : ℕ)
  | work (call : Call)
  | other (name : PyStr) (file : Bytes)

/-- A segment of the trail of a chain. -/
def isTrailSegment (name : PyStr) : Bool :=
  name = trailName || (segmentOrdinal name trailStem).isSome

/-- A write that is started is completed; anything else may fail. -/
def AppendIo.completing (io : AppendIo) : AppendIo := { io with write := none }

variable [Interpreter] [Hashlib]

/-- The builder of `ChainStore.append`. -/
def casBuild (entry : Entry) (nextSeq : ℤ) (prevHash : PyStr) : Except PyErr Entry :=
  if nextSeq ≠ entry.header.seq ∨ prevHash ≠ entry.header.prevHash then .error .preconditionFailed
  else .ok entry

/-- The default `integrity_scan_every`. -/
def defaultScan : Option ℤ := some 1000

/-- `JSONLBackend(path).append(build)`. -/
def storeIn (dir : Directory) (name : PyStr) (io : AppendIo) (entry : Entry) :
    Directory × Except PyErr Entry :=
  let store := Store.opened (fileOf dir name)
  let out := JSONLBackend.append defaultScan io (casBuild entry) store
  let opened := (prepare defaultScan io (casBuild entry) store).1.toOption.isSome
  (if opened then dir.insert name out.2.file else dir, out.1)

/-- What `open_segmented` opens its logs with. -/
def serverConfig : LogConfig := ⟨defaultScan, none, false, none, pos_of_mem_none⟩

/-- A request that arrives. -/
def received (body : Bytes) : PostState :=
  match loadsBytes body with
  | .error e => .failed e
  | .ok envelope =>
      match h : parseEnvelope envelope with
      | .error defect => .malformed defect
      | .ok entry => .looking ⟨entry, isEnvelope_of_parseEnvelope h⟩

namespace ChainDir

/-- A request moves on. -/
def advance (w : ChainDir) (i : ℕ) (post : PostState) : ChainDir :=
  { w with posts := w.posts.set i post }

/-- A request gives up the lock. -/
def leave (w : ChainDir) (i : ℕ) (dir : Directory) (post : PostState) : ChainDir :=
  ⟨dir, none, w.posts.set i post⟩

/-- The next step of the holder of the lock. -/
def work (store : ChainStore) (w : ChainDir) (call : Call) (i : ℕ) : Critical → ChainDir
  | .settling entry =>
      match settle store.chainId w.dir trailName store.maxSegmentBytes with
      | .error e => w.leave i w.dir (.failed e)
      | .ok (.onto _) => w.leave i w.dir (.appending entry)
      | .ok (.sealing successor binding) =>
          { w with holder := some (i, .binding entry successor binding) }
  | .binding entry successor binding =>
      let call := { bindingCall binding call with io := call.io.completing }
      let out := appendTo w.dir successor serverConfig call (.open (fileOf w.dir successor))
      match out.2.1 with
      | .error (.attestationFailure e) | .error (.other e) => w.leave i out.1 (.failed e)
      | .ok _ => w.leave i out.1 (.appending entry)
  | .resolving entry =>
      match activeSegment w.dir trailName with
      | .error e => w.leave i w.dir (.failed e)
      | .ok name => { w with holder := some (i, .comparing entry name) }
  | .comparing entry name =>
      match storeIn w.dir name call.io.completing entry.val with
      | (dir, .error e) => w.leave i dir (.failed e)
      | (dir, .ok stored) => w.leave i dir (.won name stored)

/-- One step; a step that is not possible changes nothing. -/
def step (store : ChainStore) (w : ChainDir) : ServerStep → ChainDir
  | .post body => { w with posts := w.posts ++ [received body] }
  | .look i =>
      match w.posts[i]? with
      | some (.looking entry) =>
          match activeSegment w.dir trailName with
          | .error e => w.advance i (.failed e)
          | .ok active => w.advance i (.measuring entry active)
      | _ => w
  | .measure i =>
      match w.posts[i]? with
      | some (.measuring entry active) =>
          w.advance i (if fileSize w.dir active < store.maxSegmentBytes then .appending entry
            else .rotating entry)
      | _ => w
  | .enter i =>
      match w.holder, w.posts[i]? with
      | none, some (.rotating entry) => ⟨w.dir, some (i, .settling entry), w.posts.set i .inside⟩
      | none, some (.appending entry) => ⟨w.dir, some (i, .resolving entry), w.posts.set i .inside⟩
      | _, _ => w
  | .work call =>
      match w.holder with
      | none => w
      | some (i, critical) => w.work store call i critical
  | .other name file =>
      if isTrailSegment name then w else { w with dir := w.dir.insert name file }

/-- A run of the requests. -/
def run (store : ChainStore) (w : ChainDir) (steps : List ServerStep) : ChainDir :=
  steps.foldl (step store) w

/-- A chain before its first request. -/
def fresh (dir : Directory) : ChainDir := ⟨dir, none, []⟩

end ChainDir

end Waxseal
