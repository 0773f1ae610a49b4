import Mathlib.Logic.Function.Basic
import Waxseal.Adapters.Redactors
import Waxseal.Sources.Rotation

/-!
# The stdin hooks

`run_stdin_hook`, and what the Claude Code, Codex and Cursor hooks hand it: read one event
from stdin, resolve where it goes, open the trail there, and append the event.

Every step that touches the file system takes its outcome from a `HookIo`; what the process
runs with (its environment variables, the user database, the redactor, how deep Python may
recurse) is a `HookEnv`.  The notices of a rotation and the sidecars are left out.
-/

namespace Waxseal

open Json

/-! ## Paths -/

/-- A path, as `PurePosixPath` normalizes it. -/
structure PosixPath where
  absolute : Bool
  parts : List PyStr
  deriving DecidableEq

namespace PosixPath

/-- `Path(s)`. -/
def of (s : PyStr) : PosixPath :=
  ⟨s.head? = some (.ofChar '/'),
    (s.splitOn (.ofChar '/')).filter fun part => part ≠ [] ∧ part ≠ str "."⟩

/-- `path / name`. -/
def child (path : PosixPath) (name : PyStr) : PosixPath := { path with parts := path.parts ++ [name] }

/-- `path.name`. -/
def name (path : PosixPath) : PyStr := path.parts.getLast?.getD []

/-- `path.parent`. -/
def parent (path : PosixPath) : PosixPath := { path with parts := path.parts.dropLast }

end PosixPath

/-! ## Sanitizing -/

/-- `MAX_FIELD_CHARS`. -/
def maxFieldChars : ℕ := 4096

/-- `clip(text)`. -/
def clip (text : PyStr) : PyStr :=
  if text.length ≤ maxFieldChars then text
  else text.take maxFieldChars ++ str "…[truncated " ++ strNat (text.length - maxFieldChars)
    ++ str " chars]"

/-- `sanitize(value)`, with the recursion Python has left. -/
def sanitize (redactText : PyStr → PyStr) : ℕ → Json → Except PyErr Json
  | 0, _ => .error .recursionError
  | _ + 1, .str s => .ok (.str (clip (redactText s)))
  | depth + 1, .obj members =>
      .obj <$> members.mapM fun m => (fun value => (m.1, value)) <$> sanitize redactText depth m.2
  | depth + 1, .arr items => .arr <$> items.mapM (sanitize redactText depth)
  | _ + 1, value => .ok value

/-! ## Surroundings -/

/-- What the process runs with. -/
structure HookEnv where
  /-- `WAXSEAL_TRAIL`. -/
  trailVar : Option PyStr
  /-- `HOME`. -/
  homeVar : Option PyStr
  /-- `CODEX_HOME`. -/
  codexHomeVar : Option PyStr
  /-- `Path.home()`. -/
  pathHome : Except PyErr PyStr
  /-- `path.expanduser()`. -/
  expandUser : PosixPath → Except PyErr PosixPath
  /-- `redact_text` of the redactor. -/
  redactText : PyStr → PyStr
  /-- `redact` of the redactor. -/
  redact : Json → Except PyErr Json
  /-- How deep `sanitize` may recurse. -/
  depth : ℕ

/-- The outcomes of the steps of `open_segmented`; a `stat` that fails counts as size 0. -/
structure OpenIo where
  /-- Reading `WAXSEAL_ARCHIVE`. -/
  archive : Option PyErr
  look : Option PyErr
  statFails : Bool
  lock : Option PyErr
  lookAgain : Option PyErr
  statAgainFails : Bool
  readTail : Option PyErr
  /-- Listing the directory for the next ordinal. -/
  lookNext : Option PyErr
  openLog : Option PyErr
  /-- The append of the binding. -/
  bind : Call
  unlock : Option PyErr

/-- The outcomes of the steps of a hook. -/
structure HookIo where
  stdin : Except PyErr PyStr
  /-- Whether the routed trail exists. -/
  existsFault : Option PyErr
  opening : OpenIo
  /-- Looking for the active segment to put the `.drops` file beside. -/
  recoverLook : Option PyErr
  append : Call
  remoteOpen : Option PyErr
  remoteAppend : AppendOutcome

/-- A line on stderr. -/
inductive HookLine where
  | unreadable (e : PyErr)
  | cannotOpen (e : PyErr)
  | droppedWrite (event : Json)
  | refused (value : PyStr) (fallback : PosixPath)
  | noCwd (shared : PosixPath)
  | routed (cwd : PyStr) (path : PosixPath)

/-- A line that says that an entry was dropped. -/
def HookLine.isLoss : HookLine → Bool
  | .unreadable _ | .cannotOpen _ | .droppedWrite _ => true
  | .refused _ _ | .noCwd _ | .routed _ _ => false

/-- Where an event goes. -/
inductive HookTarget where
  | remote (url : PyStr)
  | file (path : PosixPath)

/-- An event: the members of a JSON object. -/
abbrev HookEvent := List (PyStr × Json)

/-- `event.get(name)`, `none` when it is not there. -/
def HookEvent.field (event : HookEvent) (name : PyStr) : Option Json :=
  (event.find? fun m => m.1 = name).map (·.2)

/-! ## Routing -/

/-- `env_trail()`: an empty value is unset. -/
def HookEnv.envTrail (env : HookEnv) : Option PyStr := env.trailVar.filter fun value => value ≠ []

/-- `home_base()`. -/
def homeBase (env : HookEnv) : Except PyErr PosixPath :=
  match env.homeVar.filter fun home => home ≠ [] with
  | some home => .ok (.of home)
  | none => env.pathHome.map .of

/-- `str.lower` of one character, as far as the result has ASCII letters or digits. -/
def slugChars (c : CodePoint) : PyStr :=
  if c.val = 0x130 then [.ofChar 'i', ofUnit 0x307] else [lowerChar c]

/-- A character of `[a-z0-9]`. -/
def isSlugChar (c : CodePoint) : Bool := isDigit c || (0x61 ≤ c.val && c.val ≤ 0x7A)

/-- `_UNSAFE.sub("-", s)`: each run of other characters becomes one dash. -/
def foldUnsafe : PyStr → PyStr
  | [] => []
  | c :: s =>
      if isSlugChar c then c :: foldUnsafe s
      else
        match s with
        | [] => [.ofChar '-']
        | d :: s => if isSlugChar d then .ofChar '-' :: foldUnsafe (d :: s) else foldUnsafe (d :: s)

/-- `s.strip("-")`. -/
def stripDashes (s : PyStr) : PyStr :=
  (s.dropWhile (· = .ofChar '-')).rdropWhile (· = .ofChar '-')

/-- A path separator of either kind. -/
def isSeparator (c : CodePoint) : Bool := c = .ofChar '/' || c = backslash

/-- `_readable(cwd)`. -/
def readable (cwd : PyStr) : PyStr :=
  let basename := (cwd.rdropWhile isSeparator).rtakeWhile fun c => !isSeparator c
  let folded := stripDashes (foldUnsafe (basename.flatMap slugChars))
  let clipped := stripDashes (folded.take 32)
  if clipped = [] then str "unnamed" else clipped

/-- `cwd.encode("utf-8", "surrogatepass")`. -/
def encodeUtf8Pass (s : PyStr) : Bytes :=
  s.flatMap fun c => (encodeCodePoint c).getD
    [UInt8.ofNat (0xE0 + c.val / 0x1000), UInt8.ofNat (0x80 + c.val / 0x40 % 0x40),
      UInt8.ofNat (0x80 + c.val % 0x40)]

/-- `project_slug(cwd)`. -/
def projectSlug [Hashlib] (cwd : PyStr) : PyStr :=
  readable cwd ++ str "-" ++ (hexdigest (encodeUtf8Pass cwd)).take 12

variable [Hashlib]

/-- The routed trail of a project, below the waxseal home of a host. -/
def routedPath (root : PosixPath) (cwd : PyStr) : PosixPath :=
  ((root.child (str "trails")).child (projectSlug cwd)).child (segmentFile (str "trail") 0)

/-- `routed_trail(root, cwd)`, with what it says on stderr. -/
def routedTrail (io : HookIo) (fs : PosixPath → Directory) (root : PosixPath) (cwd : Option PyStr) :
    Except PyErr (PosixPath × List HookLine) :=
  match cwd with
  | none => .ok (root.child (str "trail.jsonl"), [.noCwd (root.child (str "trail.jsonl"))])
  | some cwd => do
      let path := routedPath root cwd
      orFail io.existsFault
      return (path, if path.name ∈ fs path.parent then [] else [.routed cwd path])

/-- `resolve_trail(default=...)`. -/
def resolveTrail (env : HookEnv) (default : Except PyErr (PosixPath × List HookLine)) :
    Except PyErr (PosixPath × List HookLine) :=
  match env.envTrail with
  | none => default
  | some value =>
      if value.head? = some (.ofChar '~') then do
        let (fallback, lines) ← default
        return (fallback, lines ++ [.refused value fallback])
      else .ok (.of value, [])

/-! ## Hosts -/

/-- A host: the payload type of its events, the fields of an event that are recorded, under
which key its tool output is recorded, which project an event belongs to, the host's waxseal
home, and whether it takes the URL of a chain server. -/
structure HookHost where
  payloadType : PyStr
  fields : List PyStr
  output : HookEvent → Option (PyStr × Json)
  projectKey : HookEvent → Option PyStr
  root : HookEnv → Except PyErr PosixPath
  remote : Bool

/-- A string that is not empty. -/
def nonEmptyStr : Json → Option PyStr
  | .str [] => none
  | .str (c :: s) => some (c :: s)
  | _ => none

/-- `_project_key(event)` of Claude Code and Codex: the event's `cwd`. -/
def cwdKey (event : HookEvent) : Option PyStr := event.field (str "cwd") >>= nonEmptyStr

/-- The Claude Code hook. -/
def claudeCode : HookHost where
  payloadType := str "application/vnd.claude-code.hook-event+json"
  fields := [str "session_id", str "cwd", str "permission_mode", str "tool_use_id",
    str "tool_name", str "tool_input", str "prompt", str "agent_id", str "agent_type"]
  output := fun event =>
    ((event.field (str "tool_output")).or (event.field (str "tool_response"))).map
      (str "tool_output", ·)
  projectKey := cwdKey
  root := fun env => do return ((← homeBase env).child (str ".claude")).child (str "waxseal")
  remote := true

/-- The Codex hook. -/
def codex : HookHost where
  payloadType := str "application/vnd.codex.hook-event+json"
  fields := [str "session_id", str "turn_id", str "cwd", str "model", str "permission_mode",
    str "tool_name", str "tool_input", str "tool_use_id", str "prompt", str "agent_id",
    str "agent_type"]
  output := fun event => (event.field (str "tool_response")).map (str "tool_response", ·)
  projectKey := cwdKey
  root := fun env =>
    match env.codexHomeVar.filter fun home => home ≠ [] with
    | some home => .ok ((PosixPath.of home).child (str "waxseal"))
    | none => do return ((← homeBase env).child (str ".codex")).child (str "waxseal")
  remote := false

/-- `workspace_roots[0]`. -/
def firstRoot (event : HookEvent) : Option PyStr :=
  match event.field (str "workspace_roots") with
  | some (.arr (root :: _)) => nonEmptyStr root
  | _ => none

/-- The Cursor hook. -/
def cursor : HookHost where
  payloadType := str "application/vnd.cursor.hook-event+json"
  fields := [str "conversation_id", str "generation_id", str "model", str "workspace_roots",
    str "command", str "cwd", str "output", str "duration", str "sandbox", str "tool_name",
    str "tool_input", str "result_json", str "url", str "file_path", str "edits", str "prompt",
    str "attachments", str "status", str "loop_count", str "error_message", str "failure_type"]
  output := fun _ => none
  projectKey := fun event => (cwdKey event).or (firstRoot event)
  root := fun env => do return ((← homeBase env).child (str ".cursor")).child (str "waxseal")
  remote := false

namespace HookHost

/-- `_is_remote(target)`. -/
def isRemote (value : PyStr) : Bool :=
  (str "http://").isPrefixOf value || (str "https://").isPrefixOf value

/-- `_trail_path(event)`. -/
def trailPath (host : HookHost) (env : HookEnv) (io : HookIo) (fs : PosixPath → Directory)
    (event : HookEvent) : Except PyErr (PosixPath × List HookLine) :=
  resolveTrail env do routedTrail io fs (← host.root env) (host.projectKey event)

/-- `resolve_target(event)`: only a host that opens remote trails looks for a URL. -/
def resolveTarget (host : HookHost) (env : HookEnv) (io : HookIo) (fs : PosixPath → Directory)
    (event : HookEvent) : Except PyErr (HookTarget × List HookLine) :=
  match env.envTrail.filter fun value => host.remote && isRemote value with
  | some url => .ok (.remote url, [])
  | none => (host.trailPath env io fs event).map fun out => (.file out.1, out.2)

/-- What of an event is recorded, besides its name. -/
def recorded (host : HookHost) (event : HookEvent) : List (PyStr × Json) :=
  (host.fields.filterMap fun name => (event.field name).map (name, ·)) ++ (host.output event).toList

/-- `build_payload(event)`. -/
def buildPayload (host : HookHost) (env : HookEnv) (event : HookEvent) : Except PyErr Json := do
  let fields ← (host.recorded event).mapM fun m =>
    (fun value => (m.1, value)) <$> sanitize env.redactText env.depth m.2
  return .obj ((str "event", (event.field (str "hook_event_name")).getD .null) :: fields)

end HookHost

/-! ## Opening the trail -/

/-- What the log of a hook is opened with. -/
def hookConfig (env : HookEnv) : LogConfig := ⟨some 1000, some env.redact, false, none, pos_of_mem_none⟩

/-- `_size(path)`, when `stat` may fail. -/
def sizeOr (fails : Bool) (dir : Directory) (name : PyStr) : ℤ :=
  if fails then 0 else fileSize dir name

/-- `AuditLog.open(path, record_drops=True)`: a `.drops` file needs a name to be beside. -/
def OpenIo.openLogAt (io : OpenIo) (name : PyStr) : Except PyErr Unit :=
  if name = [] then .error .valueError else orFail io.openLog

variable [Interpreter]

/-- The part of `open_segmented` under `segments.lock`, up to the first write. -/
def settleWith (io : OpenIo) (slug : PyStr) (dir : Directory) (base : PyStr) :
    Except PyErr Opening := do
  orFail io.lookAgain
  let active ← activeSegment dir base
  if sizeOr io.statAgainFails dir active < defaultMaxSegmentBytes then return .onto active
  else
    orFail io.readTail
    match readLastLine (fileOf dir active) with
    | none => return .onto active
    | some tail =>
        match loadsBytes tail >>= tailFields with
        | .error e => if e.isTailError then return .onto active else .error e
        | .ok (lastSeq, lastHash) => do
            orFail io.lookNext
            let successor ← segmentName (baseStem base) (nextOrdinal dir (baseStem base))
            let binding ← HandoffBinding.new
              (.str (segmentChainId slug (segmentIdentity active))) (.int lastSeq) (.str lastHash)
            return .sealing successor binding

/-- The check of `open_segmented` before the lock: the active segment when it is under the
threshold. -/
def lookUnlocked (io : OpenIo) (dir : Directory) (base : PyStr) : Except PyErr (Option PyStr) := do
  orFail io.look
  let active ← activeSegment dir base
  return if sizeOr io.statFails dir active < defaultMaxSegmentBytes then some active else none

/-- `open_segmented(target, ...)` in its directory: the segment to append to, and the directory
with the binding of a rotation. -/
def openSegmented (env : HookEnv) (io : OpenIo) (slug : PyStr) (dir : Directory) (base : PyStr) :
    Except PyErr PyStr × Directory :=
  match lookUnlocked io dir base with
  | .error e => (.error e, dir)
  | .ok (some active) => ((io.openLogAt active).map fun _ => active, dir)
  | .ok none =>
      match orFail io.lock >>= fun _ => settleWith io slug dir base with
      | .error e => (.error e, dir)
      | .ok (.onto active) =>
          ((do io.openLogAt active; orFail io.unlock; return active), dir)
      | .ok (.sealing successor binding) =>
          match io.openLogAt successor with
          | .error e => (.error e, dir)
          | .ok () =>
              match appendTo dir successor (hookConfig env) (bindingCall binding io.bind)
                  (.open (fileOf dir successor)) with
              | (dir, .error (.attestationFailure e), _) | (dir, .error (.other e), _) =>
                  (.error e, dir)
              | (dir, .ok _, _) => ((orFail io.unlock).map fun _ => successor, dir)

/-! ## The hook -/

/-- How a hook ends: its exit code, or the exception that leaves it; what it wrote to stdout
and stderr; the files; and how many entries the chain server stored. -/
structure HookRun where
  exit : Except PyErr ℤ
  stdout : PyStr
  stderr : List HookLine
  files : PosixPath → Directory
  remote : ℕ

/-- Where the loss of an entry is recorded when its trail could not be opened. -/
def recordDrop (env : HookEnv) (io : HookIo) (fs : PosixPath → Directory) (target : PosixPath) :
    Except PyErr Unit := do
  let path ← env.expandUser target
  orFail io.recoverLook
  let active ← activeSegment (fs path.parent) path.name
  let beside ← env.expandUser (if active = path.name then path else path.parent.child active)
  if beside.name = [] then .error .valueError else return ()

/-- `open_segmented` of a target. -/
def openTrail (env : HookEnv) (io : HookIo) (fs : PosixPath → Directory) (target : PosixPath) :
    Except PyErr (PosixPath × PyStr) × (PosixPath → Directory) :=
  match orFail io.opening.archive >>= fun _ => env.expandUser target with
  | .error e => (.error e, fs)
  | .ok path =>
      match openSegmented env io.opening path.parent.name (fs path.parent) path.name with
      | (result, dir) =>
          (result.map fun name => (path.parent, name), Function.update fs path.parent dir)

/-- `log.try_append(payload=..., payload_type=...)` on a segment. -/
def tryAppendTo (host : HookHost) (env : HookEnv) (call : Call) (dir : Directory) (name : PyStr)
    (payload : Json) : Bool × Directory :=
  match appendTo dir name (hookConfig env)
      { call with payload := .dict payload, payloadType := host.payloadType }
      (.open (fileOf dir name)) with
  | (dir, .ok _, _) | (dir, .error (.attestationFailure _), _) => (true, dir)
  | (dir, .error (.other _), _) => (false, dir)

namespace HookHost

variable (host : HookHost) (env : HookEnv) (io : HookIo) (fs : PosixPath → Directory)

/-- The event of a hook whose target is a chain server. -/
def runRemote (event : HookEvent) (lines : List HookLine) : HookRun :=
  match io.remoteOpen with
  | some e => ⟨.ok 0, [], lines ++ [.cannotOpen e], fs, 0⟩
  | none =>
      match host.buildPayload env event with
      | .error e => ⟨.error e, [], lines, fs, 0⟩
      | .ok _ => ⟨.ok 0, [],
          if io.remoteAppend.returned then lines
          else lines ++ [.droppedWrite ((event.field (str "hook_event_name")).getD .null)],
          fs, if io.remoteAppend.persisted then 1 else 0⟩

/-- The event of a hook whose target is a file. -/
def runLocal (event : HookEvent) (target : PosixPath) (lines : List HookLine) : HookRun :=
  match openTrail env io fs target with
  | (.error e, fs) =>
      ⟨(recordDrop env io fs target).map fun _ => 0, [], lines ++ [.cannotOpen e], fs, 0⟩
  | (.ok (directory, name), fs) =>
      match host.buildPayload env event with
      | .error e => ⟨.error e, [], lines, fs, 0⟩
      | .ok payload =>
          match tryAppendTo host env io.append (fs directory) name payload with
          | (true, dir) => ⟨.ok 0, [], lines, Function.update fs directory dir, 0⟩
          | (false, dir) => ⟨.ok 0, [],
              lines ++ [.droppedWrite ((event.field (str "hook_event_name")).getD .null)],
              Function.update fs directory dir, 0⟩

/-- `json.loads(sys.stdin.read())`, when it is an object. -/
def readEvent : Except PyErr HookEvent :=
  match io.stdin >>= loads with
  | .error e => .error e
  | .ok (.obj event) => .ok event
  | .ok _ => .error .valueError

/-- `run_stdin_hook(...)`. -/
def run : HookRun :=
  match readEvent io with
  | .error e => ⟨.ok 0, [], [.unreadable e], fs, 0⟩
  | .ok event =>
      match host.resolveTarget env io fs event with
      | .error e => ⟨.error e, [], [], fs, 0⟩
      | .ok (.remote _, lines) => host.runRemote env io fs event lines
      | .ok (.file target, lines) => host.runLocal env io fs event target lines

end HookHost

end Waxseal
