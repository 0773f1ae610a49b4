import Mathlib.Data.Rat.Defs
import Mathlib.Algebra.Order.Ring.Rat
import Waxseal.Cli.Preflight

/-!
# The read surface of the server

`runtime/cli.py` of the server: a read runs the CLI in a process of its own, and the outcome is
kept for a while under the stamps of the files the arguments name.  Calls come in on threads of
their own; each stamps files one look at a time, and so does the process it starts, while files
change.  `trace` is the system taking one step after the other, in any order.
-/

namespace Waxseal

open FileReads

/-! ## Outcomes -/

/-- `Verdict.from_exit_code`. -/
def Verdict.fromExitCode : ℤ → Option Verdict
  | 0 => some .ok
  | 1 => some .broken
  | 2 => some .unverifiable
  | _ => none

/-- `STATUS_BY_VERDICT`. -/
def statusByVerdict : Verdict → PyStr
  | .ok => str "ok"
  | .broken => str "broken"
  | .unverifiable => str "unverifiable"

/-- `CliOutcome`. -/
structure CliOutcome where
  command : PyStr
  argv : List PyStr
  exitCode : Option ℤ
  verdict : Option Verdict
  status : PyStr
  stdout : PyStr
  stderr : PyStr
  deriving DecidableEq

/-- `_classify`. -/
def classify (command : PyStr) (argv : List PyStr) (completed : Completed) : CliOutcome :=
  let ⟨code, stdout, stderr⟩ := completed
  if code = 3 then ⟨command, argv, some 3, none, str "absent", stdout, stderr⟩
  else if code = 2 ∧ str "usage:" <+: stderr.dropWhile isSpace then
    ⟨command, argv, some 2, none, str "usage_error", stdout, stderr⟩
  else match Verdict.fromExitCode code with
    | none => ⟨command, argv, some code, none, str "unexpected_exit", stdout, stderr⟩
    | some verdict => ⟨command, argv, some code, some verdict, statusByVerdict verdict, stdout, stderr⟩

/-! ## Stamps -/

/-- `_Stamp`: the resolved path and what `stat` tells. -/
structure FileStamp where
  path : Location
  stat : Stat
  deriving DecidableEq

/-- `_TRAIL_SIDECAR_SUFFIXES`. -/
def trailSidecarSuffixes : List PyStr :=
  [str ".anchors", str ".attest", str ".drops", str ".receipts", str ".sealagg"]

/-- `_stat_stamp(path)`. -/
def statStamp (loc : Location) : FileReads (Option FileStamp) :=
  .look loc fun node => .done (node.map fun n => ⟨loc, n.stat⟩)

/-- The loop of `_directory_children`. -/
def keepChildren (dir : Location) : List PyStr → FileReads (List Location)
  | [] => return []
  | child :: children => do
      let loc := dir ++ [child]
      let kept ← if ← isFile loc then pure true else isDir loc
      let rest ← keepChildren dir children
      return if kept then loc :: rest else rest

/-- `_directory_children(path)`. -/
def directoryChildren (dir : Location) : FileReads (List Location) := do
  match ← iterdir dir with
  | .error _ => return []
  | .ok children => keepChildren dir children

/-- The candidates for a stamp an argument brings in. -/
def candidates (cwd : Location) (arg : PyStr) : FileReads (List Location) := do
  let path := PurePath.ofStr arg
  let loc := path.resolve cwd
  let directory ← isDir loc
  let file ← isFile loc
  if directory then
    return loc :: (← directoryChildren loc)
  else if file then
    return loc :: trailSidecarSuffixes.map fun suffix =>
      (path.withName (path.name ++ suffix)).resolve cwd
  else return []

/-- The stamps of candidates, each path once. -/
def stampCandidates : List FileStamp → List Location → FileReads (List FileStamp)
  | stamps, [] => return stamps
  | stamps, candidate :: rest => do
      match ← statStamp candidate with
      | none => stampCandidates stamps rest
      | some stamp =>
          if stamp.path ∈ stamps.map (·.path) then stampCandidates stamps rest
          else stampCandidates (stamps ++ [stamp]) rest

/-- The loop of `_input_stamp`. -/
def inputStampLoop (cwd : Location) : List FileStamp → List PyStr → FileReads (List FileStamp)
  | stamps, [] => return stamps
  | stamps, arg :: args => do
      let stamps ← stampCandidates stamps (← candidates cwd arg)
      inputStampLoop cwd stamps args

/-- `_input_stamp(args)`. -/
def inputStamp (cwd : Location) (args : List PyStr) : FileReads (List FileStamp) :=
  inputStampLoop cwd [] args

/-! ## What is run, and what is cached -/

/-- `READ_ONLY_COMMANDS`. -/
def readOnlyCommands : List PyStr :=
  [str "verify", str "report", str "inspect", str "tail", str "head", str "checkpoint",
    str "export-proof", str "verify-proof", str "consistency", str "verify-handoff",
    str "reconcile-tickets", str "receipt", str "cadence", str "ledger-status", str "segments",
    str "preflight"]

/-- `_UNCACHED_COMMANDS`. -/
def uncachedCommands : List PyStr := [str "ledger-status"]

/-- `_NETWORK_FLAGS`. -/
def networkFlags : List PyStr :=
  [str "--rpc", str "--liveness", str "--witness", str "--registry", str "--bond",
    str "--writer", str "--trail-id"]

/-- `_skips_outcome_cache(command, args)`. -/
def skipsOutcomeCache (command : PyStr) (args : List PyStr) : Bool :=
  command ∈ uncachedCommands ||
    args.any fun arg => networkFlags.any fun flag => arg = flag ∨ flag ++ str "=" <+: arg

/-- `_OutcomeKey`. -/
structure OutcomeKey where
  command : PyStr
  args : List PyStr
  stamps : List FileStamp
  deriving DecidableEq

/-- What a key holds: an outcome, and the clock when it was stored.  The moments at which its
process was started and was done are for the record, and nothing reads them. -/
structure KeptOutcome where
  outcome : CliOutcome
  storedAt : ℚ
  spawned : ℕ
  ended : ℕ

/-- `_outcomes`, the oldest first. -/
abbrev Outcomes := List (OutcomeKey × KeptOutcome)

/-- `_CACHE_TTL_S`. -/
def cacheTtl : ℚ := 30

namespace Outcomes

/-- `del outcomes[key]`. -/
def delete (outcomes : Outcomes) (key : OutcomeKey) : Outcomes := outcomes.filter (·.1 ≠ key)

/-- An outcome stored, or moved, to the end. -/
def putLast (outcomes : Outcomes) (key : OutcomeKey) (kept : KeptOutcome) : Outcomes :=
  outcomes.delete key ++ [(key, kept)]

/-- What a lookup finds that is not too old. -/
def fresh (outcomes : Outcomes) (key : OutcomeKey) (now : ℚ) : Option KeptOutcome :=
  (outcomes.lookup key).filter fun kept => now - kept.storedAt ≤ cacheTtl

/-- What a lookup leaves. -/
def afterLookup (outcomes : Outcomes) (key : OutcomeKey) (now : ℚ) : Outcomes :=
  match outcomes.fresh key now with
  | some kept => outcomes.putLast key kept
  | none => outcomes.delete key

/-- The outcome stored, and the oldest ones dropped. -/
def store (outcomes : Outcomes) (size : ℕ) (key : OutcomeKey) (kept : KeptOutcome) : Outcomes :=
  let outcomes := outcomes.putLast key kept
  outcomes.drop (outcomes.length - size)

end Outcomes

/-- `WaxsealCli`, and the build of the CLI behind it. -/
structure WaxsealCli where
  python : PyStr
  cwd : Location
  outcomeCacheSize : ℕ
  available : List PyStr
  /-- The process of a command. -/
  execute : PyStr → List PyStr → FileReads Completed

namespace WaxsealCli

/-- `argv`. -/
def argv (cli : WaxsealCli) (command : PyStr) (args : List PyStr) : List PyStr :=
  [cli.python, str "-m", str "waxseal.cli", command] ++ args

/-- What running the command returns on files that stand still. -/
def outcomeOn (cli : WaxsealCli) (files : Files) (command : PyStr) (args : List PyStr) :
    CliOutcome :=
  classify command (cli.argv command args) ((cli.execute command args).eval files)

end WaxsealCli

/-! ## Calls and files, one step at a time -/

/-- How far a thread is in `run`. -/
inductive CliCall where
  | idle
  /-- `ValueError` of a command that is not read-only, or `TimeoutExpired`. -/
  | raised
  /-- In `_input_stamp`, since the moment `began`. -/
  | stamping (command : PyStr) (args : List PyStr) (began : ℕ) (rest : FileReads (List FileStamp))
  /-- The process was started at the moment `spawned`. -/
  | running (command : PyStr) (args : List PyStr) (key : Option OutcomeKey) (spawned : ℕ)
      (rest : FileReads Completed)
  | returned (outcome : CliOutcome)
  /-- Returned from the cache, to a call that began at the moment `began`. -/
  | served (command : PyStr) (args : List PyStr) (began : ℕ) (outcome : CliOutcome)

/-- A call that was served: its command, its arguments, its beginning, and the outcome. -/
def CliCall.servedCall : CliCall → Option (PyStr × List PyStr × ℕ × CliOutcome)
  | served command args began outcome => some (command, args, began, outcome)
  | _ => none

theorem CliCall.eq_served {call : CliCall} {command : PyStr} {args : List PyStr} {began : ℕ}
    {outcome : CliOutcome} (h : call.servedCall = some (command, args, began, outcome)) :
    call = .served command args began outcome := by
  cases call with
  | served command' args' began' outcome' =>
      obtain ⟨rfl, rfl, rfl, rfl⟩ := h
      rfl
  | _ => cases h

/-- The thread is in no call. -/
def CliCall.isOver : CliCall → Bool
  | .stamping .. | .running .. => false
  | _ => true

/-- The files, the cache and the calls. -/
structure ReadSurface where
  files : Files
  outcomes : Outcomes
  calls : ℕ → CliCall

/-- A step. -/
inductive SurfaceStep where
  /-- Files are created, edited or removed. -/
  | edit (files : Files)
  /-- A thread calls `run`. -/
  | call (thread : ℕ) (command : PyStr) (args : List PyStr)
  /-- A thread goes on: it looks at a file, or it is done looking and turns to the cache. -/
  | go (thread : ℕ) (now : ℚ)
  /-- A process runs out of time. -/
  | timeout (thread : ℕ)

/-- The files after a step. -/
def SurfaceStep.filesAfter (files : Files) : SurfaceStep → Files
  | edit edited => edited
  | _ => files

namespace WaxsealCli

/-- `run(command, *args)`, up to the first look. -/
def start (cli : WaxsealCli) (command : PyStr) (args : List PyStr) (t : ℕ) : CliCall :=
  if command ∉ readOnlyCommands then .raised
  else if command ∉ cli.available then
    .returned ⟨command, cli.argv command args, none, none, str "unavailable", [],
      str "this waxseal build has no '" ++ command ++ str "' subcommand"⟩
  else if skipsOutcomeCache command args then
    .running command args none (t + 1) (cli.execute command args)
  else .stamping command args (t + 1) (inputStamp cli.cwd args)

/-- What becomes of a call that has its key: it is served, or it starts a process. -/
def answer (cli : WaxsealCli) (outcomes : Outcomes) (now : ℚ) (t : ℕ) (key : OutcomeKey)
    (began : ℕ) : CliCall :=
  match outcomes.fresh key now with
  | some kept => .served key.command key.args began kept.outcome
  | none => .running key.command key.args (some key) (t + 1) (cli.execute key.command key.args)

/-- `run`, one step further at the moment `t`: what is left in the cache, and where the call is. -/
def goOn (cli : WaxsealCli) (files : Files) (outcomes : Outcomes) (now : ℚ) (t : ℕ) :
    CliCall → Outcomes × CliCall
  | .stamping command args began (.look loc next) =>
      (outcomes, .stamping command args began (next (files loc)))
  | .stamping command args began (.done stamps) =>
      let key : OutcomeKey := ⟨command, args, stamps⟩
      (outcomes.afterLookup key now, cli.answer outcomes now t key began)
  | .running command args key spawned (.look loc next) =>
      (outcomes, .running command args key spawned (next (files loc)))
  | .running command args key spawned (.done completed) =>
      let outcome := classify command (cli.argv command args) completed
      (key.elim outcomes fun key =>
        outcomes.store cli.outcomeCacheSize key ⟨outcome, now, spawned, t⟩, .returned outcome)
  | ended => (outcomes, ended)

/-- The step of the moment `t`. -/
def step (cli : WaxsealCli) (t : ℕ) (s : ReadSurface) : SurfaceStep → ReadSurface
  | .edit files => { s with files := files }
  | .call thread command args =>
      if (s.calls thread).isOver then
        { s with calls := Function.update s.calls thread (cli.start command args t) }
      else s
  | .go thread now =>
      let (outcomes, call) := cli.goOn s.files s.outcomes now t (s.calls thread)
      { s with outcomes := outcomes, calls := Function.update s.calls thread call }
  | .timeout thread =>
      match s.calls thread with
      | .running .. => { s with calls := Function.update s.calls thread .raised }
      | _ => s

/-- A new server, before its first call. -/
def fresh (files : Files) : ReadSurface := ⟨files, [], fun _ => .idle⟩

/-- The system at each moment. -/
def trace (cli : WaxsealCli) (files : Files) (steps : ℕ → SurfaceStep) : ℕ → ReadSurface
  | 0 => fresh files
  | t + 1 => cli.step t (cli.trace files steps t) (steps t)

/-- The files at each moment. -/
def history (cli : WaxsealCli) (files : Files) (steps : ℕ → SurfaceStep) (t : ℕ) : Files :=
  (cli.trace files steps t).files

end WaxsealCli

end Waxseal
