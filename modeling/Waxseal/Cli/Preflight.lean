import Waxseal.Adapters.AnchorSidecar
import Waxseal.Base.PathReads
import Waxseal.Base.TextFiles
import Waxseal.Cli.Segments
import Waxseal.Domain.Preflight

/-!
# `waxseal preflight`

`cli/preflight.py`, without `--pin`: a reading of what is configured around a trail, as a
program that looks at files.  Beside the trail and its sidecars it looks at the directory of
the trail, to tell which of how many segments the trail is.
-/

namespace Waxseal

open Json

/-- `CompletedProcess`. -/
structure Completed where
  returncode : ℤ
  stdout : PyStr
  stderr : PyStr
  deriving DecidableEq

/-- What the process of a command is started in: its working directory, whose home `~` is, and
the text an uncaught exception leaves. -/
structure Shell where
  cwd : Location
  expanduser : PurePath → PurePath
  traceback : PyErr → PyStr

/-- The process after an uncaught exception. -/
def Shell.uncaught (shell : Shell) (e : PyErr) (printed : List PyStr) : Completed :=
  ⟨1, joinLines printed, shell.traceback e⟩

/-! ## The anchor sidecar -/

/-- `_PREFLIGHT_DOMAINS`. -/
def preflightDomains : PyStr :=
  str ("  distinct administrative domains: NOT MEASURED — an `.anchors` record "
    ++ "names the sink TECHNOLOGY that wrote it (`rfc3161`, `ots`, `http`), "
    ++ "never who OPERATES it, so two records may be one authority or two. The "
    ++ "operator's own count is a pin's declared_topology.anchor_sinks "
    ++ "(declared, not measured).")

/-- `_observed_label`. -/
def observedLabel (observed : Preflight.Observed) : PyStr :=
  match observed.found with
  | none => str "NOT MEASURED"
  | some true => str "PRESENT"
  | some false => str "ABSENT"

/-- `_AnchorView`. -/
structure AnchorView where
  lines : List PyStr
  records : Preflight.Observed
  external : Preflight.Observed
  aggregate : Preflight.Observed
  latestSeq : Option ℤ

/-- What a sidecar that cannot be parsed shows: of three things, nothing. -/
def unparsedView (name : PyStr) : AnchorView :=
  let unparsed : Preflight.Observed := ⟨none, name
    ++ str (" is present but this build could not parse it — NOT zero "
      ++ "records (`waxseal verify --anchors` reports the parse failure itself)")⟩
  { lines := [ str "  anchor sidecar (SPEC 9): NOT MEASURED — " ++ unparsed.detail,
      str "  external anchor sinks: NOT MEASURED — " ++ unparsed.detail,
      preflightDomains,
      str "  aggregate binding (SPEC 15): NOT MEASURED — " ++ unparsed.detail ]
    records := unparsed
    external := unparsed
    aggregate := unparsed
    latestSeq := none }

/-- `sorted(set(xs))`. -/
def sortedSet (xs : List PyStr) : List PyStr := xs.dedup.insertionSort (· ≤ ·)

/-- What a sidecar shows. -/
def parsedView (name : PyStr) (sidecar : AnchorSidecar) : AnchorView :=
  let records := sidecar.records
  let latest := records.getLast?.map fun r => r.checkpoint.seq
  let sinks := sortedSet ((records.map (·.sink)).filter (· ≠ str "file"))
  let bound := records.filter fun r => r.checkpoint.aggCommit.isSome
  -- Records of a version this build does not know may have been anything.
  let otherwise (detail : PyStr) : Preflight.Observed :=
    if sidecar.unreadableVersions ≠ [] then
      ⟨none, strNat sidecar.unreadableVersions.length ++ str " record(s) in " ++ name
        ++ str " are in a format version this build cannot read ("
        ++ joinStr (str ", ") (sortedSet sidecar.unreadableVersions)
        ++ str ") — unverifiable by name, NOT evidence of tampering, and NOT zero"⟩
    else ⟨some false, detail⟩
  let anchorRecords : Preflight.Observed := match latest with
    | some seq => ⟨some true, strNat records.length ++ str " record(s) in " ++ name
        ++ str ", latest at seq " ++ strInt seq⟩
    | none => otherwise (str "no anchor record found in " ++ name)
  let external : Preflight.Observed :=
    if sinks ≠ [] then
      ⟨some true, name ++ str " names " ++ joinStr (str ", ") sinks
        ++ str (" (the local `file` sink is "
          ++ "excluded: a trail anchored only to its own disk is not separated "
          ++ "from a writer who holds that disk)")⟩
    else otherwise (str "no record in " ++ name ++ str " names a sink other than `file`")
  let aggregate : Preflight.Observed :=
    if bound ≠ [] then
      ⟨some true, strNat bound.length ++ str " record(s) in " ++ name
        ++ str (" carry `agg_commit` — present, "
          ++ "and NOT checked here: the CLI holds no seal key (use "
          ++ "AuditLog.verify_anchored_aggregates)")⟩
    else otherwise (str "no record in " ++ name ++ str " carries `agg_commit`")
  let count :=
    if sinks = [] ∧ sidecar.unreadableVersions ≠ [] then str "NOT MEASURED"
    else strNat sinks.length ++ str " observed"
  { lines := [ str "  anchor sidecar (SPEC 9): " ++ observedLabel anchorRecords ++ str " — "
        ++ anchorRecords.detail,
      str "  external anchor sinks: " ++ count ++ str " — " ++ external.detail,
      preflightDomains,
      str "  aggregate binding (SPEC 15): " ++ observedLabel aggregate ++ str " — "
        ++ aggregate.detail ]
    records := anchorRecords
    external := external
    aggregate := aggregate
    latestSeq := latest }

/-- `_preflight_anchors(trail)`, of what reading the sidecar gave. -/
def preflightAnchors (name : PyStr) : Except PyErr AnchorSidecar → Except PyErr AnchorView
  | .ok sidecar => .ok (parsedView name sidecar)
  | .error e =>
      if e.isValueError || e == .keyError || e == .typeError then .ok (unparsedView name)
      else .error e

/-- `_PREFLIGHT_PREFIX_MECHANISM`. -/
def preflightPrefixMechanism : PyStr :=
  str ("DESIGN.md §11 names exactly two mechanisms that raise a prefix from "
    ++ "evidence to scoped proof — a finalized external ledger anchor (0.1.5 "
    ++ "Workstream F) or a WORM-locked archived segment (S3 Object Lock, "
    ++ "Workstream J1) — and preflight confirms neither: it opens no network "
    ++ "connection and holds no storage credentials")

/-- `_preflight_immutable_prefix_lines(anchors)`. -/
def preflightImmutablePrefixLines (anchors : AnchorView) : List PyStr :=
  let (checkpoint, tail) := match anchors.latestSeq, anchors.records.found with
    | some seq, _ => (str "seq " ++ strInt seq, str "seq " ++ strInt seq ++ str " onward")
    | none, none => (str "UNMEASURED (the .anchors sidecar could not be read)",
        str "the whole trail — no checkpoint could be read")
    | none, some _ => (str "NONE (no anchor record on this trail)",
        str "the whole trail — nothing is anchored")
  [ str "immutable prefix: up to checkpoint " ++ checkpoint
      ++ str ", mechanism NOT CONFIRMED this run (finalized ledger / WORM / none) — "
      ++ preflightPrefixMechanism,
    str "tail from " ++ tail
      ++ str (": tamper-evident only, never more — the live tail "
        ++ "and write-time honesty are limits DESIGN.md §11 says no mechanism closes") ]

/-! ## The trail and its segments -/

/-- `_preflight_trail_line(trail)`, of what reading the trail gave. -/
def preflightTrailLine (trail : PurePath) : Except PyErr (List PyStr) → Except PyErr PyStr
  | .error e =>
      if e.isUnreadable then
        .ok (str "trail: " ++ trail.text
          ++ str (" — entries: NOT READ: this build could not read "
            ++ "this trail's lines; `waxseal verify` reports what is wrong with them"))
      else .error e
  | .ok [] => .ok (str "trail: " ++ trail.text ++ str " — 0 recorded entries, no head yet")
  | .ok hashes => .ok (str "trail: " ++ trail.text ++ str " — " ++ strNat hashes.length
      ++ str " recorded entries, head seq=" ++ strNat (hashes.length - 1))

/-- The loop of `discover_segments` over the sorted stems, which asks for the unnumbered file of
each. -/
def discoverStems (dir : Location) (names : List PyStr) : List PyStr → FileReads (List PyStr)
  | [] => return []
  | stem :: stems => do
      let unnumbered ← FileReads.exists_ (dir ++ [stem ++ segmentSuffix])
      let numbered := (names.filterMap fun name =>
        if stemOf name = some stem then (segmentOrdinal name stem).map fun n => (n, name)
        else none).insertionSort SegmentLe
      let rest ← discoverStems dir names stems
      return (if unnumbered then [stem ++ segmentSuffix] else []) ++ numbered.map Prod.snd ++ rest

/-- `discover_segments(directory)`, the names. -/
def discoverSegmentsAt (dir : Location) : FileReads (Except PyErr (List PyStr)) := do
  if !(← FileReads.isDir dir) then return .ok []
  match ← FileReads.iterdir dir with
  | .error e => return .error e
  | .ok names =>
      return .ok (← discoverStems dir names
        ((names.filterMap stemOf).dedup.insertionSort (· ≤ ·)))

/-- `_preflight_segment_lines(trail)`, of what `discover_segments` found. -/
def preflightSegmentLines (trail : PurePath) (found : List PyStr) : Except PyErr (List PyStr) :=
  let stem := baseStem trail.name
  let group := found.filter fun name =>
    name = stem ++ segmentSuffix ∨ (segmentOrdinal name stem).isSome
  if group = [] then
    .ok [ str "segments: not rotated — no numbered segment of \"" ++ stem ++ str "\" in "
      ++ trail.parent.text
      ++ str " (SPEC 20), so everything below describes this one file." ]
  else match group.idxOf? trail.name with
    | none => .error .valueError
    | some index => .ok
        [ str "segments: this trail is segment " ++ strNat (index + 1) ++ str " of "
            ++ strNat group.length ++ str " (" ++ segmentIdentity trail.name ++ str ") under "
            ++ trail.parent.text ++ str " — SPEC 20.",
          str ("  Every segment carries its OWN sidecars (SPEC 20.1), so every rung "
            ++ "below describes THIS segment only, never the directory. `waxseal "
            ++ "segments <dir>` walks all of them and the rotation bindings between them.") ]

/-! ## The command -/

/-- `_PREFLIGHT_WITNESS`. -/
def preflightWitness : PyStr :=
  str ("preflight contacts no witness: it opens no network connection at all, "
    ++ "so a witness is never ABSENT here, only unmeasured; "
    ++ "`waxseal verify --witness URL` is what checks one (SPEC 14)")

/-- `_PREFLIGHT_LEDGER`. -/
def preflightLedger : PyStr :=
  str ("preflight contacts no ledger: it opens no network connection at all, "
    ++ "so a ledger is never ABSENT here, only unmeasured; "
    ++ "`waxseal verify --rpc URL --liveness ADDR` is what checks one (F4)")

/-- `_PREFLIGHT_PIN_NOT_A_RUNG`. -/
def preflightPinNotARung : PyStr :=
  str ("  (the pin is not a stopper on this ladder: threat-model.md section 5 "
    ++ "names seals, anchors, an external anchor and the SPEC 15 binding. The "
    ++ "pin is section 4's table, and τ below.)")

/-- `_PREFLIGHT_SCOPE`. -/
def preflightScope : PyStr :=
  str ("scope: this is a reading of CONFIGURATION, and not a verdict — nothing "
    ++ "here says the trail verifies, or that any mechanism named PRESENT "
    ++ "currently checks out. Run `waxseal verify <trail>` for that.")

/-- What is printed about a run that was given no pin. -/
def preflightNoPin : List PyStr :=
  [ str ("  pin state: NOT READ — no --pin given, so this run saw no "
      ++ "declaration at all, which is not the same as a pin that declares nothing"),
    str ("  pin on separate storage: NOT DECLARED — a declaration only; "
      ++ "nothing in a trail or its sidecars can corroborate where the pin "
      ++ "file lives (domain/separation.py)"),
    preflightPinNotARung,
    str "τ (separation degree): not declared" ]

/-- What is seen of the seals beside a trail. -/
def preflightSeal (name : PyStr) (found : Bool) : Preflight.Observed :=
  if found then ⟨some true, name ++ str " present beside this trail (SPEC 11)"⟩
  else ⟨some false, str "no " ++ name
    ++ str (" beside this trail (SPEC 11's own path; an "
      ++ "attestor that stores seals elsewhere is not visible to this command)")⟩

/-- What is printed below the trail and its segments. -/
def preflightObserved (seals : Preflight.Observed) (anchors : AnchorView) : List PyStr :=
  let witness : Preflight.Observed := ⟨none, preflightWitness⟩
  let ledger : Preflight.Observed := ⟨none, preflightLedger⟩
  [ [], str ("observed configuration (PRESENT means the mechanism is CONFIGURED, "
      ++ "not that it currently checks out)"),
    str "  seal (SPEC 11): " ++ observedLabel seals ++ str " — " ++ seals.detail ]
    ++ anchors.lines
    ++ [ str "  witness (SPEC 14): " ++ observedLabel witness ++ str " — " ++ witness.detail,
      str "  ledger (F4): " ++ observedLabel ledger ++ str " — " ++ ledger.detail ]
    ++ preflightNoPin ++ [[]]
    ++ renderLadder (ladderFor ⟨seals, anchors.records, anchors.external, anchors.aggregate,
      witness, ledger⟩)
    ++ [[]] ++ preflightImmutablePrefixLines anchors ++ [[], preflightScope]

section

variable [Interpreter]

/-- `_preflight(path, pin_path=None)`. -/
def preflight (shell : Shell) (path : PyStr) : FileReads Completed := do
  if str "http://" <+: path ∨ str "https://" <+: path then
    return ⟨3, [], joinLines [str ("error: preflight reads local sidecars; no URL/remote support "
      ++ "(local trail path only): ") ++ path]⟩
  let trail := shell.expanduser (.ofStr path)
  let beside (suffix : PyStr) := trail.withName (trail.name ++ suffix)
  let locate (p : PurePath) := p.resolve shell.cwd
  if !(← FileReads.exists_ (locate trail)) then
    return ⟨3, [], joinLines [str "error: no such trail: " ++ trail.text]⟩
  let anchors := beside (str ".anchors")
  match preflightAnchors anchors.name
      ((← FileReads.readIfExists (locate anchors)).bind readAnchorRecords) with
  | .error e => return shell.uncaught e []
  | .ok view =>
    let attest := beside (str ".attest")
    let seals := preflightSeal attest.name (← FileReads.exists_ (locate attest))
    let printed := [str "preflight: " ++ trail.text]
    match preflightTrailLine trail ((← FileReads.readIfExists (locate trail)).bind
        fun file => entryHashes (file.getD [])) with
    | .error e => return shell.uncaught e printed
    | .ok trailLine =>
      let printed := printed ++ [trailLine]
      match (← discoverSegmentsAt (locate trail.parent)).bind (preflightSegmentLines trail) with
      | .error e => return shell.uncaught e printed
      | .ok segmentLines =>
        return ⟨0, joinLines (printed ++ segmentLines ++ preflightObserved seals view), []⟩

end

theorem eval_discoverStems {files : Files} {loc : Location} {dir : Directory}
    (hfiles : ∀ name, (files (loc ++ [name])).isSome ↔ name ∈ dir) (stems : List PyStr) :
    (discoverStems loc dir.keys stems).eval files = stems.flatMap fun stem =>
      (if stem ++ segmentSuffix ∈ dir then [stem ++ segmentSuffix] else [])
        ++ (numberedSegments dir stem).map Prod.snd := by
  induction stems with
  | nil => rfl
  | cons stem stems ih =>
      simp only [discoverStems, FileReads.exists_, Reads.look_bind, Reads.done_bind,
        Reads.eval_look, Reads.eval_bind, ih, List.flatMap_cons, ← hfiles]
      rfl

/-- On files that stand still the command finds the segments the reader of a directory does. -/
theorem eval_discoverSegmentsAt {files : Files} {loc : Location} {node : Node} {dir : Directory}
    (hloc : files loc = some node) (hdir : node.content = .dir dir.keys)
    (hfiles : ∀ name, (files (loc ++ [name])).isSome ↔ name ∈ dir) :
    (discoverSegmentsAt loc).eval files = .ok (discoverSegments dir) := by
  rw [discoverSegmentsAt, Reads.eval_bind, FileReads.eval_isDir hloc hdir, if_neg (by decide),
    Reads.eval_bind, FileReads.eval_iterdir hloc hdir]
  dsimp only
  rw [Reads.eval_bind, eval_discoverStems hfiles]
  rfl

end Waxseal
