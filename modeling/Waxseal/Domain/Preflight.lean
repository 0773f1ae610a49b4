import Waxseal.Domain.Report

/-!
# The attacker-capability ladder

`domain/preflight.py`: what a run saw, read against the six rungs of the ladder.  A rung is
stopped, is not, was not measured, or has no mechanism at all; the reading stops at the first
rung that is not stopped, whatever is stopped above it.
-/

namespace Waxseal

/-- `RungState`. -/
inductive RungState where
  | present
  | absent
  | notMeasured
  | noMechanism
  deriving DecidableEq

/-- `_STATE_LABEL`. -/
def RungState.label : RungState → PyStr
  | present => str "PRESENT"
  | absent => str "ABSENT"
  | notMeasured => str "NOT MEASURED"
  | noMechanism => str "NO MECHANISM"

/-- `Observed`. -/
structure Preflight.Observed where
  found : Option Bool
  detail : PyStr

/-- `PreflightObservation`. -/
structure PreflightObservation where
  seals : Preflight.Observed
  anchorRecords : Preflight.Observed
  externalAnchor : Preflight.Observed
  aggregateBinding : Preflight.Observed
  witness : Preflight.Observed
  ledger : Preflight.Observed

/-- `Rung`. -/
structure Rung where
  number : ℕ
  attackerHolds : PyStr
  stopper : PyStr
  state : RungState
  detail : PyStr
  needs : Option PyStr

/-- `LadderReading`. -/
structure LadderReading where
  rungs : List Rung
  stopsAt : ℕ
  nextRung : Rung
  presentAboveCap : List ℕ

/-- `_NEEDS_SEAL`. -/
def needsSeal : PyStr :=
  str ("a forward-secure seal (SPEC 11) — open the trail with an attestor, so "
    ++ "every append writes an attestation beside it")

/-- `_NEEDS_ANCHOR`. -/
def needsAnchor : PyStr :=
  str ("at least one anchor record (SPEC 9) — `waxseal anchor <trail>`, or "
    ++ "`anchor_every=N` on the writer")

/-- `_NEEDS_EXTERNAL`. -/
def needsExternal : PyStr :=
  str ("an anchor sink that keeps its own copy off this host — `waxseal anchor "
    ++ "--tsa-url URL` (RFC 3161, SPEC 17), `--ots-calendar URL` "
    ++ "(OpenTimestamps, SPEC 18), a witness (`--witness URL`, SPEC 14), or an "
    ++ "on-chain ledger (`waxseal anchor --evm-rpc URL --evm-liveness ADDR`, F4)")

/-- `_NEEDS_AGGREGATE`. -/
def needsAggregate : PyStr :=
  str ("an aggregate binding inside an anchored checkpoint (SPEC 15) — anchor a "
    ++ "SEALED trail, so the record carries `agg_commit`")

/-- `_DETAIL_ANCHOR_SINK_HELD`. -/
def detailAnchorSinkHeld : PyStr :=
  str "an attacker who holds the anchor sink itself is outside what any local mechanism can reach"

/-- `_DETAIL_COLLUSION`. -/
def detailCollusion : PyStr :=
  str ("collusion between the writer and every witness leaves no independent "
    ++ "copy left to compare against")

/-- `_OPERATIONAL_REQUIREMENT`. -/
def operationalRequirement : PyStr :=
  str ("The seal key, the anchor sink, the witness, and the ledger must each "
    ++ "sit under a DIFFERENT administrative authority than the process that "
    ++ "writes the trail; no configuration flag substitutes for that, and "
    ++ "waxseal cannot check it for you (threat-model.md section 5)")

/-- `_CONTIGUOUS_MEANING`. -/
def contiguousMeaning : PyStr :=
  str ("\"stops at rung N\" is a CONTIGUOUS claim: an attacker weaker than rung "
    ++ "N+1 includes every attacker below, so a missing stopper lower down caps "
    ++ "it. PRESENT means the mechanism is CONFIGURED, not that it currently "
    ++ "checks out — that is `waxseal verify`'s job.")

/-- `_state_of`: one stopper is enough, and one not looked at is enough to say nothing. -/
def stateOf (observed : List Preflight.Observed) : RungState :=
  if observed.any (·.found = some true) then .present
  else if observed.any (·.found = none) then .notMeasured
  else .absent

/-- The six rows. -/
def rungsOf (o : PreflightObservation) : List Rung :=
  [ ⟨1, str "the trail file only", str "seals: forging one needs the epoch key",
      stateOf [o.seals], o.seals.detail, some needsSeal⟩,
    ⟨2, str "trail + keyfile", str "anchors: an external record of the old root",
      stateOf [o.anchorRecords], o.anchorRecords.detail, some needsAnchor⟩,
    ⟨3, str "trail + keyfile + `.anchors`",
      str "external anchor: the TSA / calendar / witness / ledger holds its own copy",
      stateOf [o.externalAnchor, o.witness, o.ledger],
      o.externalAnchor.detail ++ str "; " ++ o.witness.detail ++ str "; " ++ o.ledger.detail,
      some needsExternal⟩,
    ⟨4, str "trail + keyfile + `.sealagg`",
      str "the aggregate binding in an anchored checkpoint (SPEC 15)",
      stateOf [o.aggregateBinding], o.aggregateBinding.detail, some needsAggregate⟩,
    ⟨5, str "all local files + the anchor sink", str "nothing this library can offer",
      .noMechanism, detailAnchorSinkHeld, none⟩,
    ⟨6, str "all local files + every witness", str "nothing — this is the collusion case",
      .noMechanism, detailCollusion, none⟩ ]

/-- `ladder_for`; a ladder without a sixth rung has no next one. -/
def ladderFor (o : PreflightObservation) : LadderReading :=
  let rungs := rungsOf o
  let stopsAt := (rungs.takeWhile (·.state = .present)).length
  { rungs := rungs
    stopsAt := stopsAt
    nextRung := rungs[stopsAt]?.getD ⟨0, [], [], .noMechanism, [], none⟩
    presentAboveCap := (rungs.filter fun r => stopsAt < r.number ∧ r.state = .present).map
      (·.number) }

/-- No configuration stops the last two rungs, so there is a next one. -/
theorem getElem?_stopsAt (o : PreflightObservation) :
    (ladderFor o).rungs[(ladderFor o).stopsAt]? = some (ladderFor o).nextRung := by
  have hlt : (ladderFor o).stopsAt < (ladderFor o).rungs.length := by
    refine lt_of_le_of_lt ?_ (by decide : 4 < 6)
    unfold ladderFor rungsOf
    simp only [List.takeWhile_cons]
    split_ifs with h1 h2 h3 h4 h5
    · exact absurd h5 (by decide)
    all_goals simp
  show (ladderFor o).rungs[(ladderFor o).stopsAt]? =
    some ((ladderFor o).rungs[(ladderFor o).stopsAt]?.getD _)
  rw [List.getElem?_eq_getElem hlt]
  rfl

/-- A label, padded to the width of a column. -/
def RungState.column (s : RungState) : PyStr := s.label.rightpad 12 (.ofChar ' ')

/-- The two lines of a rung. -/
def renderRung (r : Rung) : List PyStr :=
  [ str "  rung " ++ strNat r.number ++ str "  " ++ r.state.column ++ str "  attacker holds "
      ++ r.attackerHolds ++ str " — stopped by " ++ r.stopper,
    str "                        observed: " ++ r.detail ]

/-- What would raise the reading. -/
def renderNext (r : Rung) : PyStr :=
  match r.state, r.needs with
  | .notMeasured, _ =>
      str "rung " ++ strNat r.number ++ str ": NOT MEASURED this run — " ++ r.detail
        ++ str (". This run "
          ++ "cannot say whether it is stopped, and NOT MEASURED is not ABSENT.")
  | _, none =>
      str "rung " ++ strNat r.number ++ str ": no configuration raises this rung — "
        ++ r.stopper ++ str ". " ++ operationalRequirement
  | _, some needs => str "rung " ++ strNat r.number ++ str " needs: " ++ needs

/-- `render_ladder`. -/
def renderLadder (reading : LadderReading) : List PyStr :=
  [str "attacker-capability ladder (docs/security/threat-model.md section 5)"]
    ++ reading.rungs.flatMap renderRung
    ++ [ if reading.stopsAt = 0 then
          str ("this configuration stops an attacker at rung 0 — rung 1's own stopper "
            ++ "is not PRESENT.")
        else
          str "this configuration stops an attacker at rung " ++ strNat reading.stopsAt
            ++ str ": every stopper this table names for rungs 1 through "
            ++ strNat reading.stopsAt ++ str " is PRESENT.",
        contiguousMeaning,
        renderNext reading.nextRung ]
    ++ (if reading.presentAboveCap = [] then [] else
      [ str "note: rung(s) " ++ joinStr (str ", ") (reading.presentAboveCap.map strNat)
          ++ str (" have a stopper PRESENT above the cap — "
            ++ "configured, and reported here, but they do not raise the number "
            ++ "above, because a stopper below them is missing.") ])

end Waxseal
