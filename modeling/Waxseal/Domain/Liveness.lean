import Waxseal.Domain.Pinning
import Waxseal.Domain.Verdict

/-!
# Anchoring liveness

`domain/liveness.py`: live, delinquent or unreachable, decided from what the liveness
contract returned.  The decision is `anchorStaleness` of one record, the block time.

`now` is what `anchorStaleness` asks of it: how many seconds ago a timestamp was, for one
that parses and compares with it.

`delinquency_status` says what the verdict depends on: for a reported block time and a
deadline, on `lateness` alone.
-/

namespace Waxseal

/-! ## Timestamps -/

/-- Year, month and day of a day counted from 1970-01-01. -/
def civilDate (days : ℕ) : ℕ × ℕ × ℕ :=
  let z := days + 719468
  let dayOfEra := z % 146097
  let yearOfEra := (dayOfEra - dayOfEra / 1460 + dayOfEra / 36524 - dayOfEra / 146096) / 365
  let dayOfYear := dayOfEra - (365 * yearOfEra + yearOfEra / 4 - yearOfEra / 100)
  -- the year starts in March here, so the leap day is its last
  let march := (5 * dayOfYear + 2) / 153
  let month := if march < 10 then march + 3 else march - 9
  (yearOfEra + 400 * (z / 146097) + (if month ≤ 2 then 1 else 0), month,
    dayOfYear - (153 * march + 2) / 5 + 1)

/-- A number with leading zeros. -/
def zeroPadded (width n : ℕ) : PyStr :=
  List.replicate (width - (strNat n).length) 0x30 ++ strNat n

/-- `isoformat()` of a moment in UTC, in seconds since 1970. -/
def isoformat (ts : ℕ) : PyStr :=
  let (year, month, day) := civilDate (ts / 86400)
  let second := ts % 86400
  zeroPadded 4 year ++ str "-" ++ zeroPadded 2 month ++ str "-" ++ zeroPadded 2 day ++ str "T"
    ++ zeroPadded 2 (second / 3600) ++ str ":" ++ zeroPadded 2 (second / 60 % 60) ++ str ":"
    ++ zeroPadded 2 (second % 60) ++ str "+00:00"

/-- `_moment`, as the text `isoformat` makes of it; from the year 10000 on there is none. -/
def moment (blockTs : ℕ) : Option PyStr :=
  if blockTs < 253402300800 then some (isoformat blockTs) else none

/-! ## The verdict -/

/-- `OnChainCheckpoint`. -/
structure OnChainCheckpoint where
  chainId : PyStr
  seq : ℕ
  entryHash : PyStr
  root : PyStr
  blockTime : ℕ
  deriving DecidableEq

/-- The statuses of a `LivenessVerdict`. -/
inductive LivenessStatus where
  | live
  | delinquent
  | unreachable
  deriving DecidableEq

/-- The reasons of a `LivenessVerdict`. -/
inductive LivenessReason where
  | ledgerDelinquent
  | ledgerUnreachable
  | noCheckpointOnLedger
  | deadlineUnavailable
  | blockTimestampUnusable
  | anchorTimestampUnparseable
  deriving DecidableEq

/-- `LivenessVerdict`. -/
structure LivenessVerdict where
  status : LivenessStatus
  reason : Option LivenessReason
  ageS : Option ℤ
  deadlineS : Option ℕ
  deriving DecidableEq

/-- `unreachable_ledger`. -/
def unreachableLedger (reason : LivenessReason) : LivenessVerdict :=
  ⟨.unreachable, some reason, none, none⟩

/-- `delinquency`. -/
def delinquency (now : PyStr → Option ℚ) (latestBlockTs deadlineS : Option ℕ) : LivenessVerdict :=
  match deadlineS with
  | none => unreachableLedger .deadlineUnavailable
  | some deadline =>
      match latestBlockTs with
      | none =>
          match anchorStaleness now deadline [] with
          | none => ⟨.live, none, none, some deadline⟩
          | some .anchorTimestampUnparseable =>
              ⟨.unreachable, some .anchorTimestampUnparseable, none, some deadline⟩
          | some _ => ⟨.delinquent, some .noCheckpointOnLedger, none, some deadline⟩
      | some blockTs =>
          match moment blockTs with
          | none => ⟨.unreachable, some .blockTimestampUnusable, none, some deadline⟩
          | some moment =>
              -- `_age_s`: `isoformat` is read back as the moment it was made from
              let age := (now moment).map fun age => age.num.tdiv age.den
              match anchorStaleness now deadline [(0, moment)] with
              | none => ⟨.live, none, age, some deadline⟩
              | some .anchorTimestampUnparseable =>
                  ⟨.unreachable, some .anchorTimestampUnparseable, none, some deadline⟩
              | some _ => ⟨.delinquent, some .ledgerDelinquent, age, some deadline⟩

/-- `LivenessVerdict.to_verdict`. -/
def LivenessVerdict.toVerdict (v : LivenessVerdict) : Verdict :=
  match v.status with
  | .live => .ok
  | .delinquent => .broken
  | .unreachable => .unverifiable

/-- `LivenessVerdict.to_verify_verdict`. -/
def LivenessVerdict.toVerifyVerdict (v : LivenessVerdict) : Verdict :=
  match v.status with
  | .live => .ok
  | .delinquent | .unreachable => .unverifiable

/-! ## What the status depends on -/

/-- Whether a block time is past the deadline; none for one that cannot be placed in time. -/
def lateness (now : PyStr → Option ℚ) (deadlineS blockTs : ℕ) : Option Bool :=
  ((moment blockTs).bind now).map fun age : ℚ => decide ((deadlineS : ℚ) < age)

/-- The status for a reported block time. -/
def LivenessStatus.ofLateness : Option Bool → LivenessStatus
  | none => .unreachable
  | some true => .delinquent
  | some false => .live

theorem LivenessStatus.ofLateness_injective : Function.Injective ofLateness := by
  rintro (- | - | -) (- | - | -) h <;> first | rfl | cases h

/-- No reading of the ledger is a finding about the trail. -/
theorem LivenessVerdict.toVerifyVerdict_ne_broken (v : LivenessVerdict) :
    v.toVerifyVerdict ≠ .broken := by
  rw [toVerifyVerdict]
  cases v.status <;> decide

variable {now : PyStr → Option ℚ}

/-- **The block time decides by its lateness.** -/
theorem delinquency_status (deadlineS blockTs : ℕ) :
    (delinquency now (some blockTs) (some deadlineS)).status
      = .ofLateness (lateness now deadlineS blockTs) := by
  rw [delinquency, lateness]
  rcases moment blockTs with - | text
  · rfl
  · simp only [anchorStaleness, newestRecord, List.foldl_nil, Option.bind_some]
    rcases now text with - | age
    · rfl
    · by_cases hlate : (deadlineS : ℚ) < age
      · simp [hlate, LivenessStatus.ofLateness]
      · simp [hlate, LivenessStatus.ofLateness]

/-- No checkpoint at all is late under any deadline. -/
theorem delinquency_none_status (deadlineS : ℕ) :
    (delinquency now none (some deadlineS)).status = .delinquent := rfl

end Waxseal
