import Waxseal.Cli.Report
import Waxseal.Log.EntryBuilder

/-!
# Verify and report agree

The two drivers make the same checks and join the same verdicts, so where a report finishes it
ends like `verify`: with the same exit code and the same saved pin (`report_ends_like_verify`).

It finishes wherever `verify` does exactly when what lies between the checks and the exit code
raises nothing (`report_agrees_iff`): every evidence row is read or labelled unreadable, and the
console can encode the document.
-/

namespace Waxseal

open CheckRun Json

/-! ## The document -/

/-- The payload types a report reads. -/
def evidenceTypes : List PyStr :=
  [decisionPayloadType, incidentPayloadType, interventionPayloadType]

/-- A report reads the row, or labels it unreadable. -/
def ReportReads (py : PayloadReader) (entry : Entry) : Prop :=
  (entry.header.payloadType ∈ evidenceTypes → PayloadReads py entry) ∧
    (entry.header.payloadType = decisionPayloadType → ConfidenceReads py entry)

theorem rowsOf_rowsOf (payloadType : PyStr) (entries : List Entry) :
    rowsOf payloadType (rowsOf payloadType entries) = rowsOf payloadType entries := by
  rw [rowsOf, rowsOf, List.filter_filter]
  simp only [Bool.and_self]

theorem forall_rowsOf {payloadType : PyStr} {entries : List Entry} {P : Entry → Prop} :
    (∀ entry ∈ rowsOf payloadType entries, P entry) ↔
      ∀ entry ∈ entries, entry.header.payloadType = payloadType → P entry := by
  simp only [rowsOf, List.mem_filter, decide_eq_true_eq, and_imp]

/-- **A report is built exactly when every evidence row is read.** -/
theorem buildReport_isOk {py : PayloadReader} {chain : VerifyResult} {entries : List Entry}
    {sidecars : SidecarSummaries} :
    (∃ report, buildReport py chain entries sidecars = .ok report) ↔
      ∀ entry ∈ entries, ReportReads py entry := by
  have hsplit : (∀ entry ∈ entries, ReportReads py entry) ↔
      (∃ rows, scanRows py decisionPayloadType (DecisionRecord.fromPayload py) entries = .ok rows) ∧
      (∃ rows, scanRows py incidentPayloadType IncidentRecord.fromPayload
        (rowsOf incidentPayloadType entries) = .ok rows) ∧
      ∃ rows, scanRows py interventionPayloadType InterventionRecord.fromPayload
        (rowsOf interventionPayloadType entries) = .ok rows := by
    simp only [scanRows_isOk, rowsOf_rowsOf, forall_rowsOf, readRow_decision_isOk,
      readRow_isOk_of_onlyValueError IncidentRecord.fromPayload_raises,
      readRow_isOk_of_onlyValueError InterventionRecord.fromPayload_raises, ← forall_and]
    refine forall₂_congr fun entry _ => ?_
    simp only [ReportReads, evidenceTypes, List.mem_cons, List.not_mem_nil, or_false]
    constructor
    · rintro ⟨hreads, hconfidence⟩
      exact ⟨fun h => ⟨hreads (.inl h), hconfidence h⟩, fun h => hreads (.inr (.inl h)),
        fun h => hreads (.inr (.inr h))⟩
    · rintro ⟨hdecision, hincident, hintervention⟩
      refine ⟨?_, fun h => (hdecision h).2⟩
      rintro (h | h | h)
      · exact (hdecision h).1
      · exact hincident h
      · exact hintervention h
  rw [hsplit]
  constructor
  · rintro ⟨report, h⟩
    obtain ⟨decisions, hdecisions, h⟩ := bind_eq_ok_iff.mp h
    obtain ⟨incidents, hincidents, h⟩ := bind_eq_ok_iff.mp h
    obtain ⟨interventions, hinterventions, -⟩ := bind_eq_ok_iff.mp h
    obtain ⟨incidentRows, hincidentRows, -⟩ := bind_eq_ok_iff.mp hincidents
    obtain ⟨interventionRows, hinterventionRows, -⟩ := bind_eq_ok_iff.mp hinterventions
    exact ⟨⟨decisions, hdecisions⟩, ⟨incidentRows, hincidentRows⟩,
      ⟨interventionRows, hinterventionRows⟩⟩
  · rintro ⟨⟨decisions, hdecisions⟩, ⟨incidentRows, hincidentRows⟩,
      ⟨interventionRows, hinterventionRows⟩⟩
    exact ⟨_, bind_eq_ok_iff.mpr ⟨decisions, hdecisions, bind_eq_ok_iff.mpr
      ⟨_, bind_eq_ok_iff.mpr ⟨incidentRows, hincidentRows, rfl⟩, bind_eq_ok_iff.mpr
        ⟨_, bind_eq_ok_iff.mpr ⟨interventionRows, hinterventionRows, rfl⟩, rfl⟩⟩⟩⟩

/-- The document can be built and printed: every evidence row is read, and without `--json` the
console can encode every character of it. -/
structure Presentable (how : Presentation) (seen : CheckSeen) : Prop where
  reads : ∀ entry ∈ seen.entries, ReportReads how.py entry
  encodes : how.asJson = false → ∀ report, seen.report how.py = .ok report →
    ∀ c ∈ seen.text report, how.console c = true

theorem present_isOk {how : Presentation} {seen : CheckSeen} :
    seen.present how = .ok () ↔ Presentable how seen := by
  have hbuild : (∃ report, seen.report how.py = .ok report) ↔ _ := buildReport_isOk
  unfold CheckSeen.present
  constructor
  · intro h
    obtain ⟨report, hreport, h⟩ := bind_eq_ok_iff.mp h
    refine ⟨hbuild.mp ⟨report, hreport⟩, fun hjson other hother => ?_⟩
    rw [hreport] at hother
    obtain rfl := Except.ok.inj hother
    split at h
    case isTrue hprint =>
        rw [hjson] at hprint
        exact List.all_eq_true.mp (hprint.resolve_left Bool.false_ne_true)
    case isFalse => cases h
  · rintro ⟨hreads, hencodes⟩
    obtain ⟨report, hreport⟩ := hbuild.mpr hreads
    refine bind_eq_ok_iff.mpr ⟨report, hreport, if_pos ?_⟩
    cases hjson : how.asJson with
    | true => exact .inl rfl
    | false => exact .inr (List.all_eq_true.mpr (hencodes hjson report hreport))

/-! ## The checks -/

variable [Interpreter] [Hashlib]

/-- The two drivers see the same. -/
theorem verifyChecks_eq_ok_iff {run : CheckRun} {seen : CheckSeen} :
    run.verifyChecks = .ok seen ↔ run.reportChecks = .ok seen := by
  unfold verifyChecks reportChecks
  simp only [bind_eq_ok_iff]
  constructor
  · rintro ⟨entries, hread, chain, hchain, drops, hdrops, measured, hmeasured, pinned, hpinned,
      receipts, hreceipts, h⟩
    exact ⟨entries, hread, chain, hchain, measured, hmeasured, pinned, hpinned, drops, hdrops,
      receipts, hreceipts, h⟩
  · rintro ⟨entries, hread, chain, hchain, measured, hmeasured, pinned, hpinned, drops, hdrops,
      receipts, hreceipts, h⟩
    exact ⟨entries, hread, chain, hchain, drops, hdrops, measured, hmeasured, pinned, hpinned,
      receipts, hreceipts, h⟩

/-- For a URL there are no drops to count, and the two drivers make the same checks. -/
theorem verifyChecks_url {run : CheckRun} (h : run.place = .url) :
    run.verifyChecks = run.reportChecks := by
  have hdrops : run.drops = .ok none := by rw [drops, h]
  unfold verifyChecks reportChecks
  rw [hdrops]
  cases run.read with
  | error e => rfl
  | ok entries =>
      cases raising (verifyChain entries .new) with
      | error e => rfl
      | ok chain => rfl

omit [Interpreter] [Hashlib] in
/-- The order the verdicts are joined in makes no difference. -/
theorem reportVerdict_eq (seen : CheckSeen) : reportVerdict seen = verifyVerdict seen := by
  have hpin : (seen.pinned.map fun pin => pin.1.sidecar.verdict)
      = seen.pinned.map fun pin => pin.1.verdict := rfl
  unfold reportVerdict verifyVerdict combine
  rw [hpin]
  apply Verdict.foldl_join_perm
  refine List.perm_iff_count.mpr fun v => ?_
  simp only [List.count_append]
  omega

/-- A report that prints its document saves what `verify` saves. -/
theorem report_of_checks {run : CheckRun} {how : Presentation} {seen : CheckSeen}
    (h : run.verifyChecks = .ok seen) :
    run.report how = raising (seen.present how) >>= fun _ => run.verify := by
  have hverify : run.verify = run.save (verifyVerdict seen) seen.pending := by
    rw [verify, h]
    rfl
  rw [report, verifyChecks_eq_ok_iff.mp h, hverify, ← reportVerdict_eq]
  rfl

/-- **Where a report finishes, it ends like `verify`**: the same exit code, and the same pin. -/
theorem report_ends_like_verify {run : CheckRun} {how : Presentation} {outcome : CheckOutcome}
    (h : run.report how = .ok outcome) : run.verify = .ok outcome := by
  obtain ⟨seen, hseen, -⟩ := bind_eq_ok_iff.mp h
  rw [report_of_checks (verifyChecks_eq_ok_iff.mpr hseen)] at h
  obtain ⟨-, -, h⟩ := bind_eq_ok_iff.mp h
  exact h

/-! ## The commands -/

/-- `verify` and `report` do not disagree: where `verify` finishes, the report finishes with the
same exit code, and saves the same pin or none. -/
def Agrees (how : Presentation) (run : CheckRun) : Prop :=
  ∀ outcome, run.mainVerify = some outcome → run.mainReport how = some outcome

omit [Interpreter] [Hashlib] in
theorem main_missingPath {run : CheckRun} (h : run.place = .missingPath)
    (command : Except RunError CheckOutcome) : run.main command = some (3, none) := by
  unfold CheckRun.main
  rw [h]

omit [Interpreter] [Hashlib] in
/-- Without a URL an exception ends the process. -/
theorem main_error {run : CheckRun} (hmissing : run.place ≠ .missingPath) (hurl : run.place ≠ .url)
    (e : RunError) : run.main (.error e) = none := by
  unfold CheckRun.main
  cases hplace : run.place with
  | url => exact absurd hplace hurl
  | missingPath => exact absurd hplace hmissing
  | path drops receipts => rfl

omit [Interpreter] [Hashlib] in
/-- So does, with a URL, one that is no failure to reach it. -/
theorem main_other {run : CheckRun} (hmissing : run.place ≠ .missingPath) :
    run.main (.error .other) = none := by
  unfold CheckRun.main
  cases hplace : run.place with
  | missingPath => exact absurd hplace hmissing
  | url | path drops receipts => rfl

/-- **A report agrees with `verify` exactly where it can be presented.** -/
theorem report_agrees_iff (how : Presentation) (run : CheckRun) :
    Agrees how run ↔
      (run.place ≠ .missingPath → run.mainVerify ≠ none →
        ∀ seen, run.verifyChecks = .ok seen → Presentable how seen) := by
  by_cases hmissing : run.place = .missingPath
  · refine ⟨fun _ h => absurd hmissing h, fun _ outcome hverify => ?_⟩
    rw [← hverify, mainReport, mainVerify, main_missingPath hmissing, main_missingPath hmissing]
  cases hchecks : run.verifyChecks with
  | error e =>
      -- nothing was read: the report fails the same way, and `main` only sees a URL through
      refine ⟨fun _ _ _ seen hseen => ?_, fun _ outcome hverify => ?_⟩
      · cases hseen
      have hraised : run.verify = .error e := by
        rw [verify, hchecks]
        rfl
      by_cases hurl : run.place = .url
      · have hreport : run.report how = .error e := by
          rw [report, ← verifyChecks_url hurl, hchecks]
          rfl
        rw [mainReport, hreport, ← hraised]
        exact hverify
      · rw [mainVerify, hraised, main_error hmissing hurl] at hverify
        cases hverify
  | ok seen =>
      have hpresentable : (∀ other, (.ok seen : Except RunError CheckSeen) = .ok other →
          Presentable how other) ↔ seen.present how = .ok () := by
        rw [present_isOk]
        exact ⟨fun h => h seen rfl, fun h other hother => Except.ok.inj hother ▸ h⟩
      rw [hpresentable]
      have hreport := @report_of_checks _ _ run how seen hchecks
      cases hpresent : seen.present how with
      | ok u =>
          rw [hpresent] at hreport
          have heq : run.mainReport how = run.mainVerify := congrArg run.main hreport
          exact ⟨fun _ _ _ => rfl, fun _ outcome hverify => heq.trans hverify⟩
      | error e =>
          rw [hpresent] at hreport
          have hnone : run.mainReport how = none := by
            rw [mainReport, hreport]
            exact main_other hmissing
          constructor
          · intro hagrees _ hfinishes
            obtain ⟨outcome, hverify⟩ := Option.ne_none_iff_exists'.mp hfinishes
            rw [hagrees outcome hverify] at hnone
            cases hnone
          · intro h outcome hverify
            have hfinishes : run.mainVerify ≠ none := by
              rw [hverify]
              exact Option.some_ne_none outcome
            cases h hmissing hfinishes

/-! ## A confidence no float holds -/

/-- `json.loads` of this build; no float is asked for. -/
def plainReader : PayloadReader := ⟨loadsBytes, fun _ => false⟩

/-- An intact trail of one decision, whose confidence is an integer of 310 digits. -/
def hugeConfidence : Draft where
  ts := str "2026-01-01T00:00:00+00:00"
  payloadType := decisionPayloadType
  payloadBytes := ascii "\x7b\"model\":\x7b\x7d,\"confidence\":1" ++ List.replicate 309 0x30
    ++ ascii "\x7d"

/-- A local trail with its one row, no sidecars and no `--pin`. -/
def hugeConfidenceRun : CheckRun where
  place := .path (.ok none) (.ok ⟨true, 0, some receiptsNotRecordedReason, false, [], []⟩)
  read := .ok (hugeConfidence.build 0 genesisPrevHash).toOption.toList
  observe := .ok ⟨none, none, none, none, none, none⟩
  pin := none

omit [Interpreter] [Hashlib] in
/-- `verify` exits with 0 on it, and the report ends with an `OverflowError`. -/
theorem huge_confidence_stops_report :
    letI := Sha256.hashlib
    letI := Interpreter.plain
    hugeConfidenceRun.mainVerify.map Prod.fst = some 0 ∧
      ¬ Agrees ⟨plainReader, true, fun _ => true⟩ hugeConfidenceRun := by
  let _ := Sha256.hashlib
  let _ := Interpreter.plain
  have hverify : hugeConfidenceRun.mainVerify.map Prod.fst = some 0 := by decide +kernel
  have hreport : (hugeConfidenceRun.mainReport ⟨plainReader, true, fun _ => true⟩).isNone = true := by
    decide +kernel
  refine ⟨hverify, fun hagrees => ?_⟩
  obtain ⟨outcome, hout, -⟩ := Option.map_eq_some_iff.mp hverify
  rw [hagrees outcome hout] at hreport
  cases hreport

end Waxseal
