import Waxseal.Adapters.AnchorSinks
import Waxseal.Cli.Pin
import Waxseal.Domain.IsoTime
import Waxseal.Log.Checkpoints

/-!
# Anchoring over time

The history of an `.anchors` sidecar: a trail grows, and anchor runs publish its checkpoint
through their sinks, each of which files its record under the time its own clock shows.  The
trail is only appended to, and the clock does not go back.

`anchor_staleness` judges such a trail by the record that `max` returns for the highest `seq`:
the first of them.  A trail that was anchored again at the same head is therefore judged by the
time it was first anchored there, and `reportsRecency_iff` says when that makes a difference.
-/

namespace Waxseal

/-! ## The record that is judged -/

section Newest

/-- The record `max` goes on with. -/
def laterRecord (best record : ℤ × PyStr) : ℤ × PyStr := if best.1 < record.1 then record else best

theorem newestRecord_cons (record : ℤ × PyStr) (records : List (ℤ × PyStr)) :
    newestRecord (record :: records) = some (records.foldl laterRecord record) := rfl

/-- A record is kept until a higher one comes. -/
theorem foldl_laterRecord {best : ℤ × PyStr} {records : List (ℤ × PyStr)}
    (h : ∀ record ∈ records, record.1 ≤ best.1) : records.foldl laterRecord best = best := by
  induction records with
  | nil => rfl
  | cons record records ih =>
      rw [List.forall_mem_cons] at h
      rw [List.foldl_cons, laterRecord, if_neg (not_lt.mpr h.1)]
      exact ih h.2

/-- The record kept is one of those there were. -/
theorem foldl_laterRecord_mem (best : ℤ × PyStr) (records : List (ℤ × PyStr)) :
    records.foldl laterRecord best ∈ best :: records := by
  induction records generalizing best with
  | nil => exact List.mem_singleton_self _
  | cons record records ih =>
      rw [List.foldl_cons]
      rcases List.mem_cons.mp (ih (laterRecord best record)) with heq | hmem
      · rw [heq, laterRecord]
        split_ifs
        · exact List.mem_cons_of_mem _ List.mem_cons_self
        · exact List.mem_cons_self
      · exact List.mem_cons_of_mem _ (List.mem_cons_of_mem _ hmem)

/-- **The newest record** is the first that none is higher than. -/
theorem newestRecord_append {before after : List (ℤ × PyStr)} {record : ℤ × PyStr}
    (hbefore : ∀ r ∈ before, r.1 < record.1) (hafter : ∀ r ∈ after, r.1 ≤ record.1) :
    newestRecord (before ++ record :: after) = some record := by
  cases before with
  | nil => exact congrArg some (foldl_laterRecord hafter)
  | cons first before =>
      have hlower := hbefore _ (foldl_laterRecord_mem first before)
      rw [List.cons_append, newestRecord_cons, List.foldl_append, List.foldl_cons]
      rw [show laterRecord (before.foldl laterRecord first) record = record from if_pos hlower]
      exact congrArg some (foldl_laterRecord hafter)

/-- A newest record that parses decides by its age. -/
theorem anchorStaleness_eq_none_iff {age : PyStr → Option ℚ} {maxAgeS : ℤ}
    {records : List (ℤ × PyStr)} {record : ℤ × PyStr} {ageS : ℚ}
    (hnewest : newestRecord records = some record) (hage : age record.2 = some ageS) :
    anchorStaleness age maxAgeS records = none ↔ ageS ≤ maxAgeS := by
  rw [anchorStaleness, hnewest]
  simp only [hage]
  by_cases hlate : ageS > maxAgeS
  · rw [if_pos hlate]
    exact iff_of_false (Option.some_ne_none _) (not_le.mpr hlate)
  · rw [if_neg hlate]
    exact iff_of_true rfl (not_lt.mp hlate)

end Newest

/-! ## Runs -/

/-- An anchor run that filed something: the `seq` of its checkpoint, the time of its first record,
and those of the others. -/
structure AnchorRun where
  seq : ℤ
  happened : Moment
  others : List Moment

namespace AnchorRun

/-- The times of all its records. -/
def times (run : AnchorRun) : List Moment := run.happened :: run.others

/-- The run of these records, if there are any. -/
def ofTimes (seq : ℤ) : List Moment → Option AnchorRun
  | [] => none
  | happened :: others => some ⟨seq, happened, others⟩

/-- What `anchor_staleness` sees of a record of a run. -/
def pair (seq : ℤ) (m : Moment) : ℤ × PyStr := (seq, m.isoformat)

/-- What `anchor_staleness` sees of the records of a run. -/
def pairs (run : AnchorRun) : List (ℤ × PyStr) := run.times.map (pair run.seq)

theorem fst_of_mem_pairs {run : AnchorRun} {p : ℤ × PyStr} (h : p ∈ run.pairs) :
    p.1 = run.seq := by
  obtain ⟨m, -, rfl⟩ := List.mem_map.mp h
  rfl

theorem flatMap_times (seq : ℤ) (times : List Moment) :
    (ofTimes seq times).toList.flatMap AnchorRun.times = times := by
  cases times with
  | nil => rfl
  | cons happened others => exact List.append_nil _

theorem flatMap_pairs (seq : ℤ) (times : List Moment) :
    (ofTimes seq times).toList.flatMap AnchorRun.pairs = times.map (pair seq) := by
  cases times with
  | nil => rfl
  | cons happened others => exact List.append_nil _

theorem seq_of_mem_ofTimes {seq : ℤ} {times : List Moment} {run : AnchorRun}
    (h : run ∈ (ofTimes seq times).toList) : run.seq = seq := by
  cases times with
  | nil => cases h
  | cons happened others =>
      obtain rfl := List.mem_singleton.mp h
      rfl

theorem pairwise_ofTimes (seq : ℤ) (times : List Moment) :
    (ofTimes seq times).toList.Pairwise (·.seq ≤ ·.seq) := by
  cases times with
  | nil => exact .nil
  | cons happened others => exact List.pairwise_singleton _ _

/-- Nothing is above the last run. -/
theorem seq_le_last {runs : List AnchorRun} {last : AnchorRun}
    (hsorted : runs.Pairwise (·.seq ≤ ·.seq)) (hlast : last ∈ runs.getLast?) :
    ∀ run ∈ runs, run.seq ≤ last.seq := by
  obtain ⟨init, rfl⟩ := List.getLast?_eq_some_iff.mp hlast
  obtain ⟨-, -, hle⟩ := List.pairwise_append.mp hsorted
  intro run hrun
  rcases List.mem_append.mp hrun with hinit | hself
  · exact hle run hinit last (List.mem_singleton_self _)
  · rw [List.mem_singleton.mp hself]

/-- **The runs at the head.**  Where no run goes back, those with the `seq` of the last one end
the list, and the first of them is judged. -/
theorem newestRecord_pairs {runs : List AnchorRun} {last : AnchorRun}
    (hsorted : runs.Pairwise (·.seq ≤ ·.seq)) (hlast : last ∈ runs.getLast?) :
    ∃ before first after, runs = before ++ first :: after ∧ first.seq = last.seq ∧
      (∀ run ∈ before, run.seq < last.seq) ∧
      newestRecord (runs.flatMap pairs) = some (pair first.seq first.happened) := by
  have hle := seq_le_last hsorted hlast
  have hsplit : runs.takeWhile (·.seq < last.seq) ++ runs.dropWhile (·.seq < last.seq) = runs :=
    List.takeWhile_append_dropWhile
  have hbefore : ∀ run ∈ runs.takeWhile (·.seq < last.seq), run.seq < last.seq :=
    fun run hrun => by simpa using List.mem_takeWhile_imp hrun
  rcases hrest : runs.dropWhile (·.seq < last.seq) with - | ⟨first, after⟩
  · -- the last run is not below itself
    rw [hrest, List.append_nil] at hsplit
    rw [hsplit] at hbefore
    exact absurd (hbefore last (List.mem_of_mem_getLast? hlast)) (lt_irrefl _)
  · rw [hrest] at hsplit
    have hmem : ∀ run ∈ first :: after, run ∈ runs := by
      intro run hrun
      rw [← hsplit]
      exact List.mem_append_right _ hrun
    have hfirst : first.seq = last.seq := by
      have hnot := List.head_dropWhile_not (fun run : AnchorRun => decide (run.seq < last.seq))
        (l := runs) (by rw [hrest]; exact List.cons_ne_nil _ _)
      simp only [hrest, List.head_cons, decide_eq_false_iff_not, not_lt] at hnot
      exact le_antisymm (hle first (hmem first List.mem_cons_self)) hnot
    refine ⟨_, first, after, hsplit.symm, hfirst, hbefore, ?_⟩
    rw [← hsplit, List.flatMap_append, List.flatMap_cons]
    refine newestRecord_append (fun r hr => ?_) fun r hr => ?_
    · obtain ⟨run, hrun, hpair⟩ := List.mem_flatMap.mp hr
      rw [fst_of_mem_pairs hpair]
      exact (hbefore run hrun).trans_eq hfirst.symm
    · rcases List.mem_append.mp hr with hown | hlater
      · have hpair : r ∈ first.pairs := List.mem_cons_of_mem _ hown
        exact (fst_of_mem_pairs hpair).le
      · obtain ⟨run, hrun, hpair⟩ := List.mem_flatMap.mp hlater
        rw [fst_of_mem_pairs hpair]
        exact (hle run (hmem run (List.mem_cons_of_mem _ hrun))).trans_eq hfirst.symm

end AnchorRun

/-! ## Sinks with a clock -/

section Filing

variable [Interpreter]

/-- A sink whose clock works, with what the clock shows when it files. -/
structure TimedSink where
  name : PyStr
  external : Checkpoint → Except SinkFailure SinkReceipt
  reading : Moment
  io : SidecarIo
  /-- `int` reads the nonces that `str` writes. -/
  nonce_reads : ∀ cp result, external cp = .ok result →
    ∀ n ∈ result.nonce, strToInt (strInt n) = .ok n

namespace TimedSink

/-- The sink, which stamps what it files with `datetime.now(UTC).isoformat()`. -/
def sink (s : TimedSink) : RecordingAnchorSink where
  name := s.name
  external := s.external
  now := .ok s.reading.isoformat
  io := s.io

/-- What a sink files. -/
theorem record_eq_some {s : TimedSink} {cp : Checkpoint} {r : SidecarRecord}
    (h : s.sink.record cp = some r) :
    (r.checkpoint.seq, r.ts) = AnchorRun.pair cp.seq s.reading ∧ r.Filed := by
  obtain ⟨result, ts, hexternal, hnow, rfl⟩ := RecordingAnchorSink.record_eq_some h
  obtain rfl := Except.ok.inj hnow
  exact ⟨rfl, rfl, s.nonce_reads cp result hexternal⟩

/-- The times at which these sinks file a checkpoint. -/
def times (cp : Checkpoint) (sinks : List TimedSink) : List Moment :=
  (sinks.filter fun s => (s.sink.record cp).isSome).map TimedSink.reading

theorem times_sublist (cp : Checkpoint) (sinks : List TimedSink) :
    (times cp sinks).Sublist (sinks.map TimedSink.reading) := List.filter_sublist.map _

/-- **What sinks file** is of their run. -/
theorem map_record (cp : Checkpoint) (sinks : List TimedSink) :
    ((sinks.map sink).filterMap (·.record cp)).map (fun r => (r.checkpoint.seq, r.ts)) =
      (times cp sinks).map (AnchorRun.pair cp.seq) := by
  induction sinks with
  | nil => rfl
  | cons s sinks ih =>
      rw [List.map_cons, List.filterMap_cons, times, List.filter_cons]
      cases hrecord : s.sink.record cp with
      | none => exact ih
      | some r =>
          rw [List.map_cons, (record_eq_some hrecord).1, ih]
          rfl

end TimedSink

end Filing

/-! ## Trails that are anchored -/

/-- What happens to a trail: an entry is appended, or `anchor()` is called, with what the log
reads its aggregate from, its forest, and the sinks it publishes through.  A lone sink is a fan-out
of one, and `FileAnchorSink` is a sink without a receipt. -/
inductive TrailEvent [Interpreter] where
  | append (entryHash : PyStr)
  | anchor (source : AggregateSource) (merkle : IncrementalMerkle) (sinks : List TimedSink)

/-- A trail, its sidecar, and the anchor runs that filed something. -/
structure AnchoredTrail where
  hashes : List PyStr
  sidecar : Option Bytes
  runs : List AnchorRun

section Histories

variable [Interpreter]

/-- What the clock showed. -/
def TrailEvent.readings : TrailEvent → List Moment
  | .append _ => []
  | .anchor _ _ sinks => sinks.map TimedSink.reading

namespace AnchoredTrail

/-- A new trail. -/
def empty : AnchoredTrail := ⟨[], none, []⟩

/-- The checkpoint is published. -/
def publish (trail : AnchoredTrail) (cp : Checkpoint) (sinks : List TimedSink) : AnchoredTrail :=
  let work := (MultiAnchorSink.loop cp (sinks.map TimedSink.sink) ⟨trail.sidecar, [], [], 0⟩).2
  { trail with
    sidecar := work.sidecar
    runs := trail.runs ++
      (AnchorRun.ofTimes cp.seq (TimedSink.times cp (sinks.take work.called.length))).toList }

/-- One event. -/
def step [Hashlib] (trail : AnchoredTrail) : TrailEvent → AnchoredTrail
  | .append entryHash => { trail with hashes := trail.hashes ++ [entryHash] }
  | .anchor source merkle sinks =>
      match (anchorCheckpoint (.ok trail.hashes) source merkle).1 with
      | .error _ => trail
      | .ok cp => trail.publish cp sinks

/-- What holds of a trail after some events: the sidecar holds the records of its runs, which are
of checkpoints in order, at times the clock showed in order. -/
structure Recorded (events : List TrailEvent) (trail : AnchoredTrail) : Prop where
  records : ∃ records : List SidecarRecord,
    trail.sidecar.getD [] = records.flatMap SidecarRecord.line ∧ (∀ r ∈ records, r.Filed) ∧
      records.map (fun r => (r.checkpoint.seq, r.ts)) = trail.runs.flatMap AnchorRun.pairs
  sorted : trail.runs.Pairwise (·.seq ≤ ·.seq)
  below : ∀ run ∈ trail.runs, run.seq < trail.hashes.length
  times : (trail.runs.flatMap AnchorRun.times).Sublist (events.flatMap TrailEvent.readings)

theorem Recorded.empty : Recorded [] empty where
  records := ⟨[], rfl, List.forall_mem_nil _, rfl⟩
  sorted := .nil
  below := List.forall_mem_nil _
  times := .slnil

/-- An event that files nothing. -/
theorem Recorded.mono {events more : List TrailEvent} {trail after : AnchoredTrail}
    (h : Recorded events trail) (hsidecar : after.sidecar = trail.sidecar)
    (hruns : after.runs = trail.runs) (hhashes : trail.hashes <+: after.hashes) :
    Recorded (events ++ more) after where
  records := by
    rw [hsidecar, hruns]
    exact h.records
  sorted := hruns ▸ h.sorted
  below run hrun := by
    have hbelow := h.below run (hruns ▸ hrun)
    have hlength := hhashes.length_le
    omega
  times := by
    rw [hruns, List.flatMap_append]
    exact h.times.trans (List.sublist_append_left _ _)

/-- **A run adds its records**, at the head. -/
theorem Recorded.publish {events : List TrailEvent} {trail : AnchoredTrail}
    (h : Recorded events trail) {cp : Checkpoint} (hseq : cp.seq = trail.hashes.length - 1)
    (source : AggregateSource) (merkle : IncrementalMerkle) (sinks : List TimedSink) :
    Recorded (events ++ [.anchor source merkle sinks]) (trail.publish cp sinks) := by
  obtain ⟨k, hk, hcalled, hsidecar⟩ :=
    MultiAnchorSink.loop_called cp (sinks.map TimedSink.sink) ⟨trail.sidecar, [], [], 0⟩
  obtain ⟨records, hlines, hfiled, hpairs⟩ := h.records
  have hruns : (trail.publish cp sinks).runs = trail.runs ++
      (AnchorRun.ofTimes cp.seq (TimedSink.times cp (sinks.take k))).toList := by
    simp only [AnchoredTrail.publish, hcalled, List.nil_append]
    rw [List.length_take, min_eq_left hk]
  refine ⟨?_, ?_, ?_, ?_⟩
  · refine ⟨records ++ ((sinks.take k).map TimedSink.sink).filterMap (·.record cp), ?_, ?_, ?_⟩
    · rw [List.map_take, List.flatMap_append, ← hlines, ← MultiAnchorSink.getD_filed, ← hsidecar]
      rfl
    · intro r hr
      rcases List.mem_append.mp hr with hold | hnew
      · exact hfiled r hold
      · obtain ⟨sink, hsink, hrecord⟩ := List.mem_filterMap.mp hnew
        obtain ⟨s, -, rfl⟩ := List.mem_map.mp hsink
        exact (TimedSink.record_eq_some hrecord).2
    · rw [hruns, List.map_append, hpairs, TimedSink.map_record, List.flatMap_append,
        AnchorRun.flatMap_pairs]
  · rw [hruns]
    refine List.pairwise_append.mpr ⟨h.sorted, ?_, ?_⟩
    · exact AnchorRun.pairwise_ofTimes _ _
    · intro run hrun new hnew
      have := h.below run hrun
      rw [AnchorRun.seq_of_mem_ofTimes hnew]
      omega
  · intro run hrun
    rw [hruns] at hrun
    rcases List.mem_append.mp hrun with hold | hnew
    · exact h.below run hold
    · rw [AnchorRun.seq_of_mem_ofTimes hnew, hseq]
      show (trail.hashes.length : ℤ) - 1 < trail.hashes.length
      omega
  · rw [hruns, List.flatMap_append, List.flatMap_append, AnchorRun.flatMap_times,
      List.flatMap_singleton]
    refine h.times.append ?_
    exact (TimedSink.times_sublist cp _).trans ((List.take_sublist k sinks).map _)

omit [Interpreter] in
/-- The checkpoint of a run is at the head. -/
theorem seq_of_anchorCheckpoint [Hashlib] {hashes : List PyStr} {source : AggregateSource}
    {merkle : IncrementalMerkle} {cp : Checkpoint}
    (h : (anchorCheckpoint (.ok hashes) source merkle).1 = .ok cp) :
    cp.seq = hashes.length - 1 := by
  obtain ⟨hashes', binding, root, merkle', hread, hbinding, -, hcp⟩ := anchorCheckpoint_eq_ok h
  obtain rfl := Except.ok.inj hread
  obtain ⟨tip, -, rfl⟩ := (checkpointFor_eq_ok_iff (aggregateBinding_both hbinding)).mp hcp
  rfl

/-- **One event** keeps what holds. -/
theorem Recorded.step [Hashlib] {events : List TrailEvent} {trail : AnchoredTrail}
    (h : Recorded events trail) (event : TrailEvent) :
    Recorded (events ++ [event]) (trail.step event) := by
  cases event with
  | append entryHash => exact h.mono rfl rfl (List.prefix_append _ _)
  | anchor source merkle sinks =>
      rw [AnchoredTrail.step]
      cases hcp : (anchorCheckpoint (.ok trail.hashes) source merkle).1 with
      | error e => exact h.mono rfl rfl (List.prefix_refl _)
      | ok cp => exact h.publish (seq_of_anchorCheckpoint hcp) source merkle sinks

/-- **It holds of every trail.** -/
theorem recorded [Hashlib] (events : List TrailEvent) :
    Recorded events (events.foldl AnchoredTrail.step AnchoredTrail.empty) := by
  induction events using List.reverseRecOn with
  | nil => exact .empty
  | append_singleton events event ih =>
      rw [List.foldl_append]
      exact ih.step event

/-- What the reader makes of the sidecar. -/
theorem Recorded.read {events : List TrailEvent} {trail : AnchoredTrail}
    (h : Recorded events trail) : ∃ records, readAnchorRecords trail.sidecar = .ok ⟨records, []⟩ ∧
      records.map (fun r => (r.checkpoint.seq, r.ts)) = trail.runs.flatMap AnchorRun.pairs := by
  obtain ⟨records, hlines, hfiled, hpairs⟩ := h.records
  refine ⟨records.map SidecarRecord.joined, ?_, ?_⟩
  · rw [readAnchorRecords_getD, hlines, SidecarRecord.readAnchorRecords_lines hfiled]
  · -- a timestamp has no pairs to join
    rw [← hpairs, List.map_map]
    refine List.map_congr_left fun r hr => ?_
    have hmem : (r.checkpoint.seq, r.ts) ∈ trail.runs.flatMap AnchorRun.pairs := by
      rw [← hpairs]
      exact List.mem_map_of_mem hr
    obtain ⟨run, -, hrun⟩ := List.mem_flatMap.mp hmem
    obtain ⟨m, -, hm⟩ := List.mem_map.mp hrun
    have hts : r.ts = m.isoformat := (congrArg Prod.snd hm).symm
    show (r.checkpoint.seq, Json.joinPairs r.ts) = _
    rw [Json.joinPairs_eq_self (hts ▸ m.noSurrogatePair_isoformat)]

end AnchoredTrail

/-! ## Recency -/

/-- A history: what happened to a trail from its start, under a clock that does not go back. -/
structure AnchorHistory where
  events : List TrailEvent
  clock : (events.flatMap TrailEvent.readings).Pairwise (·.micros ≤ ·.micros)

/-- `_observed_anchor_records(trail)`. -/
def observedAnchorRecords (sidecar : Option Bytes) : Except PyErr (List AnchorRecord) :=
  match readAnchorRecords sidecar with
  | .ok read => .ok (read.records.map fun r => ⟨r.checkpoint, r.ts⟩)
  | .error e => if e.isValueError || e == .keyError || e == .typeError then .ok [] else .error e

namespace AnchorHistory

variable [Hashlib]

/-- The trail the events lead to. -/
def trail (h : AnchorHistory) : AnchoredTrail := h.events.foldl AnchoredTrail.step AnchoredTrail.empty

/-- The anchor runs of a history. -/
def runs (h : AnchorHistory) : List AnchorRun := h.trail.runs

/-- `anchor_staleness` of the sidecar at a time. -/
def staleness (h : AnchorHistory) (other : PyStr → Option ℚ) (now : Moment) (maxAgeS : ℤ) :
    Except PyErr (Option PinReason) :=
  (observedAnchorRecords h.trail.sidecar).map fun records =>
    anchorStaleness (now.age other) maxAgeS (records.map fun r => (r.checkpoint.seq, r.ts))

/-- `anchor_staleness` says whether the most recent anchor run is recent. -/
def ReportsRecency (h : AnchorHistory) (other : PyStr → Option ℚ) (now : Moment) (maxAgeS : ℤ) :
    Prop :=
  h.staleness other now maxAgeS = .ok none ↔
    ∃ run ∈ h.runs.getLast?, now.Within maxAgeS run.happened

/-- A recent run found the trail at a head that an older run, which is not recent, had anchored
already. -/
def ReanchoredLate (h : AnchorHistory) (now : Moment) (maxAgeS : ℤ) : Prop :=
  ∃ last ∈ h.runs.getLast?, now.Within maxAgeS last.happened ∧
    ∃ run ∈ h.runs, run.seq = last.seq ∧ ¬ now.Within maxAgeS run.happened

/-- What is judged are the runs. -/
theorem staleness_eq (h : AnchorHistory) (other : PyStr → Option ℚ) (now : Moment) (maxAgeS : ℤ) :
    h.staleness other now maxAgeS =
      .ok (anchorStaleness (now.age other) maxAgeS (h.runs.flatMap AnchorRun.pairs)) := by
  obtain ⟨records, hread, hpairs⟩ := (AnchoredTrail.recorded h.events).read
  rw [staleness, observedAnchorRecords, show readAnchorRecords h.trail.sidecar = _ from hread]
  show Except.ok (anchorStaleness _ _ ((records.map _).map _)) = _
  rw [List.map_map]
  exact congrArg (fun pairs => Except.ok (anchorStaleness (now.age other) maxAgeS pairs)) hpairs

/-- The runs are in the order of the clock. -/
theorem pairwise_happened (h : AnchorHistory) :
    h.runs.Pairwise (·.happened.micros ≤ ·.happened.micros) := by
  have htimes := h.clock.sublist (AnchoredTrail.recorded h.events).times
  refine (List.pairwise_flatMap.mp htimes).2.imp fun hle => ?_
  exact hle _ List.mem_cons_self _ List.mem_cons_self

/-- **The run that is judged** is the first one at the head. -/
theorem staleness_eq_none_iff (h : AnchorHistory) {last : AnchorRun} (hlast : last ∈ h.runs.getLast?)
    (other : PyStr → Option ℚ) (now : Moment) (maxAgeS : ℤ) :
    h.staleness other now maxAgeS = .ok none ↔
      ∀ run ∈ h.runs, run.seq = last.seq → now.Within maxAgeS run.happened := by
  obtain ⟨before, first, after, hruns, hfirst, hbefore, hnewest⟩ :=
    AnchorRun.newestRecord_pairs (AnchoredTrail.recorded h.events).sorted hlast
  have hstale : h.staleness other now maxAgeS = .ok none ↔ now.Within maxAgeS first.happened := by
    rw [staleness_eq, Except.ok.injEq, ← Moment.age_le_iff]
    exact anchorStaleness_eq_none_iff hnewest (Moment.age_isoformat other now first.happened)
  have hruns' : h.runs = before ++ first :: after := hruns
  rw [hstale, hruns']
  constructor
  · intro hwithin run hrun hseq
    rcases List.mem_append.mp hrun with hearly | hhead
    · exact absurd hseq (hbefore run hearly).ne
    · -- no run at the head is older than the first of them
      have hordered := hruns' ▸ h.pairwise_happened
      have hafter := (List.pairwise_cons.mp (List.pairwise_append.mp hordered).2.1).1
      rcases List.mem_cons.mp hhead with rfl | hlater
      · exact hwithin
      · exact hwithin.mono (hafter run hlater)
  · intro hall
    exact hall first (List.mem_append_right _ List.mem_cons_self) hfirst

/-- **`anchor_staleness` reports whether the most recent anchor run is recent if and only if no
late run is at its head while it is recent itself**: for every history, whatever was appended
between the runs, through whatever sinks, and at every time and every deadline. -/
theorem reportsRecency_iff (h : AnchorHistory) (other : PyStr → Option ℚ) (now : Moment)
    (maxAgeS : ℤ) : h.ReportsRecency other now maxAgeS ↔ ¬ h.ReanchoredLate now maxAgeS := by
  rw [ReportsRecency, ReanchoredLate]
  cases hlast : h.runs.getLast? with
  | none =>
      -- nothing was anchored, and that is stale
      have hempty : h.runs = [] := List.getLast?_eq_none_iff.mp hlast
      rw [staleness_eq, hempty]
      constructor
      · rintro - ⟨last, hmem, -⟩
        cases hmem
      · intro _
        exact ⟨nofun, fun ⟨last, hmem, _⟩ => nomatch hmem⟩
  | some last =>
      have hmem : last ∈ h.runs := List.mem_of_mem_getLast? hlast
      rw [staleness_eq_none_iff h hlast]
      simp only [Option.mem_def, Option.some.injEq, exists_eq_left']
      constructor
      · rintro hreports ⟨hrecent, run, hrun, hseq, hlate⟩
        exact hlate (hreports.mpr hrecent run hrun hseq)
      · intro hnot
        refine ⟨fun hall => hall last hmem rfl, fun hrecent run hrun hseq => ?_⟩
        by_contra hlate
        exact hnot ⟨hrecent, run, hrun, hseq, hlate⟩

/-- A trail that grew between its runs is never anchored again at the same head. -/
theorem not_reanchoredLate_of_grown (h : AnchorHistory) (hgrown : h.runs.Pairwise (·.seq < ·.seq))
    (now : Moment) (maxAgeS : ℤ) : ¬ h.ReanchoredLate now maxAgeS := by
  rintro ⟨last, hlast, hrecent, run, hrun, hseq, hlate⟩
  obtain ⟨init, hinit⟩ := List.getLast?_eq_some_iff.mp hlast
  rw [hinit] at hrun hgrown
  rcases List.mem_append.mp hrun with hearlier | hself
  · have hlt := (List.pairwise_append.mp hgrown).2.2 run hearlier last (List.mem_singleton_self _)
    exact absurd hseq hlt.ne
  · obtain rfl := List.mem_singleton.mp hself
    exact hlate hrecent

/-- The deadline of a pin is checked this way. -/
theorem staleness_eq_stalenessFinding (h : AnchorHistory) (other : PyStr → Option ℚ) {now : Moment}
    {maxAgeS : ℤ} {request : PinRequest} {stored : PinState} {records : List AnchorRecord}
    (hread : observedAnchorRecords h.trail.sidecar = .ok records)
    (hrecords : request.observed.anchorRecords = some records) (hage : request.age = now.age other)
    (hdeclared : stored.maxAnchorAgeS = some maxAgeS) :
    h.staleness other now maxAgeS = .ok (request.stalenessFinding stored) := by
  rw [staleness, hread, PinRequest.stalenessFinding, hdeclared, hrecords, hage]
  rfl

end AnchorHistory

end Histories

/-! ## A quiet trail -/

section Example

/-- A moment, in seconds since 1970. -/
def atSecond (ts : ℕ) (h : ts < 253402300800) : Moment := ⟨ts * 1000000, by omega⟩

/-- `FileAnchorSink`, when its clock shows this time. -/
def fileSink [Interpreter] (reading : Moment) : TimedSink where
  name := str "file"
  external _ := .ok ⟨none, none⟩
  reading := reading
  io := ⟨none, none⟩
  nonce_reads cp result hresult n hn := by
    obtain rfl := Except.ok.inj hresult
    cases hn

/-- An entry, an anchor run at its time, and an hour later another, with nothing appended between
them. -/
def quietTrail [Interpreter] : AnchorHistory where
  events := [.append (List.replicate 64 (.ofChar 'a')),
    .anchor none {} [fileSink (atSecond 1735689600 (by decide))],
    .anchor none {} [fileSink (atSecond 1735693200 (by decide))]]
  clock := by
    simp [TrailEvent.readings, fileSink, atSecond]

/-- Ten seconds after the second run the trail is stale under a deadline of a minute. -/
theorem reanchored_stale :
    letI := Sha256.hashlib
    letI := Interpreter.plain
    ¬ quietTrail.ReportsRecency (fun _ => none) (atSecond 1735693210 (by decide)) 60 ∧
      quietTrail.runs.map (fun run => (run.seq, run.happened.isoformat)) =
        [(0, str "2025-01-01T00:00:00+00:00"), (0, str "2025-01-01T01:00:00+00:00")] ∧
      (quietTrail.staleness (fun _ => none) (atSecond 1735693210 (by decide)) 60).toOption =
        some (some .anchorStale) := by
  let _ := Sha256.hashlib
  let _ := Interpreter.plain
  have hruns : quietTrail.runs.map (fun run => (run.seq, run.happened.isoformat)) =
      [(0, str "2025-01-01T00:00:00+00:00"), (0, str "2025-01-01T01:00:00+00:00")] := by
    decide +kernel
  have hstale : (quietTrail.staleness (fun _ => none) (atSecond 1735693210 (by decide)) 60).toOption =
      some (some .anchorStale) := by decide +kernel
  have hrecent : ∃ run ∈ quietTrail.runs.getLast?,
      (atSecond 1735693210 (by decide)).Within 60 run.happened := by
    decide +kernel
  refine ⟨fun hreports => ?_, hruns, hstale⟩
  rw [hreports.mpr hrecent] at hstale
  cases hstale

end Example

end Waxseal
