import Waxseal.Adapters.AnchorSidecar
import Waxseal.Base.LatestWins
import Waxseal.Domain.Evidence
import Waxseal.Log.Facade
import Waxseal.Log.GenuineTrail

/-!
# Evidence on a trail

Incidents and interventions are put on record as payloads of their own types (`to_payload` of
`domain/incident.py` and `domain/intervention.py`), among whatever else a log appends, and are read
back by `scan_incidents` and `scan_interventions`.

An incident is restated by another row of the same id.  What the scan makes of a trail is one view
for each id, in the order of the first rows, with the last row as a whole and the number of rows;
an intervention is never restated, and each row is one (`incidentRegister`).
-/

namespace Waxseal

open Json
open SidecarRecord (strOrNull)

/-! ## Payloads -/

/-- `to_payload(record)` of an incident. -/
def IncidentRecord.toPayload (r : IncidentRecord) : Json :=
  .obj [(str "incident_id", .str r.incidentId.val), (str "system_id", .str r.systemId.val),
    (str "detected_at", .str r.detectedAt.val), (str "severity", .str r.severity.val),
    (str "confirmed_at", strOrNull r.confirmedAt), (str "summary", strOrNull r.summary),
    (str "consequence_kinds", .arr (r.consequenceKinds.map fun kind => .str kind.val)),
    (str "operating_status", strOrNull r.operatingStatus), (str "report_ref", strOrNull r.reportRef),
    (str "reported_at", strOrNull r.reportedAt), (str "trace_id", strOrNull r.traceId)]

/-- `to_payload(record)` of an intervention. -/
def InterventionRecord.toPayload (r : InterventionRecord) : Json :=
  .obj [(str "intervention_id", .str r.interventionId.val), (str "system_id", .str r.systemId.val),
    (str "actor_ref", .str r.actorRef.val), (str "action", .str r.action.val),
    (str "decision_ref", strOrNull r.decisionRef), (str "rationale", strOrNull r.rationale),
    (str "trace_id", strOrNull r.traceId)]

/-- A text is not empty when its pairs are joined. -/
def NonemptyStr.joined (s : NonemptyStr) : NonemptyStr :=
  ⟨joinPairs s.val, by
    obtain ⟨s, hs⟩ := s
    induction s using joinPairs.induct with
    | case1 => exact absurd rfl hs
    | case2 c => exact List.cons_ne_nil c []
    | case3 c d s hpair =>
        show joinPairs (c :: d :: s) ≠ []
        rw [joinPairs, if_pos hpair]
        exact List.cons_ne_nil _ _
    | case4 c d s hpair =>
        show joinPairs (c :: d :: s) ≠ []
        rw [joinPairs, if_neg hpair]
        exact List.cons_ne_nil _ _⟩

/-- The record with the surrogate pairs of its texts joined. -/
def IncidentRecord.joined (r : IncidentRecord) : IncidentRecord where
  incidentId := r.incidentId.joined
  systemId := r.systemId.joined
  detectedAt := r.detectedAt.joined
  severity := r.severity.joined
  confirmedAt := r.confirmedAt.map joinPairs
  summary := r.summary.map joinPairs
  consequenceKinds := r.consequenceKinds.map NonemptyStr.joined
  operatingStatus := r.operatingStatus.map joinPairs
  reportRef := r.reportRef.map joinPairs
  reportedAt := r.reportedAt.map joinPairs
  traceId := r.traceId.map joinPairs

/-- The record with the surrogate pairs of its texts joined. -/
def InterventionRecord.joined (r : InterventionRecord) : InterventionRecord where
  interventionId := r.interventionId.joined
  systemId := r.systemId.joined
  actorRef := r.actorRef.joined
  action := r.action.joined
  decisionRef := r.decisionRef.map joinPairs
  rationale := r.rationale.map joinPairs
  traceId := r.traceId.map joinPairs

/-! ## Written and read back -/

theorem requireNonempty_str (s : NonemptyStr) : requireNonempty (.str s.val) = .ok s := by
  obtain ⟨_ | ⟨c, s⟩, hs⟩ := s
  · exact absurd rfl hs
  · rfl

theorem optionalStr_strOrNull (s : Option PyStr) : optionalStr (strOrNull s) = .ok s := by
  cases s <;> rfl

theorem mapM_requireNonempty (kinds : List NonemptyStr) :
    (kinds.map fun kind => Json.str kind.val).mapM requireNonempty = .ok kinds := by
  induction kinds with
  | nil => rfl
  | cons kind kinds ih =>
      rw [List.map_cons, List.mapM_cons, requireNonempty_str, ih]
      rfl

theorem sortKeys_strOrNull (s : Option PyStr) : sortKeys (strOrNull s) = strOrNull s := by
  cases s <;> rfl

theorem sortItems_strs (kinds : List NonemptyStr) :
    sortItems (kinds.map fun kind => Json.str kind.val) = kinds.map fun kind => .str kind.val := by
  induction kinds with
  | nil => rfl
  | cons kind kinds ih =>
      rw [List.map_cons, sortItems, ih]
      rfl

/-- The payload of an incident with its keys sorted. -/
theorem IncidentRecord.sortKeys_toPayload (r : IncidentRecord) : sortKeys r.toPayload =
    .obj [(str "confirmed_at", strOrNull r.confirmedAt),
      (str "consequence_kinds", .arr (r.consequenceKinds.map fun kind => .str kind.val)),
      (str "detected_at", .str r.detectedAt.val), (str "incident_id", .str r.incidentId.val),
      (str "operating_status", strOrNull r.operatingStatus), (str "report_ref", strOrNull r.reportRef),
      (str "reported_at", strOrNull r.reportedAt), (str "severity", .str r.severity.val),
      (str "summary", strOrNull r.summary), (str "system_id", .str r.systemId.val),
      (str "trace_id", strOrNull r.traceId)] := by
  unfold toPayload
  simp only [sortKeys, sortMembers, sortKeys_strOrNull, sortItems_strs]
  rfl

/-- The payload of an intervention with its keys sorted. -/
theorem InterventionRecord.sortKeys_toPayload (r : InterventionRecord) : sortKeys r.toPayload =
    .obj [(str "action", .str r.action.val), (str "actor_ref", .str r.actorRef.val),
      (str "decision_ref", strOrNull r.decisionRef),
      (str "intervention_id", .str r.interventionId.val), (str "rationale", strOrNull r.rationale),
      (str "system_id", .str r.systemId.val), (str "trace_id", strOrNull r.traceId)] := by
  unfold toPayload
  simp only [sortKeys, sortMembers, sortKeys_strOrNull]
  rfl

/-- What is found under a key that comes first. -/
theorem fieldOf_cons_self (key : PyStr) (value : Json) (members : List (PyStr × Json)) :
    fieldOf ((key, value) :: members) key = value := by
  rw [fieldOf, List.find?_cons_of_pos (by simp)]
  rfl

theorem fieldOf_cons_of_ne {key key' : PyStr} (h : key ≠ key') (value : Json)
    (members : List (PyStr × Json)) : fieldOf ((key, value) :: members) key' = fieldOf members key' := by
  rw [fieldOf, List.find?_cons_of_neg (by simpa using h)]
  rfl

/-- **An incident is read back from its payload.** -/
theorem IncidentRecord.fromPayload_toPayload (r : IncidentRecord) :
    fromPayload (sortKeys r.toPayload) = .ok r := by
  rw [sortKeys_toPayload]
  simp (disch := decide) only [fromPayload, requireMembers, fieldOf_cons_self, fieldOf_cons_of_ne,
    readKinds, requireNonempty_str, optionalStr_strOrNull, mapM_requireNonempty, bind, Except.bind]
  rfl

/-- **An intervention is read back from its payload.** -/
theorem InterventionRecord.fromPayload_toPayload (r : InterventionRecord) :
    fromPayload (sortKeys r.toPayload) = .ok r := by
  rw [sortKeys_toPayload]
  simp (disch := decide) only [fromPayload, requireMembers, fieldOf_cons_self, fieldOf_cons_of_ne,
    requireNonempty_str, optionalStr_strOrNull, bind, Except.bind]
  rfl

section Bytes

variable [Interpreter]

theorem dumps_strOrNull_joined {sep : Separators} (s : Option PyStr) :
    dumps sep (strOrNull (s.map joinPairs)) = dumps sep (strOrNull s) := by
  cases s with
  | none => rfl
  | some s => exact dumpsStr_joinPairs s

theorem dumpsItems_joined {sep : Separators} (kinds : List NonemptyStr) :
    dumpsItems sep ((kinds.map NonemptyStr.joined).map fun kind => Json.str kind.val) =
      dumpsItems sep (kinds.map fun kind => .str kind.val) := by
  induction kinds with
  | nil => rfl
  | cons kind kinds ih =>
      simp only [List.map_cons, dumpsItems, ih, dumps]
      rw [show kind.joined.val = joinPairs kind.val from rfl, dumpsStr_joinPairs]

theorem dumps_kinds_joined {sep : Separators} (kinds : List NonemptyStr) :
    dumps sep (.arr ((kinds.map NonemptyStr.joined).map fun kind => Json.str kind.val)) =
      dumps sep (.arr (kinds.map fun kind => .str kind.val)) := by
  cases kinds with
  | nil => rfl
  | cons kind kinds =>
      simp only [List.map_cons, dumps, dumpsItems_joined]
      rw [show kind.joined.val = joinPairs kind.val from rfl, dumpsStr_joinPairs]

/-- The joined record is written the same way. -/
theorem IncidentRecord.canonicalJson_joined (r : IncidentRecord) :
    canonicalJson r.joined.toPayload = canonicalJson r.toPayload := by
  unfold canonicalJson
  rw [sortKeys_toPayload, sortKeys_toPayload]
  simp only [joined, NonemptyStr.joined, dumps, dumpsMembers, dumps_strOrNull_joined,
    dumps_kinds_joined, dumpsStr_joinPairs]

/-- The joined record is written the same way. -/
theorem InterventionRecord.canonicalJson_joined (r : InterventionRecord) :
    canonicalJson r.joined.toPayload = canonicalJson r.toPayload := by
  unfold canonicalJson
  rw [sortKeys_toPayload, sortKeys_toPayload]
  simp only [joined, NonemptyStr.joined, dumps, dumpsMembers, dumps_strOrNull_joined,
    dumpsStr_joinPairs]

/-- An object is read back from its canonical bytes with its keys sorted. -/
theorem loadsBytes_canonicalJson {payload : Json} {members : List (PyStr × Json)}
    (hsorted : sortKeys payload = .obj members) (h : Writable 2 (.obj members)) :
    loadsBytes (canonicalJson payload) = .ok (.obj members) := by
  have hwritable : Writable recursionLimit (.obj members) :=
    h.mono (le_trans (by decide) Interpreter.recursionLimit_large)
  rw [canonicalJson, hsorted, loadsBytes_printable (isPrintable_dumps hwritable)]
  have hdecode := @decode_dumps_append _ .compact _ hwritable []
  rwa [List.append_nil, if_pos (show skipWs [] = [] from rfl)] at hdecode

omit [Interpreter] in
theorem writable_strOrNull {depth : ℕ} (s : Option PyStr) :
    Writable depth (strOrNull (s.map joinPairs)) := by
  cases s with
  | none => cases depth <;> trivial
  | some s => cases depth <;> exact noSurrogatePair_joinPairs s

/-- The keys of an incident, in the order in which they are written. -/
def incidentKeys : List PyStr :=
  [str "confirmed_at", str "consequence_kinds", str "detected_at", str "incident_id",
    str "operating_status", str "report_ref", str "reported_at", str "severity", str "summary",
    str "system_id", str "trace_id"]

/-- The keys of an intervention, in the order in which they are written. -/
def interventionKeys : List PyStr :=
  [str "action", str "actor_ref", str "decision_ref", str "intervention_id", str "rationale",
    str "system_id", str "trace_id"]

/-- **An incident is read back from its bytes**, with its texts joined. -/
theorem IncidentRecord.read_canonicalJson (r : IncidentRecord) :
    (loadsBytes (canonicalJson r.toPayload) >>= IncidentRecord.fromPayload) = .ok r.joined := by
  have hsorted := sortKeys_toPayload r.joined
  have hread : loadsBytes (canonicalJson r.toPayload) = .ok (sortKeys r.joined.toPayload) := by
    rw [← canonicalJson_joined, hsorted]
    refine loadsBytes_canonicalJson hsorted ?_
    refine @writable_obj 1 incidentKeys _ (by decide +kernel) (by decide +kernel) (.refl _) ?_
    have hkinds : Writable 1 (.arr ((r.consequenceKinds.map NonemptyStr.joined).map fun kind =>
        .str kind.val)) := by
      intro item hitem
      obtain ⟨kind, hkind, rfl⟩ := List.mem_map.mp hitem
      obtain ⟨kind, -, rfl⟩ := List.mem_map.mp hkind
      exact noSurrogatePair_joinPairs _
    simp only [List.forall_mem_cons, joined]
    exact ⟨writable_strOrNull _, hkinds, noSurrogatePair_joinPairs _, noSurrogatePair_joinPairs _,
      writable_strOrNull _, writable_strOrNull _, writable_strOrNull _, noSurrogatePair_joinPairs _,
      writable_strOrNull _, noSurrogatePair_joinPairs _, writable_strOrNull _, List.forall_mem_nil _⟩
  exact bind_eq_ok_iff.mpr ⟨_, hread, fromPayload_toPayload r.joined⟩

/-- **An intervention is read back from its bytes**, with its texts joined. -/
theorem InterventionRecord.read_canonicalJson (r : InterventionRecord) :
    (loadsBytes (canonicalJson r.toPayload) >>= InterventionRecord.fromPayload) = .ok r.joined := by
  have hsorted := sortKeys_toPayload r.joined
  have hread : loadsBytes (canonicalJson r.toPayload) = .ok (sortKeys r.joined.toPayload) := by
    rw [← canonicalJson_joined, hsorted]
    refine loadsBytes_canonicalJson hsorted ?_
    refine @writable_obj 1 interventionKeys _ (by decide +kernel) (by decide +kernel) (.refl _) ?_
    simp only [List.forall_mem_cons, joined]
    exact ⟨noSurrogatePair_joinPairs _, noSurrogatePair_joinPairs _, writable_strOrNull _,
      noSurrogatePair_joinPairs _, writable_strOrNull _, noSurrogatePair_joinPairs _,
      writable_strOrNull _, List.forall_mem_nil _⟩
  exact bind_eq_ok_iff.mpr ⟨_, hread, fromPayload_toPayload r.joined⟩

end Bytes

/-! ## Putting on record -/

/-- What is put on record: an incident, an intervention, or a payload of another type. -/
inductive RecordedAct where
  | incident (ts : PyStr) (record : IncidentRecord)
  | intervention (ts : PyStr) (record : InterventionRecord)
  | other (draft : Draft) (hincident : draft.payloadType ≠ incidentPayloadType)
      (hintervention : draft.payloadType ≠ interventionPayloadType)

section Recording

variable [Interpreter]

/-- What `append` makes of it, under no redactor. -/
def RecordedAct.draft : RecordedAct → Draft
  | .incident ts record => ⟨ts, incidentPayloadType, canonicalJson record.toPayload⟩
  | .intervention ts record => ⟨ts, interventionPayloadType, canonicalJson record.toPayload⟩
  | .other draft _ _ => draft

/-- Some records are appended to a trail, one after another. -/
def recordAll [Hashlib] (entries : List Entry) (acts : List RecordedAct) : Except PyErr (List Entry) :=
  acts.foldlM (fun entries act => do
    let row := nextLink entries
    return entries ++ [← act.draft.build row.1 row.2]) entries

/-- The incidents of what was put on record from a position on, with their positions. -/
def incidentRows : ℤ → List RecordedAct → List (ℤ × IncidentRecord)
  | _, [] => []
  | seq, .incident _ record :: acts => (seq, record.joined) :: incidentRows (seq + 1) acts
  | seq, .intervention _ _ :: acts | seq, .other _ _ _ :: acts => incidentRows (seq + 1) acts

/-- The interventions of what was put on record from a position on, with their positions. -/
def interventionRows : ℤ → List RecordedAct → List (ℤ × InterventionRecord)
  | _, [] => []
  | seq, .intervention _ record :: acts => (seq, record.joined) :: interventionRows (seq + 1) acts
  | seq, .incident _ _ :: acts | seq, .other _ _ _ :: acts => interventionRows (seq + 1) acts

/-- The rows of a trail, from a position on, are those of what was put on record. -/
inductive OnTrail : ℤ → List RecordedAct → List Entry → Prop where
  | nil (seq : ℤ) : OnTrail seq [] []
  | cons {seq : ℤ} {act : RecordedAct} {acts : List RecordedAct} {entry : Entry} {entries : List Entry}
      (hseq : entry.header.seq = seq) (htype : entry.header.payloadType = act.draft.payloadType)
      (hpayload : entry.payload = some act.draft.payloadBytes)
      (hrest : OnTrail (seq + 1) acts entries) : OnTrail seq (act :: acts) (entry :: entries)

variable {acts more : List RecordedAct} {entries entries' : List Entry} {seq : ℤ}

theorem OnTrail.length_eq (h : OnTrail seq acts entries) : entries.length = acts.length := by
  induction h with
  | nil seq => rfl
  | cons hseq htype hpayload hrest ih => rw [List.length_cons, List.length_cons, ih]

/-- **Appending puts on the trail** what is put on record. -/
theorem onTrail_of_recordAll [Hashlib] (hgenuine : GenuineTrail entries)
    (h : recordAll entries acts = .ok entries') :
    GenuineTrail entries' ∧ ∃ new, entries' = entries ++ new ∧
      OnTrail (entries.length : ℤ) acts new := by
  induction acts generalizing entries with
  | nil =>
      obtain rfl := Except.ok.inj h
      exact ⟨hgenuine, [], (List.append_nil _).symm, .nil _⟩
  | cons act acts ih =>
      rw [recordAll, List.foldlM_cons] at h
      obtain ⟨middle, hstep, hrest⟩ := bind_eq_ok_iff.mp h
      obtain ⟨entry, hbuild, hmiddle⟩ := bind_eq_ok_iff.mp hstep
      obtain rfl := Except.ok.inj hmiddle
      obtain ⟨hfinal, new, rfl, hnew⟩ := ih (hgenuine.append hbuild) hrest
      have hheader := Draft.header_of_build hbuild
      obtain ⟨-, -, -, hpayload, hseq, -⟩ := Draft.build_eq_ok hbuild
      rw [nextLink_fst hgenuine.linked] at hseq
      refine ⟨hfinal, entry :: new, List.append_assoc _ _ _, .cons hseq ?_ hpayload ?_⟩
      · rw [hheader]
      · rw [List.length_append, List.length_singleton] at hnew
        exact_mod_cast hnew

/-! ## Scanning -/

variable {py : PayloadReader} {α : Type} {payloadType : PyStr} {fromPayload : Json → Except PyErr α}
  {entry : Entry} {rows : List (ℤ × Option α)}

omit [Interpreter] in
theorem scanRows_cons_of_ne (h : entry.header.payloadType ≠ payloadType) :
    scanRows py payloadType fromPayload (entry :: entries) =
      scanRows py payloadType fromPayload entries := by
  rw [scanRows, rowsOf, List.filter_cons_of_neg (by simpa using h)]
  rfl

omit [Interpreter] in
theorem scanRows_cons_of_eq (h : entry.header.payloadType = payloadType) {record : Option α}
    (hread : readRow py fromPayload entry = .ok record)
    (hrows : scanRows py payloadType fromPayload entries = .ok rows) :
    scanRows py payloadType fromPayload (entry :: entries) =
      .ok ((entry.header.seq, record) :: rows) := by
  rw [scanRows, rowsOf, List.filter_cons_of_pos (by simpa using h), List.mapM_cons, hread]
  exact bind_eq_ok_iff.mpr ⟨_, rfl, bind_eq_ok_iff.mpr ⟨rows, hrows, rfl⟩⟩

omit [Interpreter] in
theorem readRow_of_read {payload : Bytes} (hpayload : entry.payload = some payload) {record : α}
    (hread : (py.loads payload >>= fromPayload) = .ok record) :
    readRow py fromPayload entry = .ok (some record) := by
  rw [readRow, hpayload]
  dsimp only
  rw [hread]

omit [Interpreter] in
theorem payloadTypes_ne : incidentPayloadType ≠ interventionPayloadType := by decide +kernel

/-- Every incident that was put on record is read, and nothing else is. -/
theorem scanRows_incidents (hpy : py.loads = loadsBytes) (h : OnTrail seq acts entries) :
    scanRows py incidentPayloadType IncidentRecord.fromPayload entries =
      .ok ((incidentRows seq acts).map fun row => (row.1, some row.2)) := by
  induction h with
  | nil seq => rfl
  | @cons seq act acts entry entries hseq htype hpayload hrest ih =>
      cases act with
      | incident ts record =>
          have htype : entry.header.payloadType = incidentPayloadType := htype
          have hread := readRow_of_read hpayload (hpy ▸ record.read_canonicalJson)
          rw [scanRows_cons_of_eq htype hread ih, hseq]
          rfl
      | intervention ts record =>
          have htype : entry.header.payloadType = interventionPayloadType := htype
          rw [scanRows_cons_of_ne (htype ▸ payloadTypes_ne.symm), ih]
          rfl
      | other draft hincident hintervention =>
          rw [scanRows_cons_of_ne (by rw [htype]; exact hincident), ih]
          rfl

/-- Every intervention that was put on record is read, and nothing else is. -/
theorem scanRows_interventions (hpy : py.loads = loadsBytes) (h : OnTrail seq acts entries) :
    scanRows py interventionPayloadType InterventionRecord.fromPayload entries =
      .ok ((interventionRows seq acts).map fun row => (row.1, some row.2)) := by
  induction h with
  | nil seq => rfl
  | @cons seq act acts entry entries hseq htype hpayload hrest ih =>
      cases act with
      | incident ts record =>
          have htype : entry.header.payloadType = incidentPayloadType := htype
          rw [scanRows_cons_of_ne (htype ▸ payloadTypes_ne), ih]
          rfl
      | intervention ts record =>
          have htype : entry.header.payloadType = interventionPayloadType := htype
          have hread := readRow_of_read hpayload (hpy ▸ record.read_canonicalJson)
          rw [scanRows_cons_of_eq htype hread ih, hseq]
          rfl
      | other draft hincident hintervention =>
          rw [scanRows_cons_of_ne (by rw [htype]; exact hintervention), ih]
          rfl

/-! ## The register -/

omit [Interpreter] in
theorem readableRows_map {rows : List (ℤ × α)} :
    readableRows (rows.map fun row => (row.1, some row.2)) = rows := by
  rw [readableRows, List.filterMap_map]
  exact List.filterMap_some

omit [Interpreter] in
theorem unreadableRows_map {rows : List (ℤ × α)} :
    unreadableRows (rows.map fun row => (row.1, some row.2)) = [] := by
  rw [unreadableRows, List.filterMap_map]
  exact List.filterMap_eq_nil_iff.mpr fun _ _ => rfl

/-- A view is a group of the rows of one id. -/
def IncidentView.ofGroup (g : LatestWins.Group ℤ NonemptyStr IncidentRecord) : IncidentView :=
  ⟨g.key, g.first, g.last, g.count, g.latest⟩

omit [Interpreter] in
theorem foldIncident_ofGroup (groups : List (LatestWins.Group ℤ NonemptyStr IncidentRecord))
    (row : ℤ × IncidentRecord) : foldIncident (groups.map .ofGroup) row =
      (LatestWins.take IncidentRecord.incidentId groups row).map .ofGroup := by
  have hany : ((groups.map IncidentView.ofGroup).any fun view => view.incidentId = row.2.incidentId) =
      groups.any fun g => g.key = row.2.incidentId := List.any_map
  unfold foldIncident LatestWins.take
  rw [hany]
  split_ifs
  · rw [List.map_map, List.map_map]
    refine List.map_congr_left fun g _ => ?_
    show (if g.key = row.2.incidentId then _ else IncidentView.ofGroup g) =
      IncidentView.ofGroup (if g.key = row.2.incidentId then _ else g)
    split_ifs <;> rfl
  · rw [List.map_append]
    rfl

omit [Interpreter] in
/-- **The views are the groups** of the rows by their ids. -/
theorem foldl_foldIncident (rows : List (ℤ × IncidentRecord)) :
    rows.foldl foldIncident [] =
      (LatestWins.fold IncidentRecord.incidentId rows).map IncidentView.ofGroup := by
  induction rows using List.reverseRecOn with
  | nil => rfl
  | append_singleton rows row ih =>
      rw [List.foldl_append, ih, LatestWins.fold_concat]
      exact foldIncident_ofGroup _ row

/-- What a view says of the incidents that were put on record: where the rows of its id begin and
end, how many there are, and the last of them as a whole. -/
structure IncidentView.Reports (rows : List (ℤ × IncidentRecord)) (view : IncidentView) : Prop where
  first : ∃ record, (LatestWins.rowsOf IncidentRecord.incidentId view.incidentId rows).head? =
    some (view.firstSeq, record)
  latest : (LatestWins.rowsOf IncidentRecord.incidentId view.incidentId rows).getLast? =
    some (view.latestSeq, view.latest)
  count : (LatestWins.rowsOf IncidentRecord.incidentId view.incidentId rows).length = view.rows

omit [Interpreter] in
theorem incidentRows_append (seq : ℤ) (acts more : List RecordedAct) :
    incidentRows seq (acts ++ more) =
      incidentRows seq acts ++ incidentRows (seq + acts.length) more := by
  induction acts generalizing seq with
  | nil => simp [incidentRows]
  | cons act acts ih =>
      have hlength : seq + ((act :: acts).length : ℤ) = seq + 1 + acts.length := by
        rw [List.length_cons]
        push_cast
        ring
      rw [List.cons_append, hlength]
      cases act <;> simp only [incidentRows, ih, List.cons_append]

variable [Hashlib]

theorem recordAll_append (h : recordAll entries acts = .ok entries') (more : List RecordedAct) :
    recordAll entries (acts ++ more) = recordAll entries' more := by
  rw [recordAll, List.foldlM_append]
  exact congrArg (· >>= _) h

/-- What a scan makes of a trail. -/
theorem scan_recordAll (hpy : py.loads = loadsBytes) (h : recordAll [] acts = .ok entries) :
    scanIncidents py entries = .ok
      ⟨(LatestWins.fold IncidentRecord.incidentId (incidentRows 0 acts)).map .ofGroup, []⟩ ∧
    scanInterventions py entries = .ok ⟨interventionRows 0 acts, []⟩ := by
  obtain ⟨-, new, hnew, htrail⟩ := onTrail_of_recordAll genuineTrail_nil h
  obtain rfl : entries = new := hnew
  have htrail : OnTrail 0 acts entries := htrail
  constructor
  · refine bind_eq_ok_iff.mpr ⟨_, scanRows_incidents hpy htrail, ?_⟩
    rw [readableRows_map, unreadableRows_map, foldl_foldIncident]
    rfl
  · refine bind_eq_ok_iff.mpr ⟨_, scanRows_interventions hpy htrail, ?_⟩
    rw [readableRows_map, unreadableRows_map]
    rfl

/-- **The register of a trail.**  Whatever was put on record, one after another, the scan of the
trail reads every incident and every intervention, and no other row.  The incidents make one view
for each id, in the order in which the ids first appeared, and a view says what the rows of its id
are; the interventions are listed one by one.  And whatever is put on record later, the views of
the incidents that are not restated stay. -/
theorem incidentRegister (py : PayloadReader) (hpy : py.loads = loadsBytes) (acts : List RecordedAct)
    (entries : List Entry) (h : recordAll [] acts = .ok entries) :
    ∃ views, scanIncidents py entries = .ok ⟨views, []⟩ ∧
      scanInterventions py entries = .ok ⟨interventionRows 0 acts, []⟩ ∧
      views.map IncidentView.incidentId =
        ((incidentRows 0 acts).map fun row => row.2.incidentId).eraseDups ∧
      (∀ view ∈ views, view.Reports (incidentRows 0 acts)) ∧
      ∀ more entries', recordAll entries more = .ok entries' →
        ∃ views', scanIncidents py entries' = .ok ⟨views', []⟩ ∧ ∀ view ∈ views,
          (∀ row ∈ incidentRows entries.length more, row.2.incidentId ≠ view.incidentId) →
            view ∈ views' := by
  obtain ⟨hincidents, hinterventions⟩ := scan_recordAll hpy h
  obtain ⟨-, new, hnew, htrail⟩ := onTrail_of_recordAll genuineTrail_nil h
  obtain ⟨hkeys, hsummarizes⟩ := @LatestWins.fold_spec _ _ _ _ IncidentRecord.incidentId
    (incidentRows 0 acts)
  refine ⟨_, hincidents, hinterventions, ?_, ?_, ?_⟩
  · rw [List.map_map, lawful_beq_subsingleton Subtype.instBEq instBEqOfDecidableEq]
    exact hkeys
  · rw [List.forall_mem_map]
    intro g hg
    obtain ⟨hfirst, hlast, hcount⟩ := hsummarizes g hg
    exact ⟨hfirst, hlast, hcount⟩
  · intro more entries' hmore
    rw [← recordAll_append h] at hmore
    refine ⟨_, (scan_recordAll hpy hmore).1, ?_⟩
    rw [List.forall_mem_map]
    intro g hg hother
    refine List.mem_map_of_mem ?_
    rw [incidentRows_append, LatestWins.mem_fold_append_of_ne]
    · exact hg
    · intro row hrow
      refine hother row ?_
      obtain rfl : entries = new := hnew
      rw [htrail.length_eq, zero_add] at *
      exact hrow

end Recording

/-- An incident that is confirmed when it is restated. -/
def outage (confirmed : Option PyStr) : IncidentRecord where
  incidentId := ⟨str "i-1", nofun⟩
  systemId := ⟨str "s", nofun⟩
  detectedAt := ⟨str "d", nofun⟩
  severity := ⟨str "high", nofun⟩
  confirmedAt := confirmed
  summary := none
  consequenceKinds := []
  operatingStatus := none
  reportRef := none
  reportedAt := none
  traceId := none

/-- The incident, twice. -/
def restated : List RecordedAct :=
  [.incident (str "t") (outage none), .incident (str "t") (outage (some (str "c")))]

/-- One view of two rows. -/
theorem incidentRegister_restated :
    letI := Interpreter.plain
    letI := Sha256.hashlib
    ∃ entries views, recordAll [] restated = .ok entries ∧
      scanIncidents ⟨loadsBytes, fun _ => false⟩ entries = .ok ⟨views, []⟩ ∧
      views.map (fun view => view.incidentId.val) = [str "i-1"] := by
  let _ := Interpreter.plain
  let _ := Sha256.hashlib
  have hok : (recordAll [] restated).toOption.isSome = true := by decide +kernel
  rcases hrecorded : recordAll [] restated with e | entries
  · rw [hrecorded] at hok
    cases hok
  · obtain ⟨views, hviews, -, hids, -⟩ :=
      incidentRegister ⟨loadsBytes, fun _ => false⟩ rfl restated entries hrecorded
    refine ⟨entries, views, rfl, hviews, ?_⟩
    rw [show (fun view : IncidentView => view.incidentId.val) = Subtype.val ∘ IncidentView.incidentId
      from rfl, ← List.map_map, hids]
    decide +kernel

end Waxseal
