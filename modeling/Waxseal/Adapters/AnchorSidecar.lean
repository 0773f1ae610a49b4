import Waxseal.Base.JsonRecords
import Waxseal.Base.SurrogatePairs
import Waxseal.Domain.Checkpoint

/-!
# The sidecar of the anchors

The `.anchors` file of `adapters/anchors.py`: a record a line, each at the lowest version that
can carry its checkpoint.  `read_anchor_records` keeps the records it cannot read apart from
those it can; a line that is no record at all is raised.

What is written is read back (`readAnchorRecords_fileBytes`), with the surrogate pairs of its
texts joined (`readAnchorRecords_lines`).
-/

namespace Waxseal

open Json

/-! ## Records -/

/-- `AnchorRecord`. -/
structure SidecarRecord where
  checkpoint : Checkpoint
  sink : PyStr
  receipt : Option PyStr
  ts : PyStr
  version : ℤ
  nonce : Option ℤ
  deriving DecidableEq

/-- `AnchorSidecar`. -/
structure AnchorSidecar where
  records : List SidecarRecord
  unreadableVersions : List PyStr
  deriving DecidableEq

namespace SidecarRecord

/-- The version a checkpoint is recorded at. -/
def versionFor (cp : Checkpoint) : ℤ := if cp.aggCommit.isSome then 2 else 1

/-- The record of a checkpoint that was published, as `_record_obj` makes it. -/
def of (cp : Checkpoint) (sink : PyStr) (receipt : Option PyStr) (ts : PyStr)
    (nonce : Option ℤ) : SidecarRecord := ⟨cp, sink, receipt, ts, versionFor cp, nonce⟩

/-- A string or `null`. -/
def strOrNull : Option PyStr → Json
  | none => .null
  | some s => .str s

/-- The aggregate binding of a checkpoint. -/
def bindingMembers (cp : Checkpoint) : List (PyStr × Json) :=
  match cp.aggCommit, cp.aggEpoch with
  | some aggCommit, some aggEpoch =>
      [(str "agg_commit", .str aggCommit), (str "agg_epoch", .int aggEpoch)]
  | _, _ => []

/-- The nonce, as a decimal string. -/
def nonceMembers : Option ℤ → List (PyStr × Json)
  | some nonce => [(str "nonce", .str (strInt nonce))]
  | none => []

/-- `_record_obj(...)`, in the order of the names. -/
def members (r : SidecarRecord) : List (PyStr × Json) :=
  bindingMembers r.checkpoint ++ (str "entry_hash", .str r.checkpoint.entryHash) ::
    (nonceMembers r.nonce ++ [(str "receipt", strOrNull r.receipt),
      (str "root", .str r.checkpoint.root), (str "seq", .int r.checkpoint.seq),
      (str "sink", .str r.sink), (str "ts", .str r.ts), (str "v", .int r.version)])

end SidecarRecord

/-! ## Reading -/

section Reader

variable [Interpreter]

/-- `_optional_str(obj, key)`. -/
def getOptionalStr (obj : Json) (key : PyStr) : Except PyErr (Option PyStr) := do
  match ← get? obj key with
  | .null => return none
  | value => return some (pyStr value)

/-- `_optional_int(obj, key)`. -/
def getOptionalInt (obj : Json) (key : PyStr) : Except PyErr (Option ℤ) := do
  match ← get? obj key with
  | .null => return none
  | value => return some (← pyInt value)

/-- `obj.get(key, default)`. -/
def getOr (obj : Json) (key : PyStr) (default : Json) : Json :=
  match getItem obj key with
  | .ok value => value
  | .error _ => default

/-- `Checkpoint(...)`: half an aggregate binding is refused. -/
def Checkpoint.new (seq : ℤ) (entryHash root : PyStr) (aggCommit : Option PyStr)
    (aggEpoch : Option ℤ) : Except PyErr Checkpoint :=
  if h : aggCommit.isSome = aggEpoch.isSome then .ok ⟨seq, entryHash, root, aggCommit, aggEpoch, h⟩
  else .error .valueError

/-- `version in _KNOWN_RECORD_VERSIONS`; what cannot be hashed raises. -/
def isKnownVersion : Json → Except PyErr Bool
  | .arr _ | .obj _ => .error .typeError
  | version => .ok (version.eqNat 1 || version.eqNat 2)

/-- One object of the sidecar: a record, or the version that could not be read. -/
def readAnchorRecord (obj : Json) : Except PyErr (PyStr ⊕ SidecarRecord) :=
  match obj with
  | .obj _ => do
      let version := getOr obj (str "v") (.int 1)
      if !(← isKnownVersion version) then return .inl (pyStr version)
      else do
        let seq ← pyInt (← getItem obj (str "seq"))
        let entryHash ← getItem obj (str "entry_hash")
        let root ← getItem obj (str "root")
        let aggCommit ← getOptionalStr obj (str "agg_commit")
        let aggEpoch ← getOptionalInt obj (str "agg_epoch")
        let checkpoint ← Checkpoint.new seq (pyStr entryHash) (pyStr root) aggCommit aggEpoch
        let receipt ← getOptionalStr obj (str "receipt")
        let version ← pyInt version
        let nonce ← getOptionalInt obj (str "nonce")
        return .inr ⟨checkpoint, pyStr (getOr obj (str "sink") (.str (str "unknown"))), receipt,
          pyStr (getOr obj (str "ts") (.str [])), version, nonce⟩
  | _ => .error .valueError

/-- What the reader makes of the objects. -/
def AnchorSidecar.ofLines (lines : List (PyStr ⊕ SidecarRecord)) : AnchorSidecar :=
  ⟨lines.filterMap Sum.getRight?, lines.filterMap Sum.getLeft?⟩

omit [Interpreter] in
theorem AnchorSidecar.ofLines_inr (records : List SidecarRecord) :
    ofLines (records.map .inr) = ⟨records, []⟩ := by
  have hright : Sum.getRight? ∘ (Sum.inr : SidecarRecord → PyStr ⊕ SidecarRecord) = some := by
    funext r
    rfl
  have hleft : Sum.getLeft? ∘ (Sum.inr : SidecarRecord → PyStr ⊕ SidecarRecord)
      = fun _ => none := by
    funext r
    rfl
  rw [ofLines, List.filterMap_map, List.filterMap_map, hright, hleft, List.filterMap_some,
    List.filterMap_none]

/-- `read_anchor_records`; a file that does not exist holds nothing. -/
def readAnchorRecords (file : Option Bytes) : Except PyErr AnchorSidecar :=
  match file with
  | none => .ok ⟨[], []⟩
  | some file => (readLines readAnchorRecord file).map .ofLines

theorem readAnchorRecords_getD (file : Option Bytes) :
    readAnchorRecords file = readAnchorRecords (some (file.getD [])) := by
  cases file <;> rfl

end Reader

/-! ## Reading back -/

namespace SidecarRecord

variable [Interpreter]

/-- A record whose line can be read back. -/
structure Storable (r : SidecarRecord) : Prop where
  version : r.version = versionFor r.checkpoint
  entryHash : NoSurrogatePair r.checkpoint.entryHash
  root : NoSurrogatePair r.checkpoint.root
  aggCommit : ∀ s ∈ r.checkpoint.aggCommit, NoSurrogatePair s
  sink : NoSurrogatePair r.sink
  receipt : ∀ s ∈ r.receipt, NoSurrogatePair s
  ts : NoSurrogatePair r.ts
  /-- `int` reads the nonce that `str` wrote. -/
  nonce : ∀ n ∈ r.nonce, strToInt (strInt n) = .ok n

omit [Interpreter] in
/-- A text or `null` can be written. -/
theorem writable_strOrNull {s : Option PyStr} (h : ∀ t ∈ s, NoSurrogatePair t) :
    Writable 0 (strOrNull s) := by
  cases s with
  | none => trivial
  | some t => exact h t rfl

omit [Interpreter] in
theorem writable_bindingMembers {cp : Checkpoint} (h : ∀ s ∈ cp.aggCommit, NoSurrogatePair s) :
    ∀ m ∈ bindingMembers cp, NoSurrogatePair m.1 ∧ Writable 0 m.2 := by
  unfold bindingMembers
  split
  · next commit epoch hcommit hepoch =>
      simp only [List.forall_mem_cons, List.not_mem_nil, false_imp_iff, implies_true, and_true]
      exact ⟨⟨noSurrogatePair_str rfl, h commit hcommit⟩, noSurrogatePair_str rfl, trivial⟩
  · exact List.forall_mem_nil _

omit [Interpreter] in
theorem writable_nonceMembers (nonce : Option ℤ) :
    ∀ m ∈ nonceMembers nonce, NoSurrogatePair m.1 ∧ Writable 0 m.2 := by
  cases nonce with
  | none => exact List.forall_mem_nil _
  | some n =>
      rw [nonceMembers, List.forall_mem_singleton]
      exact ⟨noSurrogatePair_str rfl, noSurrogatePair_of_printable fun c hc => isPrintable_strInt hc⟩

omit [Interpreter] in
/-- Each name occurs once. -/
theorem nodup_members (r : SidecarRecord) : (r.members.map Prod.fst).Nodup := by
  obtain ⟨⟨seq, entryHash, root, aggCommit, aggEpoch, both⟩, sink, receipt, ts, version, nonce⟩ := r
  cases nonce <;> cases aggCommit <;> cases aggEpoch <;> simp only [members, bindingMembers,
    nonceMembers, List.map_cons, List.map_nil, List.nil_append, List.cons_append] <;> decide

theorem writable_members {r : SidecarRecord} (h : r.Storable) :
    Writable recursionLimit (.obj r.members) := by
  refine writable_flat _ (nodup_members r) rfl ?_
  rw [members, List.forall_mem_append, List.forall_mem_cons, List.forall_mem_append]
  refine ⟨writable_bindingMembers h.aggCommit, ⟨noSurrogatePair_str rfl, h.entryHash⟩,
    writable_nonceMembers r.nonce, ?_⟩
  simp only [List.forall_mem_cons, List.not_mem_nil, false_imp_iff, implies_true, and_true]
  exact ⟨⟨noSurrogatePair_str rfl, writable_strOrNull h.receipt⟩, ⟨noSurrogatePair_str rfl, h.root⟩,
    ⟨noSurrogatePair_str rfl, trivial⟩, ⟨noSurrogatePair_str rfl, h.sink⟩,
    ⟨noSurrogatePair_str rfl, h.ts⟩, noSurrogatePair_str rfl, trivial⟩

/-- What is left to the interpreter is the nonce. -/
theorem bind_nonce {n : ℤ} (h : strToInt (strInt n) = .ok n)
    (go : Option ℤ → Except PyErr (PyStr ⊕ SidecarRecord)) :
    ((strToInt (strInt n) >>= fun k => pure (some k)) >>= go) = go (some n) := by
  rw [h]
  rfl

/-- **A record is read back.** -/
theorem read_members {r : SidecarRecord} (h : r.Storable) :
    readAnchorRecord (.obj r.members) = .ok (.inr r) := by
  obtain ⟨⟨seq, entryHash, root, aggCommit, aggEpoch, both⟩, sink, receipt, ts, version, nonce⟩ := r
  obtain ⟨hversion, -, -, -, -, -, -, hnonce⟩ := h
  obtain rfl : version = versionFor ⟨seq, entryHash, root, aggCommit, aggEpoch, both⟩ := hversion
  rcases aggCommit with - | commit <;> rcases aggEpoch with - | epoch
  · cases nonce with
    | none => cases receipt <;> rfl
    | some n => cases receipt <;> exact bind_nonce (hnonce n rfl) _
  · cases both
  · cases both
  · cases nonce with
    | none => cases receipt <;> rfl
    | some n => cases receipt <;> exact bind_nonce (hnonce n rfl) _

/-- The format of the sidecar; records of other versions are never written. -/
def format : RecordFormat (PyStr ⊕ SidecarRecord) where
  members := Sum.elim (fun _ => []) members
  read := readAnchorRecord
  Storable := Sum.elim (fun _ => False) Storable
  writable {line} h := by
    cases line with
    | inl version => exact h.elim
    | inr r => exact writable_members h
  read_members {line} h := by
    cases line with
    | inl version => exact h.elim
    | inr r => exact read_members h

/-- The sidecar that holds some records. -/
def fileBytes (records : List SidecarRecord) : Bytes := format.fileBytes (records.map .inr)

/-- The line of a record. -/
def line (r : SidecarRecord) : Bytes := asciiBytes (dumps .compact (.obj r.members)) ++ [LF]

theorem fileBytes_append (records more : List SidecarRecord) :
    fileBytes (records ++ more) = fileBytes records ++ more.flatMap line := by
  rw [fileBytes, List.map_append, RecordFormat.fileBytes, List.flatMap_append, ← RecordFormat.fileBytes,
    ← fileBytes, List.flatMap_map]
  rfl

/-- **The records that were written are read back**, and no version is unreadable. -/
theorem readAnchorRecords_fileBytes {records : List SidecarRecord} (h : ∀ r ∈ records, r.Storable) :
    readAnchorRecords (some (fileBytes records)) = .ok ⟨records, []⟩ := by
  have hlines : ∀ l ∈ records.map (Sum.inr (α := PyStr)), format.Storable l := by
    simpa [format] using h
  have hread := RecordFormat.readLines_fileBytes hlines
  show (readLines readAnchorRecord (fileBytes records)).map _ = _
  rw [show readLines readAnchorRecord (fileBytes records) = .ok (records.map .inr) from hread]
  exact congrArg Except.ok (AnchorSidecar.ofLines_inr records)

/-! ## Any text -/

omit [Interpreter] in
/-- The checkpoint with the surrogate pairs of its texts joined. -/
def joinedCheckpoint (cp : Checkpoint) : Checkpoint where
  seq := cp.seq
  entryHash := joinPairs cp.entryHash
  root := joinPairs cp.root
  aggCommit := cp.aggCommit.map joinPairs
  aggEpoch := cp.aggEpoch
  both := by rw [Option.isSome_map, cp.both]

omit [Interpreter] in
/-- The record with the surrogate pairs of its texts joined. -/
def joined (r : SidecarRecord) : SidecarRecord :=
  { r with
    checkpoint := joinedCheckpoint r.checkpoint
    sink := joinPairs r.sink
    receipt := r.receipt.map joinPairs
    ts := joinPairs r.ts }

/-- A record as a sink files it: `int` reads the nonce that `str` wrote. -/
structure Filed (r : SidecarRecord) : Prop where
  version : r.version = versionFor r.checkpoint
  nonce : ∀ n ∈ r.nonce, strToInt (strInt n) = .ok n

theorem storable_joined {r : SidecarRecord} (h : r.Filed) : r.joined.Storable where
  version := by
    rw [show r.joined.version = r.version from rfl, h.version, versionFor, versionFor]
    show _ = if (r.checkpoint.aggCommit.map joinPairs).isSome then (2 : ℤ) else 1
    rw [Option.isSome_map]
  entryHash := noSurrogatePair_joinPairs _
  root := noSurrogatePair_joinPairs _
  aggCommit s hs := by
    obtain ⟨t, -, rfl⟩ := Option.map_eq_some_iff.mp hs
    exact noSurrogatePair_joinPairs t
  sink := noSurrogatePair_joinPairs _
  receipt s hs := by
    obtain ⟨t, -, rfl⟩ := Option.map_eq_some_iff.mp hs
    exact noSurrogatePair_joinPairs t
  ts := noSurrogatePair_joinPairs _
  nonce := h.nonce

/-- The joined record is written the same way. -/
theorem line_joined (r : SidecarRecord) : r.joined.line = r.line := by
  obtain ⟨⟨seq, entryHash, root, aggCommit, aggEpoch, both⟩, sink, receipt, ts, version, nonce⟩ := r
  rw [line, line]
  cases aggCommit <;> cases aggEpoch <;> cases nonce <;> cases receipt <;>
    simp only [joined, joinedCheckpoint, members, bindingMembers, nonceMembers, strOrNull,
      Option.map_none, Option.map_some, List.nil_append, List.cons_append, dumps, dumpsMembers,
      dumpsStr_joinPairs]

/-- The lines of some records are the sidecar of the joined ones. -/
theorem flatMap_line (records : List SidecarRecord) :
    records.flatMap line = fileBytes (records.map joined) := by
  have hjoined := fileBytes_append [] (records.map joined)
  rw [List.flatMap_map] at hjoined
  rw [← List.nil_append (records.map joined), hjoined]
  show _ = records.flatMap fun r => r.joined.line
  exact List.flatMap_congr fun r _ => (line_joined r).symm

/-- **Whatever sinks filed is read back**, with the surrogate pairs of its texts joined. -/
theorem readAnchorRecords_lines {records : List SidecarRecord} (h : ∀ r ∈ records, r.Filed) :
    readAnchorRecords (some (records.flatMap line)) = .ok ⟨records.map joined, []⟩ := by
  rw [flatMap_line]
  refine readAnchorRecords_fileBytes (List.forall_mem_map.mpr fun r hr => ?_)
  exact storable_joined (h r hr)

end SidecarRecord

end Waxseal
