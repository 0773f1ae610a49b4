import Waxseal.Log.GenuineTrail
import Waxseal.Sources.SegmentFiles

/-!
# `waxseal segments`

`cli/segments.py`: the segments of a directory, each read off its file, and the report
about all of them.  A segment whose lines cannot be parsed is reported without a chain; an
exception `_read_segment` does not catch ends the command.
-/

namespace Waxseal

open Json

variable [Interpreter] [Hashlib]

/-- `_decode_payload(payload)`. -/
def decodePayload (payload : Option Bytes) : Except PyErr (Option Json) :=
  match payload with
  | none => .ok none
  | some payload =>
      match loadsBytes payload with
      | .ok decoded => .ok (some decoded)
      | .error e => if e.isValueError then .ok none else .error e

/-- `log._verify_and_entries()` of a log opened on the file. -/
def verifyAndEntries (file : Bytes) : Except PyErr (VerifyResult × List Entry) := do
  let es ← entries file
  return (← verifyChain es .new, es)

/-- The exceptions `_read_segment` turns into a segment without a chain. -/
def PyErr.isUnreadable (e : PyErr) : Bool :=
  e.isValueError || e == .keyError || e == .typeError || e == .osError

/-- The seq-0 payload of a segment. -/
def genesisPayload : List Entry → Except PyErr (Option Json)
  | [] => .ok none
  | e :: _ => decodePayload e.payload

/-- `_read_segment(path)`. -/
def readSegment (name : PyStr) (file : Bytes) : Except PyErr SegmentRead :=
  match verifyAndEntries file with
  | .error e =>
      if e.isUnreadable then .ok ⟨segmentIdentity name, none, [], none, none⟩ else .error e
  | .ok (result, es) => do
      let payload ← genesisPayload es
      return {
        identity := segmentIdentity name
        chain := some result
        entryHashes := es.map Entry.entryHash
        genesisPayloadType := es.head?.map fun e => e.header.payloadType
        genesisPayload := payload }

/-- The segments `_segments` hands to `verify_segments`. -/
def readSegments (dir : Directory) : Except PyErr (List SegmentRead) :=
  (discoverSegments dir).mapM fun name => readSegment name (fileOf dir name)

/-- What was read is what the names say, one read a name. -/
theorem readSegments_eq_ok_iff {dir : Directory} {reads : List SegmentRead} :
    readSegments dir = .ok reads ↔
      List.Forall₂ (fun name read => readSegment name (fileOf dir name) = .ok read)
        (discoverSegments dir) reads := by
  unfold readSegments
  generalize discoverSegments dir = names
  induction names generalizing reads with
  | nil =>
      rw [List.mapM_nil]
      exact ⟨fun h => Except.ok.inj h ▸ .nil, fun h => by cases h; rfl⟩
  | cons name names ih =>
      rw [List.mapM_cons, bind_eq_ok_iff]
      constructor
      · rintro ⟨read, hread, h⟩
        obtain ⟨rest, hrest, h⟩ := bind_eq_ok_iff.mp h
        obtain rfl := Except.ok.inj h
        exact .cons hread (ih.mp hrest)
      · intro h
        cases h with
        | cons hread hrest => exact ⟨_, hread, bind_eq_ok_iff.mpr ⟨_, ih.mpr hrest, rfl⟩⟩

theorem identity_readSegment {name : PyStr} {file : Bytes} {read : SegmentRead}
    (h : readSegment name file = .ok read) : read.identity = segmentIdentity name := by
  unfold readSegment at h
  split at h
  · split_ifs at h
    exact (congrArg SegmentRead.identity (Except.ok.inj h)).symm
  · obtain ⟨genesis, -, h⟩ := bind_eq_ok_iff.mp h
    exact (congrArg SegmentRead.identity (Except.ok.inj h)).symm

/-- A file no reader gets past is a segment without a chain. -/
theorem readSegment_of_stuck {name : PyStr} {file : Bytes} {read : SegmentRead}
    (hstuck : Stuck file) (h : readSegment name file = .ok read) : read.chain = none := by
  unfold readSegment at h
  split at h
  · split_ifs at h
    exact (congrArg SegmentRead.chain (Except.ok.inj h)).symm
  · next result es hread =>
      obtain ⟨es', hentries, -⟩ := bind_eq_ok_iff.mp hread
      exact absurd hentries (hstuck.entries es')

/-- **Reading a file this build wrote.** -/
theorem readSegment_of_holds {name : PyStr} {file : Bytes} {es : List Entry}
    (hholds : Holds file es) (hgenuine : GenuineTrail es) :
    readSegment name file = (genesisPayload es).map fun payload => ({
      identity := segmentIdentity name
      chain := some ⟨true, es.length, none, none, [], none, none⟩
      entryHashes := es.map Entry.entryHash
      genesisPayloadType := es.head?.map fun e => e.header.payloadType
      genesisPayload := payload } : SegmentRead) := by
  have hverify : verifyAndEntries file = .ok (⟨true, es.length, none, none, [], none, none⟩, es) := by
    simp only [verifyAndEntries, hholds.entries hgenuine.storable, verifyChain_genuine hgenuine,
      bind, Except.bind]
    rfl
  unfold readSegment
  rw [hverify]
  rfl

/-! ## Bindings, written and read back -/

omit [Interpreter] [Hashlib] in
/-- The payload of a binding is written with its keys sorted. -/
theorem sortKeys_toPayload (binding : HandoffBinding) :
    sortKeys binding.toPayload = .obj [(str "chain_id", .str binding.chainId),
      (str "head_hash", .str binding.headHash), (str "seq", .int binding.seq)] := rfl

omit [Hashlib] in
/-- **A binding survives its payload.** -/
theorem decodePayload_canonicalJson {binding : HandoffBinding}
    (htext : NoSurrogatePair binding.chainId) :
    decodePayload (some (canonicalJson binding.toPayload)) =
      .ok (some (sortKeys binding.toPayload)) := by
  have hhead : NoSurrogatePair binding.headHash := by
    have hhex := binding.headHash_hex
    simp only [isSha256Hex, Bool.and_eq_true] at hhex
    exact noSurrogatePair_of_isLowerHex hhex.2
  have hwritable : Writable recursionLimit (sortKeys binding.toPayload) := by
    rw [sortKeys_toPayload]
    refine writable_flat [str "chain_id", str "head_hash", str "seq"] (by decide) rfl ?_
    simp only [List.forall_mem_cons, List.not_mem_nil, false_imp_iff, implies_true, and_true]
    exact ⟨⟨noSurrogatePair_str rfl, htext⟩, ⟨noSurrogatePair_str rfl, hhead⟩,
      noSurrogatePair_str rfl, trivial⟩
  have hloads : loadsBytes (canonicalJson binding.toPayload) = .ok (sortKeys binding.toPayload) := by
    rw [sortKeys_toPayload] at hwritable
    rw [canonicalJson, sortKeys_toPayload, loadsBytes_printable (isPrintable_dumps hwritable)]
    have hdecode := @decode_dumps_append _ .compact _ hwritable []
    rwa [List.append_nil, if_pos (show skipWs [] = [] from rfl)] at hdecode
  rw [decodePayload, hloads]

omit [Interpreter] [Hashlib] in
theorem fromPayload_sortKeys_toPayload (binding : HandoffBinding) :
    HandoffBinding.fromPayload (sortKeys binding.toPayload) = .ok binding :=
  HandoffBinding.fromPayload_of_getItem (sortKeys_toPayload binding) rfl rfl rfl

/-- Segments that were read off files with the suffix are found by the identity of their
file. -/
theorem presentIn_of_mem {dir : Directory} {reads : List SegmentRead}
    (hreads : readSegments dir = .ok reads) {name : PyStr} (hname : name ∈ discoverSegments dir) :
    ∃ read, readSegment name (fileOf dir name) = .ok read ∧
      presentIn reads (segmentIdentity name) = some read := by
  have hforall := readSegments_eq_ok_iff.mp hreads
  have hfrom : ∀ read ∈ reads, ∃ name' ∈ discoverSegments dir,
      readSegment name' (fileOf dir name') = .ok read := by
    intro read hread
    obtain ⟨i, hi⟩ := List.getElem?_of_mem hread
    obtain ⟨hlt, rfl⟩ := List.getElem?_eq_some_iff.mp hi
    have hlen := hforall.length_eq
    have hlt' : i < (discoverSegments dir).length := by omega
    exact ⟨(discoverSegments dir)[i], List.getElem_mem hlt', List.forall₂_iff_get.mp hforall
      |>.2 i hlt' hlt⟩
  cases hfind : presentIn reads (segmentIdentity name) with
  | none =>
      obtain ⟨i, hi⟩ := List.getElem?_of_mem hname
      obtain ⟨hlt, hget⟩ := List.getElem?_eq_some_iff.mp hi
      have hlt' : i < reads.length := by
        rw [← hforall.length_eq]
        exact hlt
      have hread := (List.forall₂_iff_get.mp hforall).2 i hlt hlt'
      refine absurd ?_ (presentIn_eq_none.mp hfind _ (List.getElem_mem hlt'))
      rw [← hget]
      exact identity_readSegment hread
  | some read =>
      have hmem : read ∈ reads := List.mem_reverse.mp (List.mem_of_find?_eq_some hfind)
      have hid : read.identity = segmentIdentity name := by
        simpa using List.find?_some hfind
      obtain ⟨name', hname', hread⟩ := hfrom read hmem
      have heq : name' = name := eq_of_segmentIdentity_eq (segmentSuffix_suffix_of_mem hname')
        (segmentSuffix_suffix_of_mem hname) ((identity_readSegment hread).symm.trans hid)
      exact ⟨read, heq ▸ hread, rfl⟩

end Waxseal
