import Waxseal.Sources.RotationSound

/-!
# What is reported about a sound directory

Each listed segment of a sound directory is in one of three situations, and each of them
has its outcome: no reader gets past its file (`outcome_of_stuck`); it opens with a
rotation entry, and the binding holds or cannot be checked (`outcome_of_opensBound`); it
opens with anything else, and only the first of the list may do that
(`outcome_of_opensUnbound`).
-/

namespace Waxseal

open Json

variable [Interpreter] [Hashlib]

/-- The file opens with a rotation entry. -/
def OpensWithBinding (file : Bytes) : Prop :=
  ∃ es e, Holds file es ∧ GenuineTrail es ∧ es.head? = some e ∧
    e.header.payloadType = rotationPayloadType

/-- The directory has a listed name, and this is what was read there. -/
structure ReadAt (dir : Directory) (reads : List SegmentRead) (i : ℕ) (name : PyStr)
    (read : SegmentRead) : Prop where
  listed : (discoverSegments dir)[i]? = some name
  got : reads[i]? = some read
  source : readSegment name (fileOf dir name) = .ok read

theorem ReadAt.of_getElem? {dir : Directory} {reads : List SegmentRead}
    (hreads : readSegments dir = .ok reads) {i : ℕ} {read : SegmentRead}
    (h : reads[i]? = some read) : ∃ name, ReadAt dir reads i name read := by
  have hforall := readSegments_eq_ok_iff.mp hreads
  obtain ⟨hlt, hread⟩ := List.getElem?_eq_some_iff.mp h
  have hlt' : i < (discoverSegments dir).length := by rw [hforall.length_eq]; exact hlt
  have hsource := (List.forall₂_iff_get.mp hforall).2 i hlt' hlt
  refine ⟨(discoverSegments dir)[i], List.getElem?_eq_getElem hlt', h, ?_⟩
  rw [← hread]
  exact hsource

theorem ReadAt.of_listed {dir : Directory} {reads : List SegmentRead}
    (hreads : readSegments dir = .ok reads) {i : ℕ} {name : PyStr}
    (h : (discoverSegments dir)[i]? = some name) : ∃ read, ReadAt dir reads i name read := by
  have hforall := readSegments_eq_ok_iff.mp hreads
  obtain ⟨hlt, hname⟩ := List.getElem?_eq_some_iff.mp h
  have hlt' : i < reads.length := by rw [← hforall.length_eq]; exact hlt
  have hsource := (List.forall₂_iff_get.mp hforall).2 i hlt hlt'
  refine ⟨reads[i], h, List.getElem?_eq_getElem hlt', ?_⟩
  rw [← hname]
  exact hsource

omit [Interpreter] [Hashlib] in
/-- A segment is listed with its successors. -/
theorem mem_discoverSegments_of_precedes {dir : Directory} {pred name : PyStr}
    (hprecedes : Precedes pred name) (hname : name ∈ dir) (hpred : pred ∈ dir) :
    pred ∈ discoverSegments dir := by
  obtain ⟨stem, ordinal, hstem, hlt, rfl, rfl | ⟨older, -, hlt', rfl⟩⟩ := hprecedes
  · exact mem_discoverSegments.mpr
      ⟨hpred, .inr ⟨stem, rfl, _, hname, stemOf_segmentFile hstem hlt⟩⟩
  · refine mem_discoverSegments.mpr ⟨hpred, .inl ?_⟩
    rw [stemOf_segmentFile hstem hlt']
    rfl

section Reports

variable {slug : PyStr} {dir : Directory} {reads : List SegmentRead} {i : ℕ} {name : PyStr}
  {read : SegmentRead}

/-- The state of a verifying segment whose first entry is no binding, or whose binding
holds. -/
def cleanState (name : PyStr) : SegmentState := ⟨segmentIdentity name, .ok, none, none⟩

/-- A segment whose predecessor cannot be read. -/
def uncheckedState (name : PyStr) : SegmentState :=
  ⟨segmentIdentity name, .unverifiable, some .bindingUnchecked, some 0⟩

/-- A segment that should open with a binding. -/
def unboundState (name : PyStr) : SegmentState :=
  ⟨segmentIdentity name, .broken, some .bindingMissing, some 0⟩

/-- A segment no reader gets past. -/
def unreadableState (name : PyStr) : SegmentState :=
  ⟨segmentIdentity name, .unverifiable, some .segmentUnreadable, none⟩

/-- What a segment this build wrote looks like to the verifier. -/
theorem read_of_holds {es : List Entry} (hread : readSegment name (fileOf dir name) = .ok read)
    (hholds : Holds (fileOf dir name) es) (hgenuine : GenuineTrail es) :
    read.identity = segmentIdentity name ∧
      read.chain = some ⟨true, es.length, none, none, [], none, none⟩ ∧
      read.entryHashes = es.map Entry.entryHash ∧
      read.genesisPayloadType = (es.head?.map fun e => e.header.payloadType) ∧
      genesisPayload es = .ok read.genesisPayload := by
  rw [readSegment_of_holds hholds hgenuine] at hread
  cases hpayload : genesisPayload es with
  | error e =>
      rw [hpayload] at hread
      cases hread
  | ok payload =>
      rw [hpayload] at hread
      obtain rfl := Except.ok.inj hread
      exact ⟨rfl, rfl, rfl, rfl, rfl⟩

theorem outcome_of_stuck (hread : ReadAt dir reads i name read)
    (hstuck : Stuck (fileOf dir name)) :
    segmentOutcome (presentIn reads) i read = (unreadableState name, none) := by
  have hchain := readSegment_of_stuck hstuck hread.source
  rw [segmentOutcome, hchain, identity_readSegment hread.source]
  rfl

/-- The outcome of a segment this build wrote is that of its binding. -/
theorem outcome_of_finding {es : List Entry} (hread : ReadAt dir reads i name read)
    (hholds : Holds (fileOf dir name) es) (hgenuine : GenuineTrail es)
    (finding : Option SegmentState)
    (hfinding : bindingFinding (presentIn reads) i read = (finding, none)) :
    segmentOutcome (presentIn reads) i read = (finding.getD (cleanState name), none) := by
  obtain ⟨hid, hchain, -⟩ := read_of_holds hread.source hholds hgenuine
  simp only [segmentOutcome, hchain, hfinding, hid]
  cases finding <;> rfl

theorem outcome_of_opensUnbound (hdir : DirSound slug dir) (hread : ReadAt dir reads i name read)
    (hstuck : ¬ Stuck (fileOf dir name)) (hopens : ¬ OpensWithBinding (fileOf dir name)) :
    segmentOutcome (presentIn reads) i read =
      (if i = 0 then cleanState name else unboundState name, none) := by
  obtain ⟨es, hholds, hgenuine⟩ := (hdir.files name).resolve_right hstuck
  obtain ⟨hid, -, -, htype, -⟩ := read_of_holds hread.source hholds hgenuine
  have hne : read.genesisPayloadType ≠ some rotationPayloadType := by
    rw [htype]
    intro heq
    obtain ⟨e, he, hrotation⟩ := Option.map_eq_some_iff.mp heq
    exact hopens ⟨es, e, hholds, hgenuine, he, hrotation⟩
  by_cases hi : i = 0
  · rw [if_pos hi]
    refine outcome_of_finding hread hholds hgenuine none ?_
    rw [bindingFinding, if_pos hne, if_pos hi]
  · rw [if_neg hi]
    refine outcome_of_finding hread hholds hgenuine (some (unboundState name)) ?_
    rw [bindingFinding, if_pos hne, if_neg hi, hid]
    rfl

/-- **A binding that was written holds**, unless the closing segment cannot be read any
more. -/
theorem outcome_of_opensBound (hdir : DirSound slug dir) (hreads : readSegments dir = .ok reads)
    (hread : ReadAt dir reads i name read) (hopens : OpensWithBinding (fileOf dir name)) :
    segmentOutcome (presentIn reads) i read = (cleanState name, none) ∨
      (segmentOutcome (presentIn reads) i read = (uncheckedState name, none) ∧
        ∃ pred ∈ dir, Stuck (fileOf dir pred)) := by
  obtain ⟨es, e, hholds, hgenuine, hfirst, hrotation⟩ := hopens
  obtain ⟨binding, hpayload, ⟨pred, hnames, hprecedes, hpins⟩⟩ :=
    hdir.genesis name es hholds hgenuine e hfirst hrotation
  obtain ⟨hid, -, -, htype, hgenesis⟩ := read_of_holds hread.source hholds hgenuine
  have htype' : read.genesisPayloadType = some rotationPayloadType := by
    rw [htype, hfirst, Option.map_some, hrotation]
  have hdecoded : read.genesisPayload = some (sortKeys binding.toPayload) := by
    obtain ⟨rest, rfl⟩ : ∃ rest, es = e :: rest := List.head?_eq_some_iff.mp hfirst
    rw [genesisPayload, hpayload, decodePayload_canonicalJson hnames.text] at hgenesis
    exact (Except.ok.inj hgenesis).symm
  have hname : name ∈ dir := (mem_discoverSegments.mp (List.mem_of_getElem? hread.listed)).1
  obtain ⟨predRead, hpredRead, hpresent⟩ := presentIn_of_mem hreads
    (mem_discoverSegments_of_precedes hprecedes hname hpins.present)
  have hnamed := namedIdentity_eq hnames.slash hnames.chainId
  have hfinding : bindingFinding (presentIn reads) i read =
      if predRead.chain = none then (some (uncheckedState name), none)
      else if binding.holds predRead.entryHashes = false then
        (some ⟨segmentIdentity name, .broken, some .bindingMismatch, some 0⟩, none)
      else (none, none) := by
    simp only [bindingFinding, htype', hdecoded, Option.getD_some, fromPayload_sortKeys_toPayload,
      hnamed, hpresent, hid, ne_eq, not_true, if_false]
    rfl
  rcases hdir.files pred with ⟨predEs, hpredHolds, hpredGenuine⟩ | hstuck
  · obtain ⟨-, hchain, hhashes, -⟩ := read_of_holds hpredRead hpredHolds hpredGenuine
    have hbound := hpins.holds predEs hpredHolds hpredGenuine
    refine .inl (outcome_of_finding hread hholds hgenuine none ?_)
    rw [hfinding, hchain, hhashes, hbound, if_neg (by simp), if_neg (by simp)]
  · have hchain := readSegment_of_stuck hstuck hpredRead
    refine .inr ⟨outcome_of_finding hread hholds hgenuine (some (uncheckedState name)) ?_,
      pred, hpins.present, hstuck⟩
    rw [hfinding, hchain, if_pos rfl]

/-- **No break is reported** when every listed segment but the first opens with a rotation
entry or cannot be read. -/
theorem verdict_ne_broken (hdir : DirSound slug dir) (hreads : readSegments dir = .ok reads)
    (hlisted : ∀ i name, (discoverSegments dir)[i]? = some name → 0 < i →
      Stuck (fileOf dir name) ∨ OpensWithBinding (fileOf dir name)) :
    (verifySegments reads).verdict ≠ .broken := by
  intro hbroken
  obtain ⟨s, hs, hverdict⟩ := verdict_eq_broken_iff.mp hbroken
  obtain ⟨i, read, hi, hstate⟩ := mem_verifySegmentsLoop hs
  obtain ⟨name, hread⟩ := ReadAt.of_getElem? hreads hi
  rw [Nat.zero_add] at hstate
  have key : ∀ state, segmentOutcome (presentIn reads) i read = (state, none) →
      state.state.verdict ≠ .broken → False := by
    intro state hout hne
    rw [hout] at hstate
    rcases hstate with rfl | ⟨missing, hmissing, -⟩
    · exact hne hverdict
    · cases hmissing
  by_cases hstuck : Stuck (fileOf dir name)
  · exact key _ (outcome_of_stuck hread hstuck) nofun
  · by_cases hopens : OpensWithBinding (fileOf dir name)
    · rcases outcome_of_opensBound hdir hreads hread hopens with hout | ⟨hout, -⟩
      · exact key _ hout nofun
      · exact key _ hout nofun
    · have hzero : i = 0 := by
        by_contra hne
        exact (hlisted i name hread.listed (Nat.pos_of_ne_zero hne)).elim hstuck hopens
      have hout := outcome_of_opensUnbound hdir hread hstuck hopens
      rw [if_pos hzero] at hout
      exact key _ hout nofun

/-- **Every segment is reported ok** exactly when every listed segment but the first opens
with a rotation entry, where all of them can be read. -/
theorem forall_ok_iff (hdir : DirSound slug dir) (hreads : readSegments dir = .ok reads)
    (hstuck : ∀ name, ¬ Stuck (fileOf dir name)) :
    (∀ s ∈ (verifySegments reads).segments, s.state = .ok) ↔
      ∀ i name, (discoverSegments dir)[i]? = some name → 0 < i →
        OpensWithBinding (fileOf dir name) := by
  constructor
  · intro hok i name hname hpos
    by_contra hopens
    obtain ⟨read, hread⟩ := ReadAt.of_listed hreads hname
    have hout := outcome_of_opensUnbound hdir hread (hstuck name) hopens
    rw [if_neg (Nat.pos_iff_ne_zero.mp hpos)] at hout
    obtain ⟨hreport, -⟩ :=
      @verifySegmentsLoop_reports (presentIn reads) reads 0 i [] read hread.got
    rw [Nat.zero_add, hout] at hreport
    exact absurd (hok _ hreport) (by simp [unboundState])
  · intro hlisted s hs
    obtain ⟨i, read, hi, hstate⟩ := mem_verifySegmentsLoop hs
    obtain ⟨name, hread⟩ := ReadAt.of_getElem? hreads hi
    rw [Nat.zero_add] at hstate
    have hout : segmentOutcome (presentIn reads) i read = (cleanState name, none) := by
      by_cases hopens : OpensWithBinding (fileOf dir name)
      · refine (outcome_of_opensBound hdir hreads hread hopens).resolve_right ?_
        rintro ⟨-, pred, -, hpred⟩
        exact hstuck pred hpred
      · have hzero : i = 0 := by
          by_contra hne
          exact hopens (hlisted i name hread.listed (Nat.pos_of_ne_zero hne))
        rw [outcome_of_opensUnbound hdir hread (hstuck name) hopens, if_pos hzero]
    rw [hout] at hstate
    rcases hstate with rfl | ⟨missing, hmissing, -⟩
    · rfl
    · cases hmissing

end Reports

end Waxseal
