import Waxseal.Cli.Segments
import Waxseal.Sources.Rotation

/-!
# What rotation keeps

The invariant of the writers of `Waxseal.Sources.Rotation`: every file is sound, and a file
that opens with a rotation entry opens with a binding that is in order, of an older segment
that is still there and still holds what was bound (`Bound`).  A binding stays in order
because files only grow (`Pins.insert`), and it is in order when it is settled because it
was read off the tail of the closing segment (`bound_of_settle`).

Three things are asked of a step (`RotationAction.InOrder`): a rotation seals a file with
the `.jsonl` suffix, its redactor leaves bindings alone, and ordinary appends do not use the
payload type of the bindings.
-/

namespace Waxseal

open Json

/-! ## Names -/

theorem noSurrogatePair_of_isHigh {s : PyStr} (h : ∀ c ∈ s, isHigh c.val = false) :
    NoSurrogatePair s := by
  refine List.isChain_iff_getElem.mpr fun i hi => ?_
  have hhigh := h s[i] (List.getElem_mem _)
  simp [hhigh]

theorem isFileName_append {s t : PyStr} : IsFileName (s ++ t) ↔ IsFileName s ∧ IsFileName t := by
  simp only [IsFileName, List.mem_append, or_imp, forall_and, not_or]
  tauto

theorem isFileName_paddedOrdinal (ordinal : ℕ) : IsFileName (paddedOrdinal ordinal) := by
  constructor
  · intro hmem
    exact absurd (isDigit_paddedOrdinal _ hmem) (by decide)
  · intro c hc
    obtain ⟨-, hle⟩ := isDigit_iff.mp (isDigit_paddedOrdinal c hc)
    simp only [isHigh, Bool.and_eq_false_iff, decide_eq_false_iff_not]
    omega

theorem isFileName_of_printable {s : PyStr} (hslash : CodePoint.ofChar '/' ∉ s)
    (h : s.all (fun c => IsPrintable c) = true) : IsFileName s := by
  refine ⟨hslash, fun c hc => ?_⟩
  obtain ⟨-, hle⟩ := of_decide_eq_true (List.all_eq_true.mp h c hc)
  simp only [isHigh, Bool.and_eq_false_iff, decide_eq_false_iff_not]
  omega

theorem isFileName_segmentSuffix : IsFileName segmentSuffix :=
  isFileName_of_printable (by decide) rfl

theorem isFileName_segmentFile {stem : PyStr} (h : IsFileName stem) (ordinal : ℕ) :
    IsFileName (segmentFile stem ordinal) := by
  rw [segmentFile_eq, isFileName_append, isFileName_append, isFileName_append]
  exact ⟨⟨⟨h, isFileName_of_printable (by decide) rfl⟩, isFileName_paddedOrdinal ordinal⟩,
    isFileName_segmentSuffix⟩

theorem IsFileName.of_infix {s t : PyStr} (h : IsFileName t) (hst : s <:+: t) : IsFileName s :=
  ⟨fun hmem => h.1 (hst.subset hmem), fun c hc => h.2 c (hst.subset hc)⟩

theorem segmentIdentity_isPrefix (name : PyStr) : segmentIdentity name <+: name := by
  unfold segmentIdentity
  split_ifs
  · exact List.take_prefix _ _
  · exact List.prefix_refl _

theorem isFileName_baseStem {base : PyStr} (h : IsFileName base) : IsFileName (baseStem base) := by
  cases hstem : stemOf base with
  | none =>
      rw [baseStem, hstem]
      exact h.of_infix (segmentIdentity_isPrefix base).isInfix
  | some stem =>
      obtain ⟨-, ordinal, -, rfl⟩ := stemOf_eq_some_iff.mp hstem
      rw [baseStem, hstem, Option.getD_some]
      rw [segmentFile_eq, List.append_assoc, List.append_assoc] at h
      exact h.of_infix (List.prefix_append _ _).isInfix

variable [Interpreter] [Hashlib]

/-! ## Bindings in order -/

/-- The binding names the file. -/
structure Names (slug pred : PyStr) (binding : HandoffBinding) : Prop where
  chainId : binding.chainId = segmentChainId slug (segmentIdentity pred)
  slash : CodePoint.ofChar '/' ∉ segmentIdentity pred
  text : NoSurrogatePair binding.chainId

/-- One file is an older segment of the trail of the other. -/
def Precedes (pred name : PyStr) : Prop :=
  ∃ stem ordinal, stem ≠ [] ∧ ordinal < 10 ^ segmentDigits ∧ name = segmentFile stem ordinal ∧
    (pred = stem ++ segmentSuffix ∨
      ∃ older < ordinal, older < 10 ^ segmentDigits ∧ pred = segmentFile stem older)

/-- The file is there, and as long as it can be read it holds what was bound. -/
structure Pins (dir : Directory) (pred : PyStr) (binding : HandoffBinding) : Prop where
  present : pred ∈ dir
  holds : ∀ es, Holds (fileOf dir pred) es → GenuineTrail es →
    binding.holds (es.map Entry.entryHash) = true

/-- The binding is one of an older segment of the trail. -/
structure Bound (slug : PyStr) (dir : Directory) (name : PyStr) (binding : HandoffBinding) :
    Prop where
  pred : ∃ pred, Names slug pred binding ∧ Precedes pred name ∧ Pins dir pred binding

/-- If a rotation entry comes first, it is a binding in order. -/
def GenesisInOrder (slug : PyStr) (dir : Directory) (name : PyStr) (es : List Entry) : Prop :=
  ∀ e, es.head? = some e → e.header.payloadType = rotationPayloadType →
    ∃ binding, e.payload = some (canonicalJson binding.toPayload) ∧ Bound slug dir name binding

/-- A directory whose files are sound, and whose bindings are in order. -/
structure DirSound (slug : PyStr) (dir : Directory) : Prop where
  files : ∀ name, FileSound (fileOf dir name)
  genesis : ∀ name es, Holds (fileOf dir name) es → GenuineTrail es → GenesisInOrder slug dir name es

/-- What the redactor makes of a binding is the binding. -/
def LeavesBindings (redactor : Option (Json → Except PyErr Json)) : Prop :=
  ∀ redact ∈ redactor, ∀ (binding : HandoffBinding) payload,
    redact binding.toPayload = .ok payload → payload = binding.toPayload

/-- The invariant. -/
structure SegmentedDir.Sound (slug : PyStr) (w : SegmentedDir) : Prop where
  dir : DirSound slug w.dir
  rotating : ∀ r ∈ w.rotating, LeavesBindings r.config.redactor ∧
    Bound slug w.dir r.successor r.binding

/-- A name with the suffix that is more than the suffix. -/
def IsTrailName (name : PyStr) : Prop := segmentSuffix <:+ name ∧ name ≠ segmentSuffix

/-- What is asked of a step. -/
def RotationAction.InOrder : RotationAction → Prop
  | .lock base _ config => IsTrailName base.val ∧ LeavesBindings config.redactor
  | .append _ call => call.payloadType ≠ rotationPayloadType
  | .open _ _ _ | .bind _ | .crash => True

section Insert

variable {slug : PyStr} {dir : Directory} {name : PyStr} {config : LogConfig} {call : Call}
  {after : Bytes} {es : List Entry} {draft : Draft} {e : Entry}

/-- What a file holds after an append. -/
theorem Extends.holds_after (h : Extends config call (fileOf dir name) after es draft e)
    {es' : List Entry} (hholds : Holds after es') (hgenuine : GenuineTrail es') :
    es' = es ∨ es' = es ++ [e] := by
  rcases h.result with heq | hafter | hstuck
  · rw [heq] at hholds
    exact .inl (hholds.unique h.holds hgenuine.storable h.genuine.storable)
  · exact .inr (hholds.unique hafter hgenuine.storable h.genuine_append.storable)
  · exact absurd hstuck (hholds.not_stuck hgenuine.storable)

/-- **A pin outlives every append.** -/
theorem Pins.insert (h : Extends config call (fileOf dir name) after es draft e) {pred : PyStr}
    {binding : HandoffBinding} (hpins : Pins dir pred binding) :
    Pins (dir.insert name after) pred binding := by
  refine ⟨(AList.mem_insert dir).mpr (.inr hpins.present), fun es' hholds hgenuine => ?_⟩
  by_cases hname : pred = name
  · subst hname
    rw [fileOf_insert] at hholds
    have hbound := hpins.holds es h.holds h.genuine
    rcases h.holds_after hholds hgenuine with rfl | rfl
    · exact hbound
    · rw [List.map_append]
      exact HandoffBinding.holds_append hbound _
  · rw [fileOf_insert_ne after hname] at hholds
    exact hpins.holds es' hholds hgenuine

theorem Bound.insert (h : Extends config call (fileOf dir name) after es draft e) {name' : PyStr}
    {binding : HandoffBinding} (hbound : Bound slug dir name' binding) :
    Bound slug (dir.insert name after) name' binding := by
  obtain ⟨pred, hnames, hprecedes, hpins⟩ := hbound.pred
  exact ⟨pred, hnames, hprecedes, hpins.insert h⟩

theorem GenesisInOrder.insert (h : Extends config call (fileOf dir name) after es draft e)
    {name' : PyStr} {es' : List Entry} (hgenesis : GenesisInOrder slug dir name' es') :
    GenesisInOrder slug (dir.insert name after) name' es' := by
  intro first hfirst htype
  obtain ⟨binding, hpayload, hbound⟩ := hgenesis first hfirst htype
  exact ⟨binding, hpayload, hbound.insert h⟩

/-- **An append keeps the directory sound**, if what it puts first into a file is in order. -/
theorem DirSound.insert (hdir : DirSound slug dir)
    (h : Extends config call (fileOf dir name) after es draft e)
    (hfirst : es = [] → GenesisInOrder slug dir name [e]) :
    DirSound slug (dir.insert name after) := by
  constructor
  · intro name'
    by_cases hname : name' = name
    · rw [hname, fileOf_insert]
      exact h.sound
    · rw [fileOf_insert_ne after hname]
      exact hdir.files name'
  · intro name' es' hholds hgenuine
    by_cases hname : name' = name
    · subst hname
      rw [fileOf_insert] at hholds
      have hgenesis := hdir.genesis name' es h.holds h.genuine
      rcases h.holds_after hholds hgenuine with rfl | rfl
      · exact hgenesis.insert h
      · cases es with
        | nil => exact (hfirst rfl).insert h
        | cons first es => exact hgenesis.insert h
    · rw [fileOf_insert_ne after hname] at hholds
      exact (hdir.genesis name' es' hholds hgenuine).insert h

end Insert

/-! ## Settling a rotation -/

omit [Hashlib] in
/-- The tail that was read under the lock is the tail an append would find. -/
theorem tailLocked_of_tailFields {file tail : Bytes} {seq : ℤ} {hash : PyStr}
    (htail : readLastLine file = some tail) (hfields : loadsBytes tail >>= tailFields = .ok (seq, hash)) :
    tailLocked file = .ok (seq + 1, hash) := by
  obtain ⟨obj, hobj, hfields⟩ := bind_eq_ok_iff.mp hfields
  simp only [tailLocked, htail, hobj, hfields, bind, Except.bind]
  rfl

omit [Interpreter] [Hashlib] in
theorem new_eq_ok {chainId headHash : PyStr} {seq : ℤ} {binding : HandoffBinding}
    (h : HandoffBinding.new (.str chainId) (.int seq) (.str headHash) = .ok binding) :
    binding.chainId = chainId ∧ (binding.seq : ℤ) = seq ∧ binding.headHash = headHash := by
  unfold HandoffBinding.new at h
  cases seq with
  | negSucc n =>
      dsimp only at h
      split_ifs at h
  | ofNat n =>
      dsimp only at h
      split_ifs at h
      obtain rfl := Except.ok.inj h
      exact ⟨rfl, rfl, rfl⟩

omit [Hashlib] in
/-- What a rotation has settled: the name of the successor, and the tail of the closing
segment. -/
theorem settle_sealing {slug successor : PyStr} {dir : Directory} {base : PyStr} {max : ℤ}
    {binding : HandoffBinding}
    (h : settle slug dir base max = .ok (.sealing successor binding)) :
    ∃ active, activeSegment dir base = .ok active ∧
      nextOrdinal dir (baseStem base) < 10 ^ segmentDigits ∧
      successor = segmentFile (baseStem base) (nextOrdinal dir (baseStem base)) ∧
      binding.chainId = segmentChainId slug (segmentIdentity active) ∧
      fileOf dir active ≠ [] ∧
      tailLocked (fileOf dir active) = .ok (binding.seq + 1, binding.headHash) := by
  obtain ⟨active, hactive, h⟩ := bind_eq_ok_iff.mp h
  refine ⟨active, hactive, ?_⟩
  split_ifs at h with hsize
  · cases h
  · split at h
    · cases h
    · next tail htail =>
        split at h
        · next e he =>
            split_ifs at h
            cases h
        · next lastSeq lastHash hfields =>
            obtain ⟨name, hname, h⟩ := bind_eq_ok_iff.mp h
            obtain ⟨binding', hbinding, h⟩ := bind_eq_ok_iff.mp h
            obtain ⟨rfl, rfl⟩ : name = successor ∧ binding' = binding := by
              have := Except.ok.inj h
              injection this with h₁ h₂
              exact ⟨h₁, h₂⟩
            obtain ⟨hlt, rfl⟩ := segmentName_eq_ok hname
            obtain ⟨hchain, hseq, hhash⟩ := new_eq_ok hbinding
            refine ⟨hlt, rfl, hchain, ?_, ?_⟩
            · intro hnil
              rw [hnil] at htail
              cases htail
            · rw [hseq, hhash]
              exact tailLocked_of_tailFields htail hfields

omit [Hashlib] in
/-- A log that is handed out after all is that of the active segment. -/
theorem settle_onto {slug name : PyStr} {dir : Directory} {base : PyStr} {max : ℤ}
    (h : settle slug dir base max = .ok (.onto name)) : activeSegment dir base = .ok name := by
  obtain ⟨active, hactive, h⟩ := bind_eq_ok_iff.mp h
  have hsame : ∀ {name' : PyStr}, (.ok (.onto name') : Except PyErr Opening) = .ok (.onto name) →
      name' = name := fun heq => Opening.onto.inj (Except.ok.inj heq)
  split_ifs at h with hsize
  · exact hsame h ▸ hactive
  · split at h
    · exact hsame h ▸ hactive
    · split at h
      · split_ifs at h
        exact hsame h ▸ hactive
      · obtain ⟨successor, -, h⟩ := bind_eq_ok_iff.mp h
        obtain ⟨binding, -, h⟩ := bind_eq_ok_iff.mp h
        cases h

omit [Interpreter] in
/-- The last entry of a tail that could be read. -/
theorem getElem?_of_nextLink {es : List Entry} (hgenuine : GenuineTrail es) (hne : es ≠ [])
    {seq : ℕ} {hash : PyStr} (h : nextLink es = ((seq : ℤ) + 1, hash)) :
    (es.map Entry.entryHash)[seq]? = some hash := by
  rcases List.eq_nil_or_concat' es with rfl | ⟨init, e, rfl⟩
  · exact absurd rfl hne
  · have hlength := nextLink_fst hgenuine.linked
    rw [h, List.length_append, List.length_singleton] at hlength
    rw [nextLink_append_singleton] at h
    have hhash : e.entryHash = hash := congrArg Prod.snd h
    have hseq : seq = init.length := by
      push_cast at hlength
      omega
    rw [hseq, List.map_append, List.map_singleton, ← List.length_map Entry.entryHash,
      List.getElem?_concat_length, hhash]

omit [Interpreter] [Hashlib] in
theorem baseStem_ne_nil {base : PyStr} (h : IsTrailName base) : baseStem base ≠ [] := by
  intro hnil
  rcases base_cases h.1 with hunnumbered | ⟨ordinal, hlt, hnumbered⟩
  · rw [hnil] at hunnumbered
    exact h.2 hunnumbered
  · cases hstem : stemOf base with
    | some stem =>
        rw [baseStem, hstem, Option.getD_some] at hnil
        exact (stemOf_eq_some_iff.mp hstem).1 hnil
    | none =>
        obtain ⟨s, rfl⟩ := h.1
        rw [baseStem, hstem, Option.getD_none, segmentIdentity_append] at hnil
        exact h.2 (by rw [hnil]; rfl)

omit [Interpreter] [Hashlib] in
/-- The active segment of a base is an older segment of the successor. -/
theorem precedes_active {dir : Directory} {base active : PyStr} (hbase : IsTrailName base)
    (hactive : activeSegment dir base = .ok active)
    (hnext : nextOrdinal dir (baseStem base) < 10 ^ segmentDigits) (hmem : active ∈ dir) :
    Precedes active (segmentFile (baseStem base) (nextOrdinal dir (baseStem base))) := by
  refine ⟨_, _, baseStem_ne_nil hbase, hnext, rfl, ?_⟩
  rcases activeIn_cases hactive with ⟨ordinal, hordinal, -, rfl, hnextOrdinal⟩ | ⟨hnil, -, hname⟩
  · exact .inr ⟨ordinal, by omega, (mem_ordinals.mp hordinal).1, rfl⟩
  · refine .inl (hname.elim And.left fun heq => ?_)
    rcases base_cases hbase.1 with hunnumbered | ⟨ordinal, hlt, hnumbered⟩
    · exact heq.trans hunnumbered
    · -- a numbered base that is there would have been found by its ordinal
      have hthere : ordinal ∈ ordinals dir (baseStem base) :=
        mem_ordinals.mpr ⟨hlt, hnumbered ▸ heq ▸ hmem⟩
      rw [hnil] at hthere
      exact absurd hthere List.not_mem_nil

omit [Interpreter] [Hashlib] in
theorem isFileName_active {dir : Directory} {base active : PyStr} (hbase : IsFileName base)
    (hactive : activeSegment dir base = .ok active) : IsFileName active := by
  rcases activeIn_cases hactive with ⟨ordinal, -, -, rfl, -⟩ | ⟨-, -, ⟨rfl, -⟩ | rfl⟩
  · exact isFileName_segmentFile (isFileName_baseStem hbase) ordinal
  · exact isFileName_append.mpr ⟨isFileName_baseStem hbase, isFileName_segmentSuffix⟩
  · exact hbase

/-- **What a rotation settles is in order.** -/
theorem bound_of_settle {slug successor : PyStr} {dir : Directory} {base : FileName} {max : ℤ}
    {binding : HandoffBinding} (hslug : IsFileName slug)
    (hbase : IsTrailName base.val)
    (h : settle slug dir base.val max = .ok (.sealing successor binding)) :
    Bound slug dir successor binding := by
  obtain ⟨active, hactive, hnext, rfl, hchain, hne, htail⟩ := settle_sealing h
  have hname := isFileName_active base.property hactive
  have hid : IsFileName (segmentIdentity active) :=
    hname.of_infix (segmentIdentity_isPrefix active).isInfix
  have hmem : active ∈ dir := by
    by_contra hnot
    exact hne (fileOf_of_notMem hnot)
  have hnames : Names slug active binding := by
    refine ⟨hchain, hid.1, ?_⟩
    rw [hchain]
    apply noSurrogatePair_of_isHigh
    have hslash : IsFileName (slug ++ segmentIdentity active) := isFileName_append.mpr ⟨hslug, hid⟩
    intro c hc
    rcases List.mem_append.mp hc with hc | hc
    · rcases List.mem_append.mp hc with hc | hc
      · exact hslug.2 c hc
      · rw [List.mem_singleton.mp hc]
        decide
    · exact hid.2 c hc
  refine ⟨active, hnames, precedes_active hbase hactive hnext hmem, hmem, fun es hholds hgenuine => ?_⟩
  rw [hholds.tailLocked hgenuine.storable] at htail
  exact HandoffBinding.holds_iff.mpr (getElem?_of_nextLink hgenuine
    (hholds.storedBytes_ne_nil_of_ne_nil hne) (Except.ok.inj htail))

/-! ## Steps -/

/-- The payload type of an entry is the one of its draft. -/
theorem payloadType_of_built {config : LogConfig} {call : Call} {d : Draft} {seq : ℤ} {prev : PyStr}
    {e : Entry} (hdraft : draft config call = .ok d) (hbuild : d.build seq prev = .ok e) :
    e.header.payloadType = call.payloadType ∧
      canonicalPayload config.redactor call.payload = .ok (e.payload.getD []) := by
  unfold draft at hdraft
  dsimp only at hdraft
  split_ifs at hdraft with hrejected
  · cases hdraft
  · obtain ⟨payloadBytes, hpayload, hdraft⟩ := bind_eq_ok_iff.mp hdraft
    obtain ⟨ts, -, hdraft⟩ := bind_eq_ok_iff.mp hdraft
    obtain rfl := Except.ok.inj hdraft
    obtain ⟨b, -, -, hstored, -, -⟩ := Draft.build_eq_ok hbuild
    rw [Draft.header_of_build hbuild, hstored]
    exact ⟨rfl, hpayload⟩

/-- An ordinary append puts nothing out of order. -/
theorem genesisInOrder_append {slug name : PyStr} {dir : Directory} {config : LogConfig}
    {call : Call} {d : Draft} {seq : ℤ} {prev : PyStr} {e : Entry}
    (htype : call.payloadType ≠ rotationPayloadType) (hdraft : draft config call = .ok d)
    (hbuild : d.build seq prev = .ok e) : GenesisInOrder slug dir name [e] := by
  intro first hfirst hrotation
  obtain rfl := Option.some.inj hfirst
  exact absurd ((payloadType_of_built hdraft hbuild).1.symm.trans hrotation) htype

/-- The binding of a rotation is in order. -/
theorem genesisInOrder_bind {slug name : PyStr} {dir : Directory} {config : LogConfig}
    {call : Call} {binding : HandoffBinding} {d : Draft} {seq : ℤ} {prev : PyStr} {e : Entry}
    (hredactor : LeavesBindings config.redactor) (hbound : Bound slug dir name binding)
    (hdraft : draft config (bindingCall binding call) = .ok d) (hbuild : d.build seq prev = .ok e) :
    GenesisInOrder slug dir name [e] := by
  intro first hfirst _
  obtain rfl := Option.some.inj hfirst
  refine ⟨binding, ?_, hbound⟩
  obtain ⟨b, -, -, hstored, -, -⟩ := Draft.build_eq_ok hbuild
  have hpayload := (payloadType_of_built hdraft hbuild).2
  rw [hstored, Option.getD_some] at hpayload
  rw [hstored]
  simp only [bindingCall, canonicalPayload] at hpayload
  cases hredact : config.redactor with
  | none =>
      rw [hredact] at hpayload
      rw [Except.ok.inj hpayload]
  | some redact =>
      rw [hredact] at hpayload
      dsimp only at hpayload
      cases hout : redact binding.toPayload with
      | error err =>
          rw [hout] at hpayload
          cases hpayload
      | ok payload =>
          rw [hout, hredactor redact hredact binding payload hout] at hpayload
          rw [Except.ok.inj hpayload]

namespace SegmentedDir

variable {slug : PyStr}

theorem sound_empty : Sound slug empty where
  dir := by
    constructor
    · intro name
      exact .inl ⟨[], .complete [], genuineTrail_nil⟩
    · intro name es hholds hgenuine e he
      rw [hholds.eq_nil] at he
      cases he
  rotating := nofun

/-- An append keeps the invariant, whoever made it. -/
theorem Sound.dir_appendTo {w : SegmentedDir} (h : w.Sound slug) {name : PyStr} {config : LogConfig}
    {call : Call} (log : AuditLog)
    (hfirst : ∀ d seq prev e, draft config call = .ok d → d.build seq prev = .ok e →
      GenesisInOrder slug w.dir name [e]) :
    DirSound slug (appendTo w.dir name config call log).1 ∧
      ∀ successor binding, Bound slug w.dir successor binding →
        Bound slug (appendTo w.dir name config call log).1 successor binding := by
  rcases appendTo_cases (h.dir.files name) config call log with ⟨hsame, -⟩ | ⟨after, es, d, e, hext, hdir⟩
  · rw [hsame]
    exact ⟨h.dir, fun _ _ hbound => hbound⟩
  · rw [hdir]
    refine ⟨h.dir.insert hext fun _ => hfirst d _ _ e hext.drafted hext.built, ?_⟩
    intro successor binding hbound
    exact hbound.insert hext

/-- **Every step keeps the invariant.** -/
theorem Sound.step {w : SegmentedDir} (hslug : IsFileName slug) (h : w.Sound slug)
    {a : RotationAction} (ha : a.InOrder) : (w.step slug a).Sound slug := by
  cases a with
  | «open» base max config =>
      unfold SegmentedDir.step
      dsimp only
      split
      · exact ⟨h.dir, h.rotating⟩
      · exact h
  | lock base max config =>
      obtain ⟨hbase, hredactor⟩ := ha
      unfold SegmentedDir.step
      dsimp only
      split
      · exact h
      · split
        · exact h
        · exact ⟨h.dir, h.rotating⟩
        · next successor binding hsettle =>
            refine ⟨h.dir, fun r hr => ?_⟩
            obtain rfl := Option.some.inj hr
            exact ⟨hredactor, bound_of_settle hslug hbase hsettle⟩
  | bind call =>
      unfold SegmentedDir.step
      dsimp only
      split
      · exact h
      · next r hr =>
          obtain ⟨hredactor, hbound⟩ := h.rotating r hr
          have hdir : DirSound slug (appendTo w.dir r.successor r.config
              (bindingCall r.binding call) (.open (fileOf w.dir r.successor))).1 :=
            (h.dir_appendTo _ fun d seq prev e hdraft hbuild =>
              genesisInOrder_bind hredactor hbound hdraft hbuild).1
          split
          · exact ⟨hdir, nofun⟩
          · exact ⟨hdir, nofun⟩
  | crash => exact ⟨h.dir, nofun⟩
  | append handle call =>
      unfold SegmentedDir.step
      dsimp only
      split
      · exact h
      · next held hheld =>
          obtain ⟨hdir, hbound⟩ := h.dir_appendTo held.log fun d seq prev e hdraft hbuild =>
            genesisInOrder_append ha hdraft hbuild
          refine ⟨hdir, fun r hr => ?_⟩
          obtain ⟨hredactor, hr⟩ := h.rotating r hr
          exact ⟨hredactor, hbound _ _ hr⟩

end SegmentedDir

end Waxseal
