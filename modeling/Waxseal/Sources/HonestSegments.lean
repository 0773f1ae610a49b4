import Waxseal.Sources.OneTrail

/-!
# Honest directories

What `verify_segments` reports when every write was completed and nothing was edited.  All
files then hold their entries in full (`SegmentedDir.Whole`), so the report depends on one
thing only: which of the listed files open with a rotation entry.  Every listed file but the
first has to.  In the directory of one trail that is so (`opensWithBinding_of_oneTrail`); two
trails that were both rotated are enough to break it, since each has a segment that opens
with an ordinary entry and the verifier excuses one per directory.
-/

namespace Waxseal

open Json

variable [Interpreter] [Hashlib]

/-- The write of a step was completed. -/
def RotationAction.Completes : RotationAction → Prop
  | .bind call | .append _ call => call.io.write = none
  | .open _ _ _ | .lock _ _ _ | .crash => True

/-- Every file holds its entries in full. -/
def SegmentedDir.Whole (w : SegmentedDir) : Prop :=
  ∀ name, ∃ es, fileOf w.dir name = trailBytes es ∧ GenuineTrail es

theorem GenuineTrail.not_stuck {es : List Entry} (h : GenuineTrail es) : ¬ Stuck (trailBytes es) :=
  (Holds.complete es).not_stuck h.storable

namespace SegmentedDir

variable {slug : PyStr} {w : SegmentedDir}

theorem Whole.fileSound (h : w.Whole) (name : PyStr) : FileSound (fileOf w.dir name) := by
  obtain ⟨es, hfile, hgenuine⟩ := h name
  exact .inl ⟨es, hfile ▸ .complete es, hgenuine⟩

theorem Whole.not_stuck (h : w.Whole) (name : PyStr) : ¬ Stuck (fileOf w.dir name) := by
  obtain ⟨es, hfile, hgenuine⟩ := h name
  exact hfile ▸ hgenuine.not_stuck

theorem whole_empty : empty.Whole := fun _ => ⟨[], rfl, genuineTrail_nil⟩

/-- A completed append leaves every file whole. -/
theorem Whole.appendTo (h : w.Whole) {name : PyStr} {config : LogConfig} {call : Call}
    (log : AuditLog) (hwrite : call.io.write = none) (name' : PyStr) :
    ∃ es, fileOf (appendTo w.dir name config call log).1 name' = trailBytes es ∧
      GenuineTrail es := by
  rcases appendTo_cases (h.fileSound name) config call log with ⟨hsame, -⟩ | ⟨after, es, d, e, hext,
    hdir⟩
  · rw [hsame]
    exact h name'
  · rw [hdir]
    by_cases hname : name' = name
    · obtain ⟨whole, hfile, hgenuine⟩ := h name
      have hwhole : whole = es := by
        have hholds : Holds (fileOf w.dir name) whole := hfile ▸ .complete whole
        exact hholds.unique hext.holds hgenuine.storable hext.genuine.storable
      have hafter : after = trailBytes (es ++ [e]) := by
        rw [hext.written, AppendIo.written, hwrite, hfile, hwhole, trailBytes_append,
          trailBytes_singleton]
      rw [hname, fileOf_insert]
      exact ⟨es ++ [e], hafter, hext.genuine_append⟩
    · rw [fileOf_insert_ne after hname]
      exact h name'

/-- **Every completed step leaves every file whole.** -/
theorem Whole.step (h : w.Whole) {a : RotationAction} (ha : a.Completes) :
    (w.step slug a).Whole := by
  cases a with
  | «open» base max config =>
      unfold SegmentedDir.step
      dsimp only
      split
      · exact h
      · exact h
  | lock base max config =>
      unfold SegmentedDir.step
      dsimp only
      split
      · exact h
      · split
        · exact h
        · exact h
        · exact h
  | bind call =>
      unfold SegmentedDir.step
      dsimp only
      split
      · exact h
      · next r hr =>
          have hafter := @Whole.appendTo _ _ w h r.successor r.config (bindingCall r.binding call)
            (.open (fileOf w.dir r.successor)) ha
          split
          · exact hafter
          · exact hafter
  | crash => exact h
  | append handle call =>
      unfold SegmentedDir.step
      dsimp only
      split
      · exact h
      · next held hheld => exact fun name => h.appendTo held.log ha name

/-- Reading the whole files fails only over a first payload that cannot be decoded. -/
theorem Whole.readSegments_iff (h : w.Whole) :
    (∃ reads, readSegments w.dir = .ok reads) ↔
      ∀ name ∈ discoverSegments w.dir, ∀ es, entries (fileOf w.dir name) = .ok es →
        ∃ payload, genesisPayload es = .ok payload := by
  have hread : ∀ name, (∃ read, readSegment name (fileOf w.dir name) = .ok read) ↔
      ∀ es, entries (fileOf w.dir name) = .ok es → ∃ payload, genesisPayload es = .ok payload := by
    intro name
    obtain ⟨es, hfile, hgenuine⟩ := h name
    have hentries : entries (fileOf w.dir name) = .ok es :=
      hfile ▸ entries_trailBytes hgenuine.storable
    rw [readSegment_of_holds (hfile ▸ .complete es) hgenuine, hentries]
    constructor
    · rintro ⟨read, hok⟩ es' hes'
      obtain rfl := Except.ok.inj hes'
      cases hpayload : genesisPayload es with
      | ok payload => exact ⟨payload, rfl⟩
      | error err =>
          rw [hpayload] at hok
          cases hok
    · intro hdecodes
      obtain ⟨payload, hpayload⟩ := hdecodes es rfl
      rw [hpayload]
      exact ⟨_, rfl⟩
  simp only [← hread, readSegments_eq_ok_iff]
  generalize discoverSegments w.dir = names
  induction names with
  | nil => exact ⟨fun _ => nofun, fun _ => ⟨[], .nil⟩⟩
  | cons name names ih =>
      rw [List.forall_mem_cons]
      constructor
      · rintro ⟨reads, hreads⟩
        cases hreads with
        | cons hfirst hrest => exact ⟨⟨_, hfirst⟩, ih.mp ⟨_, hrest⟩⟩
      · rintro ⟨⟨read, hfirst⟩, hnames⟩
        obtain ⟨reads, hrest⟩ := ih.mpr hnames
        exact ⟨_, .cons hfirst hrest⟩

end SegmentedDir

omit [Interpreter] [Hashlib] in
/-- Everything asked of a step of a writer of this trail. -/
theorem RotationAction.Completes.ofTrail {base : FileName} {a : RotationAction} (h : a.Completes)
    (hopen : ∀ base' max config, a = .open base' max config → base' = base)
    (hlock : ∀ base' max config, a = .lock base' max config → base' = base) :
    a.OfTrail base.val := by
  cases a with
  | «open» base' max config => exact congrArg _ (hopen base' max config rfl)
  | lock base' max config => exact congrArg _ (hlock base' max config rfl)
  | bind call =>
      intro n e hwrite
      rw [h] at hwrite
      cases hwrite
  | crash => trivial
  | append handle call => trivial

/-- **One trail is in order**: every listed segment but the first opens with a rotation
entry. -/
theorem opensWithBinding_of_oneTrail {slug : PyStr} (hslug : IsFileName slug) {base : FileName}
    (hbase : IsTrailName base.val) {actions : List RotationAction}
    (hactions : ∀ a ∈ actions, a.InOrder ∧ a.Completes ∧ a.OfTrail base.val) {i : ℕ} {name : PyStr}
    (hname : (discoverSegments (SegmentedDir.empty.run slug actions).dir)[i]? = some name)
    (hpos : 0 < i) : OpensWithBinding (fileOf (SegmentedDir.empty.run slug actions).dir name) := by
  obtain ⟨-, hwhole, htrail⟩ :=
    @SegmentedDir.run_induction _ _ slug
      (fun w => w.Sound slug ∧ w.Whole ∧ w.OneTrail base.val)
      (fun a => a.InOrder ∧ a.Completes ∧ a.OfTrail base.val)
      (fun w a hw ha => ⟨hw.1.step hslug ha.1, hw.2.1.step ha.2.1, hw.2.2.step hbase hw.1 ha.2.2⟩) _
      ⟨SegmentedDir.sound_empty, SegmentedDir.whole_empty, SegmentedDir.oneTrail_empty base.val⟩ _
      hactions
  exact (SegmentedDir.OneTrail.listed hbase htrail.dir hname hpos).resolve_left
    (hwhole.not_stuck name)

/-! ## Two trails in a directory -/

/-- A log with nothing attached to it, and no scan. -/
def quietConfig : LogConfig := ⟨none, none, false, none, pos_of_mem_none⟩

/-- `append(payload=b"", ...)`, with nothing failing around it. -/
def quietCall : Call where
  viaTry := false
  payload := .bytes []
  payloadType := str "application/octet-stream"
  now := .ok (str "2024-01-01T00:00:00+00:00")
  io := .sound
  readBack := none
  attest := none
  anchor := ⟨none, none, none⟩

/-- Open a trail, append to it, and rotate it: the handles it hands out are this one and the
next. -/
def openAppendRotate (base : FileName) (handle : ℕ) : List RotationAction :=
  [.open base 1 quietConfig, .append handle quietCall, .lock base 1 quietConfig, .bind quietCall]

/-- `a.jsonl`. -/
def trailA : FileName := ⟨str "a.jsonl", isFileName_of_printable (by decide) rfl⟩

/-- `b.jsonl`. -/
def trailB : FileName := ⟨str "b.jsonl", isFileName_of_printable (by decide) rfl⟩

omit [Interpreter] [Hashlib] in
theorem leavesBindings_none : LeavesBindings none := nofun

omit [Interpreter] [Hashlib] in
theorem quietCall_payloadType : quietCall.payloadType ≠ rotationPayloadType := by decide

omit [Interpreter] [Hashlib] in
theorem inOrder_openAppendRotate {base : FileName} (hbase : IsTrailName base.val) (handle : ℕ) :
    ∀ a ∈ openAppendRotate base handle, a.InOrder ∧ a.Completes := by
  simp only [openAppendRotate, List.forall_mem_cons]
  exact ⟨⟨trivial, trivial⟩, ⟨quietCall_payloadType, rfl⟩,
    ⟨⟨hbase, leavesBindings_none⟩, trivial⟩, ⟨trivial, rfl⟩, List.forall_mem_nil _⟩

omit [Interpreter] [Hashlib] in
theorem isTrailName_trailA : IsTrailName trailA.val := ⟨⟨str "a", rfl⟩, by decide⟩

omit [Interpreter] [Hashlib] in
theorem isTrailName_trailB : IsTrailName trailB.val := ⟨⟨str "b", rfl⟩, by decide⟩

omit [Interpreter] [Hashlib] in
theorem isFileName_project : IsFileName (str "project") :=
  isFileName_of_printable (by decide) rfl

end Waxseal
