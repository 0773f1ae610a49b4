import Waxseal.Adapters.CrashConsistency
import Waxseal.Base.JsonDigits
import Waxseal.Base.JsonFloats
import Waxseal.Log.Accounting
import Waxseal.Sources.RotationSound

/-!
# Opening a segment

`open_segmented` of `sources/rotation.py` as one call, with what it tells through `notice`.
The active segment is looked up before the lock and again under it; another writer may have
rotated in between, so the two looks have a directory each.

A tail that cannot be read is to be labelled and left alone, and whatever happens to the last
checkpoint or to the archive is.  `openSegmented_degrades_iff` says which tails are: some
raise from behind the `try`, and some raise what it does not catch.
-/

namespace Waxseal

open Json

/-! ## The call -/

/-- `ArchiveState`. -/
inductive ArchiveState where
  | stored
  | failed
  | notAttempted
  deriving DecidableEq

/-- A line for `notice`. -/
inductive RotationNotice where
  /-- `cannot read the closing segment's tail (...) — NOT rotating, ...`. -/
  | notRotating (e : PyErr) (active : PyStr)
  /-- `final checkpoint for ... failed (...) — sealing it anyway; ...`. -/
  | noCheckpoint (active : PyStr) (e : PyErr)
  /-- `rotated at ... bytes (...): ... sealed, now appending to ...`. -/
  | rotated (maxSegmentBytes : ℤ) (label active successor : PyStr)
  /-- `render_archive_state(...)`. -/
  | archive (active : PyStr) (state : ArchiveState)

/-- The arguments of `open_segmented`, and the name of the directory. -/
structure SegmentedTrail where
  slug : PyStr
  base : PyStr
  maxSegmentBytes : ℤ
  config : LogConfig

/-- What happens around a call of `open_segmented`. -/
structure OpeningIo where
  /-- The last checkpoint, where there is an `anchor_sink`. -/
  sink : Option AnchorIo
  /-- The append of the binding. -/
  bind : Call
  /-- The report of the `archive`, where there is one, or what it raises. -/
  archive : Option (Except PyErr ArchiveState)

/-- The log `open_segmented` returns, with the directory and the notices it leaves behind. -/
structure SegmentLog where
  name : PyStr
  log : AuditLog
  dir : Directory
  notices : List RotationNotice

/-- `_threshold_label(max_segment_bytes)`. -/
def thresholdLabel (maxSegmentBytes : ℤ) : PyStr :=
  if maxSegmentBytes = defaultMaxSegmentBytes then str "built-in default" else str "caller-supplied"

/-- `_archive_report(sealed, destination)`. -/
def archiveReport : Option (Except PyErr ArchiveState) → ArchiveState
  | none => .notAttempted
  | some (.ok state) => state
  | some (.error _) => .failed

variable [Interpreter] [Hashlib]

/-- `_final_checkpoint(active, ...)`: every exception is a notice. -/
def finalCheckpoint (sink : Option AnchorIo) (active : PyStr) (file : Bytes) :
    List RotationNotice :=
  match sink with
  | none => []
  | some io =>
      match (anchor io file {}).1 with
      | .ok _ => []
      | .error e => [.noCheckpoint active e]

namespace SegmentedTrail

/-- `AuditLog.open(active, ...)`. -/
def openActive (dir : Directory) (active : PyStr) (notices : List RotationNotice) : SegmentLog :=
  ⟨active, .open (fileOf dir active), dir, notices⟩

/-- The rotation: the last checkpoint, the successor, and its binding of the tail. -/
def rotate (trail : SegmentedTrail) (io : OpeningIo) (dir : Directory) (active : PyStr)
    (lastSeq : ℤ) (lastHash : PyStr) : Except AppendError SegmentLog :=
  let checkpoint := finalCheckpoint io.sink active (fileOf dir active)
  match segmentName (baseStem trail.base) (nextOrdinal dir (baseStem trail.base)) with
  | .error e => .error (.other e)
  | .ok successor =>
      match HandoffBinding.new (.str (segmentChainId trail.slug (segmentIdentity active)))
          (.int lastSeq) (.str lastHash) with
      | .error e => .error (.other e)
      | .ok binding =>
          match appendTo dir successor trail.config (bindingCall binding io.bind)
              (.open (fileOf dir successor)) with
          | (_, .error e, _) => .error e
          | (dir, .ok _, log) => .ok ⟨successor, log, dir, checkpoint ++
              [.rotated trail.maxSegmentBytes (thresholdLabel trail.maxSegmentBytes) active successor,
                .archive active (archiveReport io.archive)]⟩

/-- The part of `open_segmented` from `segments.lock` on. -/
def openLocked (trail : SegmentedTrail) (io : OpeningIo) (dir : Directory) :
    Except AppendError SegmentLog :=
  match activeSegment dir trail.base with
  | .error e => .error (.other e)
  | .ok active =>
      if fileSize dir active < trail.maxSegmentBytes then .ok (openActive dir active [])
      else
        match readLastLine (fileOf dir active) with
        | none => .ok (openActive dir active [])
        | some tail =>
            match loadsDigits tail >>= tailFields with
            | .error e =>
                if e.isTailError then .ok (openActive dir active [.notRotating e active])
                else .error (.other e)
            | .ok (lastSeq, lastHash) => trail.rotate io dir active lastSeq lastHash

/-- `open_segmented(base, ...)`. -/
def openSegmented (trail : SegmentedTrail) (io : OpeningIo) (before dir : Directory) :
    Except AppendError SegmentLog :=
  match activeSegment before trail.base with
  | .error e => .error (.other e)
  | .ok active =>
      if fileSize before active < trail.maxSegmentBytes then .ok (openActive before active [])
      else trail.openLocked io dir

/-- **Where the call goes is what a writer settles under the lock.** -/
theorem openLocked_settle (trail : SegmentedTrail) (io : OpeningIo) (dir : Directory) :
    match settleBy loadsDigits trail.slug dir trail.base trail.maxSegmentBytes with
    | .error e => trail.openLocked io dir = .error (.other e)
    | .ok (.onto name) => ∃ notices, trail.openLocked io dir = .ok (openActive dir name notices)
    | .ok (.sealing successor binding) =>
        (trail.openLocked io dir).map (fun opened => (opened.name, opened.log, opened.dir)) =
          match appendTo dir successor trail.config (bindingCall binding io.bind)
              (.open (fileOf dir successor)) with
          | (_, .error e, _) => .error e
          | (dir, .ok _, log) => .ok (successor, log, dir) := by
  unfold settleBy openLocked
  cases activeSegment dir trail.base with
  | error e => rfl
  | ok active =>
      simp only [bind, Except.bind]
      split_ifs with hsize
      · exact ⟨[], rfl⟩
      cases readLastLine (fileOf dir active) with
      | none => exact ⟨[], rfl⟩
      | some tail =>
          simp only
          cases hfields : loadsDigits tail >>= tailFields with
          | error e =>
              simp only [bind, Except.bind] at hfields
              simp only [hfields]
              split_ifs
              · exact ⟨_, rfl⟩
              · rfl
          | ok fields =>
              obtain ⟨lastSeq, lastHash⟩ := fields
              simp only [bind, Except.bind] at hfields
              simp only [hfields, rotate]
              cases segmentName (baseStem trail.base) (nextOrdinal dir (baseStem trail.base)) with
              | error e => rfl
              | ok successor =>
                  simp only
                  cases HandoffBinding.new (.str (segmentChainId trail.slug (segmentIdentity active)))
                      (.int lastSeq) (.str lastHash) with
                  | error e => rfl
                  | ok binding =>
                      simp only [pure, Except.pure]
                      rcases appendTo dir successor trail.config (bindingCall binding io.bind)
                        (.open (fileOf dir successor)) with ⟨after, e | entry, log⟩
                      · rfl
                      · rfl

end SegmentedTrail

/-! ## What a tail raises -/

section

omit [Hashlib]

/-- A stored entry whose `seq` is an infinite float. -/
def InfiniteTail (obj : Json) : Prop :=
  ∃ header lexeme, getItem obj (str "header") = .ok header ∧
    getItem header (str "seq") = .ok (.float lexeme) ∧ isInf lexeme = true

/-- The tails `open_segmented` does not survive. -/
inductive HostileTail (tail : Bytes) : Prop where
  /-- Its containers nest beyond the recursion limit. -/
  | tooDeep (h : loadsDigits tail = .error .recursionError)
  | infiniteSeq {obj : Json} (h : loadsDigits tail = .ok obj) (hseq : InfiniteTail obj)
  /-- No `HandoffBinding` can name it. -/
  | unbindable {obj : Json} {seq : ℤ} {hash : PyStr} (h : loadsDigits tail = .ok obj)
      (hfields : tailFields obj = .ok (seq, hash)) (hbad : seq < 0 ∨ isSha256Hex hash = false)

variable [Interpreter.StandardNumbers]

/-- **The fields of a tail are read**, or raise what is caught, or the `seq` overflows. -/
theorem tailFields_raises (obj : Json) :
    (InfiniteTail obj ∧ tailFields obj = .error .overflowError) ∨
      (¬ InfiniteTail obj ∧ ∀ e, tailFields obj = .error e → e.isTailError = true) := by
  have hkey : ∀ {e : PyErr}, e = .keyError ∨ e = .typeError → e.isTailError = true := by
    rintro e (rfl | rfl) <;> rfl
  cases hheader : getItem obj (str "header") with
  | error e =>
      refine .inr ⟨?_, ?_⟩
      · rintro ⟨header, lexeme, hget, -⟩
        rw [hheader] at hget
        cases hget
      · intro e' he'
        have hraised : tailFields obj = .error e := by rw [tailFields, hheader]; rfl
        rw [hraised] at he'
        exact Except.error.inj he' ▸ hkey (getItem_raises hheader)
  | ok header =>
      cases hseq : getItem header (str "seq") with
      | error e =>
          refine .inr ⟨?_, ?_⟩
          · rintro ⟨header', lexeme, hget, hfloat, -⟩
            obtain rfl := Except.ok.inj (hheader.symm.trans hget)
            rw [hseq] at hfloat
            cases hfloat
          · intro e' he'
            have hraised : tailFields obj = .error e := by
              simp only [tailFields, hheader, hseq, bind, Except.bind]
            rw [hraised] at he'
            exact Except.error.inj he' ▸ hkey (getItem_raises hseq)
      | ok value =>
          rcases pyInt_raises value with ⟨lexeme, rfl, hinf, hover⟩ | ⟨hfinite, hint⟩
          · refine .inl ⟨⟨header, lexeme, hheader, hseq, hinf⟩, ?_⟩
            simp only [tailFields, hheader, hseq, hover, bind, Except.bind]
          · refine .inr ⟨?_, ?_⟩
            · rintro ⟨header', lexeme, hget, hfloat, hinf⟩
              obtain rfl := Except.ok.inj (hheader.symm.trans hget)
              rw [hfinite lexeme (Except.ok.inj (hseq.symm.trans hfloat))] at hinf
              cases hinf
            · intro e he
              cases hn : pyInt value with
              | error e' =>
                  have hraised : tailFields obj = .error e' := by
                    simp only [tailFields, hheader, hseq, hn, bind, Except.bind]
                  rw [hraised] at he
                  rcases hint e' hn with rfl | rfl <;> exact Except.error.inj he ▸ rfl
              | ok n =>
                  cases hhash : getItem obj (str "entry_hash") with
                  | ok hash =>
                      simp only [tailFields, hheader, hseq, hn, hhash, bind, Except.bind, pure,
                        Except.pure] at he
                      cases he
                  | error e' =>
                      have hraised : tailFields obj = .error e' := by
                        simp only [tailFields, hheader, hseq, hn, hhash, bind, Except.bind]
                      rw [hraised] at he
                      exact Except.error.inj he ▸ hkey (getItem_raises hhash)

/-- **The three ways of a tail**: it raises what is caught, it can be bound, or it is hostile and
raises from out of reach of the `try`. -/
theorem tail_cases (tail : Bytes) :
    (¬ HostileTail tail ∧
        ∃ e, loadsDigits tail >>= tailFields = .error e ∧ e.isTailError = true) ∨
      (¬ HostileTail tail ∧ ∃ seq hash, loadsDigits tail >>= tailFields = .ok (seq, hash) ∧
        0 ≤ seq ∧ isSha256Hex hash = true) ∨
      (HostileTail tail ∧
        ((∃ e, loadsDigits tail >>= tailFields = .error e ∧ e.isTailError = false) ∨
          ∃ seq hash, loadsDigits tail >>= tailFields = .ok (seq, hash) ∧
            (seq < 0 ∨ isSha256Hex hash = false))) := by
  cases hloads : loadsDigits tail with
  | error e =>
      rcases loadsDigits_raises hloads with hvalue | rfl
      · refine .inl ⟨?_, e, rfl, by rw [PyErr.isTailError, hvalue]; rfl⟩
        rintro (h | ⟨h, -⟩ | ⟨h, -, -⟩)
        · rw [Except.error.inj (hloads.symm.trans h)] at hvalue
          cases hvalue
        · rw [hloads] at h
          cases h
        · rw [hloads] at h
          cases h
      · exact .inr (.inr ⟨.tooDeep hloads, .inl ⟨_, rfl, rfl⟩⟩)
  | ok obj =>
      have hbind : (Except.ok obj >>= tailFields : Except PyErr (ℤ × PyStr)) = tailFields obj := rfl
      rw [hbind]
      rcases tailFields_raises obj with ⟨hinf, hover⟩ | ⟨hfinite, hraises⟩
      · exact .inr (.inr ⟨.infiniteSeq hloads hinf, .inl ⟨_, hover, rfl⟩⟩)
      · have hnot : ¬ HostileTail tail ∨ ∃ seq hash, tailFields obj = .ok (seq, hash) ∧
            (seq < 0 ∨ isSha256Hex hash = false) := by
          by_contra hcontra
          obtain ⟨hhostile, hbindable⟩ := not_or.mp hcontra
          obtain hdeep | ⟨hobj, hinf⟩ | ⟨hobj, hfields, hbad⟩ := not_not.mp hhostile
          · rw [hloads] at hdeep
            cases hdeep
          · exact hfinite (Except.ok.inj (hloads.symm.trans hobj) ▸ hinf)
          · obtain rfl := Except.ok.inj (hloads.symm.trans hobj)
            exact hbindable ⟨_, _, hfields, hbad⟩
        cases hfields : tailFields obj with
        | error e =>
            refine .inl ⟨hnot.resolve_right ?_, e, rfl, hraises e hfields⟩
            rintro ⟨seq, hash, hok, -⟩
            rw [hfields] at hok
            cases hok
        | ok fields =>
            obtain ⟨seq, hash⟩ := fields
            by_cases hbad : seq < 0 ∨ isSha256Hex hash = false
            · exact .inr (.inr ⟨.unbindable hloads hfields hbad, .inr ⟨seq, hash, rfl, hbad⟩⟩)
            · refine .inr (.inl ⟨hnot.resolve_right ?_, seq, hash, rfl, ?_, ?_⟩)
              · rintro ⟨seq', hash', hok, hbad'⟩
                obtain ⟨rfl, rfl⟩ := Prod.mk.inj (Except.ok.inj (hfields.symm.trans hok))
                exact hbad hbad'
              · exact not_lt.mp (not_or.mp hbad).1
              · exact Bool.eq_true_of_not_eq_false (not_or.mp hbad).2

end

/-! ## The binding -/

omit [Interpreter] [Hashlib] in
/-- A binding is made, or refused with a `ValueError`. -/
theorem newBinding_cases {chainId hash : PyStr} (hchain : chainId ≠ []) (seq : ℤ) :
    (0 ≤ seq ∧ isSha256Hex hash = true ∧
        ∃ binding, HandoffBinding.new (.str chainId) (.int seq) (.str hash) = .ok binding) ∨
      ((seq < 0 ∨ isSha256Hex hash = false) ∧
        HandoffBinding.new (.str chainId) (.int seq) (.str hash) = .error .valueError) := by
  unfold HandoffBinding.new
  simp only [dif_neg hchain]
  cases seq with
  | negSucc n => exact .inr ⟨.inl (Int.negSucc_lt_zero n), rfl⟩
  | ofNat n =>
      simp only
      by_cases hhex : isSha256Hex hash = true
      · exact .inl ⟨Int.natCast_nonneg n, hhex, ⟨chainId, n, hash, hchain, hhex⟩, dif_pos hhex⟩
      · exact .inr ⟨.inr (Bool.eq_false_of_not_eq_true hhex), dif_neg hhex⟩

/-- An append whose steps all succeed. -/
theorem append_ok {config : LogConfig} {call : Call} {log : AuditLog} {d : Draft} {e : Entry}
    {store : Store} {merkle : IncrementalMerkle} (hdraft : draft config call = .ok d)
    (hstored : JSONLBackend.append config.integrityScanEvery call.io d.build log.store =
      (.ok e, store))
    (hmerkle : noteAppended call.readBack store.file log.merkle e = .ok merkle)
    (hattest : config.hasAttestor = true → call.attest = none) :
    log.opensTrail config call = true ∧
      ∃ log', log.append config call = (.ok e, log') ∧ log'.store = store := by
  constructor
  · rw [AuditLog.opensTrail, hdraft]
    rw [JSONLBackend.append] at hstored
    rcases hprepare : prepare config.integrityScanEvery call.io d.build log.store with
      ⟨err | out, s'⟩
    · rw [hprepare] at hstored
      cases hstored
    · simp only [hprepare]
      rfl
  · have hnone : (if config.hasAttestor then call.attest else none) = none := by
      split_ifs with h
      · exact hattest h
      · rfl
    refine ⟨autoAnchor config call.anchor e { log with store := store, merkle := merkle }, ?_,
      (autoAnchor_frame config call.anchor e _).1⟩
    simp only [AuditLog.append, hdraft, hstored, afterAppend, hmerkle, hnone]

/-- Nothing fails around the call: the redactor lets the binding through, the timestamp of the
clock can be hashed, and neither the file system nor the attestor raises. -/
structure OpeningIo.Unhindered (config : LogConfig) (io : OpeningIo) : Prop where
  redacts : ∀ redact ∈ config.redactor, ∀ payload, ∃ out, redact payload = .ok out
  clock : ∃ ts, io.bind.now = .ok ts ∧ ∃ b, lp (some ts) = .ok b
  backend : io.bind.io = .sound
  attests : config.hasAttestor = true → io.bind.attest = none

omit [Interpreter] in
/-- A draft with a timestamp that can be hashed builds the first entry of a chain. -/
theorem Draft.build_genesis {d : Draft} (hts : ∃ b, lp (some d.ts) = .ok b)
    (htype : d.payloadType = rotationPayloadType) :
    ∃ e, d.build genesisLink.1 genesisLink.2 = .ok e := by
  have hhex : ∀ b : Bytes, ∃ r, lp (some (hexdigest b)) = .ok r := fun b =>
    ⟨_, lp_ascii (isAscii_hex _) (by simp [hexdigest])⟩
  have hclosed : ∀ s : PyStr, isAscii s = true ∧ s.length < 100 → ∃ b, lp (some s) = .ok b :=
    fun s h => ⟨_, lp_ascii h.1 (by omega)⟩
  obtain ⟨r, hr⟩ : ∃ r, lpAll [strInt 0, d.ts, fingerprint, d.payloadType,
      computePayloadHash d.payloadBytes, genesisPrevHash] = .ok r := by
    apply lpAll_isOk
    simp only [List.forall_mem_cons, List.not_mem_nil, false_imp_iff, implies_true, and_true]
    exact ⟨hclosed _ (by decide), hts, hhex _, htype ▸ hclosed _ (by decide), hhex _,
      hclosed _ (by decide)⟩
  have hframe : headerFrame ⟨0, d.ts, fingerprint, d.payloadType,
      computePayloadHash d.payloadBytes, genesisPrevHash⟩ = .ok (framePrefix ++ be64 6 ++ r) := by
    rw [headerFrame]
    exact congrArg (fun x => x >>= fun r => pure (framePrefix ++ be64 6 ++ r)) hr
  have hhash := computeEntryHash_eq_ok_iff.mpr ⟨_, hframe, rfl⟩
  exact ⟨_, by rw [Draft.build]; exact congrArg (· >>= _) hhash⟩

/-- An append of a log that has just been opened. -/
theorem appendTo_open (dir : Directory) (name : PyStr) (config : LogConfig) (call : Call) :
    appendTo dir name config call (.open (fileOf dir name)) =
      (if (AuditLog.open (fileOf dir name)).opensTrail config call then
          dir.insert name ((AuditLog.open (fileOf dir name)).append config call).2.store.file
        else dir,
        (AuditLog.open (fileOf dir name)).append config call) := rfl

omit [Hashlib] in
/-- What is settled for the binding before the lock of its file. -/
theorem draft_binding {config : LogConfig} {io : OpeningIo} (hio : io.Unhindered config)
    (binding : HandoffBinding) :
    ∃ d, draft config (bindingCall binding io.bind) = .ok d ∧
      d.payloadType = rotationPayloadType ∧ ∃ b, lp (some d.ts) = .ok b := by
  obtain ⟨ts, hnow, hts⟩ := hio.clock
  obtain ⟨payload, hpayload⟩ : ∃ payload,
      canonicalPayload config.redactor (.dict binding.toPayload) = .ok payload := by
    cases hredactor : config.redactor with
    | none => exact ⟨_, rfl⟩
    | some redact =>
        obtain ⟨out, hout⟩ := hio.redacts redact hredactor binding.toPayload
        exact ⟨canonicalJson out, by rw [canonicalPayload, hout]; rfl⟩
  have htype : rotationPayloadType ∉ rejectedPayloadTypes := by decide
  refine ⟨⟨ts, rotationPayloadType, payload⟩, ?_, rfl, hts⟩
  simp only [draft, bindingCall, if_neg htype, hpayload, hnow, bind, Except.bind, pure,
    Except.pure]

/-- The backend writes the first line of a file. -/
theorem store_first {every : Option ℤ} {d : Draft} {e : Entry}
    (hbuild : d.build genesisLink.1 genesisLink.2 = .ok e) :
    ∃ store, JSONLBackend.append every .sound d.build (Store.opened []) = (.ok e, store) ∧
      store.file = storedBytes e ++ [LF] := by
  obtain ⟨store, -, ⟨err, -, -, hraised⟩ | ⟨e', hstored, hfile, hbuild', -⟩⟩ :=
    @append_trail _ every d.builder (Store.opened []) [] [] genesisLink (List.forall_mem_nil _)
      (.inl rfl) rfl (cleared_opened [] []) rfl
  · -- Nothing is scanned at the first position, and the entry is built.
    exfalso
    rcases hraised with ⟨err', hdue⟩ | ⟨err', hraised⟩
    · have hnone : scanDue every genesisLink.1 = .ok false := by cases every <;> rfl
      rw [hnone] at hdue
      cases hdue
    · rw [show d.builder.build = d.build from rfl, hbuild] at hraised
      cases hraised
  · obtain rfl := Except.ok.inj (hbuild.symm.trans hbuild')
    exact ⟨store, hstored, hfile⟩

/-- **The binding is appended to a new segment.** -/
theorem appendTo_bindingCall {config : LogConfig} {io : OpeningIo} (hio : io.Unhindered config)
    {dir : Directory} {successor : PyStr} (hnew : fileOf dir successor = [])
    (binding : HandoffBinding) :
    ∃ e log, e.header.payloadType = rotationPayloadType ∧
      log.store.file = storedBytes e ++ [LF] ∧
      appendTo dir successor config (bindingCall binding io.bind) (.open (fileOf dir successor)) =
        (dir.insert successor (storedBytes e ++ [LF]), .ok e, log) := by
  obtain ⟨d, hdraft, hdtype, hts⟩ := draft_binding hio binding
  obtain ⟨e, hbuild⟩ : ∃ e, d.build genesisLink.1 genesisLink.2 = .ok e :=
    Draft.build_genesis hts hdtype
  obtain ⟨b, -, hhash, -, hseq, -⟩ := Draft.build_eq_ok hbuild
  obtain ⟨store, hstored, hfile⟩ := @store_first _ _ config.integrityScanEvery d e hbuild
  -- The forest of a log that has just been opened is as long as the file.
  obtain ⟨merkle, hmerkle⟩ : ∃ merkle,
      noteAppended (bindingCall binding io.bind).readBack store.file {} e = .ok merkle := by
    have hleaf : (fromhex e.entryHash).isSome = true := by
      rw [hhash, hexdigest, fromhex_hex, Option.isSome_some]
    have hempty : EndsLine ([] : Bytes) := .inl rfl
    have hfollows : Follows (bindingCall binding io.bind).readBack [] {} e.header.seq := by
      rw [hseq]
      exact .inl rfl
    have hnoted := noteAppended_ok hempty (Draft.storable_of_build hbuild) hleaf hfollows
    rw [List.nil_append, ← hfile] at hnoted
    exact hnoted
  have hsound : (bindingCall binding io.bind).io = .sound := hio.backend
  obtain ⟨hopens, log, happend, hstore⟩ :=
    @append_ok _ _ config (bindingCall binding io.bind) (AuditLog.open []) d e store merkle hdraft
      (hsound ▸ hstored) hmerkle hio.attests
  refine ⟨e, log, ?_, ?_, ?_⟩
  · rw [Draft.header_of_build hbuild]
    exact hdtype
  · rw [hstore, hfile]
  · rw [appendTo_open, hnew, hopens, happend, if_pos rfl, hstore, hfile]

/-! ## Degrading -/

namespace SegmentedTrail

/-- The closing segment of a call: over the threshold at both looks, with a last line, and with an
ordinal left for its successor. -/
structure ClosesOn (trail : SegmentedTrail) (before dir : Directory) (active : PyStr)
    (tail : Bytes) : Prop where
  looked : ∃ name, activeSegment before trail.base = .ok name ∧
    trail.maxSegmentBytes ≤ fileSize before name
  resolved : activeSegment dir trail.base = .ok active
  full : trail.maxSegmentBytes ≤ fileSize dir active
  last : readLastLine (fileOf dir active) = some tail
  room : nextOrdinal dir (baseStem trail.base) < 10 ^ segmentDigits

/-- The log of the closing segment, with the label that it is not rotated; or that of a new
segment, which holds its binding. -/
inductive Usable (trail : SegmentedTrail) (dir : Directory) (active : PyStr) : SegmentLog → Prop where
  | stays {e : PyErr} : Usable trail dir active (openActive dir active [.notRotating e active])
  | rotates {successor : PyStr} {e : Entry} {log : AuditLog} {checkpoint : List RotationNotice}
      {state : ArchiveState} (hnew : successor ∉ dir)
      (htype : e.header.payloadType = rotationPayloadType)
      (hfile : log.store.file = storedBytes e ++ [LF]) :
      Usable trail dir active ⟨successor, log, dir.insert successor (storedBytes e ++ [LF]),
        checkpoint ++ [.rotated trail.maxSegmentBytes (thresholdLabel trail.maxSegmentBytes) active
          successor, .archive active state]⟩

variable {trail : SegmentedTrail} {io : OpeningIo} {before dir : Directory} {active : PyStr}
  {tail : Bytes}

omit [Interpreter] [Hashlib] in
theorem segmentChainId_ne_nil (slug identity : PyStr) : segmentChainId slug identity ≠ [] := by
  simp [segmentChainId, str]

/-- What a call on a closing segment does with its tail. -/
theorem openSegmented_closing (h : trail.ClosesOn before dir active tail) :
    trail.openSegmented io before dir =
      match loadsDigits tail >>= tailFields with
      | .error e =>
          if e.isTailError then .ok (openActive dir active [.notRotating e active])
          else .error (.other e)
      | .ok (lastSeq, lastHash) => trail.rotate io dir active lastSeq lastHash := by
  obtain ⟨name, hname, hfull⟩ := h.looked
  have hlocked : trail.openSegmented io before dir = trail.openLocked io dir := by
    simp only [openSegmented, hname, if_neg (not_lt.mpr hfull)]
  rw [hlocked]
  simp only [openLocked, h.resolved, if_neg (not_lt.mpr h.full), h.last]

/-- A rotation that binds its tail. -/
theorem rotate_ok (hio : io.Unhindered trail.config) (h : trail.ClosesOn before dir active tail)
    {seq : ℤ} {hash : PyStr} (hseq : 0 ≤ seq) (hhash : isSha256Hex hash = true) :
    ∃ opened, trail.rotate io dir active seq hash = .ok opened ∧ trail.Usable dir active opened := by
  have hnew : segmentFile (baseStem trail.base) (nextOrdinal dir (baseStem trail.base)) ∉ dir :=
    fun hmem => lt_irrefl _ (lt_nextOrdinal (mem_ordinals.mpr ⟨h.room, hmem⟩))
  obtain ⟨binding, hbinding⟩ : ∃ binding, HandoffBinding.new
      (.str (segmentChainId trail.slug (segmentIdentity active))) (.int seq) (.str hash) =
        .ok binding := by
    rcases @newBinding_cases _ hash (segmentChainId_ne_nil trail.slug (segmentIdentity active)) seq
      with ⟨-, -, hok⟩ | ⟨hneg | hhex, -⟩
    · exact hok
    · exact absurd hseq (not_le.mpr hneg)
    · rw [hhash] at hhex
      cases hhex
  obtain ⟨e, log, htype, hfile, happend⟩ := appendTo_bindingCall hio (fileOf_of_notMem hnew) binding
  have hrotated : trail.Usable dir active ⟨_, log, _,
      finalCheckpoint io.sink active (fileOf dir active) ++ [_,
        .archive active (archiveReport io.archive)]⟩ := .rotates hnew htype hfile
  refine ⟨_, ?_, hrotated⟩
  simp only [rotate, segmentName_of_lt h.room, hbinding, happend]

/-- A tail no binding can name is not caught. -/
theorem rotate_raises {seq : ℤ} {hash : PyStr} (hbad : seq < 0 ∨ isSha256Hex hash = false) :
    ∃ e, trail.rotate io dir active seq hash = .error e := by
  unfold rotate
  cases segmentName (baseStem trail.base) (nextOrdinal dir (baseStem trail.base)) with
  | error e => exact ⟨_, rfl⟩
  | ok successor =>
      rcases @newBinding_cases _ hash (segmentChainId_ne_nil trail.slug (segmentIdentity active)) seq
        with ⟨hseq, hhex, -⟩ | ⟨-, herror⟩
      · rcases hbad with hneg | hhash
        · exact absurd hseq (not_le.mpr hneg)
        · rw [hhash] at hhex
          cases hhex
      · exact ⟨.other .valueError, by simp only [herror]⟩

variable [Interpreter.StandardNumbers]

/-- A hostile tail makes the call raise. -/
theorem openSegmented_raises (h : trail.ClosesOn before dir active tail)
    (hhostile : HostileTail tail) : ∃ e, trail.openSegmented io before dir = .error e := by
  rw [openSegmented_closing h]
  rcases tail_cases tail with ⟨hnot, -⟩ | ⟨hnot, -⟩ | ⟨-, ⟨e, he, huncaught⟩ | ⟨seq, hash, hok, hbad⟩⟩
  · exact absurd hhostile hnot
  · exact absurd hhostile hnot
  · exact ⟨.other e, by simp only [he, huncaught, Bool.false_eq_true, if_false]⟩
  · simp only [hok]
    exact rotate_raises hbad

/-- **`open_segmented` degrades on exactly the tails that are not hostile**: it rotates, or stays
on the segment and says so. -/
theorem openSegmented_degrades_iff (hio : io.Unhindered trail.config)
    (h : trail.ClosesOn before dir active tail) :
    (∃ opened, trail.openSegmented io before dir = .ok opened ∧ trail.Usable dir active opened) ↔
      ¬ HostileTail tail := by
  constructor
  · rintro ⟨opened, hok, -⟩ hhostile
    obtain ⟨e, he⟩ := @openSegmented_raises _ _ trail io _ _ _ _ _ h hhostile
    rw [hok] at he
    cases he
  · intro hnot
    rw [openSegmented_closing h]
    rcases tail_cases tail with ⟨-, e, he, hcaught⟩ | ⟨-, seq, hash, hok, hseq, hhash⟩ | ⟨hhostile, -⟩
    · exact ⟨openActive dir active [.notRotating e active], by simp only [he, hcaught, if_true],
        .stays⟩
    · simp only [hok]
      exact rotate_ok hio h hseq hhash
    · exact absurd hhostile hnot

/-! ## A torn line, and three hostile ones -/

/-- The trail `trail.jsonl`, with every segment over the threshold. -/
def tiny : SegmentedTrail := ⟨str "project", str "trail.jsonl", 1, bareConfig⟩

/-- `trail.jsonl` with one line. -/
def oneLine (line : Bytes) : Directory := AList.singleton (str "trail.jsonl") (line ++ [LF])

/-- A call without a sink and an archive. -/
def quietIo : OpeningIo := ⟨none, plainCall, none⟩

omit [Interpreter] [Hashlib] [Interpreter.StandardNumbers] in
theorem quietIo_unhindered : quietIo.Unhindered tiny.config where
  redacts := nofun
  clock := ⟨_, rfl, _, lp_ascii (by decide) (by decide)⟩
  backend := rfl
  attests := nofun

omit [Interpreter] [Hashlib] [Interpreter.StandardNumbers] in
/-- A line that is no JSON is labelled. -/
theorem openSegmented_degrades_torn :
    letI := Sha256.hashlib
    letI := Interpreter.doubles
    ∃ opened, tiny.openSegmented quietIo (oneLine (ascii "no JSON")) (oneLine (ascii "no JSON")) =
        .ok opened ∧
      tiny.Usable (oneLine (ascii "no JSON")) (str "trail.jsonl") opened := by
  let _ := Sha256.hashlib
  let _ := Interpreter.doubles
  have := Interpreter.doubles_standardNumbers
  have hread : (loadsDigits (ascii "no JSON")).map (fun _ => ()) = .error .jsonDecodeError := by
    decide +kernel
  have hclosing : tiny.ClosesOn (oneLine (ascii "no JSON")) (oneLine (ascii "no JSON"))
      (str "trail.jsonl") (ascii "no JSON") :=
    { looked := ⟨str "trail.jsonl", by decide +kernel, by decide +kernel⟩
      resolved := by decide +kernel
      full := by decide +kernel
      last := by decide +kernel
      room := by decide +kernel }
  apply (openSegmented_degrades_iff quietIo_unhindered hclosing).mpr
  rintro (h | ⟨h, -⟩ | ⟨h, -, -⟩) <;> rw [h] at hread <;> cases hread

/-- The line of an entry with this `seq` and this hash. -/
def tailLine (seq : Json) (hash : PyStr) : Bytes :=
  asciiBytes (dumps .compact
    (.obj [(str "header", .obj [(str "seq", seq)]), (str "entry_hash", .str hash)]))

/-- The call on a segment of this one line raises. -/
def RaisesOn (line : Bytes) : Prop :=
  ∃ e, tiny.openSegmented quietIo (oneLine line) (oneLine line) = .error e

omit [Interpreter.StandardNumbers] in
theorem raisesOn_of_isOk {line : Bytes}
    (h : (tiny.openSegmented quietIo (oneLine line) (oneLine line)).isOk = false) :
    RaisesOn line := by
  unfold RaisesOn
  cases hopen : tiny.openSegmented quietIo (oneLine line) (oneLine line) with
  | error e => exact ⟨e, rfl⟩
  | ok opened =>
      rw [hopen] at h
      cases h

omit [Interpreter] [Hashlib] [Interpreter.StandardNumbers] in
/-- **Three lines `open_segmented` does not survive**: an infinite `seq`, a negative one, and a
hash that is none. -/
theorem openSegmented_raises_on_tail :
    letI := Sha256.hashlib
    letI := Interpreter.doubles
    RaisesOn (tailLine (.float (str "Infinity")) genesisPrevHash) ∧
      RaisesOn (tailLine (.int (-1)) genesisPrevHash) ∧ RaisesOn (tailLine (.int 0) (str "ab")) := by
  let _ := Sha256.hashlib
  let _ := Interpreter.doubles
  refine ⟨?_, ?_, ?_⟩ <;> apply raisesOn_of_isOk <;> decide +kernel

end SegmentedTrail

end Waxseal
