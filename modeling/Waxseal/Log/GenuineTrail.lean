import Waxseal.Adapters.TrailFiles
import Waxseal.Domain.Verify
import Waxseal.Log.Accounting

/-!
# Trails this build wrote

Linked entries that the log built verify, with nothing left unverifiable
(`verifyChain_genuine`).  What one `AuditLog.append` does to a file, whatever fails around
it, is in `append_effect`: nothing at all, or a part of the line of one entry built on the
tail it found.
-/

namespace Waxseal

open Json

section Genuine

variable [Hashlib]

/-- An entry the log has built. -/
def Genuine (e : Entry) : Prop := ∃ (draft : Draft) (seq : ℤ) (prev : PyStr), draft.build seq prev = .ok e

/-- Linked entries the log has built. -/
structure GenuineTrail (es : List Entry) : Prop where
  linked : Linked es
  genuine : ∀ e ∈ es, Genuine e

/-- The header an entry was built with. -/
theorem Draft.header_of_build {draft : Draft} {seq : ℤ} {prev : PyStr} {e : Entry}
    (h : draft.build seq prev = .ok e) :
    e.header = {
      seq := seq, ts := draft.ts, hashVersion := fingerprint, payloadType := draft.payloadType
      payloadHash := computePayloadHash draft.payloadBytes, prevHash := prev } := by
  obtain ⟨entryHash, -, hentry⟩ := bind_eq_ok_iff.mp h
  obtain rfl := (Except.ok.inj hentry).symm
  rfl

theorem Genuine.storable {e : Entry} (h : Genuine e) : Storable e := by
  obtain ⟨draft, seq, prev, hbuild⟩ := h
  exact Draft.storable_of_build hbuild

theorem GenuineTrail.storable {es : List Entry} (h : GenuineTrail es) : ∀ e ∈ es, Storable e :=
  fun e he => (h.genuine e he).storable

theorem genuineTrail_nil : GenuineTrail [] := ⟨trivial, nofun⟩

theorem GenuineTrail.append {es : List Entry} {e : Entry} {draft : Draft} (h : GenuineTrail es)
    (hbuild : draft.build (nextLink es).1 (nextLink es).2 = .ok e) : GenuineTrail (es ++ [e]) := by
  constructor
  · exact linked_append_singleton.mpr ⟨h.linked, draft.builder.linked hbuild⟩
  · rw [List.forall_mem_append, List.forall_mem_singleton]
    exact ⟨h.genuine, draft, _, _, hbuild⟩

/-- A genuine entry passes the check of its row. -/
theorem Genuine.rowChecked {e : Entry} (h : Genuine e) {n : ℕ} {prev : PyStr}
    (hlink : e.backLink = ((n : ℤ), prev)) : RowChecked .new n prev e := by
  obtain ⟨draft, seq, prev', hbuild⟩ := h
  obtain ⟨hseq, hprev⟩ := Prod.mk.inj hlink
  have hheader := Draft.header_of_build hbuild
  obtain ⟨b, hframe, hhash, hpayload, -, -⟩ := Draft.build_eq_ok hbuild
  constructor
  · exact hseq
  · exact hprev
  · rw [VersionRegistry.encoderFor_new, hheader, if_pos rfl]
  · exact computeEntryHash_eq_ok_iff.mpr ⟨b, hframe, hhash.symm⟩
  · intro p hp
    rw [hpayload] at hp
    rw [← Option.some.inj hp, hheader]

/-- The loop of `verify_chain` over genuine entries. -/
theorem verifyLoop_genuine {es : List Entry} :
    ∀ {n : ℕ} {prev : PyStr} {checked : ℕ}, Chained Entry.backLink Entry.next ((n : ℤ), prev) es →
      (∀ e ∈ es, Genuine e) → verifyLoop .new n prev checked [] es =
        .ok ⟨true, checked + es.length, none, none, [], none, none⟩ := by
  induction es with
  | nil =>
      intro n prev checked _ _
      rfl
  | cons e es ih =>
      intro n prev checked hlinked hgenuine
      obtain ⟨hlink, hrest⟩ := chained_cons.mp hlinked
      rw [List.forall_mem_cons] at hgenuine
      have hrow := hgenuine.1.rowChecked hlink
      have hnext : e.next = (((n + 1 : ℕ) : ℤ), e.entryHash) := by
        rw [Entry.next, hrow.seq]
        rfl
      rw [hnext] at hrest
      rw [verifyLoop, verifyRow_eq_checked_iff.mpr hrow]
      dsimp only
      rw [ih hrest hgenuine.2, List.length_cons, Nat.add_right_comm checked 1, Nat.add_assoc]

/-- **A genuine trail verifies.** -/
theorem verifyChain_genuine {es : List Entry} (h : GenuineTrail es) :
    verifyChain es .new = .ok ⟨true, es.length, none, none, [], none, none⟩ := by
  have hloop := @verifyLoop_genuine _ es 0 genesisPrevHash 0 h.linked h.genuine
  rwa [Nat.zero_add] at hloop

end Genuine

/-! ## The effect of an append -/

/-- What a write puts into the file: the line, or its first bytes. -/
def AppendIo.written (io : AppendIo) (line : Bytes) : Bytes :=
  match io.write with
  | none => line
  | some (n, _) => line.take n

variable [Interpreter] [Hashlib]

/-- Whether an append gets as far as opening its trail for writing, which creates it. -/
def AuditLog.opensTrail (config : LogConfig) (call : Call) (log : AuditLog) : Bool :=
  match draft config call with
  | .error _ => false
  | .ok draft =>
      (prepare config.integrityScanEvery call.io draft.build log.store).1.toOption.isSome

theorem store_afterAppend (config : LogConfig) (call : Call) (entry : Entry) (log : AuditLog) :
    (afterAppend config call entry log).2.store = log.store := by
  unfold afterAppend
  split
  · rfl
  · dsimp only
    split
    · rfl
    · exact (autoAnchor_frame config call.anchor entry _).1

/-- **What an append does to its file.** -/
theorem append_effect (config : LogConfig) (call : Call) (log : AuditLog) :
    (log.opensTrail config call = false ∧ (∃ err, (log.append config call).1 = .error err) ∧
        (log.append config call).2.store.file = log.store.file) ∨
      ∃ d tail entry, log.opensTrail config call = true ∧ draft config call = .ok d ∧
        tailLocked log.store.file = .ok tail ∧ d.build tail.1 tail.2 = .ok entry ∧
        (log.append config call).2.store.file
          = log.store.file ++ call.io.written (storedBytes entry ++ [LF]) := by
  unfold AuditLog.opensTrail AuditLog.append
  cases hdraft : draft config call with
  | error e => exact .inl ⟨rfl, ⟨_, rfl⟩, rfl⟩
  | ok d =>
      dsimp only
      rcases hprepare : prepare config.integrityScanEvery call.io d.build log.store with
        ⟨result, s'⟩
      have hfile : s'.file = log.store.file := by
        have := @file_prepare _ config.integrityScanEvery call.io d.build log.store
        rwa [hprepare] at this
      cases result with
      | error err =>
          refine .inl ⟨rfl, ⟨.other err, ?_⟩, ?_⟩
          · simp only [JSONLBackend.append, hprepare]
          · simp only [JSONLBackend.append, hprepare, hfile]
      | ok written =>
          obtain ⟨entry, bytes⟩ := written
          obtain ⟨tail, htail, hbuild, -, hbytes⟩ := prepare_ok hprepare
          obtain rfl : storedBytes entry ++ [LF] = bytes := Option.some.inj
            ((encodeUtf8_storedText (Draft.storable_of_build hbuild)).symm.trans hbytes)
          refine .inr ⟨d, tail, entry, rfl, rfl, htail, hbuild, ?_⟩
          cases hwrite : call.io.write with
          | some fault =>
              obtain ⟨n, err⟩ := fault
              simp only [JSONLBackend.append, hprepare, hwrite, hfile, AppendIo.written]
          | none =>
              cases hrelease : call.io.release with
              | some err =>
                  simp only [JSONLBackend.append, hprepare, hwrite, hrelease, hfile,
                    AppendIo.written]
              | none =>
                  simp only [JSONLBackend.append, hprepare, hwrite, hrelease, AppendIo.written,
                    store_afterAppend, hfile]

end Waxseal
