import Waxseal.Adapters.Trail

/-!
# The entries the log builds

The `build` closure of `AuditLog.append`: a header of this build's own schema over the
payload it was given, hashed under the canonical encoding.  A header the encoding refuses
builds no entry, so every string of an entry that was built has a UTF-8 form
(`Draft.storable_of_build`).
-/

namespace Waxseal

open Json

/-- What an append has settled before the backend is asked for the tail. -/
structure Draft where
  ts : PyStr
  payloadType : PyStr
  payloadBytes : Bytes

/-- The fields of a frame that was encoded have a UTF-8 form. -/
theorem encodeUtf8_of_lpAll {ss : List PyStr} {b : Bytes} (h : lpAll ss = .ok b) :
    ∀ s ∈ ss, ∃ u, encodeUtf8 s = some u := by
  induction ss generalizing b with
  | nil => exact nofun
  | cons s ss ih =>
      obtain ⟨a, r, ha, hr, -⟩ := lpAll_cons_eq_ok h
      obtain ⟨u, hu, -⟩ := lp_some_eq_ok ha
      intro t ht
      rcases List.mem_cons.mp ht with rfl | ht
      · exact ⟨u, hu⟩
      · exact ih hr t ht

/-- The fields of a header that was framed can be stored. -/
theorem noSurrogatePair_of_headerFrame {header : EntryHeader} {b : Bytes}
    (h : headerFrame header = .ok b) : ∀ s ∈ header.fields, NoSurrogatePair s := by
  obtain ⟨r, hr, -⟩ := headerFrame_eq_ok h
  intro s hs
  obtain ⟨u, hu⟩ := encodeUtf8_of_lpAll hr s hs
  exact noSurrogatePair_of_encodeUtf8 hu

variable [Hashlib]

/-- `build(seq, prev_hash)` of `AuditLog.append`. -/
def Draft.build (draft : Draft) (seq : ℤ) (prevHash : PyStr) : Except PyErr Entry := do
  let header : EntryHeader := {
    seq := seq
    ts := draft.ts
    hashVersion := fingerprint
    payloadType := draft.payloadType
    payloadHash := computePayloadHash draft.payloadBytes
    prevHash := prevHash }
  let entryHash ← computeEntryHash headerFrame header
  return { header := header, entryHash := entryHash, payload := some draft.payloadBytes }

theorem Draft.build_eq_ok {draft : Draft} {seq : ℤ} {prev : PyStr} {e : Entry}
    (h : draft.build seq prev = .ok e) :
    ∃ b, headerFrame e.header = .ok b ∧ e.entryHash = hexdigest b ∧
      e.payload = some draft.payloadBytes ∧ e.header.seq = seq ∧ e.header.prevHash = prev := by
  obtain ⟨entryHash, hhash, hentry⟩ := bind_eq_ok_iff.mp h
  obtain ⟨b, hframe, hdigest⟩ := computeEntryHash_eq_ok_iff.mp hhash
  obtain rfl := (Except.ok.inj hentry).symm
  exact ⟨b, hframe, hdigest.symm, rfl, rfl, rfl⟩

/-- What the log builds can be stored. -/
theorem Draft.storable_of_build {draft : Draft} {seq : ℤ} {prev : PyStr} {e : Entry}
    (h : draft.build seq prev = .ok e) : Storable e := by
  obtain ⟨b, hframe, hhash, hpayload, -, -⟩ := Draft.build_eq_ok h
  have field := noSurrogatePair_of_headerFrame hframe
  simp only [EntryHeader.fields, List.forall_mem_cons] at field
  obtain ⟨-, hts, hversion, htype, hpayloadHash, hprev, -⟩ := field
  exact {
    payload := by rw [hpayload]; rfl
    ts := hts
    hashVersion := hversion
    payloadType := htype
    payloadHash := hpayloadHash
    prevHash := hprev
    entryHash := hhash ▸ noSurrogatePair_of_isLowerHex (isLowerHex_hex (sha256 b).val) }

/-- The `build` of a log. -/
def Draft.builder (draft : Draft) : Builder where
  build := draft.build
  linked := fun h => by
    obtain ⟨b, -, -, -, hseq, hprev⟩ := Draft.build_eq_ok h
    exact Prod.ext hseq hprev
  storable := Draft.storable_of_build

end Waxseal
