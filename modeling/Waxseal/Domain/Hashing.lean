import Waxseal.Base.Sha256

/-!
# The entry envelope and its canonical encoding

`domain/header.py` and `domain/hashing.py`: the chain hashes the header of an
entry, under the one encoding `lp64`.  The result this file is for is
`headerFrame_inj`: the frame determines the header, whatever code points its
fields hold.
-/

namespace Waxseal

/-- `EntryHeader`. -/
structure EntryHeader where
  seq : ℤ
  ts : PyStr
  hashVersion : PyStr
  payloadType : PyStr
  payloadHash : PyStr
  prevHash : PyStr
  deriving DecidableEq

/-- `Entry`.  `payload = none` means the bytes are not available to this
reader, which is not the same as an empty payload. -/
structure Entry where
  header : EntryHeader
  entryHash : PyStr
  payload : Option Bytes
  deriving DecidableEq

/-- `GENESIS_PREV_HASH`. -/
def genesisPrevHash : PyStr := List.replicate 64 (CodePoint.ofChar '0')

/-- The UTF-8 bytes of an ASCII literal. -/
def ascii (s : String) : Bytes := s.toList.map fun c => UInt8.ofNat c.toNat

/-- `FRAME_PREFIX`. -/
def framePrefix : Bytes := ascii "waxseal-lp64\n"

/-! ## `lp` -/

/-- `lp(value)`: an 8-byte length over the tagged field, `none` for `NULL`.  A
string with no UTF-8 form raises `LpEncodingError`. -/
def lp : Option PyStr → Except PyErr Bytes
  | none => return be64 1 ++ [0x00]
  | some s =>
      match encodeUtf8 s with
      | none => .error .lpEncodingError
      | some b => do
          let enc := 0x01 :: b
          return (← packQ enc.length) ++ enc

/-- The UTF-8 form of `s`, with its tag, has a 64-bit length. -/
def LpFits (s : PyStr) : Prop := ∀ b, encodeUtf8 s = some b → b.length + 1 < 2 ^ 64

theorem lp_some_eq_ok {s : PyStr} {b : Bytes} (h : lp (some s) = .ok b) :
    ∃ u, encodeUtf8 s = some u ∧ (0x01 :: u : Bytes).length < 2 ^ 64 ∧
      b = be64 (0x01 :: u : Bytes).length ++ 0x01 :: u := by
  rw [lp] at h
  cases hu : encodeUtf8 s with
  | none => rw [hu] at h; cases h
  | some u =>
      rw [hu] at h
      simp only [packQ] at h
      split at h
      · next hlt =>
          refine ⟨u, rfl, hlt, ?_⟩
          exact (Except.ok.inj h).symm
      · cases h

/-- `lp` of a string can be read off the front of a longer byte string. -/
theorem lp_append_inj {s t : PyStr} {a b r r' : Bytes} (hs : lp (some s) = .ok a)
    (ht : lp (some t) = .ok b) (h : a ++ r = b ++ r') : s = t ∧ r = r' := by
  obtain ⟨u, hu, hulen, rfl⟩ := lp_some_eq_ok hs
  obtain ⟨v, hv, hvlen, rfl⟩ := lp_some_eq_ok ht
  obtain ⟨henc, hrest⟩ := be64_append_inj hulen hvlen h
  have huv : u = v := (List.cons.inj henc).2
  exact ⟨encodeUtf8_inj hu (huv ▸ hv), hrest⟩

/-- A string field fails to encode either because it has no UTF-8 form or
because its length does not fit. -/
theorem lp_some_error {s : PyStr} {e : PyErr} (h : lp (some s) = .error e) :
    e = .lpEncodingError ∨ ¬ LpFits s := by
  rw [lp] at h
  cases hu : encodeUtf8 s with
  | none => rw [hu] at h; exact .inl (Except.error.inj h).symm
  | some u =>
      rw [hu] at h
      simp only [packQ] at h
      split at h
      · cases h
      · next hlt =>
          refine .inr fun hfits => hlt ?_
          simpa using hfits u hu

/-- A short ASCII string can be encoded. -/
theorem lp_ascii {s : PyStr} (hascii : isAscii s = true) (hlen : s.length + 1 < 2 ^ 64) :
    lp (some s) = .ok (be64 (s.length + 1) ++ 0x01 :: asciiBytes s) := by
  have henc : (0x01 :: asciiBytes s).length < 2 ^ 64 := by
    rwa [List.length_cons, length_asciiBytes]
  rw [lp, encodeUtf8_ascii hascii]
  simp only [packQ_of_lt henc]
  rw [List.length_cons, length_asciiBytes]
  rfl

/-! ## `header_frame` -/

/-- The encoding of a field tuple: the `lp` fields one after another. -/
def lpAll : List PyStr → Except PyErr Bytes
  | [] => return []
  | s :: ss => return (← lp (some s)) ++ (← lpAll ss)

/-- The fields of a header as `header_frame` lists them. -/
def EntryHeader.fields (h : EntryHeader) : List PyStr :=
  [strInt h.seq, h.ts, h.hashVersion, h.payloadType, h.payloadHash, h.prevHash]

/-- `header_frame(header)`: prefix, field count, and the six fields. -/
def headerFrame (h : EntryHeader) : Except PyErr Bytes := do
  return framePrefix ++ be64 6 ++ (← lpAll h.fields)

theorem lpAll_cons_eq_ok {s : PyStr} {ss : List PyStr} {b : Bytes}
    (h : lpAll (s :: ss) = .ok b) :
    ∃ a r, lp (some s) = .ok a ∧ lpAll ss = .ok r ∧ b = a ++ r := by
  rw [lpAll] at h
  cases ha : lp (some s) with
  | error e => rw [ha] at h; cases h
  | ok a =>
      cases hr : lpAll ss with
      | error e => rw [ha, hr] at h; cases h
      | ok r =>
          rw [ha, hr] at h
          exact ⟨a, r, rfl, rfl, (Except.ok.inj h).symm⟩

/-- Field tuples of one length are determined by their encoding. -/
theorem lpAll_inj {ss ts : List PyStr} (hlen : ss.length = ts.length) {b : Bytes}
    (hs : lpAll ss = .ok b) (ht : lpAll ts = .ok b) : ss = ts := by
  induction ss generalizing ts b with
  | nil => exact (List.length_eq_zero_iff.mp hlen.symm).symm
  | cons s ss ih =>
      cases ts with
      | nil => simp at hlen
      | cons t ts =>
          obtain ⟨a, r, ha, hr, rfl⟩ := lpAll_cons_eq_ok hs
          obtain ⟨a', r', ha', hr', heq⟩ := lpAll_cons_eq_ok ht
          obtain ⟨hst, rfl⟩ := lp_append_inj ha ha' heq
          rw [hst, ih (by simpa using hlen) hr hr']

theorem lpAll_error {ss : List PyStr} {e : PyErr} (h : lpAll ss = .error e) :
    e = .lpEncodingError ∨ ∃ s ∈ ss, ¬ LpFits s := by
  induction ss with
  | nil => cases h
  | cons s ss ih =>
      rw [lpAll] at h
      cases ha : lp (some s) with
      | error e' =>
          rw [ha] at h
          obtain rfl : e' = e := Except.error.inj h
          exact (lp_some_error ha).imp id fun hfits => ⟨s, List.mem_cons_self, hfits⟩
      | ok a =>
          cases hr : lpAll ss with
          | error e' =>
              rw [ha, hr] at h
              obtain rfl : e' = e := Except.error.inj h
              refine (ih hr).imp id ?_
              rintro ⟨t, ht, hfits⟩
              exact ⟨t, List.mem_cons_of_mem _ ht, hfits⟩
          | ok r => rw [ha, hr] at h; cases h

/-- Fields that can each be encoded can be encoded together. -/
theorem lpAll_isOk {ss : List PyStr} (h : ∀ s ∈ ss, ∃ b, lp (some s) = .ok b) :
    ∃ b, lpAll ss = .ok b := by
  induction ss with
  | nil => exact ⟨[], rfl⟩
  | cons s ss ih =>
      rw [List.forall_mem_cons] at h
      obtain ⟨⟨a, ha⟩, hrest⟩ := h
      obtain ⟨r, hr⟩ := ih hrest
      exact ⟨a ++ r, by rw [lpAll, ha, hr]; rfl⟩

theorem EntryHeader.fields_injective : Function.Injective EntryHeader.fields := by
  rintro ⟨seq, ts, hv, pt, ph, pv⟩ ⟨seq', ts', hv', pt', ph', pv'⟩ h
  simp only [EntryHeader.fields, List.cons.injEq, and_true] at h
  obtain ⟨hseq, rfl, rfl, rfl, rfl, rfl⟩ := h
  rw [strInt_injective hseq]

theorem headerFrame_eq_ok {h : EntryHeader} {b : Bytes} (hb : headerFrame h = .ok b) :
    ∃ r, lpAll h.fields = .ok r ∧ b = framePrefix ++ be64 6 ++ r := by
  rw [headerFrame] at hb
  cases hr : lpAll h.fields with
  | error e => rw [hr] at hb; cases hb
  | ok r => rw [hr] at hb; exact ⟨r, rfl, (Except.ok.inj hb).symm⟩

/-- **The frame determines the header.** -/
theorem headerFrame_inj {h h' : EntryHeader} {b : Bytes} (hb : headerFrame h = .ok b)
    (hb' : headerFrame h' = .ok b) : h = h' := by
  obtain ⟨r, hr, rfl⟩ := headerFrame_eq_ok hb
  obtain ⟨r', hr', heq⟩ := headerFrame_eq_ok hb'
  obtain rfl : r = r' := (List.append_inj heq rfl).2
  exact EntryHeader.fields_injective (lpAll_inj rfl hr hr')

/-- Every field of the header has an encodable length. -/
def EntryHeader.Fits (h : EntryHeader) : Prop := ∀ s ∈ h.fields, LpFits s

theorem headerFrame_error {h : EntryHeader} {e : PyErr} (he : headerFrame h = .error e) :
    e = .lpEncodingError ∨ ¬ h.Fits := by
  rw [headerFrame] at he
  cases hr : lpAll h.fields with
  | ok r => rw [hr] at he; cases he
  | error e' =>
      rw [hr] at he
      obtain rfl : e' = e := Except.error.inj he
      refine (lpAll_error hr).imp id ?_
      rintro ⟨s, hs, hfits⟩ hall
      exact hfits (hall s hs)

/-! ## Hashes -/

/-- A header-frame function, as `compute_entry_hash` takes it. -/
abbrev Encoder := EntryHeader → Except PyErr Bytes

variable [Hashlib]

/-- `compute_entry_hash(header, frame=frame)`. -/
def computeEntryHash (frame : Encoder) (header : EntryHeader) : Except PyErr PyStr :=
  (frame header).map hexdigest

/-- `compute_payload_hash(payload)`. -/
def computePayloadHash (payload : Bytes) : PyStr := hexdigest payload

theorem computeEntryHash_eq_ok_iff {frame : Encoder} {header : EntryHeader} {s : PyStr} :
    computeEntryHash frame header = .ok s ↔ ∃ b, frame header = .ok b ∧ hexdigest b = s := by
  unfold computeEntryHash
  cases frame header <;> simp [Except.map]

theorem computeEntryHash_eq_error_iff {frame : Encoder} {header : EntryHeader} {e : PyErr} :
    computeEntryHash frame header = .error e ↔ frame header = .error e := by
  unfold computeEntryHash
  cases frame header <;> simp [Except.map]

end Waxseal
