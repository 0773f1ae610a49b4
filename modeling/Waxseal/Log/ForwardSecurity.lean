import Waxseal.Base.SymbolicKeys
import Waxseal.Log.SealedHistory

/-!
# Forward security of the sealed trail

Whoever breaks in while epoch `t` is current has the key of that epoch and of all later ones,
and every file.  Whatever files are left, a report that is ok, with nothing unverifiable, and
computed from the initial key has found the first `t` rows as they were written
(`verifySidecar_forward_secure`), or else one of the things that hashing is there to rule out
has happened, and which one is named (`SealBroken`): a key from before the break-in, a seal of
another entry under such a key, or two headers of one hash.

Nothing is assumed there of the attacker or of the hash: an attack that goes unnoticed is turned
into a break of one of them.  Where keys and tags can only be written by someone who computes them
(`WrittenFrom`), the first two cannot happen (`verifySidecar_symbolic`).
-/

namespace Waxseal

open Json

variable [Hashlib]

/-- The entries were hashed with the frame of this build. -/
def Hashed (trail : List Entry) : Prop :=
  ∀ entry ∈ trail, computeEntryHash headerFrame entry.header = .ok entry.entryHash

/-- What the verifier can tell of a row: its header where it recomputes the hash, and elsewhere
the hash that is stored. -/
def KeepsRow (registry : VersionRegistry) (written found : Entry) : Prop :=
  if registry.recomputable found.header.hashVersion then found.header = written.header
  else found.entryHash = written.entryHash

/-- Two different header frames with one digest. -/
def FramesCollide (written found : Entry) : Prop :=
  ∃ b b', headerFrame written.header = .ok b ∧ headerFrame found.header = .ok b' ∧ b ≠ b' ∧
    sha256 b = sha256 b'

variable [Interpreter]

/-- What an attack on the first rows of a trail that goes unnoticed comes to. -/
inductive SealBroken (initialKey : Bytes) (trail : List Entry) (files : SealFiles)
    (entries : List Entry) : Prop
  /-- The key file holds the key of an epoch that is over. -/
  | key (epoch : ℕ) (early : epoch < trail.length)
      (reads : readKey files.sealkey = .ok ((epoch : ℤ), epochKey initialKey epoch))
  /-- The sidecar holds a seal, under the key of an epoch that is over, of an entry that was not
  sealed in that epoch. -/
  | tag (epoch : ℕ) (early : epoch < trail.length) (atts : List (Attestation Json))
      (reads : attestations files.attest = .ok atts) (inside : epoch < atts.length)
      (seals : sealEntry (epochKey initialKey epoch) atts[epoch].entryHash =
        .ok atts[epoch].value)
      (forged : atts[epoch].entryHash ≠ trail[epoch].entryHash)
  /-- Two rows of one place have different headers with one hash. -/
  | frames (seq : ℕ) (early : seq < trail.length) (inside : seq < entries.length)
      (collide : FramesCollide trail[seq] entries[seq])

variable {registry : VersionRegistry} {scheme : FsScheme} {files : SealFiles}
  {entries trail : List Entry} {atts : List (Attestation Json)} {initialKey : Bytes}
  {result : AttestResult}

/-! ## What a report has laid against the initial key -/

omit [Hashlib] [Interpreter] in
theorem orMalformed_getD_eq_none {x : Except PyErr (Option AttestReason)} {reason : AttestReason}
    (h : (do return (← orMalformed x).getD (some reason)) = Except.ok none) : x = .ok none := by
  obtain ⟨read, hread, h⟩ := bind_eq_ok_iff.mp h
  cases read with
  | none => cases Except.ok.inj h
  | some found =>
      rw [orMalformed_eq_ok_some_iff.mp hread]
      exact h

/-- The key file of a report that is ok holds the key of the epoch after the last attestation. -/
theorem readKey_of_continuityReason {count : ℕ}
    (h : continuityReason (.fsHmac scheme) files.sealkey (some initialKey) count = .ok none) :
    readKey files.sealkey = .ok ((count : ℤ), epochKey initialKey count) := by
  have hcontinuous := orMalformed_getD_eq_none h
  cases hfile : files.sealkey with
  | none =>
      rw [hfile] at hcontinuous
      cases Except.ok.inj hcontinuous
  | some file =>
      rw [hfile] at hcontinuous
      obtain ⟨⟨epoch, key⟩, hread, hcompare⟩ := bind_eq_ok_iff.mp hcontinuous
      by_cases hepoch : epoch = count
      · subst hepoch
        by_cases hkey : epochKey initialKey (count : ℤ).toNat = key
        · rw [hread, ← hkey, Int.toNat_natCast]
        · simp only [ne_eq, not_true_eq_false, if_false, hkey, not_false_iff, if_true] at hcompare
          cases Except.ok.inj hcompare
      · simp only [ne_eq, hepoch, not_false_iff, if_true] at hcompare
        cases Except.ok.inj hcompare

/-- The seals of a report that is ok are those of `verify_seals`, with nothing left out. -/
theorem verifySealed_ok (h : verifySealed files.sealagg atts initialKey = .ok result)
    (hok : result.ok = true) : result = verifySeals atts initialKey := by
  unfold verifySealed at h
  by_cases hseals : (verifySeals atts initialKey).ok = true
  · rw [if_pos hseals] at h
    obtain ⟨read, -, h⟩ := bind_eq_ok_iff.mp h
    rcases read with _ | _ | ⟨aggStart, epoch, agg⟩
    · obtain rfl := Except.ok.inj h
      cases hok
    · dsimp only at h
      split_ifs at h
      · obtain rfl := Except.ok.inj h
        cases hok
      · exact (Except.ok.inj h).symm
    · obtain ⟨reason, -, h⟩ := bind_eq_ok_iff.mp h
      cases reason with
      | some reason =>
          obtain rfl := Except.ok.inj h
          cases hok
      | none => exact (Except.ok.inj h).symm
  · rw [if_neg hseals] at h
    exact (Except.ok.inj h).symm

/-- **What is behind a report that is ok** and leaves nothing out: the key file is at the epoch
after the last attestation, and each attestation holds the seal of its epoch. -/
theorem verifyAttested_clean
    (h : verifyAttested (.fsHmac scheme) files atts (some initialKey) none = .ok result)
    (hok : result.ok = true) (hclean : result.unverifiable = []) :
    readKey files.sealkey = .ok ((atts.length : ℤ), epochKey initialKey atts.length) ∧
      ∀ i, ∀ hi : i < atts.length, Sealed initialKey i atts[i] := by
  obtain ⟨reason, hreason, h⟩ := bind_eq_ok_iff.mp h
  cases reason with
  | some reason =>
      obtain rfl := Except.ok.inj h
      cases hok
  | none =>
      obtain rfl := verifySealed_ok h hok
      exact ⟨readKey_of_continuityReason hreason, verifySeals_clean hok hclean⟩

/-! ## A row whose attestation is the one that was written -/

omit [Interpreter] in
/-- A row that is expected under the hash of the one that was written is that row, or the two
collide. -/
theorem keepsRow_or_collide {written found : Entry}
    (hwritten : computeEntryHash headerFrame written.header = .ok written.entryHash)
    (hfound : expectedHash registry found = .ok written.entryHash) :
    KeepsRow registry written found ∨ FramesCollide written found := by
  unfold expectedHash at hfound
  unfold KeepsRow VersionRegistry.recomputable
  cases hencoder : registry.encoderFor found.header.hashVersion with
  | none =>
      rw [hencoder] at hfound
      left
      show found.entryHash = written.entryHash
      exact Except.ok.inj hfound
  | some encoder =>
      rw [hencoder] at hfound
      obtain rfl := VersionRegistry.eq_headerFrame_of_encoderFor hencoder
      obtain ⟨b, hb, hdigest⟩ := computeEntryHash_eq_ok_iff.mp hwritten
      obtain ⟨b', hb', hdigest'⟩ := computeEntryHash_eq_ok_iff.mp hfound
      have hsame : sha256 b = sha256 b' := hexdigest_eq_iff.mp (hdigest.trans hdigest'.symm)
      by_cases hframe : b = b'
      · left
        show found.header = written.header
        subst hframe
        exact headerFrame_inj hb' hb
      · exact .inr ⟨b, b', hb, hb', hframe, hsame⟩

/-- **Forward security.**  `trail` is what was written before the break-in, and `entries` and
`files` are whatever was left behind. -/
theorem verifySidecar_forward_secure (registry : VersionRegistry) (scheme : FsScheme)
    (files : SealFiles) (trail entries : List Entry) (initialKey : Bytes) (result : AttestResult)
    (hashed : Hashed trail)
    (h : verifySidecar registry (.fsHmac scheme) files entries (some initialKey) none = .ok result)
    (hok : result.ok = true) (hclean : result.unverifiable = []) :
    (∃ hlength : trail.length ≤ entries.length, ∀ i, ∀ hi : i < trail.length,
      KeepsRow registry trail[i] entries[i]) ∨ SealBroken initialKey trail files entries := by
  obtain ⟨atts, hreads, hattests, hattested⟩ := verifySidecar_ok_cases h hok
  obtain ⟨hkey, hsealed⟩ := verifyAttested_clean hattested hok hclean
  have hcount : atts.length = entries.length := hattests.length_eq
  rcases Nat.lt_or_ge atts.length trail.length with hshort | hlong
  -- a trail cut short needs the key of the epoch it was cut at
  · exact .inr (.key atts.length hshort hkey)
  have hatts : ∀ {i}, i < trail.length → i < atts.length := fun hi => hi.trans_le hlong
  have hentries : ∀ {i}, i < trail.length → i < entries.length := fun hi => hcount ▸ hatts hi
  by_cases hforged : ∃ i, ∃ hi : i < trail.length, ∃ _ : i < atts.length,
      atts[i].entryHash ≠ trail[i].entryHash
  · obtain ⟨i, hi, hatt, hne⟩ := hforged
    exact .inr (.tag i hi atts hreads hatt (hsealed i hatt).value hne)
  -- every seal is of the entry that was written, so each row is that entry or collides with it
  have hgenuine : ∀ i, ∀ hi : i < trail.length, ∀ _ : i < atts.length,
      atts[i].entryHash = trail[i].entryHash := by
    intro i hi hatt
    by_contra hne
    exact hforged ⟨i, hi, hatt, hne⟩
  have hrows : ∀ i, ∀ hi : i < trail.length, ∀ _ : i < entries.length,
      KeepsRow registry trail[i] entries[i] ∨ FramesCollide trail[i] entries[i] := by
    intro i hi hentry
    apply keepsRow_or_collide (hashed _ (List.getElem_mem hi))
    rw [← hgenuine i hi (hatts hi)]
    exact (List.forall₂_iff_get.mp hattests).2 i (hatts hi) hentry
  by_cases hcollide : ∃ i, ∃ hi : i < trail.length, ∃ _ : i < entries.length,
      FramesCollide trail[i] entries[i]
  · obtain ⟨i, hi, hentry, hcollide⟩ := hcollide
    exact .inr (.frames i hi hentry hcollide)
  · refine .inl ⟨hcount ▸ hlong, ?_⟩
    intro i hi
    exact (hrows i hi (hentries hi)).resolve_right fun hc => hcollide ⟨i, hi, hentries hi, hc⟩

omit [Interpreter] in
theorem GenuineTrail.hashed (h : GenuineTrail trail) : Hashed trail := by
  intro entry hentry
  obtain ⟨draft, seq, prev, hbuild⟩ := h.genuine entry hentry
  obtain ⟨b, hframe, hhash, -⟩ := Draft.build_eq_ok hbuild
  exact computeEntryHash_eq_ok_iff.mpr ⟨b, hframe, hhash.symm⟩

omit [Hashlib] [Interpreter] in
/-- A trail that nobody broke into keeps its entry, or something is broken in it. -/
theorem verifySidecar_forward_secure_anchored :
    letI := Sha256.hashlib
    letI := Interpreter.plain
    ∃ log : SealedLog, log.entries.length = 1 ∧
      ((∃ _ : log.entries.length ≤ log.entries.length, ∀ i, ∀ hi : i < log.entries.length,
        KeepsRow .new log.entries[i] log.entries[i]) ∨
          SealBroken [] log.entries log.files log.entries) := by
  let _ := Sha256.hashlib
  let _ := Interpreter.plain
  obtain ⟨log, hrun, hone⟩ := anchoredRun_runs
  obtain ⟨atts, agg, records, h⟩ := SealedLog.honest_run hrun
  refine ⟨log, hone, ?_⟩
  exact verifySidecar_forward_secure .new .plain log.files log.entries log.entries [] _
    h.trail.hashed (h.verifySidecar .new .plain) rfl rfl

/-! ## Against a symbolic attacker -/

section Symbolic

open SymbolicKeys

/-- What is published under the key of an epoch: the seal of its entry, and whatever an accumulator
takes in. -/
def publishedIn (trail : List Entry) (epoch : ℕ) : Set Bytes :=
  {b | (∃ entry, trail[epoch]? = some entry ∧ sealFrame entry.entryHash = .ok b) ∨
    aggFramePrefix <+: b}

/-- What is told to whoever breaks in after this trail was written. -/
def toldAfter (trail : List Entry) : Set (Term Bytes) :=
  brokenInto trail.length (publishedIn trail)

/-- The files were written from what was told: a key that is in the key file, and a tag that is in
the sidecar, have been computed. -/
structure WrittenFrom (told : Set (Term Bytes)) (initialKey : Bytes) (files : SealFiles) : Prop where
  keys : ∀ epoch : ℕ, readKey files.sealkey = .ok ((epoch : ℤ), epochKey initialKey epoch) →
    Computes told (key epoch)
  tags : ∀ atts, attestations files.attest = .ok atts → ∀ i, ∀ hi : i < atts.length, ∀ b,
    sealFrame atts[i].entryHash = .ok b →
    atts[i].value = hex (hmacSha256 (epochKey initialKey i) b).val →
    Computes told (.tag (key i) (.data b))

omit [Hashlib] [Interpreter] in
/-- What a seal authenticates is nothing an accumulator takes in. -/
theorem not_aggFramePrefix_of_sealFrame {entryHash : PyStr} {b : Bytes}
    (h : sealFrame entryHash = .ok b) : ¬ aggFramePrefix <+: b := by
  obtain ⟨u, -, rfl⟩ := sealFrame_eq_ok_iff.mp h
  rintro ⟨rest, hrest⟩
  have hbyte : (aggFramePrefix ++ rest)[8]? = (sealFramePrefix ++ u)[8]? := by rw [hrest]
  rw [List.getElem?_append_left (by decide), List.getElem?_append_left (by decide)] at hbyte
  exact absurd hbyte (by decide)

omit [Hashlib] [Interpreter] in
/-- A seal that was published is the one of its entry. -/
theorem entryHash_of_published {epoch : ℕ} (early : epoch < trail.length) {entryHash : PyStr}
    {b : Bytes} (hframe : sealFrame entryHash = .ok b) (h : b ∈ publishedIn trail epoch) :
    entryHash = trail[epoch].entryHash := by
  rcases h with ⟨entry, hentry, hframe'⟩ | hagg
  · obtain rfl := Option.some.inj ((List.getElem?_eq_getElem early).symm.trans hentry)
    exact sealFrame_inj hframe hframe'
  · exact absurd hagg (not_aggFramePrefix_of_sealFrame hframe)

/-- **Forward security, against whoever computes.**  The trail was written before the break-in, and
the files come from what was told at it.  Then a report that is ok, with nothing unverifiable, has
found every row of the trail, unless two headers of one place collide. -/
theorem verifySidecar_symbolic (registry : VersionRegistry) (scheme : FsScheme)
    (files : SealFiles) (trail entries : List Entry) (initialKey : Bytes) (result : AttestResult)
    (hashed : Hashed trail) (hwritten : WrittenFrom (toldAfter trail) initialKey files)
    (h : verifySidecar registry (.fsHmac scheme) files entries (some initialKey) none = .ok result)
    (hok : result.ok = true) (hclean : result.unverifiable = []) :
    (∃ hlength : trail.length ≤ entries.length, ∀ i, ∀ hi : i < trail.length,
      KeepsRow registry trail[i] entries[i]) ∨
    ∃ seq, ∃ hseq : seq < trail.length, ∃ hseq' : seq < entries.length,
      FramesCollide trail[seq] entries[seq] := by
  rcases verifySidecar_forward_secure registry scheme files trail entries initialKey result hashed h
    hok hclean with hkeeps | hbroken
  · exact .inl hkeeps
  cases hbroken with
  | key epoch early reads => exact absurd (hwritten.keys epoch reads).le_of_key (Nat.not_le.mpr early)
  | tag epoch early atts reads inside seals forged =>
      obtain ⟨b, hframe, hvalue⟩ := sealEntry_eq_ok_iff.mp seals
      have hcomputed := hwritten.tags atts reads epoch inside b hframe hvalue
      exact absurd (entryHash_of_published early hframe (hcomputed.mem_of_tag early)) forged
  | frames seq early inside collide => exact .inr ⟨seq, early, inside, collide⟩

variable {log : SealedLog} {agg : Option (ℤ × ℤ × PyStr)} {records : List SidecarRecord}

/-- **The files of a log that goes on** as it should are written from what is told at any moment of
its history. -/
theorem SealedLog.Honest.writtenFrom {kind : SidecarRecord → Prop}
    (h : log.Honest kind initialKey atts agg records) (n : ℕ)
    (hn : n ≤ log.entries.length) :
    WrittenFrom (toldAfter (log.entries.take n)) initialKey log.files := by
  have hlength : (log.entries.take n).length = n := by rw [List.length_take, Nat.min_eq_left hn]
  refine ⟨fun epoch hreads => ?_, fun atts' hreads i hi b hframe _ => ?_⟩
  · obtain ⟨hepoch, -⟩ := Prod.mk.inj (Except.ok.inj (h.seals.key.symm.trans hreads))
    apply computes_key
    rw [hlength, ← Int.ofNat_inj.mp hepoch]
    exact hn
  · obtain rfl := Except.ok.inj (h.seals.reads.symm.trans hreads)
    apply computes_tag
    rw [hlength]
    intro hlt
    have hentry : i < log.entries.length := hlt.trans_le hn
    left
    refine ⟨log.entries[i], ?_, ?_⟩
    · rw [List.getElem?_take_of_lt hlt, List.getElem?_eq_getElem hentry]
    · have hsame : atts[i].entryHash = log.entries[i].entryHash :=
        (List.forall₂_iff_get.mp h.attests).2 i hi hentry
      rw [← hsame]
      exact hframe

omit [Hashlib] [Interpreter] in
/-- A log that nobody wrote to keeps its entry. -/
theorem verifySidecar_symbolic_anchored :
    letI := Sha256.hashlib
    letI := Interpreter.plain
    ∃ log : SealedLog, log.entries.length = 1 ∧
      ((∃ _ : log.entries.length ≤ log.entries.length, ∀ i, ∀ hi : i < log.entries.length,
        KeepsRow .new log.entries[i] log.entries[i]) ∨
        ∃ seq, ∃ _ : seq < log.entries.length, ∃ _ : seq < log.entries.length,
          FramesCollide log.entries[seq] log.entries[seq]) := by
  let _ := Sha256.hashlib
  let _ := Interpreter.plain
  obtain ⟨log, hrun, hone⟩ := anchoredRun_runs
  obtain ⟨atts, agg, records, h⟩ := SealedLog.honest_run hrun
  have hwritten := h.writtenFrom log.entries.length (Nat.le_refl _)
  rw [List.take_length] at hwritten
  refine ⟨log, hone, ?_⟩
  exact verifySidecar_symbolic .new .plain log.files log.entries log.entries [] _ h.trail.hashed
    hwritten (h.verifySidecar .new .plain) rfl rfl

end Symbolic

end Waxseal
