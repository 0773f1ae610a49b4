import Waxseal.Log.Attestation
import Waxseal.Log.GenuineTrail
import Waxseal.Log.HonestSeals

/-!
# Sealing over a gap

A run of appends and `attest` calls, where anything can end at any point: an attestor may die
between its append and its attest, its key file may come out torn, and any of the three writes
of `attest` may be the last thing that happens.

In fs-hmac mode the key file counts the lines of the sidecar (`SealsInStep`), and a step keeps
it so unless an attest is stopped after the key has gone on to the next epoch and before its
line is whole (`LosesLine`).  Such a loss is not seen by the attest that comes next, but by
`verify_sidecar` (`sealing_never_skips`).
-/

namespace Waxseal

open Json

variable [Hashlib] [Interpreter]

/-- The trail and its sidecars. -/
structure SealedTrail where
  entries : List Entry
  files : SealFiles

/-- Nothing has been written. -/
def SealedTrail.empty : SealedTrail := ⟨[], ⟨none, none, none⟩⟩

/-- A step of a run.  An append that dies before its attest is an `appended` alone. -/
inductive SealEvent where
  /-- `FileAttestor(...)`. -/
  | opened (how : Replace)
  /-- An entry is on the chain. -/
  | appended (draft : Draft)
  /-- `attest()` for the entry of the trail with this index. -/
  | attested (mode : SealMode) (io : AttestIo) (index : ℕ)

/-- `attest()` for an entry. -/
def attestEntry (mode : SealMode) (io : AttestIo) (files : SealFiles) (entry : Entry) :
    Except Halt (Attestation Json) × SealFiles :=
  attest mode io files entry.header.seq entry.entryHash

/-- One step. -/
def SealedTrail.step (initialKey : Bytes) (trail : SealedTrail) : SealEvent → SealedTrail
  | .opened how => { trail with files := (openAttestor how initialKey trail.files).2 }
  | .appended draft =>
      match draft.build (nextLink trail.entries).1 (nextLink trail.entries).2 with
      | .error _ => trail
      | .ok entry => { trail with entries := trail.entries ++ [entry] }
  | .attested mode io index =>
      match trail.entries[index]? with
      | none => trail
      | some entry => { trail with files := (attestEntry mode io trail.files entry).2 }

/-- A run. -/
def SealedTrail.run (initialKey : Bytes) (trail : SealedTrail) (events : List SealEvent) :
    SealedTrail :=
  events.foldl (SealedTrail.step initialKey) trail

/-- The attest of an entry is stopped when the key file has gone on to the next epoch and its
line is not whole. -/
def LosesLine (scheme : FsScheme) (io : AttestIo) (files : SealFiles) (entry : Entry) : Prop :=
  ∃ plan, planEpoch scheme files entry.header.seq entry.entryHash = .ok plan ∧
    (∃ key, readKey (plan.commit io files).2.sealkey = .ok (entry.header.seq + 1, key)) ∧
    (plan.commit io files).2.attest ≠ some (files.attest.getD [] ++ attestLine plan.att)

/-- A step is one of fs-hmac attestors that does not lose a line. -/
def SealedTrail.Keeps (trail : SealedTrail) : SealEvent → Prop
  | .opened _ | .appended _ => True
  | .attested (.signer _) _ _ => False
  | .attested (.fsHmac scheme) io index =>
      ∀ entry, trail.entries[index]? = some entry → ¬ LosesLine scheme io trail.files entry

/-- No step of a run loses a line. -/
def SealedTrail.KeepsLines (initialKey : Bytes) : SealedTrail → List SealEvent → Prop
  | _, [] => True
  | trail, event :: events =>
      trail.Keeps event ∧ KeepsLines initialKey (trail.step initialKey event) events

/-! ## What the sidecar says of the trail -/

/-- An attestation is the one of the entry with this index. -/
structure AttestsEntry (entries : List Entry) (index : ℕ) (att : Attestation Json) : Prop where
  seq : att.seq = index
  entry : ∃ entry, entries[index]? = some entry ∧ att.entryHash = entry.entryHash

/-- The sidecar holds so many attestations, and each is the one of the entry in its place. -/
def AttestedUpTo (entries : List Entry) (file : Option Bytes) (count : ℕ) : Prop :=
  ∃ atts, attestations file = .ok atts ∧ atts.length = count ∧
    ∀ i, ∀ hi : i < atts.length, AttestsEntry entries i atts[i]

/-- What the sidecars are in a run that loses no line. -/
inductive SealsInStep (entries : List Entry) (files : SealFiles) : Prop
  /-- No attestor has been made. -/
  | fresh (key : files.sealkey = none) (attest : files.attest = none)
  /-- The key file is torn, and nothing is sealed any more. -/
  | stuck (file : Bytes) (e : PyErr) (exists' : files.sealkey = some file)
      (torn : readKey (some file) = .error e)
  /-- The epoch of the key is the number of the lines. -/
  | counted (count : ℕ) (key : Bytes) (epoch : readKey files.sealkey = .ok ((count : ℤ), key))
      (lines : AttestedUpTo entries files.attest count) (ends : EndsLine (files.attest.getD []))

omit [Hashlib] [Interpreter] in
theorem AttestsEntry.append {entries : List Entry} {index : ℕ} {att : Attestation Json}
    (h : AttestsEntry entries index att) (entry : Entry) :
    AttestsEntry (entries ++ [entry]) index att := by
  obtain ⟨hseq, e, he, hhash⟩ := h
  refine ⟨hseq, e, ?_, hhash⟩
  rw [List.getElem?_append_left (List.getElem?_eq_some_iff.mp he).1, he]

omit [Hashlib] in
theorem AttestedUpTo.append {entries : List Entry} {file : Option Bytes} {count : ℕ}
    (h : AttestedUpTo entries file count) (entry : Entry) :
    AttestedUpTo (entries ++ [entry]) file count := by
  obtain ⟨atts, hread, hlength, hatts⟩ := h
  exact ⟨atts, hread, hlength, fun i hi => (hatts i hi).append entry⟩

omit [Hashlib] in
/-- The line of the next entry, after the lines of those before it. -/
theorem AttestedUpTo.line {entries : List Entry} {file : Option Bytes} {count : ℕ}
    {att : Attestation Json} (h : AttestedUpTo entries file count)
    (hends : EndsLine (file.getD [])) (hstorable : StorableAtt att)
    (hatt : AttestsEntry entries count att) :
    AttestedUpTo entries (some (file.getD [] ++ attestLine att)) (count + 1) := by
  obtain ⟨atts, hread, rfl, hatts⟩ := h
  refine ⟨atts ++ [att], attestations_snoc hstorable hends hread, List.length_append, ?_⟩
  intro i hi
  rcases Nat.lt_or_ge i atts.length with hlt | hge
  · rw [List.getElem_append_left hlt]
    exact hatts i hlt
  · rw [List.length_append, List.length_singleton] at hi
    obtain rfl : i = atts.length := by omega
    rw [List.getElem_concat_length rfl]
    exact hatt

/-! ## The writes of an attest -/

omit [Hashlib] in
/-- The key file is settled by the first write. -/
theorem SealPlan.commit_sealkey (plan : SealPlan) (io : AttestIo) (files : SealFiles) :
    (plan.commit io files).2.sealkey =
      (replaceFile io.key plan.sealkey files.sealkey).2 := by
  unfold SealPlan.commit
  rcases replaceFile io.key plan.sealkey files.sealkey with ⟨key, sealkey⟩
  cases key with
  | error why => rfl
  | ok _ =>
      dsimp only
      rcases replaceFile io.agg plan.sealagg files.sealagg with ⟨agg, sealagg⟩
      cases agg with
      | error why => rfl
      | ok _ =>
          dsimp only
          rcases appendAttestLine io.line (attestLine plan.att) files.attest with ⟨line, attest⟩
          cases line <;> rfl

omit [Hashlib] [Interpreter] in
/-- A line that was appended without a failure is there. -/
theorem appendAttestLine_ok {io : LineIo} {line : Bytes} {file file' : Option Bytes}
    (h : appendAttestLine io line file = (.ok (), file')) :
    file' = some (file.getD [] ++ line) := by
  unfold appendAttestLine at h
  cases hopen : io.openFile with
  | some why =>
      rw [hopen] at h
      cases h
  | none =>
      cases hwrite : io.write with
      | some fault =>
          rw [hopen, hwrite] at h
          cases h
      | none =>
          rw [hopen, hwrite] at h
          exact (Prod.mk.inj h).2.symm

omit [Hashlib] in
/-- An attest that returns has written its line. -/
theorem SealPlan.commit_attest {plan : SealPlan} {io : AttestIo} {files files' : SealFiles}
    {att : Attestation Json} (h : plan.commit io files = (.ok att, files')) :
    files'.attest = some (files.attest.getD [] ++ attestLine plan.att) := by
  unfold SealPlan.commit at h
  rcases hkey : replaceFile io.key plan.sealkey files.sealkey with ⟨key, sealkey⟩
  rw [hkey] at h
  cases key with
  | error why => cases h
  | ok _ =>
      dsimp only at h
      rcases hagg : replaceFile io.agg plan.sealagg files.sealagg with ⟨agg, sealagg⟩
      rw [hagg] at h
      cases agg with
      | error why => cases h
      | ok _ =>
          dsimp only at h
          rcases hline : appendAttestLine io.line (attestLine plan.att) files.attest with
            ⟨line, attest⟩
          rw [hline] at h
          cases line with
          | error why => cases h
          | ok _ =>
              rw [← (Prod.mk.inj h).2]
              exact appendAttestLine_ok hline

omit [Hashlib] [Interpreter] in
/-- A file that was replaced is whole or torn. -/
theorem take_whole_or_torn (data : Bytes) (n : ℕ) :
    data.take n = data ∨ ∃ m < data.length, data.take n = data.take m := by
  rcases Nat.lt_or_ge n data.length with hlt | hge
  · exact .inr ⟨n, hlt, rfl⟩
  · exact .inl (List.take_of_length_le hge)

omit [Hashlib] in
/-- The key file after an attest: as before, with nothing else done either; torn; or the new
one. -/
theorem SealPlan.commit_cases {plan : SealPlan} {data : Bytes} (io : AttestIo)
    (files : SealFiles) (hplan : plan.sealkey = some data) :
    (∃ why, plan.commit io files = (.error why, files)) ∨
      (∃ n < data.length, (plan.commit io files).2.sealkey = some (data.take n)) ∨
      (plan.commit io files).2.sealkey = some data := by
  have hsealkey := plan.commit_sealkey io files
  rw [hplan] at hsealkey
  cases hkey : io.key with
  | whole =>
      rw [hkey] at hsealkey
      exact .inr (.inr hsealkey)
  | short n =>
      rw [hkey] at hsealkey
      rcases take_whole_or_torn data n with hwhole | ⟨m, hm, htorn⟩
      · exact .inr (.inr (hsealkey.trans (congrArg some hwhole)))
      · exact .inr (.inl ⟨m, hm, hsealkey.trans (congrArg some htorn)⟩)
  | halted why =>
      refine .inl ⟨why, ?_⟩
      rw [SealPlan.commit, hplan, hkey]
      rfl

/-! ## A step -/

variable {initialKey : Bytes} {entries : List Entry} {files : SealFiles} {scheme : FsScheme}
  {io : AttestIo} {entry : Entry} {index : ℕ}

omit [Hashlib] in
/-- A key file that was just written counts its epoch, or is torn. -/
theorem sealsInStep_stuck {epoch : ℤ} {key : Bytes} {n : ℕ}
    (hn : n < (keyfile epoch key).length)
    (hkey : files.sealkey = some ((keyfile epoch key).take n)) : SealsInStep entries files := by
  cases hread : readKey (some ((keyfile epoch key).take n)) with
  | ok state => exact absurd hread (readKey_torn hn state)
  | error e => exact .stuck _ e hkey hread

/-- An attest that plans something seals the entry after the last line. -/
theorem SealsInStep.plan {plan : SealPlan} (h : SealsInStep entries files)
    (hlinked : Linked entries) (hentry : entries[index]? = some entry)
    (hplan : planEpoch scheme files entry.header.seq entry.entryHash = .ok plan) :
    AttestedUpTo entries files.attest index ∧ EndsLine (files.attest.getD []) ∧
      StorableAtt plan.att ∧ AttestsEntry entries index plan.att ∧
      ∃ key, plan.sealkey = some (keyfile (index + 1) key) := by
  have hseq := hlinked.seq_eq hentry
  obtain ⟨key, value, hkey, hvalue, hatt, hsealkey, -⟩ := planEpoch_eq_ok hplan
  rw [hseq] at hkey hatt hsealkey
  cases h with
  | fresh hnone =>
      rw [hnone] at hkey
      cases hkey
  | stuck file e hfile htorn =>
      rw [hfile, htorn] at hkey
      cases hkey
  | counted count key' hepoch hlines hends =>
      obtain ⟨hcount, -⟩ := Prod.mk.inj (Except.ok.inj (hkey.symm.trans hepoch))
      obtain rfl := Int.ofNat.inj hcount
      refine ⟨hlines, hends, ?_, ?_, _, hsealkey⟩
      · rw [hatt]
        exact storableAtt_sealed hvalue
      · rw [hatt]
        exact ⟨rfl, entry, hentry, rfl⟩

/-- **An attest that returns has left each attestation in the place of its entry.** -/
theorem SealsInStep.attests {att : Attestation Json} {files' : SealFiles}
    (h : SealsInStep entries files) (hlinked : Linked entries)
    (hentry : entries[index]? = some entry)
    (hattest : attestEntry (.fsHmac scheme) io files entry = (.ok att, files')) :
    AttestedUpTo entries files'.attest (index + 1) := by
  unfold attestEntry attest at hattest
  cases hplan : planSeal (.fsHmac scheme) files entry.header.seq entry.entryHash with
  | error e =>
      rw [hplan] at hattest
      cases hattest
  | ok plan =>
      rw [hplan] at hattest
      dsimp only at hattest
      obtain ⟨hlines, hends, hstorable, hatt, -⟩ := h.plan hlinked hentry hplan
      rw [SealPlan.commit_attest hattest]
      exact hlines.line hends hstorable hatt

/-- **An attest that loses no line** keeps the sidecars in step. -/
theorem SealsInStep.attested (h : SealsInStep entries files) (hlinked : Linked entries)
    (hentry : entries[index]? = some entry) (hkeeps : ¬ LosesLine scheme io files entry) :
    SealsInStep entries (attestEntry (.fsHmac scheme) io files entry).2 := by
  unfold attestEntry attest
  cases hplan : planSeal (.fsHmac scheme) files entry.header.seq entry.entryHash with
  | error e => exact h
  | ok plan =>
      dsimp only
      obtain ⟨hlines, hends, hstorable, hatt, key, hsealkey⟩ := h.plan hlinked hentry hplan
      rcases plan.commit_cases io files hsealkey with ⟨why, hsame⟩ | ⟨n, hn, htorn⟩ | hnew
      · rw [hsame]
        exact h
      · exact sealsInStep_stuck hn htorn
      · -- The key has gone on, so the line is whole.
        have hread : readKey (plan.commit io files).2.sealkey = .ok (((index + 1 : ℕ) : ℤ), key) := by
          rw [hnew, readKey_keyfile]
          rfl
        have hline : (plan.commit io files).2.attest =
            some (files.attest.getD [] ++ attestLine plan.att) := by
          by_contra hlost
          refine hkeeps ⟨plan, hplan, ⟨key, ?_⟩, hlost⟩
          rw [hlinked.seq_eq hentry]
          exact hread
        refine .counted (index + 1) key hread ?_ ?_
        · rw [hline]
          exact hlines.line hends hstorable hatt
        · rw [hline]
          exact endsLine_attestLine _ plan.att

omit [Hashlib] in
/-- An attestor that is made keeps the sidecars in step. -/
theorem SealsInStep.opened (h : SealsInStep entries files) (how : Replace) :
    SealsInStep entries (openAttestor how initialKey files).2 := by
  cases hsealkey : files.sealkey with
  | some file =>
      rw [openAttestor, hsealkey]
      exact h
  | none =>
      have hattest : files.attest = none := by
        cases h with
        | fresh _ hattest => exact hattest
        | stuck file e hfile _ => cases hsealkey.symm.trans hfile
        | counted count key hepoch _ _ =>
            rw [hsealkey] at hepoch
            cases hepoch
      rw [openAttestor, hsealkey]
      have hfirst : ∀ sealkey, readKey sealkey = .ok (((0 : ℕ) : ℤ), initialKey) →
          SealsInStep entries { files with sealkey := sealkey } := fun sealkey hread =>
        .counted 0 initialKey hread ⟨[], by rw [hattest]; rfl, rfl, fun i hi => absurd hi (Nat.not_lt_zero i)⟩ (by rw [hattest]; exact .inl rfl)
      cases how with
      | whole => exact hfirst _ (readKey_keyfile 0 initialKey)
      | short n =>
          rcases take_whole_or_torn (keyfile 0 initialKey) n with hwhole | ⟨m, hm, htorn⟩
          · refine hfirst _ ?_
            rw [atomicWriteBytes, hwhole]
            exact readKey_keyfile 0 initialKey
          · exact sealsInStep_stuck hm (congrArg some htorn)
      | halted why => exact .fresh rfl hattest

/-! ## A run -/

omit [Interpreter] in
/-- Any registry expects of a genuine entry the hash it has. -/
theorem Genuine.expectedHash (h : Genuine entry) (registry : VersionRegistry) :
    expectedHash registry entry = .ok entry.entryHash := by
  obtain ⟨draft, seq, prev, hbuild⟩ := h
  obtain ⟨b, hframe, hhash, -⟩ := Draft.build_eq_ok hbuild
  unfold Waxseal.expectedHash
  cases hencoder : registry.encoderFor entry.header.hashVersion with
  | none => rfl
  | some encoder =>
      rw [VersionRegistry.eq_headerFrame_of_encoderFor hencoder]
      exact computeEntryHash_eq_ok_iff.mpr ⟨b, hframe, hhash.symm⟩

variable {trail : SealedTrail} {events : List SealEvent} {event : SealEvent}

/-- The trail stays one this build wrote. -/
theorem genuineTrail_step (h : GenuineTrail trail.entries) (event : SealEvent) :
    GenuineTrail (trail.step initialKey event).entries := by
  cases event with
  | opened how => exact h
  | appended draft =>
      rw [SealedTrail.step]
      cases hbuild : draft.build (nextLink trail.entries).1 (nextLink trail.entries).2 with
      | error e => exact h
      | ok entry => exact h.append hbuild
  | attested mode io index =>
      rw [SealedTrail.step]
      cases trail.entries[index]? <;> exact h

theorem genuineTrail_run (h : GenuineTrail trail.entries) (events : List SealEvent) :
    GenuineTrail (trail.run initialKey events).entries := by
  induction events generalizing trail with
  | nil => exact h
  | cons event events ih => exact ih (genuineTrail_step h event)

/-- **A step that loses no line** keeps the sidecars in step. -/
theorem SealsInStep.step (h : SealsInStep trail.entries trail.files)
    (hgenuine : GenuineTrail trail.entries) (hkeeps : trail.Keeps event) :
    SealsInStep (trail.step initialKey event).entries (trail.step initialKey event).files := by
  cases event with
  | opened how => exact h.opened how
  | appended draft =>
      rw [SealedTrail.step]
      cases hbuild : draft.build (nextLink trail.entries).1 (nextLink trail.entries).2 with
      | error e => exact h
      | ok entry =>
          cases h with
          | fresh hkey hattest => exact .fresh hkey hattest
          | stuck file e hfile htorn => exact .stuck file e hfile htorn
          | counted count key hepoch hlines hends =>
              exact .counted count key hepoch (hlines.append entry) hends
  | attested mode io index =>
      rw [SealedTrail.step]
      cases mode with
      | signer signer => exact hkeeps.elim
      | fsHmac scheme =>
          cases hentry : trail.entries[index]? with
          | none => exact h
          | some entry => exact h.attested hgenuine.linked hentry (hkeeps entry hentry)

/-- **A run that loses no line** keeps the sidecars in step. -/
theorem SealsInStep.run (h : SealsInStep trail.entries trail.files)
    (hgenuine : GenuineTrail trail.entries) (hkeeps : trail.KeepsLines initialKey events) :
    SealsInStep (trail.run initialKey events).entries (trail.run initialKey events).files := by
  induction events generalizing trail with
  | nil => exact h
  | cons event events ih =>
      exact ih (h.step hgenuine hkeeps.1) (genuineTrail_step hgenuine event) hkeeps.2

/-- **Sealing never papers over a gap unseen.**  In a run of fs-hmac attestors in which no
attest is stopped between its key file and the end of its line, an attest raises or leaves each
attestation in the place of its entry.  In any run, a report of the sidecar that is ok has
found each attestation in the place of its entry, and none missing. -/
theorem sealing_never_skips (initialKey : Bytes) (events : List SealEvent) :
    (SealedTrail.empty.KeepsLines initialKey events →
      ∀ scheme io index entry,
        (SealedTrail.empty.run initialKey events).entries[index]? = some entry →
        (∃ why, (attestEntry (.fsHmac scheme) io
          (SealedTrail.empty.run initialKey events).files entry).1 = .error why) ∨
        AttestedUpTo (SealedTrail.empty.run initialKey events).entries
          (attestEntry (.fsHmac scheme) io
            (SealedTrail.empty.run initialKey events).files entry).2.attest (index + 1)) ∧
    ∀ registry mode key verifier result,
      verifySidecar registry mode (SealedTrail.empty.run initialKey events).files
        (SealedTrail.empty.run initialKey events).entries key verifier = .ok result →
      result.ok = true →
      ∃ atts, attestations (SealedTrail.empty.run initialKey events).files.attest = .ok atts ∧
        List.Forall₂ (fun att entry => att.entryHash = entry.entryHash) atts
          (SealedTrail.empty.run initialKey events).entries := by
  have hgenuine : GenuineTrail (SealedTrail.empty.run initialKey events).entries :=
    genuineTrail_run genuineTrail_nil events
  constructor
  · intro hkeeps scheme io index entry hentry
    have hstep : SealsInStep (SealedTrail.empty.run initialKey events).entries
        (SealedTrail.empty.run initialKey events).files :=
      SealsInStep.run (.fresh rfl rfl) genuineTrail_nil hkeeps
    rcases hattest : attestEntry (.fsHmac scheme) io
      (SealedTrail.empty.run initialKey events).files entry with ⟨outcome, files'⟩
    cases outcome with
    | error why => exact .inl ⟨why, rfl⟩
    | ok att => exact .inr (hstep.attests hgenuine.linked hentry hattest)
  · intro registry mode key verifier result hresult hok
    obtain ⟨atts, hread, hattests⟩ := verifySidecar_covers hresult hok
    refine ⟨atts, hread, ?_⟩
    rw [List.forall₂_iff_get]
    refine ⟨hattests.length_eq, ?_⟩
    intro i hi hi'
    have hexpected := (List.forall₂_iff_get.mp hattests).2 i hi hi'
    rw [(hgenuine.genuine _ (List.get_mem _ _)).expectedHash registry] at hexpected
    exact (Except.ok.inj hexpected).symm

/-! ## A line that is lost -/

/-- A draft that is sealed. -/
def sealDraft : Draft := ⟨str "2024-01-01T00:00:00+00:00", str "application/vnd.x+json", ascii "{}"⟩

/-- The first entry is sealed, and the second one waits for its seal. -/
def wholeLineRun : List SealEvent :=
  [.opened .whole, .appended sealDraft, .attested (.fsHmac .plain) .quiet 0, .appended sealDraft]

/-- The disk is full when the line of the first entry is to be written. -/
def lostLineRun : List SealEvent :=
  [.opened .whole, .appended sealDraft,
    .attested (.fsHmac .plain) ⟨.whole, .whole, some (.raised .osError), none⟩ 0,
    .appended sealDraft]

/-- A signer dies between the append of the first entry and its attest. -/
def unsignedRun : List SealEvent := [.appended sealDraft, .appended sealDraft]

/-- A signer whose signature is empty. -/
def emptySigner : Signer := ⟨str "x", str "k", fun _ => .ok []⟩

omit [Hashlib] in
/-- An attest nothing happens around loses no line. -/
theorem not_losesLine_quiet [Hashlib] : ¬ LosesLine scheme .quiet files entry := by
  rintro ⟨plan, -, -, hlost⟩
  rw [plan.commit_quiet] at hlost
  exact hlost rfl

omit [Hashlib] [Interpreter] in
/-- The second entry is sealed in its place. -/
theorem sealing_never_skips_whole :
    letI := Sha256.hashlib
    letI := Interpreter.plain
    ∃ entry, (SealedTrail.empty.run [] wholeLineRun).entries[1]? = some entry ∧
      AttestedUpTo (SealedTrail.empty.run [] wholeLineRun).entries
        (attestEntry (.fsHmac .plain) .quiet
          (SealedTrail.empty.run [] wholeLineRun).files entry).2.attest 2 := by
  let _ := Sha256.hashlib
  let _ := Interpreter.plain
  have hcheck : ((SealedTrail.empty.run [] wholeLineRun).entries[1]?.map fun entry =>
      (attestEntry (.fsHmac .plain) .quiet
        (SealedTrail.empty.run [] wholeLineRun).files entry).1.toOption.isSome) = some true := by
    decide +kernel
  obtain ⟨entry, hentry, hreturns⟩ := Option.map_eq_some_iff.mp hcheck
  have hkeeps : SealedTrail.empty.KeepsLines [] wholeLineRun :=
    ⟨trivial, trivial, fun _ _ => not_losesLine_quiet, trivial, trivial⟩
  have hattested := (@sealing_never_skips Sha256.hashlib Interpreter.plain [] wholeLineRun).1
    hkeeps .plain .quiet 1 entry hentry
  refine ⟨entry, hentry, Or.resolve_left hattested ?_⟩
  rintro ⟨why, hraises⟩
  rw [hraises] at hreturns
  cases hreturns

omit [Hashlib] in
/-- A sidecar with one attestation does not attest two entries. -/
theorem not_attestedUpTo_two {file : Option Bytes} {seqs : List ℤ}
    (h : (attestations file).toOption.map (List.map Attestation.seq) = some seqs)
    (hlength : seqs.length = 1) : ¬ AttestedUpTo entries file 2 := by
  rintro ⟨atts, hread, htwo, -⟩
  rw [hread] at h
  have hone := congrArg List.length (Option.some.inj h)
  rw [List.length_map, htwo, hlength] at hone
  omega

/-- After this run, the attest of the second entry leaves its seal in the first place. -/
def SealsOverGap (run : List SealEvent) (mode : SealMode) : Prop :=
  ∃ entry att files', (SealedTrail.empty.run [] run).entries[1]? = some entry ∧
    attestEntry mode .quiet (SealedTrail.empty.run [] run).files entry = (.ok att, files') ∧
    (attestations files'.attest).toOption.map (List.map Attestation.seq) = some [1] ∧
    ¬ AttestedUpTo (SealedTrail.empty.run [] run).entries files'.attest 2

/-- A run seals over a gap if its second attest returns and leaves one line, for entry 1. -/
theorem sealsOverGap_of_check {run : List SealEvent} {mode : SealMode}
    (h : ((SealedTrail.empty.run [] run).entries[1]?.map fun entry =>
      ((attestEntry mode .quiet (SealedTrail.empty.run [] run).files entry).1.toOption.isSome,
        (attestations (attestEntry mode .quiet
          (SealedTrail.empty.run [] run).files entry).2.attest).toOption.map
            (List.map Attestation.seq))) = some (true, some [1])) :
    SealsOverGap run mode := by
  obtain ⟨entry, hentry, hpair⟩ := Option.map_eq_some_iff.mp h
  obtain ⟨hreturns, hseqs⟩ := Prod.mk.inj hpair
  rcases hattest : attestEntry mode .quiet (SealedTrail.empty.run [] run).files entry
    with ⟨outcome, files'⟩
  rw [hattest] at hreturns hseqs
  cases outcome with
  | error why => cases hreturns
  | ok att => exact ⟨entry, att, files', hentry, hattest, hseqs, not_attestedUpTo_two hseqs rfl⟩

omit [Hashlib] [Interpreter] in
/-- **The next attest seals over the gap**: after a line that was lost, and without an epoch
after an attest that was never called, the seal of the second entry stands in the first
place. -/
theorem sealing_skips_entry :
    letI := Sha256.hashlib
    letI := Interpreter.plain
    SealsOverGap lostLineRun (.fsHmac .plain) ∧ SealsOverGap unsignedRun (.signer emptySigner) := by
  let _ := Sha256.hashlib
  let _ := Interpreter.plain
  constructor
  · apply sealsOverGap_of_check
    decide +kernel
  · apply sealsOverGap_of_check
    decide +kernel

end Waxseal
