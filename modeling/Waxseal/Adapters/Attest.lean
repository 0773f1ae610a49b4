import Waxseal.Base.JsonRecords
import Waxseal.Domain.Sealing

/-!
# The sidecars of a sealed trail

`adapters/attest.py`: one attestation a line in `.attest`, the current epoch key in
`.sealkey`, and the running aggregate in `.sealagg`.  `attest` first settles what it is about
to write (`planSeal`), and then replaces the key file, replaces the aggregate, and appends the
line; each of the three writes can be the last thing that happens.

What is written is read back: `readKey_keyfile`, `readAggregate_aggfile` and the record format
`attestationFormat`.
-/

namespace Waxseal

open Json

/-- The three sidecars; `none` is a file that does not exist. -/
structure SealFiles where
  sealkey : Option Bytes
  sealagg : Option Bytes
  attest : Option Bytes

/-- `Signer`. -/
structure Signer where
  algorithm : PyStr
  keyId : PyStr
  sign : Bytes → Except PyErr Bytes

/-- `_KNOWN_FS_HMAC_SCHEMES`. -/
inductive FsScheme where
  | plain
  | aggregate
  deriving DecidableEq

/-- The name of a scheme. -/
def FsScheme.name : FsScheme → PyStr
  | .plain => fsHmacScheme
  | .aggregate => fsHmacAggScheme

/-- What a `FileAttestor` seals with. -/
inductive SealMode where
  | signer (signer : Signer)
  | fsHmac (scheme : FsScheme)

/-! ## Writing -/

/-- Why a step ends before it is done. -/
inductive Halt where
  | raised (e : PyErr)
  | crashed

/-- How an `atomic_write_bytes` goes. -/
inductive Replace where
  | whole
  /-- `os.write` puts down the first bytes only, and nothing looks. -/
  | short (n : ℕ)
  | halted (why : Halt)

/-- How the append of an `.attest` line goes. -/
structure LineIo where
  openFile : Option Halt
  /-- The write ends after so many bytes. -/
  write : Option (ℕ × Halt)

/-- What happens around an `attest`. -/
structure AttestIo where
  key : Replace
  agg : Replace
  line : LineIo

/-- Nothing happens around it. -/
def AttestIo.quiet : AttestIo := ⟨.whole, .whole, none, none⟩

/-- `atomic_write_bytes(path, data)`. -/
def atomicWriteBytes (how : Replace) (data : Bytes) (file : Option Bytes) :
    Except Halt Unit × Option Bytes :=
  match how with
  | .whole => (.ok (), some data)
  | .short n => (.ok (), some (data.take n))
  | .halted why => (.error why, file)

/-- The append of a line to `.attest`, which creates it. -/
def appendAttestLine (io : LineIo) (line : Bytes) (file : Option Bytes) :
    Except Halt Unit × Option Bytes :=
  match io.openFile with
  | some why => (.error why, file)
  | none =>
      match io.write with
      | some (n, why) => (.error why, some (file.getD [] ++ line.take n))
      | none => (.ok (), some (file.getD [] ++ line))

/-- The members of an attestation, in the order of their names. -/
def attestationMembers (att : Attestation Json) : List (PyStr × Json) :=
  [(str "entry_hash", .str att.entryHash)] ++
    (match att.keyId with
      | .null => []
      | keyId => [(str "key_id", keyId)]) ++
    [(str "scheme", .str att.scheme), (str "seq", .int att.seq), (str "value", .str att.value)]

/-- The members of the key file. -/
def keyfileMembers (epoch : ℤ) (key : Bytes) : List (PyStr × Json) :=
  [(str "epoch", .int epoch), (str "key", .str (hex key))]

/-- The members of the aggregate file. -/
def aggfileMembers (aggStart epoch : ℤ) (agg : PyStr) : List (PyStr × Json) :=
  [(str "agg", .str agg), (str "agg_start", .int aggStart), (str "epoch", .int epoch)]

section Files

variable [Interpreter]

/-- What `_write_key` writes. -/
def keyfile (epoch : ℤ) (key : Bytes) : Bytes :=
  asciiBytes (dumps .spaced (.obj (keyfileMembers epoch key)))

/-- What `_write_aggregate` writes. -/
def aggfile (aggStart epoch : ℤ) (agg : PyStr) : Bytes :=
  asciiBytes (dumps .spaced (.obj (aggfileMembers aggStart epoch agg)))

/-- The line of an attestation, with its line end. -/
def attestLine (att : Attestation Json) : Bytes :=
  asciiBytes (dumps .compact (.obj (attestationMembers att))) ++ [LF]

/-! ## Reading -/

/-- `bytes.fromhex(x)`. -/
def fromhexJson : Json → Except PyErr Bytes
  | .str s =>
      match fromhex s with
      | some b => .ok b
      | none => .error .valueError
  | _ => .error .typeError

/-- `_read_key()`. -/
def readKey (file : Option Bytes) : Except PyErr (ℤ × Bytes) :=
  match file with
  | none => .error .osError
  | some file => do
      let obj ← loadsText file
      let epoch ← getItem obj (str "epoch") >>= pyInt
      let key ← getItem obj (str "key") >>= fromhexJson
      return (epoch, key)

/-- `read_aggregate()`: the start, the epoch and the accumulator. -/
def readAggregate (file : Option Bytes) : Except PyErr (Option (ℤ × ℤ × PyStr)) :=
  match file with
  | none => .ok none
  | some file => do
      let obj ← loadsText file
      let aggStart ← getItem obj (str "agg_start") >>= pyInt
      let epoch ← getItem obj (str "epoch") >>= pyInt
      let agg ← getItem obj (str "agg")
      return some (aggStart, epoch, pyStr agg)

/-- One line of `.attest`. -/
def readAttestation (obj : Json) : Except PyErr (Attestation Json) := do
  let seq ← getItem obj (str "seq") >>= pyInt
  let entryHash ← getItem obj (str "entry_hash")
  let scheme ← getItem obj (str "scheme")
  let value ← getItem obj (str "value")
  let keyId ← get? obj (str "key_id")
  return ⟨seq, pyStr entryHash, pyStr scheme, pyStr value, keyId⟩

/-- `attestations()`. -/
def attestations (file : Option Bytes) : Except PyErr (List (Attestation Json)) :=
  match file with
  | none => .ok []
  | some file => readLines readAttestation file

end Files

/-! ## Sealing -/

/-- What an `attest` is about to write. -/
structure SealPlan where
  att : Attestation Json
  sealkey : Option Bytes
  sealagg : Option Bytes

/-- `attest` of a signer, up to its first write. -/
def planSignature (signer : Signer) (seq : ℤ) (entryHash : PyStr) : Except PyErr SealPlan := do
  let frame ← sealFrame entryHash
  let signature ← signer.sign frame
  let att := {
    seq := seq, entryHash := entryHash, scheme := str "sig-" ++ signer.algorithm ++ str "-v1"
    value := hex signature, keyId := .str signer.keyId }
  return ⟨att, none, none⟩

section Seal

variable [Hashlib] [Interpreter]

/-- The fold of a new seal into the accumulator that is there, if it is there. -/
def foldAggregate (file : Option Bytes) (seq : ℤ) (key : Bytes) (value : PyStr) :
    Except PyErr (ℤ × PyStr) := do
  match ← readAggregate file with
  | some (aggStart, epoch, agg) =>
      if epoch ≠ seq then .error .runtimeError
      let running ← aggregateStep key agg value
      return (aggStart, running)
  | none =>
      let running ← aggregateStep key aggGenesis value
      return (seq, running)

/-- `attest` in fs-hmac mode, up to its first write. -/
def planEpoch (scheme : FsScheme) (files : SealFiles) (seq : ℤ) (entryHash : PyStr) :
    Except PyErr SealPlan := do
  let (epoch, key) ← readKey files.sealkey
  if epoch ≠ seq then .error .runtimeError
  let value ← sealEntry key entryHash
  let att := ⟨seq, entryHash, scheme.name, value, .null⟩
  let sealkey := keyfile (epoch + 1) (evolveKey key)
  match scheme with
  | .aggregate => do
      let (aggStart, running) ← foldAggregate files.sealagg seq key value
      return ⟨att, some sealkey, some (aggfile aggStart (epoch + 1) running)⟩
  | .plain => return ⟨att, some sealkey, none⟩

/-- `attest`, up to its first write. -/
def planSeal (mode : SealMode) (files : SealFiles) (seq : ℤ) (entryHash : PyStr) :
    Except PyErr SealPlan :=
  match mode with
  | .signer signer => planSignature signer seq entryHash
  | .fsHmac scheme => planEpoch scheme files seq entryHash

omit [Hashlib] [Interpreter] in
/-- A file that is to be replaced, or not. -/
def replaceFile (how : Replace) (data : Option Bytes) (file : Option Bytes) :
    Except Halt Unit × Option Bytes :=
  match data with
  | none => (.ok (), file)
  | some data => atomicWriteBytes how data file

/-- The writes of `attest`: the key file, then the aggregate, then the line. -/
def SealPlan.commit (plan : SealPlan) (io : AttestIo) (files : SealFiles) :
    Except Halt (Attestation Json) × SealFiles :=
  match replaceFile io.key plan.sealkey files.sealkey with
  | (.error why, sealkey) => (.error why, { files with sealkey := sealkey })
  | (.ok _, sealkey) =>
      match replaceFile io.agg plan.sealagg files.sealagg with
      | (.error why, sealagg) =>
          (.error why, { files with sealkey := sealkey, sealagg := sealagg })
      | (.ok _, sealagg) =>
          match appendAttestLine io.line (attestLine plan.att) files.attest with
          | (.error why, attest) => (.error why, ⟨sealkey, sealagg, attest⟩)
          | (.ok _, attest) => (.ok plan.att, ⟨sealkey, sealagg, attest⟩)

/-- `attest(seq, entry_hash)`. -/
def attest (mode : SealMode) (io : AttestIo) (files : SealFiles) (seq : ℤ) (entryHash : PyStr) :
    Except Halt (Attestation Json) × SealFiles :=
  match planSeal mode files seq entryHash with
  | .error e => (.error (.raised e), files)
  | .ok plan => plan.commit io files

/-- `FileAttestor(trail_path, initial_key=...)`: the first one writes the key. -/
def openAttestor (how : Replace) (initialKey : Bytes) (files : SealFiles) :
    Except Halt Unit × SealFiles :=
  match files.sealkey with
  | some _ => (.ok (), files)
  | none =>
      match atomicWriteBytes how (keyfile 0 initialKey) none with
      | (result, sealkey) => (result, { files with sealkey := sealkey })

/-- `check_continuity(initial_key, attestation_count)`. -/
def checkContinuity (mode : SealMode) (sealkey : Option Bytes) (initialKey : Bytes) (count : ℕ) :
    Except PyErr (Option AttestReason) :=
  match mode, sealkey with
  | .signer _, _ => .ok none
  | .fsHmac _, none => .ok (some .keyfileMissing)
  | .fsHmac _, some file => do
      let (epoch, key) ← readKey (some file)
      if epoch ≠ count then return some .keyfileEpochMismatch
      if epochKey initialKey epoch.toNat ≠ key then return some .keyfileKeyMismatch
      return none

/-! ## What an `attest` leaves -/

/-- The seal of an epoch, and what it leaves in the files. -/
structure EpochSealed (scheme : FsScheme) (files : SealFiles) (seq : ℤ) (entryHash : PyStr)
    (att : Attestation Json) (files' : SealFiles) : Prop where
  /-- The key of the epoch was there, and is gone. -/
  key : ∃ key value, readKey files.sealkey = .ok (seq, key) ∧
    sealEntry key entryHash = .ok value ∧ att = ⟨seq, entryHash, scheme.name, value, .null⟩ ∧
    files'.sealkey = some (keyfile (seq + 1) (evolveKey key)) ∧
    (scheme = .plain ∧ files'.sealagg = files.sealagg ∨
      scheme = .aggregate ∧ ∃ aggStart running,
        foldAggregate files.sealagg seq key value = .ok (aggStart, running) ∧
        files'.sealagg = some (aggfile aggStart (seq + 1) running))
  attest : files'.attest = some (files.attest.getD [] ++ attestLine att)

theorem planEpoch_eq_ok {scheme : FsScheme} {files : SealFiles} {seq : ℤ} {entryHash : PyStr}
    {plan : SealPlan} (h : planEpoch scheme files seq entryHash = .ok plan) :
    ∃ key value, readKey files.sealkey = .ok (seq, key) ∧ sealEntry key entryHash = .ok value ∧
      plan.att = ⟨seq, entryHash, scheme.name, value, .null⟩ ∧
      plan.sealkey = some (keyfile (seq + 1) (evolveKey key)) ∧
      (scheme = .plain ∧ plan.sealagg = none ∨
        scheme = .aggregate ∧ ∃ aggStart running,
          foldAggregate files.sealagg seq key value = .ok (aggStart, running) ∧
          plan.sealagg = some (aggfile aggStart (seq + 1) running)) := by
  obtain ⟨⟨epoch, key⟩, hkey, h⟩ := bind_eq_ok_iff.mp h
  by_cases hepoch : epoch = seq
  · subst hepoch
    simp only [ne_eq, not_true_eq_false, if_false] at h
    obtain ⟨value, hvalue, h⟩ := bind_eq_ok_iff.mp h
    cases scheme with
    | plain =>
        obtain rfl := Except.ok.inj h
        exact ⟨key, value, hkey, hvalue, rfl, rfl, .inl ⟨rfl, rfl⟩⟩
    | aggregate =>
        obtain ⟨⟨aggStart, running⟩, hfold, h⟩ := bind_eq_ok_iff.mp h
        obtain rfl := Except.ok.inj h
        exact ⟨key, value, hkey, hvalue, rfl, rfl, .inr ⟨rfl, aggStart, running, hfold, rfl⟩⟩
  · simp only [ne_eq, hepoch, not_false_iff, if_true] at h
    cases h

omit [Hashlib] in
/-- Nothing happens around the writes of a plan. -/
theorem SealPlan.commit_quiet (plan : SealPlan) (files : SealFiles) :
    plan.commit .quiet files = (.ok plan.att,
      ⟨plan.sealkey.or files.sealkey, plan.sealagg.or files.sealagg,
        some (files.attest.getD [] ++ attestLine plan.att)⟩) := by
  obtain ⟨att, sealkey, sealagg⟩ := plan
  cases sealkey <;> cases sealagg <;> rfl

/-- **An `attest` nothing happens around** has sealed its epoch. -/
theorem epochSealed_of_attest {scheme : FsScheme} {files files' : SealFiles} {seq : ℤ}
    {entryHash : PyStr} {att : Attestation Json}
    (h : attest (.fsHmac scheme) .quiet files seq entryHash = (.ok att, files')) :
    EpochSealed scheme files seq entryHash att files' := by
  unfold attest at h
  cases hplan : planSeal (.fsHmac scheme) files seq entryHash with
  | error e =>
      rw [hplan] at h
      cases (Prod.mk.inj h).1
  | ok plan =>
      rw [hplan] at h
      obtain ⟨key, value, hkey, hvalue, hatt, hsealkey, hagg⟩ := planEpoch_eq_ok hplan
      simp only [plan.commit_quiet] at h
      obtain ⟨hok, rfl⟩ := Prod.mk.inj h
      obtain rfl := Except.ok.inj hok
      refine ⟨⟨key, value, hkey, hvalue, hatt, by rw [hsealkey]; rfl, ?_⟩, rfl⟩
      rcases hagg with ⟨hscheme, hagg⟩ | ⟨hscheme, aggStart, running, hfold, hagg⟩
      · exact .inl ⟨hscheme, by rw [hagg]; rfl⟩
      · exact .inr ⟨hscheme, aggStart, running, hfold, by rw [hagg]; rfl⟩

end Seal

/-! ## Reading back -/

section RoundTrip

/-- A digest in hex can be written. -/
theorem noSurrogatePair_hex (b : Bytes) : NoSurrogatePair (hex b) :=
  noSurrogatePair_of_isLowerHex (isLowerHex_hex b)

variable [Interpreter]

theorem writable_keyfileMembers (epoch : ℤ) (key : Bytes) :
    Writable recursionLimit (.obj (keyfileMembers epoch key)) := by
  refine writable_flat [str "epoch", str "key"] (by decide) rfl ?_
  simp only [keyfileMembers, List.forall_mem_cons, List.not_mem_nil, false_imp_iff,
    implies_true, and_true]
  exact ⟨⟨noSurrogatePair_str rfl, trivial⟩, noSurrogatePair_str rfl, noSurrogatePair_hex key⟩

theorem readKey_keyfile (epoch : ℤ) (key : Bytes) :
    readKey (some (keyfile epoch key)) = .ok (epoch, key) := by
  rw [readKey, keyfile]
  simp only [loadsText_dumps (writable_keyfileMembers epoch key)]
  have hkey : fromhexJson (.str (hex key)) = .ok key := by
    rw [fromhexJson, fromhex_hex]
  exact bind_eq_ok_iff.mpr ⟨_, rfl, bind_eq_ok_iff.mpr ⟨epoch, rfl,
    bind_eq_ok_iff.mpr ⟨key, hkey, rfl⟩⟩⟩

/-- **A torn key file cannot be read.** -/
theorem readKey_torn {epoch : ℤ} {key : Bytes} {n : ℕ} (hn : n < (keyfile epoch key).length)
    (state : ℤ × Bytes) : readKey (some ((keyfile epoch key).take n)) ≠ .ok state := by
  intro hread
  obtain ⟨v, hload, -⟩ := bind_eq_ok_iff.mp hread
  exact loadsText_torn (writable_keyfileMembers epoch key) hn v hload

theorem readAggregate_aggfile (aggStart epoch : ℤ) {agg : PyStr} (h : NoSurrogatePair agg) :
    readAggregate (some (aggfile aggStart epoch agg)) = .ok (some (aggStart, epoch, agg)) := by
  have hwritable : Writable recursionLimit (.obj (aggfileMembers aggStart epoch agg)) := by
    refine writable_flat [str "agg", str "agg_start", str "epoch"] (by decide) rfl ?_
    simp only [aggfileMembers, List.forall_mem_cons, List.not_mem_nil, false_imp_iff,
      implies_true, and_true]
    exact ⟨⟨noSurrogatePair_str rfl, h⟩, ⟨noSurrogatePair_str rfl, trivial⟩,
      noSurrogatePair_str rfl, trivial⟩
  rw [readAggregate, aggfile]
  simp only [loadsText_dumps hwritable]
  rfl

/-- An attestation whose line can be read back. -/
structure StorableAtt (att : Attestation Json) : Prop where
  entryHash : NoSurrogatePair att.entryHash
  scheme : NoSurrogatePair att.scheme
  value : NoSurrogatePair att.value
  keyId : att.keyId = .null ∨ ∃ keyId, att.keyId = .str keyId ∧ NoSurrogatePair keyId

theorem writable_attestationMembers {att : Attestation Json} (h : StorableAtt att) :
    Writable recursionLimit (.obj (attestationMembers att)) := by
  obtain ⟨seq, entryHash, scheme, value, keyId⟩ := att
  obtain ⟨hhash, hscheme, hvalue, rfl | ⟨keyId, rfl, hkeyId⟩⟩ := h
  · refine writable_flat [str "entry_hash", str "scheme", str "seq", str "value"] (by decide)
      rfl ?_
    simp only [attestationMembers, List.append_nil, List.cons_append, List.nil_append,
      List.forall_mem_cons, List.not_mem_nil, false_imp_iff, implies_true, and_true]
    exact ⟨⟨noSurrogatePair_str rfl, hhash⟩, ⟨noSurrogatePair_str rfl, hscheme⟩,
      ⟨noSurrogatePair_str rfl, trivial⟩, noSurrogatePair_str rfl, hvalue⟩
  · refine writable_flat [str "entry_hash", str "key_id", str "scheme", str "seq", str "value"]
      (by decide) rfl ?_
    simp only [attestationMembers, List.cons_append, List.nil_append,
      List.forall_mem_cons, List.not_mem_nil, false_imp_iff, implies_true, and_true]
    exact ⟨⟨noSurrogatePair_str rfl, hhash⟩, ⟨noSurrogatePair_str rfl, hkeyId⟩,
      ⟨noSurrogatePair_str rfl, hscheme⟩, ⟨noSurrogatePair_str rfl, trivial⟩,
      noSurrogatePair_str rfl, hvalue⟩

theorem readAttestation_members {att : Attestation Json} (h : StorableAtt att) :
    readAttestation (.obj (attestationMembers att)) = .ok att := by
  obtain ⟨seq, entryHash, scheme, value, keyId⟩ := att
  obtain ⟨-, -, -, rfl | ⟨keyId, rfl, -⟩⟩ := h <;> rfl

/-- The format of `.attest`. -/
def attestationFormat : RecordFormat (Attestation Json) where
  members := attestationMembers
  read := readAttestation
  Storable := StorableAtt
  writable := writable_attestationMembers
  read_members := readAttestation_members

theorem attestLine_eq (att : Attestation Json) :
    attestLine att = attestationFormat.bytes att ++ [LF] := rfl

theorem attestations_eq (file : Option Bytes) :
    attestations file = readLines readAttestation (file.getD []) := by
  cases file <;> rfl

/-- **A line more is one attestation more.** -/
theorem attestations_snoc {file : Option Bytes} {atts : List (Attestation Json)}
    {att : Attestation Json} (hatt : StorableAtt att) (hends : EndsLine (file.getD []))
    (hread : attestations file = .ok atts) :
    attestations (some (file.getD [] ++ attestLine att)) = .ok (atts ++ [att]) := by
  rw [attestations_eq] at hread
  exact @RecordFormat.readLines_snoc _ _ attestationFormat att hatt _ hends _ hread

/-- What ends in a line of its own ends its file. -/
theorem endsLine_attestLine (file : Bytes) (att : Attestation Json) :
    EndsLine (file ++ attestLine att) := by
  rw [attestLine_eq, ← List.append_assoc]
  exact .of_append_LF _

end RoundTrip

end Waxseal
