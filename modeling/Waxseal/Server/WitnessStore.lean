import Waxseal.Base.JsonWriting
import Waxseal.Base.TextFiles
import Waxseal.Server.EnvelopeParsing

/-!
# Checkpoints deposited with a witness

`WitnessStore` of the server's `storage/witness.py`, and `parse_checkpoint` of its
`domain/checkpoint.py`.  A deposit appends one line to the file of its witness, and nothing looks
at the end of the file first: a line that a crash has torn is there when the next one is appended
to it, and the reader decodes every line.

Deposits survive exactly the runs where no crash leaves a part of a line, but for one that leaves
all of it but the newline and has nothing after it (`deposits_survive_iff`).
-/

namespace Waxseal

open Json

/-! ## Checkpoints -/

/-- Why `parse_checkpoint` refuses a body, and the field it names. -/
inductive MalformedCheckpoint where
  | notAnObject
  | missing (name : PyStr)
  | seq
  | notHex64 (name : PyStr)
  | halfBinding
  | aggEpoch
  deriving DecidableEq

/-- What `parse_checkpoint` returns. -/
structure WitnessCheckpoint where
  seq : ℤ
  entryHash : PyStr
  root : PyStr
  /-- `agg_commit` and `agg_epoch`, together or not at all. -/
  binding : Option (PyStr × ℤ)
  seq_nonneg : 0 ≤ seq
  entryHash_hex : isHex64 entryHash = true
  root_hex : isHex64 root = true
  binding_hex : ∀ b ∈ binding, isHex64 b.1 = true

/-- `body[name]`, of a body that must have it. -/
def checkpointField (members : List (PyStr × Json)) (name : PyStr) :
    Except MalformedCheckpoint Json :=
  match members.find? (·.1 = name) with
  | some m => .ok m.2
  | none => .error (.missing name)

/-- A non-negative integer that is no boolean. -/
def checkpointSeq : Json → Except MalformedCheckpoint { n : ℤ // 0 ≤ n }
  | .int n => if h : 0 ≤ n then .ok ⟨n, h⟩ else .error .seq
  | _ => .error .seq

/-- `is_hex64`, of a field of that name. -/
def checkpointHex (name : PyStr) : Json → Except MalformedCheckpoint { s : PyStr // isHex64 s = true }
  | .str s => if h : isHex64 s = true then .ok ⟨s, h⟩ else .error (.notHex64 name)
  | _ => .error (.notHex64 name)

/-- The aggregate binding of a body. -/
def checkpointBinding (members : List (PyStr × Json)) : Except MalformedCheckpoint
    { b : Option (PyStr × ℤ) // ∀ p ∈ b, isHex64 p.1 = true } :=
  match members.find? (·.1 = str "agg_commit"), members.find? (·.1 = str "agg_epoch") with
  | none, none => .ok ⟨none, nofun⟩
  | some commit, some epoch => do
      let commit ← checkpointHex (str "agg_commit") commit.2
      match epoch.2 with
      | .int epoch => return ⟨some (commit.1, epoch), fun _ h => Option.some.inj h ▸ commit.2⟩
      | _ => .error .aggEpoch
  | _, _ => .error .halfBinding

/-- `parse_checkpoint`. -/
def parseWitnessCheckpoint (body : Json) : Except MalformedCheckpoint WitnessCheckpoint :=
  match body with
  | .obj members => do
      let seq ← checkpointField members (str "seq")
      let entryHash ← checkpointField members (str "entry_hash")
      let root ← checkpointField members (str "root")
      let ⟨seq, hseq⟩ ← checkpointSeq seq
      let entryHash ← checkpointHex (str "entry_hash") entryHash
      let root ← checkpointHex (str "root") root
      let binding ← checkpointBinding members
      return ⟨seq, entryHash, root, binding, hseq, entryHash.2, root.2, binding.2⟩
  | _ => .error .notAnObject

/-- `{**checkpoint, "receipt": receipt}`, with its keys sorted. -/
def storedCheckpoint (checkpoint : WitnessCheckpoint) (receipt : PyStr) : List (PyStr × Json) :=
  (checkpoint.binding.elim [] fun b =>
      [(str "agg_commit", .str b.1), (str "agg_epoch", .int b.2)])
    ++ [(str "entry_hash", .str checkpoint.entryHash), (str "receipt", .str receipt),
      (str "root", .str checkpoint.root), (str "seq", .int checkpoint.seq)]

theorem checkpointHex_of_hex {name s : PyStr} (h : isHex64 s = true) :
    checkpointHex name (.str s) = .ok ⟨s, h⟩ := dif_pos h

/-- The fields of a checkpoint are read back from what is stored. -/
theorem checkpointField_stored (checkpoint : WitnessCheckpoint) (receipt : PyStr) :
    checkpointField (storedCheckpoint checkpoint receipt) (str "seq") = .ok (.int checkpoint.seq) ∧
      checkpointField (storedCheckpoint checkpoint receipt) (str "entry_hash")
        = .ok (.str checkpoint.entryHash) ∧
      checkpointField (storedCheckpoint checkpoint receipt) (str "root")
        = .ok (.str checkpoint.root) := by
  obtain ⟨_, _, _, - | _, _, _, _, _⟩ := checkpoint <;> exact ⟨rfl, rfl, rfl⟩

theorem checkpointBinding_stored (checkpoint : WitnessCheckpoint) (receipt : PyStr) :
    checkpointBinding (storedCheckpoint checkpoint receipt) =
      .ok ⟨checkpoint.binding, checkpoint.binding_hex⟩ := by
  obtain ⟨seq, entryHash, root, - | ⟨commit, epoch⟩, hseq, hentry, hroot, hbinding⟩ := checkpoint
  · rfl
  · have hfind : ∀ name, (storedCheckpoint ⟨seq, entryHash, root, some (commit, epoch), hseq, hentry,
        hroot, hbinding⟩ receipt).find? (·.1 = name) = ([(str "agg_commit", .str commit),
          (str "agg_epoch", .int epoch), (str "entry_hash", .str entryHash),
          (str "receipt", .str receipt), (str "root", .str root),
          (str "seq", .int seq)] : List (PyStr × Json)).find? (·.1 = name) := fun _ => rfl
    have hcommit : ([(str "agg_commit", .str commit), (str "agg_epoch", .int epoch),
        (str "entry_hash", .str entryHash), (str "receipt", .str receipt), (str "root", .str root),
        (str "seq", .int seq)] : List (PyStr × Json)).find? (·.1 = str "agg_commit")
        = some (str "agg_commit", .str commit) := rfl
    have hepoch : ([(str "agg_commit", .str commit), (str "agg_epoch", .int epoch),
        (str "entry_hash", .str entryHash), (str "receipt", .str receipt), (str "root", .str root),
        (str "seq", .int seq)] : List (PyStr × Json)).find? (·.1 = str "agg_epoch")
        = some (str "agg_epoch", .int epoch) := rfl
    rw [checkpointBinding, hfind, hfind, hcommit, hepoch]
    dsimp only
    rw [checkpointHex_of_hex (hbinding _ rfl)]
    rfl

/-- **What is stored holds the checkpoint unchanged**: parsed again, it is the one deposited. -/
theorem parse_storedCheckpoint (checkpoint : WitnessCheckpoint) (receipt : PyStr) :
    parseWitnessCheckpoint (.obj (storedCheckpoint checkpoint receipt)) = .ok checkpoint := by
  obtain ⟨hseq, hentry, hroot⟩ := checkpointField_stored checkpoint receipt
  have hnonneg : checkpointSeq (.int checkpoint.seq) =
      .ok ⟨checkpoint.seq, checkpoint.seq_nonneg⟩ := dif_pos checkpoint.seq_nonneg
  rw [parseWitnessCheckpoint, hseq, hentry, hroot, checkpointBinding_stored]
  simp only [bind, Except.bind, hnonneg, checkpointHex_of_hex checkpoint.entryHash_hex,
    checkpointHex_of_hex checkpoint.root_hex]
  rfl

/-! ## Deposits -/

/-- A call of `WitnessStore.record`: its arguments, the id `uuid4().hex` gives it, and where a
crash cuts its line, if one does. -/
structure Deposit where
  witnessId : PyStr
  checkpoint : WitnessCheckpoint
  receipt : PyStr
  receipt_hex : isLowerHex receipt = true
  crash : Option ℕ

/-- The files of a witness directory. -/
abbrev WitnessFiles := PyStr → Option Bytes

/-- How a call of `record` ends. -/
inductive DepositEnd where
  | returned (receipt : PyStr)
  | invalidIdentifier
  | raised (e : PyErr)
  | crashed

section Store

variable [Interpreter]

namespace Deposit

/-- The object a deposit stores. -/
def stored (call : Deposit) : Json := .obj (storedCheckpoint call.checkpoint call.receipt)

/-- Its text. -/
def text (call : Deposit) : PyStr := dumps .compact call.stored

/-- The bytes a deposit leaves in its file. -/
def written (call : Deposit) : PyStr :=
  if isSafeName call.witnessId ∧ intsFit call.stored = true then
    match call.crash with
    | none => call.text ++ [0x0A]
    | some n => (call.text ++ [0x0A]).take n
  else []

/-- The receipt of the deposit was returned. -/
def returns (call : Deposit) : Bool :=
  isSafeName call.witnessId && intsFit call.stored && call.crash.isNone

end Deposit

namespace WitnessStore

/-- A file after `open(path, "a")` and a write. -/
def appendTo (files : WitnessFiles) (witnessId : PyStr) (bytes : Bytes) : WitnessFiles :=
  fun id => if id = witnessId then some ((files id).getD [] ++ bytes) else files id

/-- `record`. -/
def record (files : WitnessFiles) (call : Deposit) : DepositEnd × WitnessFiles :=
  if isSafeName call.witnessId then
    match dumpsDigits .compact call.stored with
    -- The file is open when the checkpoint is written out.
    | .error e => (.raised e, appendTo files call.witnessId [])
    | .ok text =>
        let line := asciiBytes (text ++ [0x0A])
        match call.crash with
        | none => (.returned call.receipt, appendTo files call.witnessId line)
        | some n => (.crashed, appendTo files call.witnessId (line.take n))
  else (.invalidIdentifier, files)

/-- `checkpoints`, of the file of a witness. -/
def checkpoints (file : Option Bytes) : Except PyErr (List Json) :=
  match file with
  | none => .ok []
  | some file =>
      match textFileLines file with
      | none => .error .unicodeDecodeError
      | some lines => (lines.filter fun line => !isBlank line).mapM loadsTextDigits

/-- The files after a sequence of calls. -/
def run (calls : List Deposit) : WitnessFiles :=
  calls.foldl (fun files call => (record files call).2) fun _ => none

end WitnessStore

/-! ## One file -/

namespace Deposit

/-- The deposits of a file that left their whole line. -/
def Whole (call : Deposit) : Prop := call.written = call.text ++ [0x0A]

/-- The call left nothing in its file, or its whole line. -/
def Clean (call : Deposit) : Prop := call.written = [] ∨ call.Whole

theorem writable_stored (call : Deposit) : Writable recursionLimit call.stored := by
  obtain ⟨id, ⟨seq, entryHash, root, binding, hseq, hentry, hroot, hbinding⟩, receipt, hreceipt,
    crash⟩ := call
  have hkeys : ∀ {members : List (PyStr × Json)}, (∀ m ∈ members,
      m.1.all (fun c => IsPrintable c) = true ∧ Writable 0 m.2) →
      ∀ m ∈ members, NoSurrogatePair m.1 ∧ Writable 0 m.2 := fun h m hm =>
    ⟨noSurrogatePair_str (h m hm).1, (h m hm).2⟩
  have hreceipt' : Writable 0 (.str receipt) := noSurrogatePair_of_isLowerHex hreceipt
  have hentry' : Writable 0 (.str entryHash) := noSurrogatePair_of_isHex64 hentry
  have hroot' : Writable 0 (.str root) := noSurrogatePair_of_isHex64 hroot
  cases binding with
  | none =>
      refine writable_flat [str "entry_hash", str "receipt", str "root", str "seq"]
        (by decide +kernel) rfl (hkeys ?_)
      simp only [storedCheckpoint, Option.elim_none, List.nil_append, List.forall_mem_cons]
      exact ⟨⟨by decide +kernel, hentry'⟩, ⟨by decide +kernel, hreceipt'⟩,
        ⟨by decide +kernel, hroot'⟩, ⟨by decide +kernel, trivial⟩, List.forall_mem_nil _⟩
  | some b =>
      have hcommit : Writable 0 (.str b.1) := noSurrogatePair_of_isHex64 (hbinding b rfl)
      refine writable_flat [str "agg_commit", str "agg_epoch", str "entry_hash", str "receipt",
        str "root", str "seq"] (by decide +kernel) rfl (hkeys ?_)
      simp only [storedCheckpoint, Option.elim_some, List.cons_append, List.nil_append,
        List.forall_mem_cons]
      exact ⟨⟨by decide +kernel, hcommit⟩, ⟨by decide +kernel, trivial⟩,
        ⟨by decide +kernel, hentry'⟩, ⟨by decide +kernel, hreceipt'⟩,
        ⟨by decide +kernel, hroot'⟩, ⟨by decide +kernel, trivial⟩, List.forall_mem_nil _⟩

theorem isPrintable_text (call : Deposit) : ∀ c ∈ call.text, IsPrintable c :=
  isPrintable_dumps call.writable_stored

theorem opensObject_text (call : Deposit) : OpensObject call.text := opensObject_dumps _

theorem text_ne_nil (call : Deposit) : call.text ≠ [] := by
  obtain ⟨t, ht⟩ := call.opensObject_text
  rw [ht]
  exact List.cons_ne_nil _ _

/-- What a call leaves is the start of its line. -/
theorem written_prefix (call : Deposit) : call.written <+: call.text ++ [0x0A] := by
  rw [written]
  split
  · split
    · exact List.prefix_refl _
    · exact List.take_prefix _ _
  · exact List.nil_prefix

/-- A call that left something could write its checkpoint out. -/
theorem intsFit_of_written {call : Deposit} (h : call.written ≠ []) : intsFit call.stored = true := by
  by_contra hfit
  rw [written, if_neg fun h => hfit h.2] at h
  exact h rfl

theorem whole_of_returns {call : Deposit} (h : call.returns = true) : call.Whole := by
  rw [returns, Bool.and_eq_true, Bool.and_eq_true, Option.isNone_iff_eq_none] at h
  rw [Whole, written, if_pos h.1, h.2]

theorem whole_ne_nil {call : Deposit} (h : call.Whole) : call.written ≠ [] := by
  rw [h]
  exact List.append_ne_nil_of_right_ne_nil _ (List.cons_ne_nil _ _)

/-- A call that left neither nothing nor its line left the text without the newline, or a part of
the text. -/
theorem written_cases (call : Deposit) :
    call.written = [] ∨ call.Whole ∨ call.written = call.text ∨
      ∃ q, q ≠ [] ∧ call.written ++ q = call.text ∧ call.written ≠ [] := by
  by_cases hnil : call.written = []
  · exact .inl hnil
  obtain ⟨q, hq⟩ := call.written_prefix
  rcases List.eq_nil_or_concat q with rfl | ⟨init, last, rfl⟩
  · rw [List.append_nil] at hq
    exact .inr (.inl hq)
  · rw [List.concat_eq_append, ← List.append_assoc] at hq
    have htext := (List.append_inj' hq rfl).1
    by_cases hinit : init = []
    · rw [hinit, List.append_nil] at htext
      exact .inr (.inr (.inl htext))
    · exact .inr (.inr (.inr ⟨init, hinit, htext, hnil⟩))

/-- The text of a call is read back. -/
theorem loadsTextDigits_text {call : Deposit} (h : intsFit call.stored = true) :
    loadsTextDigits call.text = .ok call.stored := by
  have hloads : loadsTextDigits (call.text ++ []) = .ok call.stored :=
    loadsTextDigits_dumps call.writable_stored h rfl
  rw [List.append_nil] at hloads
  exact hloads

/-- What a call has begun with an object. -/
theorem opensObject_written {call : Deposit} (h : call.written ≠ []) : OpensObject call.written := by
  obtain ⟨q, hq⟩ := call.written_prefix
  obtain ⟨t, ht⟩ := call.opensObject_text
  cases hwritten : call.written with
  | nil => exact absurd hwritten h
  | cons c l =>
      rw [hwritten, ht] at hq
      exact ⟨l, congrArg (· :: l) (List.cons.inj hq).1⟩

end Deposit

open Deposit

/-- The characters a sequence of calls leaves in one file. -/
def fileText (calls : List Deposit) : PyStr := calls.flatMap written

/-- What a file of clean calls holds: a line for each call that left one. -/
def wholeLines (calls : List Deposit) : List PyStr :=
  (calls.filter fun call => call.written ≠ []).map text

/-- The objects of those lines. -/
def wholeObjects (calls : List Deposit) : List Json :=
  (calls.filter fun call => call.written ≠ []).map stored

/-- The objects of the calls whose receipts were returned. -/
def returned (calls : List Deposit) : List Json := (calls.filter returns).map stored

theorem fileText_clean {calls : List Deposit} (h : ∀ call ∈ calls, call.Clean) :
    fileText calls = joinLines (wholeLines calls) := by
  induction calls with
  | nil => rfl
  | cons call calls ih =>
      rw [List.forall_mem_cons] at h
      rw [fileText, List.flatMap_cons, ← fileText, ih h.2]
      rcases h.1 with hnil | hwhole
      · simp [wholeLines, hnil]
      · have hne := whole_ne_nil hwhole
        rw [Whole] at hwhole
        simp only [wholeLines, List.filter_cons, decide_eq_true hne, if_true, List.map_cons,
          joinLines, List.flatMap_cons, ← hwhole]

/-- Every deposit that was returned left its line. -/
theorem returned_sublist (calls : List Deposit) : (returned calls).Sublist (wholeObjects calls) := by
  refine List.Sublist.map _ (List.monotone_filter_right calls fun call hreturns => ?_)
  exact decide_eq_true (whole_ne_nil (whole_of_returns hreturns))

/-- What the reader makes of a file. -/
def readText (s : PyStr) : Except PyErr (List Json) :=
  WitnessStore.checkpoints (some (asciiBytes s))

/-- The reader gets through if it can decode every line. -/
theorem readText_lines {lines : List PyStr} (h : ∀ l ∈ lines, (∀ c ∈ l, IsPrintable c) ∧ OpensObject l)
    {last : PyStr} (hlast : ∀ c ∈ last, IsPrintable c) (hopen : last = [] ∨ OpensObject last) :
    readText (joinLines lines ++ last) =
      (lines ++ if last = [] then [] else [last]).mapM loadsTextDigits := by
  have hblank : ∀ l ∈ lines ++ (if last = [] then [] else [last]), (!isBlank l) = true := by
    intro l hl
    rcases List.mem_append.mp hl with hl | hl
    · rw [isBlank_opensObject (h l hl).2]
      rfl
    · split_ifs at hl with hnil
      · exact absurd hl List.not_mem_nil
      · rw [List.mem_singleton.mp hl, isBlank_opensObject (hopen.resolve_left hnil)]
        rfl
  rw [readText, WitnessStore.checkpoints, textFileLines_lines (fun l hl => (h l hl).1) hlast]
  dsimp only
  rw [List.filter_eq_self.mpr hblank]

theorem wholeLines_spec (calls : List Deposit) :
    ∀ l ∈ wholeLines calls, (∀ c ∈ l, IsPrintable c) ∧ OpensObject l := by
  intro l hl
  obtain ⟨call, -, rfl⟩ := List.mem_map.mp hl
  exact ⟨call.isPrintable_text, call.opensObject_text⟩

theorem mapM_wholeLines (calls : List Deposit) :
    (wholeLines calls).mapM loadsTextDigits = .ok (wholeObjects calls) := by
  induction calls with
  | nil => rfl
  | cons call calls ih =>
      by_cases hnil : call.written = []
      · simpa [wholeLines, wholeObjects, hnil] using ih
      · have hload := loadsTextDigits_text (intsFit_of_written hnil)
        simp only [wholeLines, wholeObjects, List.filter_cons, decide_eq_true hnil, if_true,
          List.map_cons, List.mapM_cons, hload] at ih ⊢
        rw [ih]
        rfl

/-- **A file of clean calls** is read to its lines. -/
theorem readText_clean {calls : List Deposit} (h : ∀ call ∈ calls, call.Clean) :
    readText (fileText calls) = .ok (wholeObjects calls) := by
  have hread := readText_lines (wholeLines_spec calls) (List.forall_mem_nil _) (.inl rfl)
  rw [if_pos rfl, List.append_nil, List.append_nil, ← fileText_clean h, mapM_wholeLines] at hread
  exact hread

/-- What stands behind clean calls is decoded as one line, terminated or not. -/
theorem readText_behind {calls : List Deposit} (h : ∀ call ∈ calls, call.Clean) {last : PyStr}
    (hprint : ∀ c ∈ last, IsPrintable c) (hopen : OpensObject last) {ending : PyStr}
    (hending : ending = [] ∨ ending = [0x0A]) :
    readText (fileText calls ++ (last ++ ending)) =
      (do return wholeObjects calls ++ [← loadsTextDigits last]) := by
  have hne : last ≠ [] := by
    obtain ⟨t, rfl⟩ := hopen
    exact List.cons_ne_nil _ _
  have hlines : (wholeLines calls ++ [last]).mapM loadsTextDigits =
      (do return wholeObjects calls ++ [← loadsTextDigits last]) := by
    rw [List.mapM_append, mapM_wholeLines]
    cases hload : loadsTextDigits last with
    | error e => simp [List.mapM_cons, hload, bind, Except.bind]
    | ok v => simp [List.mapM_cons, hload, bind, Except.bind, pure, Except.pure]
  rw [fileText_clean h, ← hlines]
  rcases hending with rfl | rfl
  · rw [List.append_nil, readText_lines (wholeLines_spec calls) hprint (.inr hopen), if_neg hne]
  · have hjoin : joinLines (wholeLines calls) ++ (last ++ [0x0A]) =
        joinLines (wholeLines calls ++ [last]) ++ [] := by
      simp [joinLines]
    have hspec : ∀ l ∈ wholeLines calls ++ [last], (∀ c ∈ l, IsPrintable c) ∧ OpensObject l :=
      List.forall_mem_append.mpr
        ⟨wholeLines_spec calls, List.forall_mem_singleton.mpr ⟨hprint, hopen⟩⟩
    rw [hjoin, readText_lines hspec (List.forall_mem_nil _) (.inl rfl), if_pos rfl,
      List.append_nil]

/-- The reader gets through, and what was returned is among what it reads, in order. -/
def Answers (calls : List Deposit) : Prop :=
  ∃ records, readText (fileText calls) = .ok records ∧ (returned calls).Sublist records

theorem answers_clean {calls : List Deposit} (h : ∀ call ∈ calls, call.Clean) : Answers calls :=
  ⟨_, readText_clean h, returned_sublist calls⟩

section Behind

variable {done later : List Deposit} {call : Deposit} (hdone : ∀ c ∈ done, c.Clean)

include hdone

omit hdone in
theorem fileText_behind (hlater : ∀ c ∈ later, c.written = []) :
    fileText (done ++ call :: later) = fileText done ++ call.written := by
  have hnil : later.flatMap written = [] := List.flatMap_eq_nil_iff.mpr hlater
  rw [fileText, List.flatMap_append, List.flatMap_cons, hnil, List.append_nil]
  rfl

/-- A text without its newline is read, as long as nothing comes after it. -/
theorem answers_unterminated (htext : call.written = call.text)
    (hlater : ∀ c ∈ later, c.written = []) : Answers (done ++ call :: later) := by
  have hfit := intsFit_of_written (htext ▸ call.text_ne_nil)
  have hread : readText (fileText done ++ (call.text ++ [])) = _ :=
    readText_behind hdone call.isPrintable_text call.opensObject_text (.inl rfl)
  rw [List.append_nil, loadsTextDigits_text hfit] at hread
  refine ⟨wholeObjects done ++ [call.stored], ?_, ?_⟩
  · rw [fileText_behind hlater, htext]
    exact hread
  · have hnone : returned (call :: later) = [] := by
      rw [returned, List.map_eq_nil_iff, List.filter_eq_nil_iff]
      refine List.forall_mem_cons.mpr ⟨fun hreturns => ?_, fun c hc hreturns => ?_⟩
      · have hwhole := whole_of_returns hreturns
        rw [Whole, htext] at hwhole
        exact absurd (congrArg List.length hwhole) (by simp)
      · exact whole_ne_nil (whole_of_returns hreturns) (hlater c hc)
    have hreturned : returned (done ++ call :: later) = returned done := by
      have happend : returned (done ++ call :: later) = returned done ++ returned (call :: later) := by
        rw [returned, List.filter_append, List.map_append]
        rfl
      rw [happend, hnone, List.append_nil]
    rw [hreturned]
    exact (returned_sublist done).trans (List.sublist_append_left _ _)

/-- **A torn line stops the reader.** -/
theorem not_answers_torn {q : PyStr} (hq : q ≠ []) (htorn : call.written ++ q = call.text)
    (hne : call.written ≠ []) : ¬ Answers (done ++ [call]) := by
  rintro ⟨records, hread, -⟩
  have hprint : ∀ c ∈ call.written, IsPrintable c := fun c hc =>
    call.isPrintable_text c (htorn ▸ List.mem_append_left q hc)
  rw [fileText_behind (List.forall_mem_nil _), ← List.append_nil call.written,
    readText_behind hdone hprint (opensObject_written hne) (.inl rfl)] at hread
  obtain ⟨v, hload, -⟩ := bind_eq_ok_iff.mp hread
  exact loadsTextDigits_torn call.writable_stored htorn hq v hload

/-- **So does a line that was appended to a text without its newline.** -/
theorem not_answers_glued (htext : call.written = call.text) (hlater : ∀ c ∈ later, c.written = [])
    {next : Deposit} (hnext : next.written ≠ []) : ¬ Answers (done ++ call :: (later ++ [next])) := by
  rintro ⟨records, hread, -⟩
  have hfile : fileText (done ++ call :: (later ++ [next])) =
      fileText done ++ (call.text ++ next.written) := by
    have hsplit : done ++ call :: (later ++ [next]) = (done ++ call :: later) ++ [next] := by simp
    have happend : fileText ((done ++ call :: later) ++ [next]) =
        fileText (done ++ call :: later) ++ next.written := by
      simp [fileText]
    rw [hsplit, happend, fileText_behind hlater, htext, List.append_assoc]
  -- The appended line without its newline, if it is whole.
  obtain ⟨more, ending, hmore, hending, hprint, hopen⟩ : ∃ more ending : PyStr,
      next.written = more ++ ending ∧ (ending = [] ∨ ending = [0x0A]) ∧
        (∀ c ∈ more, IsPrintable c) ∧ OpensObject more := by
    rcases next.written_cases with hnil | hwhole | hwritten | ⟨q, -, hwritten, -⟩
    · exact absurd hnil hnext
    · exact ⟨next.text, [0x0A], hwhole, .inr rfl, next.isPrintable_text, next.opensObject_text⟩
    · exact ⟨next.text, [], by rw [hwritten, List.append_nil], .inl rfl, next.isPrintable_text,
        next.opensObject_text⟩
    · refine ⟨next.written, [], (List.append_nil _).symm, .inl rfl, fun c hc => ?_,
        opensObject_written hnext⟩
      exact next.isPrintable_text c (hwritten ▸ List.mem_append_left q hc)
  have hglued : ∀ c ∈ call.text ++ more, IsPrintable c :=
    List.forall_mem_append.mpr ⟨call.isPrintable_text, hprint⟩
  rw [hfile, hmore, ← List.append_assoc call.text, readText_behind hdone hglued
    (call.opensObject_text.append more) hending] at hread
  obtain ⟨v, hload, -⟩ := bind_eq_ok_iff.mp hread
  refine loadsTextDigits_glued call.writable_stored ?_ v hload
  obtain ⟨t, rfl⟩ := hopen
  rw [skipWs_cons (show isWs lbrace = false from rfl)]
  exact List.cons_ne_nil _ _

end Behind

/-- No call leaves a part of its line, but for one that leaves all of it but the newline, and
nothing is written after it. -/
def NothingTorn : List Deposit → Prop
  | [] => True
  | call :: calls =>
      call.Clean ∧ NothingTorn calls ∨
        call.written = call.text ∧ ∀ later ∈ calls, later.written = []

omit [Interpreter] in
/-- A list whose elements are all of a kind, or the first that is not. -/
theorem forall_or_first {α : Type} (P : α → Prop) (xs : List α) :
    (∀ x ∈ xs, P x) ∨ ∃ before x after, xs = before ++ x :: after ∧ (∀ y ∈ before, P y) ∧ ¬ P x := by
  induction xs with
  | nil => exact .inl (List.forall_mem_nil _)
  | cons x xs ih =>
      by_cases hx : P x
      · rcases ih with hall | ⟨before, y, after, rfl, hbefore, hy⟩
        · exact .inl (List.forall_mem_cons.mpr ⟨hx, hall⟩)
        · exact .inr ⟨x :: before, y, after, rfl, List.forall_mem_cons.mpr ⟨hx, hbefore⟩, hy⟩
      · exact .inr ⟨[], x, xs, rfl, List.forall_mem_nil _, hx⟩

/-- **One file**: the reader answers after every call exactly where nothing is torn. -/
theorem answers_iff {done : List Deposit} (hdone : ∀ c ∈ done, c.Clean) (calls : List Deposit) :
    (∀ p, p <+: calls → Answers (done ++ p)) ↔ NothingTorn calls := by
  induction calls generalizing done with
  | nil =>
      refine ⟨fun _ => trivial, fun _ p hp => ?_⟩
      rw [List.prefix_nil.mp hp, List.append_nil]
      exact answers_clean hdone
  | cons call calls ih =>
      have hextend : call.Clean → ∀ c ∈ done ++ [call], c.Clean := fun hclean =>
        List.forall_mem_append.mpr ⟨hdone, List.forall_mem_singleton.mpr hclean⟩
      constructor
      · intro h
        rcases call.written_cases with hnil | hwhole | htext | ⟨q, hq, htorn, hne⟩
        · exact .inl ⟨.inl hnil, (ih (hextend (.inl hnil))).mp fun p hp => by
              rw [List.append_assoc]
              exact h _ (List.prefix_cons_inj call |>.mpr hp)⟩
        · exact .inl ⟨.inr hwhole, (ih (hextend (.inr hwhole))).mp fun p hp => by
              rw [List.append_assoc]
              exact h _ (List.prefix_cons_inj call |>.mpr hp)⟩
        · refine .inr ⟨htext, ?_⟩
          rcases forall_or_first (fun c : Deposit => c.written = []) calls with
            hall | ⟨before, next, after, rfl, hbefore, hnext⟩
          · exact hall
          · refine absurd (h (call :: (before ++ [next])) ?_) (not_answers_glued hdone htext hbefore hnext)
            rw [List.prefix_cons_inj]
            exact ⟨after, by simp⟩
        · exact absurd (h [call] (List.prefix_cons_inj call |>.mpr List.nil_prefix))
            (not_answers_torn hdone hq htorn hne)
      · rintro (⟨hclean, htorn⟩ | ⟨htext, hlater⟩) p hp
        · have hnext := (ih (hextend hclean)).mpr htorn
          cases p with
          | nil =>
              rw [List.append_nil]
              exact answers_clean hdone
          | cons c p =>
              obtain ⟨rfl, hrest⟩ := List.cons_prefix_cons.mp hp
              have hanswers := hnext p hrest
              rw [List.append_assoc] at hanswers
              exact hanswers
        · cases p with
          | nil =>
              rw [List.append_nil]
              exact answers_clean hdone
          | cons c p =>
              obtain ⟨rfl, hrest⟩ := List.cons_prefix_cons.mp hp
              exact answers_unterminated hdone htext fun later hmem =>
                hlater later (hrest.subset hmem)

/-! ## All files -/

/-- The calls for one witness. -/
def callsFor (witnessId : PyStr) (calls : List Deposit) : List Deposit :=
  calls.filter fun call => call.witnessId = witnessId

namespace WitnessStore

/-- One call adds to the file of its witness what it leaves there. -/
theorem record_getD (files : WitnessFiles) (call : Deposit) (id : PyStr) :
    ((record files call).2 id).getD [] =
      (files id).getD [] ++ if call.witnessId = id then asciiBytes call.written else [] := by
  have hset : ∀ bytes, (appendTo files call.witnessId bytes id).getD [] =
      (files id).getD [] ++ if call.witnessId = id then bytes else [] := by
    intro bytes
    rw [appendTo]
    by_cases hid : call.witnessId = id
    · rw [if_pos hid.symm, if_pos hid]
      rfl
    · rw [if_neg (Ne.symm hid), if_neg hid, List.append_nil]
  have hnone : (files id).getD [] =
      (files id).getD [] ++ if call.witnessId = id then asciiBytes [] else [] := by
    have hnil : asciiBytes [] = [] := rfl
    rw [hnil, ite_self, List.append_nil]
  by_cases hsafe : isSafeName call.witnessId = true
  · by_cases hfit : intsFit call.stored = true
    · cases hcrash : call.crash with
      | none =>
          have hwritten : call.written = call.text ++ [0x0A] := by
            rw [Deposit.written, if_pos ⟨hsafe, hfit⟩, hcrash]
          have hrecord : (record files call).2 =
              appendTo files call.witnessId (asciiBytes (call.text ++ [0x0A])) := by
            rw [record, if_pos hsafe, dumpsDigits, if_pos hfit]
            simp only [hcrash]
            rfl
          rw [hrecord, hwritten]
          exact hset _
      | some n =>
          have hwritten : call.written = (call.text ++ [0x0A]).take n := by
            rw [Deposit.written, if_pos ⟨hsafe, hfit⟩, hcrash]
          have hrecord : (record files call).2 =
              appendTo files call.witnessId ((asciiBytes (call.text ++ [0x0A])).take n) := by
            rw [record, if_pos hsafe, dumpsDigits, if_pos hfit]
            simp only [hcrash]
            rfl
          have htake : (asciiBytes (call.text ++ [0x0A])).take n =
              asciiBytes ((call.text ++ [0x0A]).take n) := List.map_take.symm
          rw [hrecord, hwritten, htake]
          exact hset _
    · have hwritten : call.written = [] := by
        rw [Deposit.written, if_neg fun h => hfit h.2]
      have hrecord : (record files call).2 = appendTo files call.witnessId [] := by
        rw [record, if_pos hsafe, dumpsDigits, if_neg hfit]
      rw [hrecord, hwritten]
      exact hset []
  · have hwritten : call.written = [] := by
      rw [Deposit.written, if_neg fun h => hsafe h.1]
    have hrecord : (record files call).2 = files := by rw [record, if_neg hsafe]
    rw [hrecord, hwritten]
    exact hnone

/-- The calls that return a receipt. -/
theorem record_returns_iff (files : WitnessFiles) (call : Deposit) :
    (record files call).1 = .returned call.receipt ↔ call.returns = true := by
  rw [record, Deposit.returns, dumpsDigits]
  by_cases hsafe : isSafeName call.witnessId = true
  · by_cases hfit : intsFit call.stored = true
    · cases hcrash : call.crash with
      | none => simp [hsafe, hfit]
      | some n => simp [hsafe, hfit]
    · simp [hsafe, hfit]
  · simp [hsafe]

/-- The file of a witness after a run. -/
theorem run_getD (calls : List Deposit) (id : PyStr) :
    ((run calls) id).getD [] = asciiBytes (fileText (callsFor id calls)) := by
  induction calls using List.reverseRecOn with
  | nil => rfl
  | append_singleton calls call ih =>
      have hstep : run (calls ++ [call]) = (record (run calls) call).2 := by
        rw [run, List.foldl_append]
        rfl
      rw [hstep, record_getD, ih, callsFor, callsFor, List.filter_append, fileText, fileText,
        List.flatMap_append, asciiBytes_append]
      by_cases hid : call.witnessId = id
      · simp [hid]
      · simp [hid, asciiBytes]

/-- A file that is not there reads like an empty one. -/
theorem checkpoints_getD (file : Option Bytes) :
    checkpoints file = checkpoints (some (file.getD [])) := by
  cases file with
  | none => rfl
  | some bytes => rfl

end WitnessStore

/-- After every call, and of every witness: the reader gets through, and what was returned to a
depositor is among what it reads, in order and unchanged. -/
def DepositsSurvive (calls : List Deposit) : Prop :=
  ∀ before, before <+: calls → ∀ id, ∃ records,
    WitnessStore.checkpoints (WitnessStore.run before id) = .ok records ∧
      (returned (callsFor id before)).Sublist records

/-- Every file on its own. -/
theorem depositsSurvive_iff_answers (calls : List Deposit) :
    DepositsSurvive calls ↔ ∀ id p, p <+: callsFor id calls → Answers p := by
  have hread : ∀ id before, WitnessStore.checkpoints (WitnessStore.run before id) =
      readText (fileText (callsFor id before)) := by
    intro id before
    rw [WitnessStore.checkpoints_getD, WitnessStore.run_getD]
    rfl
  constructor
  · intro h id p hp
    obtain ⟨before, hbefore, rfl⟩ := List.prefix_filter_iff.mp hp
    obtain ⟨records, hrecords, hsub⟩ := h before hbefore id
    exact ⟨records, (hread id before).symm.trans hrecords, hsub⟩
  · intro h before hbefore id
    obtain ⟨records, hrecords, hsub⟩ := h id (callsFor id before) (hbefore.filter _)
    exact ⟨records, (hread id before).trans hrecords, hsub⟩

/-- **When deposits survive**: no crash leaves a part of a line, but for one in each file that
leaves all of it but the newline and has nothing written after it. -/
theorem deposits_survive_iff (calls : List Deposit) :
    DepositsSurvive calls ↔ ∀ id, NothingTorn (callsFor id calls) := by
  rw [depositsSurvive_iff_answers]
  refine forall_congr' fun id => ?_
  exact answers_iff (List.forall_mem_nil _) (callsFor id calls)

end Store

theorem isHex64_zeros : isHex64 (List.replicate 64 (.ofChar '0')) = true := by decide +kernel

theorem isSafeName_witness : isSafeName (str "witness") = true := by decide +kernel

/-- A checkpoint of a trail of one entry. -/
def firstCheckpoint : WitnessCheckpoint where
  seq := 0
  entryHash := List.replicate 64 (.ofChar '0')
  root := List.replicate 64 (.ofChar '0')
  binding := none
  seq_nonneg := le_refl 0
  entryHash_hex := isHex64_zeros
  root_hex := isHex64_zeros
  binding_hex := nofun

/-- A deposit that a crash cuts after one byte. -/
def tornDeposit : Deposit := ⟨str "witness", firstCheckpoint, [], rfl, some 1⟩

/-- The reader raises, and the witness no longer answers what it was told. -/
theorem torn_deposit_silences :
    letI := Interpreter.plain
    ¬ ∀ calls, DepositsSurvive calls := by
  let _ := Interpreter.plain
  intro h
  have hanswers := (depositsSurvive_iff_answers [tornDeposit]).mp (h _) (str "witness")
    [tornDeposit] (List.prefix_refl _)
  have hfit : intsFit tornDeposit.stored = true := by decide +kernel
  have hwritten : tornDeposit.written = [lbrace] := by
    rw [Deposit.written, if_pos ⟨isSafeName_witness, hfit⟩]
    rfl
  obtain ⟨t, ht⟩ := tornDeposit.opensObject_text
  refine not_answers_torn (List.forall_mem_nil _) (q := t) ?_ ?_ ?_ hanswers
  · rintro rfl
    exact absurd (congrArg List.length ht) (by decide +kernel)
  · rw [hwritten, ht]
    rfl
  · rw [hwritten]
    exact List.cons_ne_nil _ _

end Waxseal
