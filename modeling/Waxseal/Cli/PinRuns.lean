import Mathlib.Data.List.Infix
import Waxseal.Cli.Pin
import Waxseal.Domain.Witnessing

/-!
# Histories of pinned runs

Runs with `--pin` one after another on one pin file, with any trail at each of them.  What one
run can do is `PinRun.exec_cases`: it leaves the file as it is, or it has confirmed the pin it
found and saves one for the trail it read.  So a pin always stands for the trail of the last
run that saved (`Confirmed`), and that trail extends those of the runs before
(`pinned_history`).
-/

namespace Waxseal

open Merkle

variable [Hashlib]

/-! ## One pin check -/

namespace PinRequest

/-- **What a pin check gives.**  A pin to save is for the trail that was read, and where there
was a pin before, the trail has passed it. -/
theorem pinCheck_cases {request : PinRequest} {loaded : Except PinError (Option PinState)}
    {pin : CheckSummary} {pending : Option PinState}
    (h : request.pinCheck loaded = .ok (pin, pending)) :
    (pending = none ∧ (pin.verdict = .broken ∨ loaded.toOption.join = none)) ∨
      ∃ head stored, checkpointFor request.hashes none none none = .ok head ∧
        loaded = .ok stored ∧ pending = some (request.pinState stored head) ∧
        ∀ s ∈ stored, checkPin request.hashes s.checkpoint = none := by
  rcases loaded with (- | - | e) | (- | stored)
  · obtain ⟨rfl, rfl⟩ := Prod.mk.inj (Except.ok.inj h)
    exact .inl ⟨rfl, .inl rfl⟩
  · obtain ⟨rfl, rfl⟩ := Prod.mk.inj (Except.ok.inj h)
    exact .inl ⟨rfl, .inr rfl⟩
  · cases h
  · rw [pinCheck] at h
    split_ifs at h with hempty
    · obtain ⟨rfl, rfl⟩ := Prod.mk.inj (Except.ok.inj h)
      exact .inl ⟨rfl, .inr rfl⟩
    · obtain ⟨head, hhead, h⟩ := bind_eq_ok_iff.mp h
      obtain ⟨rfl, rfl⟩ := Prod.mk.inj (Except.ok.inj h)
      exact .inr ⟨head, none, hhead, rfl, rfl, fun s hs => absurd hs (Option.not_mem_none s)⟩
  · rw [pinCheck] at h
    split at h
    · obtain ⟨rfl, rfl⟩ := Prod.mk.inj (Except.ok.inj h)
      exact .inl ⟨rfl, .inl rfl⟩
    · split at h
      · obtain ⟨rfl, rfl⟩ := Prod.mk.inj (Except.ok.inj h)
        exact .inl ⟨rfl, .inl rfl⟩
      · next hpin =>
          obtain ⟨head, hhead, h⟩ := bind_eq_ok_iff.mp h
          have hpassed : ∀ s ∈ some stored, checkPin request.hashes s.checkpoint = none := by
            intro s hs
            obtain rfl := Option.some.inj hs
            exact hpin
          split at h
          · obtain ⟨rfl, rfl⟩ := Prod.mk.inj (Except.ok.inj h)
            exact .inr ⟨head, some stored, hhead, rfl, rfl, hpassed⟩
          · obtain ⟨rfl, rfl⟩ := Prod.mk.inj (Except.ok.inj h)
            exact .inr ⟨head, some stored, hhead, rfl, rfl, hpassed⟩

end PinRequest

/-! ## One run -/

namespace PinRun

variable {run : PinRun}

omit [Hashlib] in
/-- A broken pin breaks the run. -/
theorem combined_of_broken {chain : VerifyResult} {observed : Observed} {pin : CheckSummary}
    {receipts : Verdict} (h : pin.verdict = .broken) :
    run.combined chain observed pin receipts = .broken := by
  rw [combined, Verdict.foldl_join_eq_broken]
  refine .inr ?_
  split <;> simp [h]

omit [Hashlib] in
/-- An exception exits 1 or 3. -/
theorem failCode_cases (run : PinRun) (e : RunError) : run.failCode e = 1 ∨ run.failCode e = 3 := by
  cases e with
  | unreachable =>
      rw [failCode]
      split
      · exact .inr rfl
      · exact .inl rfl
  | other => exact .inl rfl

/-- An exception after the pin is loaded exits 1: a URL has no sidecar to fail on. -/
theorem failCode_of_judge {chain : VerifyResult} {observed : Observed}
    {loaded : Except PinError (Option PinState)} {e : RunError}
    (h : run.judge chain observed loaded = .error e) : run.failCode e = 1 := by
  rw [judge] at h
  split at h
  · obtain rfl := Except.error.inj h
    rfl
  · unfold receipts at h
    split at h
    · cases h
    · next hplace =>
        cases e with
        | unreachable => rw [failCode, hplace]
        | other => rfl

/-- **What comes of loading a pin.** -/
theorem judge_cases {chain : VerifyResult} {observed : Observed}
    {loaded : Except PinError (Option PinState)} {verdict : Verdict} {pending : Option PinState}
    (h : run.judge chain observed loaded = .ok (verdict, pending)) :
    (pending = none ∧ (verdict = .broken ∨ loaded.toOption.join = none)) ∨
      ∃ head stored, checkpointFor run.hashes none none none = .ok head ∧ loaded = .ok stored ∧
        pending = some ((run.request observed).pinState stored head) ∧
        ∀ s ∈ stored, checkPin run.hashes s.checkpoint = none := by
  rw [judge] at h
  rcases hcheck : (run.request observed).pinCheck loaded with e | ⟨pin, pending'⟩
  · rw [hcheck] at h
    cases h
  · rw [hcheck] at h
    dsimp only at h
    rcases hreceipts : run.receipts with e | receipts
    · rw [hreceipts] at h
      cases h
    · rw [hreceipts] at h
      obtain ⟨rfl, rfl⟩ := Prod.mk.inj (Except.ok.inj h)
      exact (PinRequest.pinCheck_cases hcheck).imp
        (And.imp_right (Or.imp_left combined_of_broken)) id

variable [Interpreter]

/-- Why a run has saved nothing: it exits 1, it has not got to the pin, there is none, or the
trail has passed it. -/
def Unsaved (run : PinRun) (file : Option Bytes) (found : Option PinState) (exitCode : ℕ) :
    Prop :=
  exitCode = 1 ∨
    (found = none ∧ (exitCode = 3 ∨ (FilePinStore.load file).toOption.join = none)) ∨
    ∃ stored, found = some stored ∧ FilePinStore.load file = .ok (some stored) ∧
      checkPin run.hashes stored.checkpoint = none

theorem unsaved_failCode (run : PinRun) (file : Option Bytes) (e : RunError) :
    run.Unsaved file none (run.failCode e) := by
  rcases run.failCode_cases e with hone | hthree
  · exact .inl hone
  · exact .inr (.inl ⟨rfl, .inl hthree⟩)

/-- **What a run does with the pin file.** -/
theorem exec_cases (run : PinRun) (file : Option Bytes) :
    (∃ found exitCode, run.exec file = run.quit file found exitCode ∧
        run.Unsaved file found exitCode) ∨
      ∃ exitCode observed stored head, exitCode ≠ 1 ∧
        FilePinStore.load file = .ok stored ∧
        checkpointFor run.hashes none none none = .ok head ∧
        (∀ s ∈ stored, checkPin run.hashes s.checkpoint = none) ∧
        run.exec file = ⟨exitCode, run.hashes, stored,
          some ((run.request observed).pinState stored head), file,
          some (FilePinStore.save ((run.request observed).pinState stored head))⟩ := by
  unfold exec
  split
  · exact .inl ⟨none, 3, rfl, .inr (.inl ⟨rfl, .inl rfl⟩)⟩
  unfold onTrail
  split
  · next e _ => exact .inl ⟨none, _, rfl, run.unsaved_failCode file e⟩
  · next chain observed _ =>
      split
      · next e _ => exact .inl ⟨none, _, rfl, run.unsaved_failCode file e⟩
      · unfold conclude
        dsimp only
        rcases hjudge : run.judge chain observed (FilePinStore.load file) with
          e | ⟨verdict, pending⟩
        · exact .inl ⟨_, _, rfl, .inl (failCode_of_judge hjudge)⟩
        · rcases judge_cases hjudge with
            ⟨rfl, rfl | hfound⟩ | ⟨head, stored, hhead, hload, rfl, hpassed⟩
          · exact .inl ⟨_, _, rfl, .inl rfl⟩
          · exact .inl ⟨_, _, rfl, .inr (.inl ⟨hfound, .inr hfound⟩)⟩
          · dsimp only
            split_ifs with hcode
            · exact .inl ⟨_, _, rfl, .inl rfl⟩
            · rw [hload]
              split
              · refine .inl ⟨_, _, rfl, ?_⟩
                cases stored with
                | none => exact .inr (.inl ⟨rfl, .inr (by rw [hload]; rfl)⟩)
                | some s => exact .inr (.inr ⟨s, rfl, hload, hpassed s rfl⟩)
              · exact .inr ⟨_, observed, stored, head, hcode, rfl, hhead, hpassed, rfl⟩

end PinRun

/-! ## What a pin stands for -/

/-- A trail of hex digits in lowercase, with all its trees hash among the inputs. -/
structure HashesSound (inputs : List Bytes) (hashes : List PyStr) : Prop where
  hex : ∀ h ∈ hashes, isSha256Hex h = true
  hashed : prefixInputs hashes ⊆ inputs

/-- The checkpoint of a trail, with its root recomputed. -/
theorem checkpointFor_eq_ok {hashes : List PyStr} {cp : Checkpoint}
    (h : checkpointFor hashes none none none = .ok cp) :
    ∃ tip leaves, hashes.getLast? = some tip ∧ hashes.mapM fromhex = some leaves ∧
      cp = .bare (hashes.length - 1) tip (hex (treeHash leaves)) := by
  rw [checkpointFor] at h
  cases htip : hashes.getLast? with
  | none =>
      rw [htip] at h
      cases h
  | some tip =>
      rw [htip] at h
      obtain ⟨root, hroot, h⟩ := bind_eq_ok_iff.mp h
      cases hleaves : hashes.mapM fromhex with
      | none =>
          rw [batchRoot, hleaves] at hroot
          cases hroot
      | some leaves =>
          rw [batchRoot_eq hleaves] at hroot
          obtain rfl := Except.ok.inj hroot
          obtain rfl := Except.ok.inj h
          exact ⟨tip, leaves, rfl, rfl, rfl⟩

/-- **A trail that passes the pin of another extends it.** -/
theorem HashesSound.extends {inputs : List Bytes} {older newer : List PyStr} {cp : Checkpoint}
    (hcf : CollisionFree inputs) (holder : HashesSound inputs older)
    (hnewer : HashesSound inputs newer) (hcp : checkpointFor older none none none = .ok cp)
    (hpin : checkPin newer cp = none) : older <+: newer :=
  (verifyCheckpoint_checkpointFor_iff holder.hex hnewer.hex
    (hcf.mono (List.append_subset.mpr ⟨holder.hashed, hnewer.hashed⟩)) hcp).mp
    (checkPin_eq_none_iff.mp hpin)

variable [Interpreter]

/-- The pin file holds a pin of the trail. -/
def Confirmed (file : Option Bytes) (hashes : List PyStr) : Prop :=
  ∃ stored, FilePinStore.load file = .ok (some stored) ∧
    checkpointFor hashes none none none = .ok stored.checkpoint

omit [Hashlib] [Interpreter] in
theorem joinPairs_of_isLowerHex {s : PyStr} (h : isLowerHex s = true) : Json.joinPairs s = s :=
  Json.joinPairs_eq_self (Json.noSurrogatePair_of_isLowerHex h)

/-- A pin of a trail is one after it was saved. -/
theorem confirmed_save {hashes : List PyStr} {state : PinState}
    (hhex : ∀ h ∈ hashes, isSha256Hex h = true)
    (hcp : checkpointFor hashes none none none = .ok state.checkpoint) :
    Confirmed (some (FilePinStore.save state)) hashes := by
  refine ⟨state.joined, load_save state, ?_⟩
  obtain ⟨tip, leaves, htip, -, hstate⟩ := checkpointFor_eq_ok hcp
  have hlow := hhex tip (List.mem_of_getLast? htip)
  rw [isSha256Hex, Bool.and_eq_true] at hlow
  rw [hcp, PinState.joined, hstate]
  dsimp only [Checkpoint.bare]
  rw [joinPairs_of_isLowerHex hlow.2, joinPairs_of_isLowerHex (isLowerHex_hex _)]

/-! ## Runs one after another -/

/-- The results of runs, each on the pin file the one before left. -/
def pinTrace : List PinRun → Option Bytes → List PinResult
  | [], _ => []
  | run :: runs, file => run.exec file :: pinTrace runs (run.exec file).after

/-- The pin file after runs. -/
def pinFileAfter (runs : List PinRun) (file : Option Bytes) : Option Bytes :=
  runs.foldl (fun file run => (run.exec file).after) file

theorem hashes_exec (run : PinRun) (file : Option Bytes) :
    (run.exec file).hashes = run.hashes ∧ (run.exec file).before = file := by
  rcases run.exec_cases file with ⟨found, exitCode, hexec, -⟩ |
    ⟨exitCode, observed, stored, head, -, -, -, -, hexec⟩ <;>
  · rw [hexec]
    exact ⟨rfl, rfl⟩

/-- **A run on the pin of a trail**: it exits 1 or has read an extension, and the pin it leaves
is of the same trail, or of the one it read. -/
theorem Confirmed.exec {inputs : List Bytes} {run : PinRun} {file : Option Bytes}
    {older : List PyStr} (h : Confirmed file older) (hcf : CollisionFree inputs)
    (holder : HashesSound inputs older) (hrun : HashesSound inputs run.hashes) :
    ((run.exec file).found.isSome → (run.exec file).exitCode ≠ 1 →
        older <+: (run.exec file).hashes) ∧
      ∃ newer, Confirmed (run.exec file).after newer ∧ older <+: newer ∧
        HashesSound inputs newer := by
  obtain ⟨stored, hload, hcp⟩ := h
  rcases run.exec_cases file with ⟨found, exitCode, hexec, hcases⟩ |
    ⟨exitCode, observed, stored', head, hcode, hload', hhead, hpassed, hexec⟩
  · rw [hexec]
    refine ⟨fun hfound hexit => ?_, older, ⟨stored, hload, hcp⟩, List.prefix_rfl, holder⟩
    rcases hcases with hone | ⟨rfl, -⟩ | ⟨stored', rfl, hload', hpin⟩
    · exact absurd hone hexit
    · cases hfound
    · rw [hload] at hload'
      obtain rfl := Option.some.inj (Except.ok.inj hload')
      exact holder.extends hcf hrun hcp hpin
  · rw [hload] at hload'
    obtain rfl := Except.ok.inj hload'
    have hextends := holder.extends hcf hrun hcp (hpassed stored rfl)
    rw [hexec]
    exact ⟨fun _ _ => hextends, run.hashes, confirmed_save hrun.hex hhead, hextends, hrun⟩

/-- **Whatever comes after the pin of a trail** exits 1 or extends it. -/
theorem Confirmed.trace {inputs : List Bytes} {runs : List PinRun} {file : Option Bytes}
    {older : List PyStr} (h : Confirmed file older) (hcf : CollisionFree inputs)
    (holder : HashesSound inputs older) (hruns : ∀ run ∈ runs, HashesSound inputs run.hashes) :
    ∀ result ∈ pinTrace runs file, result.found.isSome → result.exitCode ≠ 1 →
      older <+: result.hashes := by
  induction runs generalizing file older with
  | nil => exact List.forall_mem_nil _
  | cons run runs ih =>
      obtain ⟨hnow, newer, hafter, hextends, hnewer⟩ :=
        h.exec hcf holder (hruns run List.mem_cons_self)
      refine List.forall_mem_cons.mpr ⟨hnow, fun result hresult hfound hexit => ?_⟩
      exact hextends.trans (ih hafter hnewer
        (fun r hr => hruns r (List.mem_cons_of_mem run hr)) result hresult hfound hexit)

/-- A run that saves leaves the pin of the trail it read. -/
theorem confirmed_of_saved {run : PinRun} {file : Option Bytes}
    (hhex : ∀ h ∈ run.hashes, isSha256Hex h = true) (hsaved : (run.exec file).saved.isSome) :
    Confirmed (run.exec file).after (run.exec file).hashes := by
  rcases run.exec_cases file with ⟨found, exitCode, hexec, -⟩ |
    ⟨exitCode, observed, stored, head, -, -, hhead, -, hexec⟩
  · rw [hexec] at hsaved
    cases hsaved
  · rw [hexec]
    exact confirmed_save hhex hhead

/-- A run that exits 1 leaves the pin file as it was. -/
theorem after_of_exitCode {run : PinRun} {file : Option Bytes}
    (h : (run.exec file).exitCode = 1) : (run.exec file).after = (run.exec file).before := by
  rcases run.exec_cases file with ⟨found, exitCode, hexec, -⟩ |
    ⟨exitCode, observed, stored, head, hcode, -, -, -, hexec⟩
  · rw [hexec]
    rfl
  · rw [hexec] at h
    exact absurd h hcode

/-- **What a pin states, and no run states anew, every later pin states.** -/
theorem stated_trace {P : PinState → Prop} {runs : List PinRun} {file : Option Bytes}
    {stored : PinState} (hload : FilePinStore.load file = .ok (some stored)) (hstored : P stored)
    (hjoined : ∀ state, P state → P state.joined)
    (hkept : ∀ run ∈ runs, ∀ observed stored head, P stored →
      P ((run.request observed).pinState (some stored) head)) :
    ∀ result ∈ pinTrace runs file, ∀ state ∈ result.saved, P state := by
  induction runs generalizing file stored with
  | nil => exact List.forall_mem_nil _
  | cons run runs ih =>
      have hrest := fun file stored hload hstored => @ih file stored hload hstored
        fun r hr => hkept r (List.mem_cons_of_mem run hr)
      rw [pinTrace, List.forall_mem_cons]
      rcases run.exec_cases file with ⟨found, exitCode, hexec, -⟩ |
        ⟨exitCode, observed, stored', head, -, hload', -, -, hexec⟩
      · rw [hexec]
        exact ⟨fun state hs => absurd hs (Option.not_mem_none state),
          hrest file stored hload hstored⟩
      · rw [hload] at hload'
        obtain rfl := Except.ok.inj hload'
        have hsaved := hkept run List.mem_cons_self observed stored head hstored
        rw [hexec]
        refine ⟨fun state hstate => ?_, hrest _ _ (load_save _) (hjoined _ hsaved)⟩
        obtain rfl := Option.some.inj hstate
        exact hsaved

/-- What the pin of a trail declares stays declared: the runs after it save no pin without it,
unless one of them declares it anew. -/
structure Declared (stored : PinState) (runs : List PinRun) (results : List PinResult) : Prop where
  topology : ∀ topology, stored.declaredTopology = some topology →
    (∀ run ∈ runs, run.declareTopology = none) →
      ∀ result ∈ results, ∀ state ∈ result.saved, state.declaredTopology = some topology
  maxAnchorAge : ∀ age, stored.maxAnchorAgeS = some age →
    (∀ run ∈ runs, run.declareMaxAnchorAgeS = none) →
      ∀ result ∈ results, ∀ state ∈ result.saved, state.maxAnchorAgeS = some age
  expectAnchorBinding : stored.expectAnchorBinding = true →
    ∀ result ∈ results, ∀ state ∈ result.saved, state.expectAnchorBinding = true

theorem declared_pinTrace {runs : List PinRun} {file : Option Bytes} {stored : PinState}
    (hload : FilePinStore.load file = .ok (some stored)) :
    Declared stored runs (pinTrace runs file) where
  topology := fun topology hstored hruns => by
    refine @stated_trace _ _ (fun state => state.declaredTopology = some topology) _ _ _ hload
      hstored (fun _ h => h) fun run hrun observed stored head h => ?_
    simp only [PinRequest.pinState, PinRequest.effectiveDeclaredTopology, PinRun.request,
      hruns run hrun, Option.bind_some, h]
  maxAnchorAge := fun age hstored hruns => by
    refine @stated_trace _ _ (fun state => state.maxAnchorAgeS = some age) _ _ _ hload
      hstored (fun _ h => h) fun run hrun observed stored head h => ?_
    simp only [PinRequest.pinState, PinRequest.effectiveMaxAnchorAgeS, PinRun.request,
      hruns run hrun, Option.bind_some, h]
  expectAnchorBinding := fun hstored => by
    refine @stated_trace _ _ (fun state => state.expectAnchorBinding = true) _ _ _ hload
      hstored (fun _ h => h) fun run hrun observed stored head h => ?_
    simp only [PinRequest.pinState, PinRequest.effectiveExpectAnchorBinding, Option.map_some,
      Option.getD_some, h, Bool.or_true]

theorem pairwise_pinTrace {inputs : List Bytes} {runs : List PinRun}
    (hcf : CollisionFree inputs) (hruns : ∀ run ∈ runs, HashesSound inputs run.hashes)
    (file : Option Bytes) :
    (pinTrace runs file).Pairwise fun older newer => older.saved.isSome →
      newer.found.isSome → newer.exitCode ≠ 1 → older.hashes <+: newer.hashes := by
  induction runs generalizing file with
  | nil => exact .nil
  | cons run runs ih =>
      have hrest : ∀ r ∈ runs, HashesSound inputs r.hashes := fun r hr =>
        hruns r (List.mem_cons_of_mem run hr)
      have hrun := hruns run List.mem_cons_self
      refine List.Pairwise.cons (fun newer hnewer hsaved => ?_) (ih hrest _)
      refine (confirmed_of_saved hrun.hex hsaved).trace hcf ?_ hrest newer hnewer
      rwa [(hashes_exec run file).1]

/-- **Pinning detects every rollback and rewrite.**  In every history of runs with one pin
file, a run that finds a readable pin and does not exit 1 has read an extension of what
every earlier run that saved a pin has read; a run that exits 1 leaves the pin file
unchanged; and what a stored pin declares every later pin declares, unless a run in between
declares it anew. -/
theorem pinned_history (runs : List PinRun) (file : Option Bytes)
    (hhex : ∀ run ∈ runs, ∀ h ∈ run.hashes, isSha256Hex h = true)
    (hcf : CollisionFree (runs.flatMap fun run => prefixInputs run.hashes)) :
    ((pinTrace runs file).Pairwise fun older newer => older.saved.isSome →
      newer.found.isSome → newer.exitCode ≠ 1 → older.hashes <+: newer.hashes) ∧
    (∀ result ∈ pinTrace runs file, result.exitCode = 1 → result.after = result.before) ∧
    ∀ before after stored, before ++ after <+: runs →
      FilePinStore.load (pinFileAfter before file) = .ok (some stored) →
        Declared stored after (pinTrace after (pinFileAfter before file)) := by
  refine ⟨pairwise_pinTrace hcf (fun run hrun => ⟨hhex run hrun, ?_⟩) file, ?_,
    fun before after stored _ hload => declared_pinTrace hload⟩
  · exact fun x hx => List.mem_flatMap.mpr ⟨run, hrun, hx⟩
  · clear hhex hcf
    induction runs generalizing file with
    | nil => exact List.forall_mem_nil _
    | cons run runs ih => exact List.forall_mem_cons.mpr ⟨after_of_exitCode, ih _⟩

/-- A row of a newer build. -/
def foreignRow (seq : ℤ) (digit : Char) (prevHash : PyStr) : Entry where
  header := ⟨seq, str "now", str "newer", str "text/plain", str "", prevHash⟩
  entryHash := List.replicate 64 (CodePoint.ofChar digit)
  payload := none

/-- A run that measures nothing but the chain and the pin. -/
def plainRun (entries : List Entry) : PinRun where
  command := .verify
  place := .path true (.ok .ok)
  read := .ok entries
  observe := .ok ⟨none, none, none, none, none, none, none, none⟩
  openPin := none
  replacePin := none
  target := str "trail.jsonl"
  chainId := none
  now := str "now"
  age := fun _ => none
  declareExpectAnchorBinding := false
  declareMaxAnchorAgeS := none
  declareTopology := none

/-- A trail that grows by a row between two runs. -/
def growingTrail : List PinRun :=
  let first := foreignRow 0 '1' genesisPrevHash
  [plainRun [first], plainRun [first, foreignRow 1 '2' first.entryHash]]

omit [Hashlib] [Interpreter] in
/-- The second run finds the pin of the first. -/
theorem pinned_history_growing :
    letI := Sha256.hashlib
    letI := Interpreter.plain
    ∃ older newer, pinTrace growingTrail none = [older, newer] ∧ older.saved.isSome ∧
      newer.found.isSome ∧ newer.exitCode = 2 ∧ older.hashes <+: newer.hashes := by
  let _ := Sha256.hashlib
  let _ := Interpreter.plain
  have hhistory := (pinned_history growingTrail none (by decide +kernel) (by decide +kernel)).1
  have hruns : (pinTrace growingTrail none).map
      (fun result => (result.saved.isSome, result.found.isSome, result.exitCode))
        = [(true, false, 2), (true, true, 2)] := by decide +kernel
  obtain ⟨older, rest, heq, holder, hrest⟩ := List.map_eq_cons_iff.mp hruns
  obtain ⟨newer, rest', rfl, hnewer, hnil⟩ := List.map_eq_cons_iff.mp hrest
  obtain rfl := List.map_eq_nil_iff.mp hnil
  simp only [Prod.mk.injEq] at holder hnewer
  obtain ⟨hsaved, -, -⟩ := holder
  obtain ⟨-, hfound, hcode⟩ := hnewer
  rw [heq] at hhistory
  have hextends := (List.pairwise_cons.mp hhistory).1 newer List.mem_cons_self hsaved hfound
    (by rw [hcode]; decide)
  exact ⟨older, newer, heq, hsaved, hfound, hcode, hextends⟩

end Waxseal
