import Mathlib.Data.List.Induction
import Waxseal.Cli.PinRuns

/-!
# Overlapping pinned runs

A run with `--pin` reads the trail, loads the pin, and saves one, in three steps, and nothing
keeps other runs or appends out in between.  The positions in the pin file then grow exactly
where no run saves between the load and the save of another that has read fewer rows
(`pin_holds_iff_not_overtaken`).  A slow run that has been overtaken puts an older pin back
(`slow_run_puts_pin_back`).
-/

namespace Waxseal

/-- How far a run has come. -/
inductive RunStage where
  | idle
  /-- It has read the rows and measured everything but the pin. -/
  | measured (entries : List Entry) (chain : VerifyResult) (observed : Observed)
  /-- It has loaded the pin and is about to save one. -/
  | loaded (entries : List Entry) (pending : PinState)
  | ended

/-- A trail, a pin file, and the runs that use them. -/
structure PinRace where
  entries : List Entry
  pinFile : Option Bytes
  stage : ℕ → RunStage

/-- What happens next: a row comes, or a run takes its next step. -/
inductive PinStep where
  | append (entry : Entry)
  | readTrail (i : ℕ)
  | loadPin (i : ℕ)
  | savePin (i : ℕ)

/-- The run, where the trail has these rows when it is read. -/
def PinRun.reading (run : PinRun) (entries : List Entry) : PinRun :=
  { run with read := run.read.map fun _ => entries }

namespace PinRace

/-- Before any run. -/
def start (entries : List Entry) (pinFile : Option Bytes) : PinRace :=
  ⟨entries, pinFile, fun _ => .idle⟩

/-- Run `i` has come to a stage. -/
def enter (race : PinRace) (i : ℕ) (stage : RunStage) : PinRace :=
  { race with stage := Function.update race.stage i stage }

variable [Hashlib]

/-- The stage of a run after it has read these rows. -/
def readStage (run : PinRun) (entries : List Entry) : RunStage :=
  match run.place with
  | .path false _ => .ended
  | _ =>
      match (run.reading entries).measure with
      | .error _ => .ended
      | .ok (chain, observed) => .measured entries chain observed

variable [Interpreter]

/-- The stage of a run after it has loaded the pin. -/
def loadStage (run : PinRun) (entries : List Entry) (chain : VerifyResult) (observed : Observed)
    (pinFile : Option Bytes) : RunStage :=
  match run.openPin with
  | some _ => .ended
  | none =>
      match (run.reading entries).judge chain observed (FilePinStore.load pinFile) with
      | .error _ => .ended
      | .ok (_, none) => .ended
      | .ok (verdict, some pending) =>
          if verdict.toExitCode = 1 then .ended else .loaded entries pending

/-- One step. -/
def step (runs : ℕ → PinRun) (race : PinRace) : PinStep → PinRace
  | .append entry => { race with entries := race.entries ++ [entry] }
  | .readTrail i =>
      match race.stage i with
      | .idle => race.enter i (readStage (runs i) race.entries)
      | _ => race
  | .loadPin i =>
      match race.stage i with
      | .measured entries chain observed =>
          race.enter i (loadStage (runs i) entries chain observed race.pinFile)
      | _ => race
  | .savePin i =>
      match race.stage i with
      | .loaded _ pending =>
          match (runs i).replacePin with
          | some _ => race.enter i .ended
          | none => { race.enter i .ended with pinFile := some (FilePinStore.save pending) }
      | _ => race

/-- Steps in this order. -/
def run (runs : ℕ → PinRun) (race : PinRace) (steps : List PinStep) : PinRace :=
  steps.foldl (step runs) race

/-- Run `i` has read these rows and is about to replace the pin file. -/
def Saves (runs : ℕ → PinRun) (race : PinRace) (i : ℕ) (entries : List Entry) : Prop :=
  ∃ pending, race.stage i = .loaded entries pending ∧ (runs i).replacePin = none

/-- Run `i` has read these rows and is about to load the pin. -/
def Loads (race : PinRace) (i : ℕ) (entries : List Entry) : Prop :=
  ∃ chain observed, race.stage i = .measured entries chain observed

/-- Some run saves between the load and the save of another that has read fewer rows. -/
def Overtaken (runs : ℕ → PinRun) (race : PinRace) (steps : List PinStep) : Prop :=
  ∃ before i between j rest slow fast,
    before ++ .loadPin i :: (between ++ .savePin j :: (rest ++ [.savePin i])) <+: steps ∧
      (race.run runs before).Loads i slow ∧
      (race.run runs (before ++ .loadPin i :: between)).Saves runs j fast ∧
      (race.run runs (before ++ .loadPin i :: (between ++ .savePin j :: rest))).Saves runs
        i slow ∧
      slow.length < fast.length

end PinRace

/-- The position in a pin file that can be read. -/
def pinSeq [Interpreter] (pinFile : Option Bytes) : Option ℤ :=
  (FilePinStore.load pinFile).toOption.join.map fun stored => stored.checkpoint.seq

/-- A run that reports: it exits 1, or it exits 3, because it could not get to the trail. -/
def PinRun.Reports [Hashlib] [Interpreter] (run : PinRun) (pinFile : Option Bytes) : Prop :=
  (run.exec pinFile).exitCode = 1 ∨
    (run.exec pinFile).exitCode = 3 ∧ (run.exec pinFile).found = none

/-- The pin never moves backwards: what it has reached stays reached, and every run on a trail
that has been rolled back below that reports. -/
structure PinHolds [Hashlib] [Interpreter] (runs : ℕ → PinRun) (race : PinRace)
    (steps : List PinStep) : Prop where
  seq : ∀ earlier later, earlier ++ later <+: steps →
    ∀ n ∈ pinSeq (race.run runs earlier).pinFile,
      ∃ m ∈ pinSeq (race.run runs (earlier ++ later)).pinFile, n ≤ m
  rollback : ∀ earlier later, earlier ++ later <+: steps →
    ∀ n ∈ pinSeq (race.run runs earlier).pinFile, ∀ rolledBack : PinRun,
      rolledBack.hashes.length ≤ n →
        rolledBack.Reports (race.run runs (earlier ++ later)).pinFile

/-! ## A trail that has been rolled back -/

/-- A trail that passes a pin has a row at its position. -/
theorem lt_length_of_checkPin [Hashlib] {hashes : List PyStr} {cp : Checkpoint}
    (h : checkPin hashes cp = none) : cp.seq < hashes.length := by
  rw [checkPin, Option.map_eq_none_iff, verifyCheckpoint_eq_none_iff] at h
  obtain ⟨i, hi, hentry, -⟩ := h
  obtain ⟨hlt, -⟩ := List.getElem?_eq_some_iff.mp hentry
  omega

/-- The position in a file is that of the pin it loads. -/
theorem mem_pinSeq [Interpreter] {pinFile : Option Bytes} {n : ℤ} :
    n ∈ pinSeq pinFile ↔
      ∃ stored, FilePinStore.load pinFile = .ok (some stored) ∧ stored.checkpoint.seq = n := by
  rw [pinSeq, Option.mem_map]
  cases FilePinStore.load pinFile with
  | error e => simp [Except.toOption]
  | ok found => simp [Except.toOption]

/-- **A run on a trail without a row at the position of the pin reports.** -/
theorem PinRun.reports_of_length_le [Hashlib] [Interpreter] {run : PinRun}
    {pinFile : Option Bytes} {n : ℤ} (hn : n ∈ pinSeq pinFile) (h : run.hashes.length ≤ n) :
    run.Reports pinFile := by
  obtain ⟨stored, hload, rfl⟩ := mem_pinSeq.mp hn
  have hfail : checkPin run.hashes stored.checkpoint ≠ none := fun hpin =>
    absurd (lt_length_of_checkPin hpin) (not_lt.mpr h)
  rcases run.exec_cases pinFile with ⟨found, exitCode, hexec, hcases⟩ |
    ⟨_, _, stored', _, -, hload', -, hpassed, -⟩
  · rw [Reports, hexec]
    rcases hcases with hone | ⟨hfound, hthree | hnone⟩ | ⟨stored', -, hload', hpin⟩
    · exact .inl hone
    · exact .inr ⟨hthree, hfound⟩
    · rw [hload] at hnone
      cases hnone
    · rw [hload] at hload'
      obtain rfl := Option.some.inj (Except.ok.inj hload')
      exact absurd hpin hfail
  · rw [hload] at hload'
    obtain rfl := Except.ok.inj hload'
    exact absurd (hpassed stored rfl) hfail

/-! ## One step -/

/-- A run that reads any rows reads those the trail has. -/
theorem PinRun.hashes_reading {run : PinRun} {rows : List Entry}
    (h : (run.reading rows).hashes ≠ []) : (run.reading rows).hashes.length = rows.length := by
  unfold hashes reading at h ⊢
  cases hread : run.read with
  | error e =>
      rw [hread] at h
      exact absurd rfl h
  | ok entries => exact List.length_map _

namespace PinRace

variable [Hashlib] [Interpreter] {runs : ℕ → PinRun} {race : PinRace}

omit [Hashlib] [Interpreter] in
theorem stage_enter_self (race : PinRace) (i : ℕ) (stage : RunStage) :
    (race.enter i stage).stage i = stage := by
  simp only [enter, Function.update_self]

omit [Hashlib] [Interpreter] in
theorem stage_enter_of_ne (race : PinRace) {i j : ℕ} (stage : RunStage) (h : i ≠ j) :
    (race.enter j stage).stage i = race.stage i := by
  simp only [enter, Function.update_of_ne h]

omit [Interpreter] in
theorem readStage_ne_loaded {run : PinRun} {rows entries : List Entry} {pending : PinState} :
    readStage run rows ≠ .loaded entries pending := by
  unfold readStage
  split
  · exact RunStage.noConfusion
  · split <;> exact RunStage.noConfusion

/-- What a run that has loaded the pin is about to save is for the rows it has read, and is no
earlier than the pin it has loaded. -/
theorem loadStage_eq_loaded {run : PinRun} {rows entries : List Entry} {chain : VerifyResult}
    {observed : Observed} {pinFile : Option Bytes} {pending : PinState}
    (h : loadStage run rows chain observed pinFile = .loaded entries pending) :
    rows = entries ∧ pending.checkpoint.seq = entries.length - 1 ∧
      ∀ n ∈ pinSeq pinFile, n < entries.length := by
  rw [loadStage] at h
  split at h
  · cases h
  split at h
  · cases h
  · cases h
  · next verdict pending' hjudge =>
      split at h
      · cases h
      · obtain ⟨rfl, rfl⟩ := RunStage.loaded.inj h
        rcases PinRun.judge_cases hjudge with
          ⟨hnone, -⟩ | ⟨head, stored, hhead, hload, hsaved, hpassed⟩
        · cases hnone
        · obtain rfl := Option.some.inj hsaved
          obtain ⟨tip, leaves, htip, -, rfl⟩ := checkpointFor_eq_ok hhead
          have hlength : (run.reading rows).hashes.length = rows.length := by
            refine PinRun.hashes_reading ?_
            intro hnil
            rw [hnil] at htip
            cases htip
          refine ⟨rfl, congrArg (fun n : ℕ => (n : ℤ) - 1) hlength, fun n hn => ?_⟩
          obtain ⟨s, hs, rfl⟩ := mem_pinSeq.mp hn
          rw [hload] at hs
          rw [← hlength]
          exact lt_length_of_checkPin (hpassed s (Except.ok.inj hs))

/-- **What a step does to a run that is about to save.** -/
theorem step_eq_loaded {next : PinStep} {i : ℕ} {entries : List Entry} {pending : PinState}
    (h : (race.step runs next).stage i = .loaded entries pending) :
    race.stage i = .loaded entries pending ∨
      next = .loadPin i ∧ race.Loads i entries ∧ pending.checkpoint.seq = entries.length - 1 ∧
        ∀ n ∈ pinSeq race.pinFile, n < entries.length := by
  -- A step touches the stage of one run only, and no stage but the load ends in `loaded`.
  cases next with
  | append entry => exact .inl h
  | readTrail j =>
      rw [step] at h
      split at h
      · rcases eq_or_ne i j with rfl | hij
        · rw [stage_enter_self] at h
          exact absurd h readStage_ne_loaded
        · rw [stage_enter_of_ne _ _ hij] at h
          exact .inl h
      · exact .inl h
  | loadPin j =>
      rw [step] at h
      split at h
      · next rows chain observed hstage =>
          rcases eq_or_ne i j with rfl | hij
          · rw [stage_enter_self] at h
            obtain ⟨rfl, hseq, hpin⟩ := loadStage_eq_loaded h
            exact .inr ⟨rfl, ⟨chain, observed, hstage⟩, hseq, hpin⟩
          · rw [stage_enter_of_ne _ _ hij] at h
            exact .inl h
      · exact .inl h
  | savePin j =>
      rw [step] at h
      split at h
      · rcases eq_or_ne i j with rfl | hij
        · split at h
          · rw [stage_enter_self] at h
            cases h
          · cases (stage_enter_self race i .ended).symm.trans h
        · split at h
          · rw [stage_enter_of_ne _ _ hij] at h
            exact .inl h
          · exact .inl ((stage_enter_of_ne race .ended hij).symm.trans h)
      · exact .inl h

/-- **What a step does to the pin file.** -/
theorem step_pinFile (runs : ℕ → PinRun) (race : PinRace) (next : PinStep) :
    (race.step runs next).pinFile = race.pinFile ∨
      ∃ i entries pending, next = .savePin i ∧ race.stage i = .loaded entries pending ∧
        (runs i).replacePin = none ∧
        (race.step runs next).pinFile = some (FilePinStore.save pending) := by
  cases next with
  | append entry => exact .inl rfl
  | readTrail i =>
      rw [step]
      split <;> exact .inl rfl
  | loadPin i =>
      rw [step]
      split <;> exact .inl rfl
  | savePin i =>
      rw [step]
      split
      · next entries pending hstage =>
          split
          · exact .inl rfl
          · next hreplace => exact .inr ⟨i, entries, pending, rfl, hstage, hreplace, rfl⟩
      · exact .inl rfl

/-- What a run leaves in the pin file, from the stage it loads the pin in. -/
def leave (run : PinRun) (pinFile : Option Bytes) : RunStage → Option Bytes
  | .loaded _ pending =>
      match run.replacePin with
      | some _ => pinFile
      | none => some (FilePinStore.save pending)
  | _ => pinFile

/-- From the load on, a run alone does the same as in a race. -/
theorem leave_loadStage (run : PinRun) (rows : List Entry) (chain : VerifyResult)
    (observed : Observed) (pinFile : Option Bytes)
    (h : (run.reading rows).measure = .ok (chain, observed)) :
    ((run.reading rows).onTrail pinFile).after =
      leave run pinFile (loadStage run rows chain observed pinFile) := by
  have hopen : (run.reading rows).openPin = run.openPin := rfl
  have hreplace : (run.reading rows).replacePin = run.replacePin := rfl
  rw [PinRun.onTrail, h, loadStage]
  dsimp only
  rw [hopen]
  cases run.openPin with
  | some e => rfl
  | none =>
      dsimp only
      rw [PinRun.conclude]
      rcases (run.reading rows).judge chain observed (FilePinStore.load pinFile) with
        e | ⟨verdict, - | pending⟩
      · rfl
      · rfl
      · dsimp only
        rw [hreplace]
        split_ifs with hcode
        · rfl
        · rw [leave]
          cases run.replacePin with
          | some e => rfl
          | none => rfl

/-- From the read on, a run alone does the same as in a race. -/
theorem leave_readStage (run : PinRun) (rows : List Entry) (pinFile : Option Bytes) :
    ((run.reading rows).exec pinFile).after =
      match readStage run rows with
      | .measured entries chain observed =>
          leave run pinFile (loadStage run entries chain observed pinFile)
      | _ => pinFile := by
  have htrail : ((run.reading rows).onTrail pinFile).after =
      match (match (run.reading rows).measure with
        | .error _ => RunStage.ended
        | .ok (chain, observed) => .measured rows chain observed) with
      | .measured entries chain observed =>
          leave run pinFile (loadStage run entries chain observed pinFile)
      | _ => pinFile := by
    rcases h : (run.reading rows).measure with e | ⟨chain, observed⟩
    · rw [PinRun.onTrail, h]
      rfl
    · exact leave_loadStage run rows chain observed pinFile h
  have hplace : (run.reading rows).place = run.place := rfl
  rw [PinRun.exec, readStage, hplace]
  cases run.place with
  | url => exact htrail
  | path present receipts =>
      cases present with
      | false => rfl
      | true => exact htrail

/-- A run that nothing comes between does to the pin file what it does alone. -/
theorem run_alone {i : ℕ} (h : race.stage i = .idle) :
    (race.run runs [.readTrail i, .loadPin i, .savePin i]).pinFile =
      (((runs i).reading race.entries).exec race.pinFile).after := by
  have hread : race.step runs (.readTrail i) = race.enter i (readStage (runs i) race.entries) := by
    rw [step, h]
  have hsave : ∀ (race : PinRace) stage,
      ((race.enter i stage).step runs (.savePin i)).pinFile =
        leave (runs i) race.pinFile stage := by
    intro race stage
    rw [step, stage_enter_self]
    cases stage with
    | loaded rows pending =>
        dsimp only [leave]
        cases (runs i).replacePin with
        | some e => rfl
        | none => rfl
    | _ => rfl
  rw [run, List.foldl_cons, List.foldl_cons, List.foldl_cons, List.foldl_nil, hread,
    leave_readStage]
  have hnot := fun entries pending => @readStage_ne_loaded _ (runs i) race.entries entries pending
  cases hstage : readStage (runs i) race.entries with
  | measured rows chain observed =>
      rw [step, stage_enter_self]
      exact hsave (race.enter i _) (loadStage (runs i) rows chain observed race.pinFile)
  | loaded rows pending => exact absurd hstage (hnot rows pending)
  | idle =>
      rw [step, stage_enter_self]
      exact hsave race .idle
  | ended =>
      rw [step, stage_enter_self]
      exact hsave race .ended

/-! ## Steps in any order -/

variable {rows : List Entry} {pinFile : Option Bytes} {steps : List PinStep}

theorem run_append_singleton (next : PinStep) :
    race.run runs (steps ++ [next]) = (race.run runs steps).step runs next :=
  List.foldl_append

omit [Hashlib] in
theorem pinSeq_save (state : PinState) :
    pinSeq (some (FilePinStore.save state)) = some state.checkpoint.seq := by
  rw [pinSeq, load_save]
  rfl

/-- **A run that is about to save** has loaded a pin of fewer rows than it has read, and what
has taken that pin's place since then some other run has saved. -/
theorem loaded_cases {i : ℕ} {entries : List Entry} {pending : PinState}
    (h : ((start rows pinFile).run runs steps).stage i = .loaded entries pending) :
    pending.checkpoint.seq = entries.length - 1 ∧
      ∃ before between, steps = before ++ .loadPin i :: between ∧
        ((start rows pinFile).run runs before).Loads i entries ∧
        ∀ n ∈ pinSeq ((start rows pinFile).run runs steps).pinFile, n < entries.length ∨
          ∃ first j rest fast, between = first ++ .savePin j :: rest ∧
            ((start rows pinFile).run runs (before ++ .loadPin i :: first)).Saves runs j fast ∧
            n = fast.length - 1 := by
  induction steps using List.reverseRecOn generalizing i entries pending with
  | nil => cases h
  | append_singleton steps next ih =>
      rw [run_append_singleton] at h ⊢
      rcases step_eq_loaded h with hold | ⟨rfl, hloads, hseq, hpin⟩
      · obtain ⟨hseq, before, between, rfl, hloads, hpin⟩ := ih hold
        refine ⟨hseq, before, between ++ [next], by simp, hloads, fun n hn => ?_⟩
        rcases step_pinFile runs ((start rows pinFile).run runs (before ++ .loadPin i :: between))
          next with hfile | ⟨j, fast, saved, rfl, hstage, hreplace, hfile⟩
        · rw [hfile] at hn
          rcases hpin n hn with hlt | ⟨first, j, rest, fast, rfl, hsaves, hn⟩
          · exact .inl hlt
          · exact .inr ⟨first, j, rest ++ [next], fast, by simp, hsaves, hn⟩
        · rw [hfile, pinSeq_save, (ih hstage).1] at hn
          exact .inr ⟨between, j, [], fast, rfl, ⟨saved, hstage, hreplace⟩,
            (Option.some.inj hn).symm⟩
      · refine ⟨hseq, steps, [], rfl, hloads, fun n hn => .inl ?_⟩
        rcases step_pinFile runs ((start rows pinFile).run runs steps) (.loadPin i) with
          hfile | ⟨j, fast, saved, hnext, -⟩
        · rw [hfile] at hn
          exact hpin n hn
        · cases hnext

/-- A run that saves leaves the position of the last row it has read. -/
theorem Saves.pinSeq {i : ℕ} {entries : List Entry}
    (h : ((start rows pinFile).run runs steps).Saves runs i entries) :
    pinSeq ((start rows pinFile).run runs (steps ++ [.savePin i])).pinFile =
      some (entries.length - 1 : ℤ) := by
  obtain ⟨pending, hstage, hreplace⟩ := h
  rw [run_append_singleton, step, hstage]
  dsimp only
  rw [hreplace]
  dsimp only
  rw [pinSeq_save, (loaded_cases hstage).1]

theorem Overtaken.mono {more : List PinStep} (h : race.Overtaken runs steps)
    (hsteps : steps <+: more) : race.Overtaken runs more := by
  obtain ⟨before, i, between, j, rest, slow, fast, hprefix, h⟩ := h
  exact ⟨before, i, between, j, rest, slow, fast, hprefix.trans hsteps, h⟩

/-- **A step of a race in which no run is overtaken** leaves the position or moves it on. -/
theorem exists_le_pinSeq_step {next : PinStep} {n : ℤ}
    (hnot : ¬ (start rows pinFile).Overtaken runs (steps ++ [next]))
    (hn : n ∈ pinSeq ((start rows pinFile).run runs steps).pinFile) :
    ∃ m ∈ pinSeq ((start rows pinFile).run runs (steps ++ [next])).pinFile, n ≤ m := by
  rcases step_pinFile runs ((start rows pinFile).run runs steps) next with
    hfile | ⟨i, slow, pending, rfl, hstage, hreplace, -⟩
  · refine ⟨n, ?_, le_rfl⟩
    rwa [run_append_singleton, hfile]
  · have hsaves : ((start rows pinFile).run runs steps).Saves runs i slow :=
      ⟨pending, hstage, hreplace⟩
    refine ⟨slow.length - 1, hsaves.pinSeq, ?_⟩
    obtain ⟨-, before, between, rfl, hloads, hpin⟩ := loaded_cases hstage
    rcases hpin n hn with hlt | ⟨first, j, rest, fast, rfl, hfast, rfl⟩
    · omega
    · by_contra hlt
      refine hnot ⟨before, i, first, j, rest, slow, fast, ?_, hloads, hfast, hsaves, by omega⟩
      simp

end PinRace

/-- **The pin never moves backwards exactly where no run is overtaken**: where no run saves
between the load and the save of another that has read fewer rows. -/
theorem pin_holds_iff_not_overtaken [Hashlib] [Interpreter] (runs : ℕ → PinRun)
    (rows : List Entry) (pinFile : Option Bytes) (steps : List PinStep) :
    PinHolds runs (.start rows pinFile) steps ↔
      ¬ (PinRace.start rows pinFile).Overtaken runs steps := by
  constructor
  · rintro hholds ⟨before, i, between, j, rest, slow, fast, hsteps, -, hfast, hslow, hlt⟩
    obtain ⟨m, hm, hle⟩ := hholds.seq (before ++ .loadPin i :: between ++ [.savePin j])
      (rest ++ [.savePin i]) (by simpa using hsteps) _ hfast.pinSeq
    have hback := hslow.pinSeq
    rw [show before ++ .loadPin i :: between ++ [.savePin j] ++ (rest ++ [.savePin i]) =
      before ++ .loadPin i :: (between ++ .savePin j :: rest) ++ [.savePin i] by simp, hback] at hm
    obtain rfl := Option.some.inj hm
    omega
  · intro hnot
    have hseq : ∀ earlier later, earlier ++ later <+: steps →
        ∀ n ∈ pinSeq ((PinRace.start rows pinFile).run runs earlier).pinFile,
          ∃ m ∈ pinSeq ((PinRace.start rows pinFile).run runs (earlier ++ later)).pinFile,
            n ≤ m := by
      intro earlier later hsteps n hn
      induction later using List.reverseRecOn with
      | nil => exact ⟨n, by rwa [List.append_nil], le_rfl⟩
      | append_singleton later next ih =>
          rw [← List.append_assoc] at hsteps ⊢
          obtain ⟨m, hm, hnm⟩ := ih ((List.prefix_append _ _).trans hsteps)
          obtain ⟨m', hm', hmm'⟩ :=
            PinRace.exists_le_pinSeq_step (fun h => hnot (h.mono hsteps)) hm
          exact ⟨m', hm', hnm.trans hmm'⟩
    refine ⟨hseq, fun earlier later hsteps n hn rolledBack hshort => ?_⟩
    obtain ⟨m, hm, hnm⟩ := hseq earlier later hsteps n hn
    exact PinRun.reports_of_length_le hm (hshort.trans hnm)

/-- A trail of one row. -/
def shortTrail : List Entry := [foreignRow 0 '1' genesisPrevHash]

/-- Two runs that measure nothing but the chain and the pin. -/
def twoRuns : ℕ → PinRun := fun _ => plainRun []

/-- Run 0 has read one row and loaded the pin when a row comes; run 1 reads both, and saves. -/
def overtaking : List PinStep :=
  [.readTrail 0, .loadPin 0, .append (foreignRow 1 '2' (List.replicate 64 (CodePoint.ofChar '1'))),
    .readTrail 1, .loadPin 1, .savePin 1]

/-- **A slow run puts an older pin back.**  Run 1 has confirmed position 1; run 0 then saves
position 0, and a trail rolled back to one row passes. -/
theorem slow_run_puts_pin_back :
    letI := Sha256.hashlib
    letI := Interpreter.plain
    let race := PinRace.start shortTrail none
    pinSeq (race.run twoRuns overtaking).pinFile = some 1 ∧
      pinSeq (race.run twoRuns (overtaking ++ [.savePin 0])).pinFile = some 0 ∧
      ((plainRun shortTrail).exec (race.run twoRuns overtaking).pinFile).exitCode = 1 ∧
      ((plainRun shortTrail).exec
        (race.run twoRuns (overtaking ++ [.savePin 0])).pinFile).exitCode = 2 ∧
      ¬ PinHolds twoRuns race (overtaking ++ [.savePin 0]) := by
  let _ := Sha256.hashlib
  let _ := Interpreter.plain
  have hbefore : pinSeq ((PinRace.start shortTrail none).run twoRuns overtaking).pinFile =
      some 1 := by decide +kernel
  have hafter : pinSeq ((PinRace.start shortTrail none).run twoRuns
      (overtaking ++ [.savePin 0])).pinFile = some 0 := by decide +kernel
  refine ⟨hbefore, hafter, by decide +kernel, by decide +kernel, fun hholds => ?_⟩
  obtain ⟨m, hm, hle⟩ := hholds.seq overtaking [.savePin 0] List.prefix_rfl 1 hbefore
  rw [hafter] at hm
  obtain rfl := Option.some.inj hm
  exact absurd hle (by decide)

end Waxseal
