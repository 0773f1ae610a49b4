import Waxseal.Server.OutcomeCache

/-!
# What a cached read is worth

A stamp taken twice says that what was stamped stood still between (`StampsTell`), so a process
that was started after the first look and was done before the second read it as the second
caller would.  Of the places a key holds no stamp of, it says nothing: an outcome served from
the cache is one of the files of the call when those stood still as well (`served_fresh`).
-/

namespace Waxseal

/-! ## What a stamp was taken of -/

/-- The stamp is of a file or directory the program was told of. -/
def FileStamp.Told (stamp : FileStamp) (told : List (Location × Option Node)) : Prop :=
  ∃ node : Node, (stamp.path, some node) ∈ told ∧ node.stat = stamp.stat

theorem FileStamp.Told.mono {stamp : FileStamp} {told more : List (Location × Option Node)}
    (h : stamp.Told told) (hsub : told ⊆ more) : stamp.Told more := by
  obtain ⟨node, hmem, hstat⟩ := h
  exact ⟨node, hsub hmem, hstat⟩

theorem told_of_statStamp {loc : Location} {stamp : FileStamp}
    {told : List (Location × Option Node)} (h : (statStamp loc).Replies told (some stamp)) :
    stamp.Told told := by
  obtain ⟨node, rest, rfl, -, hstamp⟩ := h
  obtain ⟨n, rfl, rfl⟩ := Option.map_eq_some_iff.mp hstamp
  exact ⟨n, List.mem_cons_self, rfl⟩

theorem told_of_stampCandidates {stamps result : List FileStamp} {locs : List Location}
    {told : List (Location × Option Node)} (h : (stampCandidates stamps locs).Replies told result) :
    ∀ stamp ∈ result, stamp ∈ stamps ∨ stamp.Told told := by
  induction locs generalizing stamps told with
  | nil =>
      obtain ⟨-, rfl⟩ := h
      intro stamp hstamp
      exact .inl hstamp
  | cons loc locs ih =>
      obtain ⟨first, second, found, rfl, hfirst, hsecond⟩ := h.of_bind
      intro stamp hstamp
      cases found with
      | none =>
          refine (ih hsecond stamp hstamp).imp_right fun h => ?_
          exact h.mono (List.subset_append_right first second)
      | some new =>
          dsimp only at hsecond
          split_ifs at hsecond with hseen
          · refine (ih hsecond stamp hstamp).imp_right fun h => ?_
            exact h.mono (List.subset_append_right first second)
          · rcases ih hsecond stamp hstamp with hmem | htold
            · rcases List.mem_append.mp hmem with hmem | hmem
              · exact .inl hmem
              · obtain rfl := List.mem_singleton.mp hmem
                exact .inr ((told_of_statStamp hfirst).mono (List.subset_append_left first second))
            · exact .inr (htold.mono (List.subset_append_right first second))

theorem told_of_inputStampLoop {cwd : Location} {stamps result : List FileStamp}
    {args : List PyStr} {told : List (Location × Option Node)}
    (h : (inputStampLoop cwd stamps args).Replies told result) :
    ∀ stamp ∈ result, stamp ∈ stamps ∨ stamp.Told told := by
  induction args generalizing stamps told with
  | nil =>
      obtain ⟨-, rfl⟩ := h
      intro stamp hstamp
      exact .inl hstamp
  | cons arg args ih =>
      obtain ⟨listing, rest, locs, rfl, -, hrest⟩ := h.of_bind
      obtain ⟨looks, later, stamps', rfl, hlooks, hlater⟩ := hrest.of_bind
      intro stamp hstamp
      rcases ih hlater stamp hstamp with hmem | htold
      · refine (told_of_stampCandidates hlooks stamp hmem).imp_right fun h => h.mono ?_
        intro x hx
        exact List.mem_append_right _ (List.mem_append_left _ hx)
      · refine .inr (htold.mono ?_)
        intro x hx
        exact List.mem_append_right _ (List.mem_append_right _ hx)

/-- A stamp is of what was there at some moment it was taken in. -/
theorem exists_stamped {history : ℕ → Files} {cwd : Location} {args : List PyStr} {t u : ℕ}
    {stamps : List FileStamp} (h : Reads.Along history (inputStamp cwd args) t u (.done stamps))
    {stamp : FileStamp} (hstamp : stamp ∈ stamps) :
    ∃ v node, t ≤ v ∧ v < u ∧ history v stamp.path = some node ∧ node.stat = stamp.stat := by
  obtain ⟨told, hreplies, hseen⟩ := h.exists_told
  rcases told_of_inputStampLoop hreplies stamp hstamp with hmem | ⟨node, hmem, hstat⟩
  · exact absurd hmem List.not_mem_nil
  · obtain ⟨v, htv, hvu, hv⟩ := hseen _ hmem
    exact ⟨v, node, htv, hvu, hv, hstat⟩

/-! ## What a stamp says -/

/-- Each change of a file or directory changes its stamp, and no stamp comes back. -/
def StampsTell (history : ℕ → Files) : Prop :=
  ∀ loc t u, t ≤ u → ∀ n m : Node, history t loc = some n → history u loc = some m →
    n.stat = m.stat → ∀ v, t ≤ v → v ≤ u → history v loc = some n

/-- Of the places a command asks about on the files of the call (`began`), or on those its
process was started on if that was later: the ones the key holds no stamp of stand still from
the start of the process to the call, and all of them stand still while the process goes on
beside the call. -/
def StoodStill (history : ℕ → Files) (command : FileReads Completed) (stamps : List FileStamp)
    (spawned ended began : ℕ) : Prop :=
  ∀ loc ∈ command.asks (history (max began spawned)),
    (loc ∉ stamps.map FileStamp.path →
      ∀ v, spawned ≤ v → v ≤ began → history v loc = history began loc) ∧
    ∀ v, max began spawned ≤ v → v < ended → history v loc = history (max began spawned) loc

/-- A place stamped by one caller and then by another, with the same stamp. -/
theorem stands_between {history : ℕ → Files} (htell : StampsTell history) {cwd : Location}
    {args : List PyStr} {stamps : List FileStamp} {t u t' u' : ℕ}
    (hfirst : Reads.Along history (inputStamp cwd args) t u (.done stamps))
    (hsecond : Reads.Along history (inputStamp cwd args) t' u' (.done stamps)) {loc : Location}
    (hloc : loc ∈ stamps.map FileStamp.path) {v : ℕ} (huv : u ≤ v) (hvt : v ≤ t') :
    history v loc = history t' loc := by
  obtain ⟨stamp, hstamp, rfl⟩ := List.mem_map.mp hloc
  obtain ⟨w, n, -, hwu, hn, hnstat⟩ := exists_stamped hfirst hstamp
  obtain ⟨w', n', htw', -, hn', hnstat'⟩ := exists_stamped hsecond hstamp
  have hstill := htell stamp.path w w' (by omega) n n' hn hn' (hnstat.trans hnstat'.symm)
  rw [hstill v (by omega) (by omega), hstill t' (by omega) (by omega)]

/-- **A process started under the stamps of a later call returned what it would return to that
call.** -/
theorem completed_eq_eval {history : ℕ → Files} (htell : StampsTell history) {cwd : Location}
    {args : List PyStr} {stamps : List FileStamp} {t spawned ended began u : ℕ}
    {command : FileReads Completed} {completed : Completed}
    (hfirst : Reads.Along history (inputStamp cwd args) t spawned (.done stamps))
    (hrun : Reads.Along history command spawned ended (.done completed))
    (hsecond : Reads.Along history (inputStamp cwd args) began u (.done stamps))
    (hstill : StoodStill history command stamps spawned ended began) :
    completed = command.eval (history (max began spawned)) := by
  refine hrun.eval_eq ?_
  intro loc hloc v hspawned hended
  obtain ⟨hunseen, hbeside⟩ := hstill loc hloc
  by_cases hlate : max began spawned ≤ v
  · exact hbeside v hlate hended
  · -- Before the call, so the process was started before it, and the call's files are meant.
    have hvb : v ≤ began := by omega
    have hmax : max began spawned = began := max_eq_left (hspawned.trans hvb)
    rw [hmax]
    by_cases hseen : loc ∈ stamps.map FileStamp.path
    · exact stands_between htell hfirst hsecond hseen hspawned hvb
    · exact hunseen hseen v hspawned hvb

/-- What is in a directory is what the directory lists. -/
def Listed (files : Files) : Prop :=
  ∀ dir name, (files (dir ++ [name])).isSome ↔
    ∃ node names, files dir = some node ∧ node.content = .dir names ∧ name ∈ names

/-- A command that was done before the call, and asks only about what is stamped or is missing from
a directory that is, has nothing to fear: the stamps of its key keep it all still. -/
theorem stoodStill_of_seen {history : ℕ → Files} (htell : StampsTell history)
    (hlisted : ∀ t, Listed (history t)) {cwd : Location} {args : List PyStr}
    {stamps : List FileStamp} {t spawned ended began u : ℕ} {command : FileReads Completed}
    (hfirst : Reads.Along history (inputStamp cwd args) t spawned (.done stamps))
    (hsecond : Reads.Along history (inputStamp cwd args) began u (.done stamps))
    (hspawned : spawned ≤ ended) (hended : ended ≤ began)
    (hseen : ∀ loc ∈ command.asks (history began), loc ∈ stamps.map FileStamp.path ∨
      ∃ dir name, loc = dir ++ [name] ∧ dir ∈ stamps.map FileStamp.path ∧
        history began loc = none) :
    StoodStill history command stamps spawned ended began := by
  have hmax : max began spawned = began := max_eq_left (hspawned.trans hended)
  intro loc hloc
  rw [hmax] at hloc ⊢
  refine ⟨?_, fun v hv hve => by omega⟩
  intro hunstamped v hsv hvb
  rcases hseen loc hloc with hstamped | ⟨dir, name, rfl, hdir, hnone⟩
  · exact absurd hstamped hunstamped
  · have hsame := stands_between htell hfirst hsecond hdir hsv hvb
    rw [hnone, ← Option.not_isSome_iff_eq_none, hlisted v, hsame, ← hlisted began, hnone]
    decide

/-! ## Runs -/

namespace WaxsealCli

variable (cli : WaxsealCli) (files : Files) (steps : ℕ → SurfaceStep)

/-- A kept outcome is that of a process started under the stamps of its key. -/
structure Kept (t : ℕ) (key : OutcomeKey) (kept : KeptOutcome) : Prop where
  stamped : ∃ began, Reads.Along (cli.history files steps) (inputStamp cli.cwd key.args) began
    kept.spawned (.done key.stamps)
  ran : ∃ completed, Reads.Along (cli.history files steps) (cli.execute key.command key.args)
      kept.spawned kept.ended (.done completed) ∧
    kept.outcome = classify key.command (cli.argv key.command key.args) completed
  ended : kept.ended < t

/-- An outcome is what running the command returns on the files as they were at a moment of the
call. -/
def FreshOutcome (t : ℕ) (command : PyStr) (args : List PyStr) (began : ℕ)
    (outcome : CliOutcome) : Prop :=
  ∃ m, began ≤ m ∧ m < t ∧ outcome = cli.outcomeOn (cli.history files steps m) command args

/-- How a call has come to where it is. -/
def Explained (t : ℕ) : CliCall → Prop
  | .stamping _ args began rest =>
      Reads.Along (cli.history files steps) (inputStamp cli.cwd args) began t rest
  | .running command args key spawned rest =>
      Reads.Along (cli.history files steps) (cli.execute command args) spawned t rest ∧
        ∀ k ∈ key, k.command = command ∧ k.args = args ∧
          ∃ began, Reads.Along (cli.history files steps) (inputStamp cli.cwd args) began spawned
            (.done k.stamps)
  | .served command args began outcome => cli.FreshOutcome files steps t command args began outcome
  | _ => True

/-- Whenever a call is served, what it does not see of the files stood still. -/
def Undisturbed : Prop :=
  ∀ t thread now command args began stamps kept, steps t = .go thread now →
    (cli.trace files steps t).calls thread = .stamping command args began (.done stamps) →
    (cli.trace files steps t).outcomes.fresh ⟨command, args, stamps⟩ now = some kept →
    StoodStill (cli.history files steps) (cli.execute command args) stamps kept.spawned kept.ended
      began

variable {cli files steps}

theorem Kept.later {t u : ℕ} {key : OutcomeKey} {kept : KeptOutcome}
    (h : cli.Kept files steps t key kept) (hle : t ≤ u) : cli.Kept files steps u key kept :=
  ⟨h.stamped, h.ran, h.ended.trans_le hle⟩

theorem Explained.succ {t : ℕ} {call : CliCall} (h : cli.Explained files steps t call) :
    cli.Explained files steps (t + 1) call := by
  cases call with
  | stamping command args began rest => exact Reads.Along.wait h
  | running command args key spawned rest => exact ⟨h.1.wait, h.2⟩
  | served command args began outcome =>
      obtain ⟨m, hbegan, hm, houtcome⟩ := h
      exact ⟨m, hbegan, hm.trans (Nat.lt_succ_self t), houtcome⟩
  | _ => trivial

/-- A call begins with all its looks before it. -/
theorem explained_start (command : PyStr) (args : List PyStr) (t : ℕ) :
    cli.Explained files steps (t + 1) (cli.start command args t) := by
  unfold start
  by_cases hread : command ∉ readOnlyCommands
  · rw [if_pos hread]
    trivial
  rw [if_neg hread]
  by_cases havailable : command ∉ cli.available
  · rw [if_pos havailable]
    trivial
  rw [if_neg havailable]
  by_cases hskips : skipsOutcomeCache command args = true
  · rw [if_pos hskips]
    exact ⟨.start, fun k hk => absurd hk (Option.not_mem_none k)⟩
  · rw [if_neg hskips]
    exact Reads.Along.start

theorem mem_of_fresh {outcomes : Outcomes} {key : OutcomeKey} {now : ℚ} {kept : KeptOutcome}
    (h : outcomes.fresh key now = some kept) : (key, kept) ∈ outcomes := by
  obtain ⟨hlookup, -⟩ := Option.filter_eq_some_iff.mp h
  obtain ⟨before, after, rfl, -⟩ := List.lookup_eq_some_iff.mp hlookup
  exact List.mem_append_right _ List.mem_cons_self

theorem mem_putLast {outcomes : Outcomes} {key : OutcomeKey} {kept : KeptOutcome}
    {entry : OutcomeKey × KeptOutcome} (h : entry ∈ outcomes.putLast key kept) :
    entry ∈ outcomes ∨ entry = (key, kept) := by
  rcases List.mem_append.mp h with h | h
  · exact .inl (List.mem_of_mem_filter h)
  · exact .inr (List.mem_singleton.mp h)

/-- A lookup brings nothing in. -/
theorem mem_afterLookup {outcomes : Outcomes} {key : OutcomeKey} {now : ℚ}
    {entry : OutcomeKey × KeptOutcome} (h : entry ∈ outcomes.afterLookup key now) :
    entry ∈ outcomes := by
  unfold Outcomes.afterLookup at h
  split at h
  · next kept hfresh =>
      rcases mem_putLast h with h | rfl
      · exact h
      · exact mem_of_fresh hfresh
  · exact List.mem_of_mem_filter h

variable (cli files steps) in
/-- What holds of the system at a moment. -/
structure Accounted (t : ℕ) : Prop where
  kept : ∀ entry ∈ (cli.trace files steps t).outcomes, cli.Kept files steps t entry.1 entry.2
  calls : ∀ thread, cli.Explained files steps t ((cli.trace files steps t).calls thread)

/-- A call that is served is served a fresh outcome. -/
theorem freshOutcome_of_kept {t began : ℕ} {command : PyStr} {args : List PyStr}
    {stamps : List FileStamp} {kept : KeptOutcome} (htell : StampsTell (cli.history files steps))
    (hkept : cli.Kept files steps t ⟨command, args, stamps⟩ kept)
    (hcall : Reads.Along (cli.history files steps) (inputStamp cli.cwd args) began t (.done stamps))
    (hstill : StoodStill (cli.history files steps) (cli.execute command args) stamps kept.spawned
      kept.ended began) :
    cli.FreshOutcome files steps (t + 1) command args began kept.outcome := by
  obtain ⟨since, hstamped⟩ := hkept.stamped
  obtain ⟨completed, hran, houtcome⟩ := hkept.ran
  have hbefore : kept.spawned < t := hran.le.trans_lt hkept.ended
  refine ⟨max began kept.spawned, le_max_left _ _, ?_, ?_⟩
  · exact Nat.lt_succ_of_le (max_le hcall.le hbefore.le)
  · rw [houtcome, completed_eq_eval htell hstamped hran hcall hstill]
    rfl

/-- **One step of a call.** -/
theorem explained_goOn {t thread : ℕ} {now : ℚ} (htell : StampsTell (cli.history files steps))
    (hundisturbed : cli.Undisturbed files steps) (h : cli.Accounted files steps t)
    (hstep : steps t = .go thread now) :
    (∀ entry ∈ (cli.goOn (cli.trace files steps t).files (cli.trace files steps t).outcomes now t
        ((cli.trace files steps t).calls thread)).1,
      cli.Kept files steps (t + 1) entry.1 entry.2) ∧
    cli.Explained files steps (t + 1)
      (cli.goOn (cli.trace files steps t).files (cli.trace files steps t).outcomes now t
        ((cli.trace files steps t).calls thread)).2 := by
  have hkept : ∀ entry ∈ (cli.trace files steps t).outcomes,
      cli.Kept files steps (t + 1) entry.1 entry.2 := by
    intro entry hentry
    exact (h.kept entry hentry).later (Nat.le_succ t)
  have hcall := h.calls thread
  have hstill := hundisturbed t thread now
  generalize hphase : (cli.trace files steps t).calls thread = call at hcall hstill ⊢
  cases call with
  | idle => exact ⟨hkept, trivial⟩
  | raised => exact ⟨hkept, trivial⟩
  | returned outcome => exact ⟨hkept, trivial⟩
  | served command args began outcome => exact ⟨hkept, Explained.succ hcall⟩
  | stamping command args began rest =>
      cases rest with
      | look loc next => exact ⟨hkept, Reads.Along.look hcall⟩
      | done stamps =>
          refine ⟨fun entry hentry => hkept entry (mem_afterLookup hentry), ?_⟩
          show cli.Explained files steps (t + 1)
            (cli.answer (cli.trace files steps t).outcomes now t ⟨command, args, stamps⟩ began)
          unfold answer
          cases hfresh : (cli.trace files steps t).outcomes.fresh ⟨command, args, stamps⟩ now with
          | none =>
              refine ⟨.start, ?_⟩
              rintro k ⟨⟩
              exact ⟨rfl, rfl, began, Reads.Along.wait hcall⟩
          | some kept =>
              exact freshOutcome_of_kept htell (h.kept _ (mem_of_fresh hfresh)) hcall
                (hstill command args began stamps kept hstep rfl hfresh)
  | running command args key spawned rest =>
      obtain ⟨hrun, hkey⟩ := hcall
      cases rest with
      | look loc next => exact ⟨hkept, hrun.look, hkey⟩
      | done completed =>
          refine ⟨?_, trivial⟩
          cases key with
          | none => exact hkept
          | some key =>
              intro entry hentry
              rcases mem_putLast (List.mem_of_mem_drop hentry) with hentry | rfl
              · exact hkept entry hentry
              · obtain ⟨rfl, rfl, began, hstamped⟩ := hkey key rfl
                exact ⟨⟨began, hstamped⟩, ⟨completed, hrun, rfl⟩, Nat.lt_succ_self t⟩

theorem explained_update {t thread : ℕ} {calls : ℕ → CliCall} {call : CliCall}
    (hcalls : ∀ i, cli.Explained files steps t (calls i)) (hcall : cli.Explained files steps t call)
    (i : ℕ) : cli.Explained files steps t (Function.update calls thread call i) := by
  by_cases hi : i = thread
  · rw [hi, Function.update_self]
    exact hcall
  · rw [Function.update_of_ne hi]
    exact hcalls i

/-- **One step of the system.** -/
theorem Accounted.succ {t : ℕ} (htell : StampsTell (cli.history files steps))
    (hundisturbed : cli.Undisturbed files steps) (h : cli.Accounted files steps t) :
    cli.Accounted files steps (t + 1) := by
  have hkept : ∀ entry ∈ (cli.trace files steps t).outcomes,
      cli.Kept files steps (t + 1) entry.1 entry.2 := by
    intro entry hentry
    exact (h.kept entry hentry).later (Nat.le_succ t)
  have hcalls : ∀ thread,
      cli.Explained files steps (t + 1) ((cli.trace files steps t).calls thread) := by
    intro thread
    exact (h.calls thread).succ
  have htrace : cli.trace files steps (t + 1) = cli.step t (cli.trace files steps t) (steps t) := rfl
  cases hstep : steps t with
  | edit edited =>
      rw [hstep] at htrace
      refine ⟨?_, ?_⟩ <;> rw [htrace]
      · exact hkept
      · exact hcalls
  | call thread command args =>
      rw [hstep, step] at htrace
      split_ifs at htrace with hover
      · refine ⟨?_, ?_⟩ <;> rw [htrace]
        · exact hkept
        · exact explained_update hcalls (explained_start command args t)
      · refine ⟨?_, ?_⟩ <;> rw [htrace]
        · exact hkept
        · exact hcalls
  | go thread now =>
      rw [hstep] at htrace
      obtain ⟨houtcomes, hcall⟩ := explained_goOn htell hundisturbed h hstep
      refine ⟨?_, ?_⟩ <;> rw [htrace]
      · exact houtcomes
      · exact explained_update hcalls hcall
  | timeout thread =>
      rw [hstep, step] at htrace
      split at htrace
      · refine ⟨?_, ?_⟩ <;> rw [htrace]
        · exact hkept
        · exact explained_update hcalls trivial
      · refine ⟨?_, ?_⟩ <;> rw [htrace]
        · exact hkept
        · exact hcalls

/-- **A run.** -/
theorem accounted (htell : StampsTell (cli.history files steps))
    (hundisturbed : cli.Undisturbed files steps) (t : ℕ) : cli.Accounted files steps t := by
  induction t with
  | zero => exact ⟨fun entry hentry => absurd hentry List.not_mem_nil, fun _ => trivial⟩
  | succ t ih => exact ih.succ htell hundisturbed

/-- **A cached read is a fresh one**, in every run in which a stamp tells what it is of and what
no stamp tells of stands still while an outcome is kept. -/
theorem served_fresh (htell : StampsTell (cli.history files steps))
    (hundisturbed : cli.Undisturbed files steps) {t thread began : ℕ} {command : PyStr}
    {args : List PyStr} {outcome : CliOutcome}
    (hserved : (cli.trace files steps t).calls thread = .served command args began outcome) :
    ∃ m, began ≤ m ∧ m < t ∧
      outcome = cli.outcomeOn (cli.history files steps m) command args := by
  have h := (accounted htell hundisturbed t).calls thread
  rw [hserved] at h
  exact h

/-- Only an edit changes files. -/
theorem history_succ (t : ℕ) : cli.history files steps (t + 1) =
    (steps t).filesAfter (cli.history files steps t) := by
  show (cli.step t (cli.trace files steps t) (steps t)).files = _
  cases steps t with
  | edit edited => rfl
  | call thread command args =>
      rw [step]
      split_ifs <;> rfl
  | go thread now => rfl
  | timeout thread =>
      rw [step]
      split <;> rfl

end WaxsealCli

/-! ## A segment beside the trail -/

/-- The files of a list. -/
def fileTree (nodes : List (Location × Node)) : Files := fun loc => nodes.lookup loc

/-- `/t/trail.jsonl`. -/
def polledTrail : PyStr := str "/t/trail.jsonl"

/-- A directory with an empty trail in it. -/
def oneSegment : Files :=
  fileTree [([str "t"], ⟨⟨1, 96, 1, 2⟩, .dir [str "trail.jsonl"]⟩),
    ([str "t", str "trail.jsonl"], ⟨⟨1, 0, 1, 3⟩, .file []⟩)]

/-- The directory once the trail has been rotated. -/
def twoSegments : Files :=
  fileTree [([str "t"], ⟨⟨5, 128, 5, 2⟩, .dir [str "trail.jsonl", str "trail.00001.jsonl"]⟩),
    ([str "t", str "trail.jsonl"], ⟨⟨1, 0, 1, 3⟩, .file []⟩),
    ([str "t", str "trail.00001.jsonl"], ⟨⟨5, 0, 5, 4⟩, .file []⟩)]

/-- A server of which only `preflight` is asked. -/
def polledCli : WaxsealCli where
  python := str "python"
  cwd := []
  outcomeCacheSize := 128
  available := readOnlyCommands
  execute := fun _ args =>
    letI := Interpreter.plain
    preflight ⟨[], id, fun _ => []⟩ (args.headD [])

/-- A poll of the trail, an edit, and a poll of the trail by another thread. -/
def polls (edited : Files) (t : ℕ) : SurfaceStep :=
  if t = 0 then .call 0 (str "preflight") [polledTrail]
  else if t < 18 then .go 0 0
  else if t = 18 then .edit edited
  else if t = 19 then .call 1 (str "preflight") [polledTrail]
  else .go 1 0

theorem filesAfter_polls (files edited : Files) (t : ℕ) :
    (polls edited t).filesAfter files = if t = 18 then edited else files := by
  unfold polls
  split_ifs with h0 h18 h19
  all_goals first | rfl | omega

/-- The files while the trail is polled. -/
theorem history_polls {cli : WaxsealCli} (files edited : Files) (t : ℕ) :
    cli.history files (polls edited) t = if t ≤ 18 then files else edited := by
  induction t with
  | zero => rfl
  | succ t ih =>
      rw [WaxsealCli.history_succ, filesAfter_polls, ih]
      rcases lt_trichotomy t 18 with hlt | rfl | hgt
      · rw [if_neg (by omega), if_pos (by omega), if_pos (by omega)]
      · rfl
      · rw [if_neg (by omega), if_neg (by omega), if_neg (by omega)]

/-- Stamps tell of one edit if they tell its files from the ones before. -/
theorem stampsTell_polls {cli : WaxsealCli} {files edited : Files}
    (h : ∀ loc, ∀ n m : Node, files loc = some n → edited loc = some m → n.stat = m.stat → n = m) :
    StampsTell (cli.history files (polls edited)) := by
  intro loc t u htu n m hn hm hstat v htv hvu
  rw [history_polls] at hn hm ⊢
  by_cases ht : t ≤ 18
  · rw [if_pos ht] at hn
    by_cases hv : v ≤ 18
    · rw [if_pos hv]
      exact hn
    · rw [if_neg (by omega)] at hm ⊢
      rw [h loc n m hn hm hstat]
      exact hm
  · rw [if_neg ht] at hn
    rw [if_neg (by omega)]
    exact hn

theorem stat_twoSegments (loc : Location) (n m : Node) (hn : oneSegment loc = some n)
    (hm : twoSegments loc = some m) (hstat : n.stat = m.stat) : n = m := by
  by_cases hdir : loc = [str "t"]
  · subst hdir
    obtain rfl : _ = n := Option.some.inj hn
    obtain rfl : _ = m := Option.some.inj hm
    exact absurd hstat (by decide)
  by_cases htrail : loc = [str "t", str "trail.jsonl"]
  · subst htrail
    exact Option.some.inj (hn.symm.trans hm)
  · have hnone : oneSegment loc = none := by
      refine List.lookup_eq_none_iff.mpr ?_
      intro p hp
      rcases List.mem_cons.mp hp with rfl | hp
      · simpa using hdir
      · obtain rfl := List.mem_singleton.mp hp
        simpa using htrail
    rw [hnone] at hn
    cases hn

theorem exists_servedCall {call : CliCall} {command : PyStr} {args : List PyStr} {began : ℕ}
    (h : call.servedCall.map (fun c => (c.1, c.2.1, c.2.2.1)) = some (command, args, began)) :
    ∃ outcome, call.servedCall = some (command, args, began, outcome) := by
  obtain ⟨⟨command', args', began', outcome⟩, hcall, hsame⟩ := Option.map_eq_some_iff.mp h
  obtain ⟨rfl, hrest⟩ := Prod.mk.inj hsame
  obtain ⟨rfl, rfl⟩ := Prod.mk.inj hrest
  exact ⟨outcome, hcall⟩

/-- **A rotation no stamp sees.**  The trail is polled while it is alone in its directory, and polled
again once a numbered segment stands beside it: its own stamp and those of its sidecars are what
they were, and the second poll is told that the trail is not rotated. -/
theorem served_stale_rotated :
    StampsTell (polledCli.history oneSegment (polls twoSegments)) ∧
      ∃ outcome, ((polledCli.trace oneSegment (polls twoSegments) 29).calls 1).servedCall
          = some (str "preflight", [polledTrail], 20, outcome) ∧
        ∀ m, 20 ≤ m → m < 29 → outcome ≠ polledCli.outcomeOn
          (polledCli.history oneSegment (polls twoSegments) m) (str "preflight") [polledTrail] := by
  have hserved : ((polledCli.trace oneSegment (polls twoSegments) 29).calls 1).servedCall.map
      (fun c => (c.1, c.2.1, c.2.2.1)) = some (str "preflight", [polledTrail], 20) := by
    decide +kernel
  have hstale : ((polledCli.trace oneSegment (polls twoSegments) 29).calls 1).servedCall.map
      (fun c => c.2.2.2) ≠ some (polledCli.outcomeOn twoSegments (str "preflight") [polledTrail]) := by
    decide +kernel
  obtain ⟨outcome, hcall⟩ := exists_servedCall hserved
  refine ⟨stampsTell_polls stat_twoSegments, outcome, hcall, ?_⟩
  intro m hbegan _ houtcome
  rw [history_polls, if_neg (by omega)] at houtcome
  rw [hcall, Option.map_some] at hstale
  exact hstale (congrArg some houtcome)

namespace WaxsealCli

/-- Files that are never edited are read afresh. -/
theorem served_fresh_unedited :
    ∃ outcome, ((polledCli.trace oneSegment (polls oneSegment) 29).calls 1).servedCall
        = some (str "preflight", [polledTrail], 20, outcome) ∧
      ∃ m, 20 ≤ m ∧ m < 29 ∧ outcome = polledCli.outcomeOn
        (polledCli.history oneSegment (polls oneSegment) m) (str "preflight") [polledTrail] := by
  have hserved : ((polledCli.trace oneSegment (polls oneSegment) 29).calls 1).servedCall.map
      (fun c => (c.1, c.2.1, c.2.2.1)) = some (str "preflight", [polledTrail], 20) := by
    decide +kernel
  obtain ⟨outcome, hcall⟩ := exists_servedCall hserved
  have hstill : ∀ t, polledCli.history oneSegment (polls oneSegment) t = oneSegment := by
    intro t
    rw [history_polls, ite_self]
  refine ⟨outcome, hcall, served_fresh ?_ ?_ (CliCall.eq_served hcall)⟩
  · exact stampsTell_polls fun loc n m hn hm _ => Option.some.inj (hn.symm.trans hm)
  · intro t thread now command args began stamps kept _ _ _ loc _
    refine ⟨fun _ v _ _ => ?_, fun v _ _ => ?_⟩
    · rw [hstill v, hstill began]
    · rw [hstill v, hstill (max began kept.spawned)]

end WaxsealCli

end Waxseal
