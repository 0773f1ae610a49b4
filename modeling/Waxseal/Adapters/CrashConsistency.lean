import Waxseal.Log.EntryBuilder

/-!
# Crash consistency of the JSONL trail

A crash in the middle of an append leaves a prefix of the new line behind.  Appends that
come later are sound in two ways: they raise and leave the file alone, or they store one
more entry after the complete ones.

What decides is how the last line reads to the tail reader.  Torn inside its JSON, it does
not parse, and every later append raises.  Whole but for its newline, it is a tail like
any other, and the next line is written behind it on the same line, which no reader can
read again.  `laterAppends_sound_iff` says that this cut is the only one that goes wrong.
-/

namespace Waxseal

open Json

variable [Interpreter]

/-! ## The scan of a trail -/

theorem rawLines_trailBytes {es : List Entry} (h : ∀ e ∈ es, Storable e) (rest : Bytes) :
    rawLines (trailBytes es ++ rest) = es.map (fun e => storedBytes e ++ [LF]) ++ rawLines rest := by
  induction es with
  | nil => rfl
  | cons e es ih =>
      rw [List.forall_mem_cons] at h
      rw [← List.singleton_append, trailBytes_append, trailBytes_singleton, List.append_assoc,
        List.append_assoc, List.singleton_append,
        rawLines_line_append (unbroken_storedBytes h.1), ih h.2]
      rfl

/-- A written object ends with its brace. -/
theorem dumps_obj_last (members : List (PyStr × Json)) (sep : Separators) :
    ∃ init, dumps sep (.obj members) = init ++ [rbrace] := by
  have rest : ∀ members : List (PyStr × Json), ∃ init, dumpsMembers sep members = init ++ [rbrace] := by
    intro members
    induction members with
    | nil => exact ⟨[], rfl⟩
    | cons m members ih =>
        obtain ⟨init, hinit⟩ := ih
        refine ⟨sep.item ++ (dumpsStr m.1 ++ (sep.key ++ (dumps sep m.2 ++ init))), ?_⟩
        rw [dumpsMembers, hinit]
        simp only [List.append_assoc]
  cases members with
  | nil => exact ⟨[lbrace], rfl⟩
  | cons m members =>
      obtain ⟨init, hinit⟩ := rest members
      refine ⟨lbrace :: (dumpsStr m.1 ++ (sep.key ++ (dumps sep m.2 ++ init))), ?_⟩
      rw [dumps, hinit]
      simp only [List.cons_append, List.append_assoc]

/-- Stripping a stored line gives its object. -/
theorem bytesStrip_storedBytes (e : Entry) {t : Bytes} (ht : t = [] ∨ t = [LF]) :
    bytesStrip (storedBytes e ++ t) = storedBytes e := by
  obtain ⟨init, hlast⟩ := dumps_obj_last (storedMembers e) .compact
  obtain ⟨l, hfirst⟩ := opensObject_storedText e
  have hstart : (storedBytes e ++ t).dropWhile isByteSpace = storedBytes e ++ t := by
    rw [storedBytes, hfirst]
    rfl
  have hend : (storedBytes e).rdropWhile isByteSpace = storedBytes e := by
    rw [storedBytes, storedText, hlast, asciiBytes_append]
    exact List.rdropWhile_concat_neg _ _ _ (by decide)
  rw [bytesStrip, hstart]
  rcases ht with rfl | rfl
  · rw [List.append_nil, hend]
  · rw [List.rdropWhile_concat_pos _ _ _ (by decide), hend]

/-- The last line of a file, as far as a scan can see it: nothing, or a stored entry that
is not terminated. -/
def Unterminated (rest : Bytes) : Prop := rest = [] ∨ ∃ e, Storable e ∧ rest = storedBytes e

/-- **The scan finds nothing in a trail the backend wrote**, and clears its lines. -/
theorem integrityScanLoop_trail {rest : Bytes} (hrest : Unterminated rest) {es : List Entry}
    (h : ∀ e ∈ es, Storable e) (offset lineNo : ℕ) :
    integrityScanLoop (rawLines (trailBytes es ++ rest)) offset lineNo (offset, lineNo)
      = (.clean, (offset + (trailBytes es).length, lineNo + es.length)) := by
  rw [rawLines_trailBytes h, integrityScanLoop]
  induction es generalizing offset lineNo with
  | nil =>
      rcases hrest with rfl | ⟨e, he, rfl⟩
      · rfl
      · have hstrip := bytesStrip_storedBytes e (.inl rfl)
        rw [List.append_nil] at hstrip
        have hlast : (storedBytes e).getLast? ≠ some LF := fun hlast =>
          (unbroken_storedBytes he LF (List.mem_of_getLast? hlast)).1 rfl
        rw [rawLines_unbroken (unbroken_storedBytes he) (storedBytes_ne_nil e)]
        simp only [List.map_nil, List.nil_append, integrityScanLoopBy, hstrip,
          if_neg (storedBytes_ne_nil e), loadsBytes_storedBytes he, if_neg hlast]
        rfl
  | cons e es ih =>
      rw [List.forall_mem_cons] at h
      have hlast : (storedBytes e ++ [LF]).getLast? = some LF := by simp
      simp only [List.map_cons, List.cons_append, integrityScanLoopBy,
        bytesStrip_storedBytes e (.inr rfl), if_neg (storedBytes_ne_nil e),
        loadsBytes_storedBytes h.1, if_pos hlast, ih h.2]
      rw [← List.singleton_append (l := es), trailBytes_append, trailBytes_singleton]
      simp only [List.length_append, List.length_singleton]
      refine congrArg (Prod.mk _) (Prod.ext ?_ ?_) <;>
      · simp only
        omega

/-- The place a backend object has cleared is a line boundary of the trail. -/
def Cleared (s : Store) (es : List Entry) : Prop :=
  ∃ cleared pending, es = cleared ++ pending ∧ s.scannedOffset = (trailBytes cleared).length

theorem cleared_opened (file : Bytes) (es : List Entry) : Cleared (Store.opened file) es :=
  ⟨[], es, rfl, rfl⟩

theorem Cleared.append {s : Store} {es : List Entry} (h : Cleared s es) (e : Entry) :
    Cleared s (es ++ [e]) := by
  obtain ⟨cleared, pending, rfl, hoffset⟩ := h
  exact ⟨cleared, pending ++ [e], by rw [List.append_assoc], hoffset⟩

/-- A scan of a trail the backend wrote lets the append go on. -/
theorem scanStep_trail {every : Option ℤ} {nextSeq : ℤ} {s : Store} {es : List Entry}
    {rest : Bytes} (h : ∀ e ∈ es, Storable e) (hrest : Unterminated rest)
    (hfile : s.file = trailBytes es ++ rest) (hcleared : Cleared s es) :
    (∃ e, scanDue every nextSeq = .error e ∧ scanStep every .sound nextSeq s = (.error e, s)) ∨
      ∃ s', scanStep every .sound nextSeq s = (.ok (), s') ∧ s'.file = s.file ∧ Cleared s' es := by
  unfold scanStep
  cases hdue : scanDue every nextSeq with
  | error e => exact .inl ⟨e, rfl, rfl⟩
  | ok due =>
      cases due with
      | false => exact .inr ⟨s, rfl, rfl, hcleared⟩
      | true =>
          obtain ⟨cleared, pending, rfl, hoffset⟩ := hcleared
          rw [List.forall_mem_append] at h
          have hlen : ¬ s.file.length < s.scannedOffset := by
            rw [hfile, hoffset, trailBytes_append]
            simp only [List.length_append]
            omega
          have hdrop : s.file.drop s.scannedOffset = trailBytes pending ++ rest := by
            rw [hfile, hoffset, trailBytes_append, List.append_assoc, List.drop_left]
          have hscan : integrityScan s = (.clean, { s with
              scannedOffset := s.scannedOffset + (trailBytes pending).length
              scannedLines := s.scannedLines + pending.length }) := by
            have hloop := integrityScanLoop_trail hrest h.2 s.scannedOffset s.scannedLines
            rw [integrityScanLoop] at hloop
            simp only [integrityScan, integrityScanBy, if_neg hlen, hdrop, hloop]
          refine .inr ⟨(integrityScan s).2, by simp only [AppendIo.sound, hscan], rfl,
            cleared ++ pending, [], ?_, ?_⟩
          · rw [List.append_nil]
          · rw [hscan, hoffset, trailBytes_append, List.length_append]

/-! ## Appends -/

/-- The entry and the line an append writes when nothing fails. -/
theorem encodeEntry_sound (b : Builder) (tail : ℤ × PyStr) :
    (∃ e, b.build tail.1 tail.2 = .error e ∧ encodeEntry .sound b.build tail = .error e) ∨
      ∃ e, b.build tail.1 tail.2 = .ok e ∧
        encodeEntry .sound b.build tail = .ok (e, storedBytes e ++ [LF]) := by
  cases hbuild : b.build tail.1 tail.2 with
  | error err => exact .inl ⟨err, rfl, by rw [encodeEntry, hbuild]; rfl⟩
  | ok e =>
      have he := b.storable hbuild
      refine .inr ⟨e, rfl, ?_⟩
      have hopen : orFail AppendIo.sound.openTrail = .ok () := rfl
      simp only [encodeEntry, hbuild, entryLine_eq he.payload, hopen, encodeUtf8_storedText he,
        bind, Except.bind]
      rfl

/-- An append whose tail cannot be read raises and leaves everything as it was. -/
theorem append_of_tail_error {every : Option ℤ} {build : ℤ → PyStr → Except PyErr Entry} {s : Store}
    {e : PyErr} (h : tailLocked s.file = .error e) :
    JSONLBackend.append every .sound build s = (.error e, s) := by
  simp only [JSONLBackend.append, prepare, lockedTail_sound, h]

/-- **One append on a trail the backend wrote**, with or without an unterminated entry at
its end: it raises and leaves the file alone, or its line is behind what was there. -/
theorem append_trail {every : Option ℤ} (b : Builder) {s : Store} {es : List Entry} {rest : Bytes}
    {tail : ℤ × PyStr} (hes : ∀ e ∈ es, Storable e) (hrest : Unterminated rest)
    (hfile : s.file = trailBytes es ++ rest) (hcleared : Cleared s es)
    (htail : tailLocked s.file = .ok tail) :
    ∃ s', Cleared s' es ∧
      ((∃ err, JSONLBackend.append every .sound b.build s = (.error err, s') ∧ s'.file = s.file ∧
          ((∃ e, scanDue every tail.1 = .error e) ∨ ∃ e, b.build tail.1 tail.2 = .error e)) ∨
        ∃ e, JSONLBackend.append every .sound b.build s = (.ok e, s') ∧
          s'.file = s.file ++ (storedBytes e ++ [LF]) ∧ b.build tail.1 tail.2 = .ok e ∧
          ∃ due, scanDue every tail.1 = .ok due) := by
  rcases @scanStep_trail _ every tail.1 _ _ _ hes hrest hfile hcleared with
    ⟨err, hdue, hscan⟩ | ⟨s', hscan, hfile', hcleared'⟩
  · refine ⟨s, hcleared, .inl ⟨err, ?_, rfl, .inl ⟨err, hdue⟩⟩⟩
    simp only [JSONLBackend.append, prepare, lockedTail_sound, htail, hscan]
  · have hprepare : prepare every .sound b.build s = (encodeEntry .sound b.build tail, s') := by
      simp only [prepare, lockedTail_sound, htail, hscan]
    rcases encodeEntry_sound b tail with ⟨err, hbuild, hencode⟩ | ⟨e, hbuild, hencode⟩
    · refine ⟨s', hcleared', .inl ⟨err, ?_, hfile', .inr ⟨err, hbuild⟩⟩⟩
      simp only [JSONLBackend.append, hprepare, hencode]
    · have hdue : ∃ due, scanDue every tail.1 = .ok due := by
        cases hdue : scanDue every tail.1 with
        | ok due => exact ⟨due, rfl⟩
        | error err =>
            simp only [scanStep, hdue] at hscan
            cases hscan
      refine ⟨{ s' with file := s'.file ++ (storedBytes e ++ [LF]) }, hcleared',
        .inr ⟨e, ?_, by rw [hfile'], hbuild, hdue⟩⟩
      rw [JSONLBackend.append, hprepare, hencode]
      rfl

/-! ## Runs of later appends -/

/-- One append of a run: the file before, what the call returned, the file after. -/
structure AppendStep where
  before : Bytes
  result : Except PyErr Entry
  after : Bytes

/-- The append raised and left the file alone, or the readers now find the complete entries
and the new one, linked. -/
def AppendStep.Sound (step : AppendStep) : Prop :=
  (∃ e, step.result = .error e ∧ step.after = step.before) ∨
    ∃ e, step.result = .ok e ∧ entries step.after = .ok (completeEntries step.before ++ [e]) ∧
      Linked (completeEntries step.before ++ [e])

/-- The appends of one backend object, one after another. -/
def laterAppends (integrityScanEvery : Option ℤ) : List Builder → Store → List AppendStep
  | [], _ => []
  | b :: bs, s =>
      let out := JSONLBackend.append integrityScanEvery .sound b.build s
      ⟨s.file, out.1, out.2.file⟩ :: laterAppends integrityScanEvery bs out.2

/-- On a trail whose lines are all complete, every append is sound. -/
theorem laterAppends_wellFormed (every : Option ℤ) (bs : List Builder) :
    ∀ {s : Store} {es : List Entry}, WellFormed es → s.file = trailBytes es → Cleared s es →
      ∀ step ∈ laterAppends every bs s, step.Sound := by
  induction bs with
  | nil => exact fun _ _ _ => nofun
  | cons b bs ih =>
      intro s es hes hfile hcleared
      have htail : tailLocked s.file = .ok (nextLink es) := by
        rw [hfile, tailLocked_trailBytes hes.storable]
      obtain ⟨s', hcleared', hstep⟩ := append_trail b hes.storable (.inl rfl)
        (by rw [hfile, List.append_nil]) hcleared htail
      rw [laterAppends, List.forall_mem_cons]
      rcases hstep with ⟨err, happend, hfile', -⟩ | ⟨e, happend, hfile', hbuild, -⟩
      · rw [happend]
        exact ⟨.inl ⟨err, rfl, hfile'⟩, ih hes (hfile'.trans hfile) hcleared'⟩
      · have hes' : WellFormed (es ++ [e]) :=
          wellFormed_append_singleton.mpr ⟨hes, b.linked hbuild, b.storable hbuild⟩
        have hafter : s'.file = trailBytes (es ++ [e]) := by
          rw [hfile', hfile, trailBytes_append, trailBytes_singleton]
        rw [happend]
        refine ⟨.inr ⟨e, rfl, ?_, ?_⟩, ih hes' hafter (hcleared'.append e)⟩
        · simp only [hafter, hfile, completeEntries_trailBytes hes.storable,
            entries_trailBytes hes'.storable]
        · simp only [hfile, completeEntries_trailBytes hes.storable]
          exact hes'.linked

/-- On a file whose tail cannot be read, every append raises and leaves it alone. -/
theorem laterAppends_tail_error (every : Option ℤ) {s : Store} {e : PyErr}
    (h : tailLocked s.file = .error e) (bs : List Builder) :
    ∀ step ∈ laterAppends every bs s, step.Sound := by
  induction bs with
  | nil => exact nofun
  | cons b bs ih =>
      rw [laterAppends, List.forall_mem_cons, append_of_tail_error h]
      exact ⟨.inl ⟨e, rfl, rfl⟩, ih⟩

/-- **A torn tail stops every append.** -/
theorem tailLocked_torn {e : Entry} (he : Storable e) (es : List Entry) {k : ℕ} (hpos : 0 < k)
    (hk : k < (storedBytes e).length) :
    ∃ err, tailLocked (trailBytes es ++ (storedBytes e).take k) = .error err := by
  have hp : (storedBytes e).take k = asciiBytes ((storedText e).take k) := List.map_take.symm
  have hlen : (storedBytes e).length = (storedText e).length := length_asciiBytes _
  have hne : (storedBytes e).take k ≠ [] := fun hnil => by
    have := congrArg List.length hnil
    rw [List.length_take, List.length_nil] at this
    omega
  have hunbroken : Unbroken ((storedBytes e).take k) := fun b hb =>
    unbroken_storedBytes he b (List.mem_of_mem_take hb)
  rw [tailLocked, readLastLine_eq, lastLine_unterminated hunbroken hne (trailBytes_eq es)]
  simp only
  have hload : loadsBytes ((storedBytes e).take k) = decode ((storedText e).take k) := by
    rw [hp, loadsBytes_printable fun c hc => isPrintable_storedText he c (List.mem_of_mem_take hc)]
  cases hdecode : decode ((storedText e).take k) with
  | error err => exact ⟨err, by rw [hload, hdecode]; rfl⟩
  | ok v =>
      refine absurd hdecode (decode_torn (writable_storedMembers he)
        (List.take_append_drop k (storedText e)) (fun hnil => ?_) v)
      have := congrArg List.length hnil
      rw [List.length_drop, List.length_nil] at this
      omega

/-- **Two entries on one line** can be read neither as a tail nor forward. -/
theorem glued_unreadable {e e' : Entry} (he : Storable e) (he' : Storable e') (es : List Entry) :
    (∃ err, tailLocked (trailBytes es ++ storedBytes e ++ (storedBytes e' ++ [LF])) = .error err) ∧
      ∀ xs, entries (trailBytes es ++ storedBytes e ++ (storedBytes e' ++ [LF])) ≠ .ok xs := by
  have hprint : ∀ c ∈ storedText e ++ storedText e', IsPrintable c :=
    List.forall_mem_append.mpr ⟨isPrintable_storedText he, isPrintable_storedText he'⟩
  have hbytes : storedBytes e ++ storedBytes e' = asciiBytes (storedText e ++ storedText e') :=
    (asciiBytes_append _ _).symm
  have hunbroken : Unbroken (storedBytes e ++ storedBytes e') :=
    hbytes ▸ unbroken_asciiBytes hprint
  have hsplit : trailBytes es ++ storedBytes e ++ (storedBytes e' ++ [LF])
      = trailBytes es ++ ((storedBytes e ++ storedBytes e') ++ [LF]) := by
    simp only [List.append_assoc]
  constructor
  · have hglued := @decode_glued _ .compact _ (storedMembers e') (writable_storedMembers he) []
    rw [List.append_nil] at hglued
    refine ⟨.jsonDecodeError, ?_⟩
    rw [hsplit, tailLocked, readLastLine_eq, lastLine_line hunbroken
      (List.append_ne_nil_of_left_ne_nil (storedBytes_ne_nil e) _) (trailBytes_eq es)]
    simp only [hbytes, loadsBytes_printable hprint]
    rw [storedText, storedText, hglued]
    rfl
  · intro xs hread
    rw [hsplit, List.append_assoc, entries, readLines_append fromObj (endsLine_trailBytes es)
      (storedLine_ne_LF e _)] at hread
    obtain ⟨ys, -, hread⟩ := bind_eq_ok_iff.mp hread
    obtain ⟨zs, hread, -⟩ := bind_eq_ok_iff.mp hread
    rw [← List.append_assoc, readLines, textLines_line hunbroken] at hread
    obtain ⟨x, hline, -⟩ := bind_eq_ok_iff.mp hread
    refine @readLine_glued _ .compact _ _ fromObj _ (writable_storedMembers he)
      (writable_storedMembers he') [0x0A] rfl x ?_
    rw [← hline, hbytes, asciiBytes_append, asciiBytes_append, asciiBytes_append, asciiBytes_LF,
      List.append_assoc]
    rfl

/-- The appends after a crash that left the whole line but for its newline. -/
theorem laterAppends_unterminated (every : Option ℤ) {es : List Entry} {e : Entry}
    (hes : ∀ e ∈ es, Storable e) (he : Storable e) (bs : List Builder) :
    ∀ {s : Store}, s.file = trailBytes es ++ storedBytes e → Cleared s es →
      ((∀ step ∈ laterAppends every bs s, step.Sound) ↔
        ¬ ((∃ due, scanDue every e.next.1 = .ok due) ∧
          ∃ b ∈ bs, ∃ e', b.build e.next.1 e.next.2 = .ok e')) := by
  induction bs with
  | nil => exact fun _ _ => ⟨fun _ h => by simp at h, fun _ => nofun⟩
  | cons b bs ih =>
      intro s hfile hcleared
      have htail : tailLocked s.file = .ok e.next := by
        rw [hfile, tailLocked_unterminated he]
      obtain ⟨s', hcleared', hstep⟩ := @append_trail _ every b _ _ _ _ hes (.inr ⟨e, he, rfl⟩)
        hfile hcleared htail
      rw [laterAppends, List.forall_mem_cons]
      rcases hstep with ⟨err, happend, hfile', hfail⟩ | ⟨e', happend, hfile', hbuild, hdue⟩
      · have hsound : AppendStep.Sound ⟨s.file, .error err, s'.file⟩ := .inl ⟨err, rfl, hfile'⟩
        rw [happend, ih (hfile'.trans hfile) hcleared', and_iff_right hsound]
        refine not_congr (and_congr_right fun ⟨due, hdue⟩ => ?_)
        rcases hfail with ⟨err', hraise⟩ | ⟨err', hraise⟩
        · rw [hdue] at hraise
          cases hraise
        · simp [hraise]
      · -- the new line is behind the old one, and no reader gets past them
        refine iff_of_false (fun hall => ?_) (not_not_intro ⟨hdue, b, List.mem_cons_self, e', hbuild⟩)
        obtain ⟨-, hglued⟩ := glued_unreadable he (b.storable hbuild) es
        rw [happend, hfile', hfile] at hall
        rcases hall.1 with ⟨err, hraise, -⟩ | ⟨e'', -, hread, -⟩
        · cases hraise
        · exact hglued _ hread

omit [Interpreter] in
/-- The question whether a scan is due has an answer, but for `% 0`. -/
theorem scanDue_ok {every : Option ℤ} (h : every ≠ some 0) (nextSeq : ℤ) :
    ∃ due, scanDue every nextSeq = .ok due := by
  cases every with
  | none => exact ⟨false, rfl⟩
  | some n =>
      have hn : n ≠ 0 := fun hn => h (congrArg some hn)
      rw [scanDue, if_neg hn]
      split_ifs <;> exact ⟨_, rfl⟩

omit [Interpreter] in
theorem scanDue_ok_iff {every : Option ℤ} {nextSeq : ℤ} (h : 0 < nextSeq) :
    (∃ due, scanDue every nextSeq = .ok due) ↔ every ≠ some 0 := by
  refine ⟨?_, fun hne => scanDue_ok hne nextSeq⟩
  rintro ⟨due, hdue⟩ rfl
  rw [scanDue, if_pos h] at hdue
  cases hdue

/-- What a crash leaves of the line of `e`: its first `k` bytes. -/
def crashedBytes (es : List Entry) (e : Entry) (k : ℕ) : Bytes :=
  trailBytes es ++ (storedBytes e).take k

/-- A crash while the line is written is an append whose write fails. -/
theorem file_append_crash (every : Option ℤ) (b : Builder) {es : List Entry} {e : Entry} {k : ℕ}
    (err : PyErr) (hes : WellFormed es)
    (hbuild : b.build (nextLink es).1 (nextLink es).2 = .ok e) (hk : k ≤ (storedBytes e).length)
    (hdue : every ≠ some 0) :
    (JSONLBackend.append every { AppendIo.sound with write := some (k, err) } b.build
      (Store.opened (trailBytes es))).2.file = crashedBytes es e k := by
  have htail : tailLocked (Store.opened (trailBytes es)).file = .ok (nextLink es) :=
    tailLocked_trailBytes hes.storable
  rcases @scanStep_trail _ every (nextLink es).1 (Store.opened (trailBytes es)) es [] hes.storable
    (.inl rfl) (List.append_nil _).symm (cleared_opened _ es) with
    ⟨err', hraise, -⟩ | ⟨s', hscan, hfile, -⟩
  · obtain ⟨due, hok⟩ := scanDue_ok hdue (nextLink es).1
    rw [hok] at hraise
    cases hraise
  · rcases encodeEntry_sound b (nextLink es) with ⟨err', hfail, -⟩ | ⟨e', hok, hencode⟩
    · rw [hbuild] at hfail
      cases hfail
    · obtain rfl : e = e' := Except.ok.inj (hbuild.symm.trans hok)
      have hprepare : prepare every { AppendIo.sound with write := some (k, err) } b.build
          (Store.opened (trailBytes es)) = (.ok (e, storedBytes e ++ [LF]), s') := by
        have hlocked : lockedTail { AppendIo.sound with write := some (k, err) }
            (Store.opened (trailBytes es)).file = .ok (nextLink es) := htail
        have hscan' : scanStep every { AppendIo.sound with write := some (k, err) } (nextLink es).1
            (Store.opened (trailBytes es)) = (.ok (), s') := hscan
        have hencode' : encodeEntry { AppendIo.sound with write := some (k, err) } b.build
            (nextLink es) = .ok (e, storedBytes e ++ [LF]) := hencode
        simp only [prepare, hlocked, hscan', hencode']
      rw [JSONLBackend.append, hprepare]
      simp only [hfile, crashedBytes, List.take_append_of_le_length hk]
      rfl

/-- **Crash consistency.**  A trail the log wrote, a crash that leaves the first `k` bytes of
the next line, up to the whole object without its newline, and any appends after it by a
backend object opened on the file: each of them is sound, unless the whole object was left
and one of them gets as far as building its entry. -/
theorem laterAppends_sound_iff (every : Option ℤ) (es : List Entry) (e : Entry)
    (hes : WellFormed (es ++ [e])) (k : ℕ) (hk : k ≤ (storedBytes e).length) (bs : List Builder) :
    (∀ step ∈ laterAppends every bs (Store.opened (crashedBytes es e k)), step.Sound) ↔
      ¬ (k = (storedBytes e).length ∧ every ≠ some 0 ∧
        ∃ b ∈ bs, ∃ e', b.build e.next.1 e.next.2 = .ok e') := by
  obtain ⟨hes, hlink, he⟩ := wellFormed_append_singleton.mp hes
  have hpos : 0 < e.next.1 := by
    have hseq : e.header.seq = (nextLink es).1 := congrArg Prod.fst hlink
    rw [Entry.next, hseq, nextLink_fst hes.linked]
    omega
  rcases Nat.eq_zero_or_pos k with rfl | hk0
  · refine iff_of_true (laterAppends_wellFormed every bs hes ?_ (cleared_opened _ es)) ?_
    · rw [Store.opened, crashedBytes, List.take_zero, List.append_nil]
    · rintro ⟨hlen, -⟩
      exact storedBytes_ne_nil e (List.length_eq_zero_iff.mp hlen.symm)
  rcases Nat.lt_or_ge k (storedBytes e).length with hlt | hge
  · obtain ⟨err, htorn⟩ := tailLocked_torn he es hk0 hlt
    exact iff_of_true (laterAppends_tail_error every htorn bs) fun h => by omega
  · obtain rfl : k = (storedBytes e).length := Nat.le_antisymm hk hge
    have hfile : (Store.opened (crashedBytes es e (storedBytes e).length)).file
        = trailBytes es ++ storedBytes e := by
      rw [Store.opened, crashedBytes, List.take_length]
    rw [laterAppends_unterminated every hes.storable he bs hfile (cleared_opened _ es)]
    rw [scanDue_ok_iff hpos, and_iff_right rfl]

/-! ## A crash, and an append after it -/

/-- A draft of the log. -/
def crashDraft : Draft := ⟨str "2024-01-01T00:00:00+00:00", str "application/vnd.x+json", ascii "{}"⟩

omit [Interpreter] in
theorem crashDraft_build :
    letI := Sha256.hashlib
    ∃ e e', crashDraft.build 0 genesisPrevHash = .ok e ∧
      crashDraft.build e.next.1 e.next.2 = .ok e' := by
  let _ := Sha256.hashlib
  have hok : (crashDraft.build 0 genesisPrevHash >>= fun e =>
      crashDraft.build e.next.1 e.next.2).toOption.isSome = true := by
    decide +kernel
  obtain ⟨e', he'⟩ := exists_eq_ok_of_isSome hok
  obtain ⟨e, he, hnext⟩ := bind_eq_ok_iff.mp he'
  exact ⟨e, e', he, hnext⟩

omit [Interpreter] in
theorem wellFormed_build [Hashlib] {draft : Draft} {e : Entry}
    (h : draft.build 0 genesisPrevHash = .ok e) : WellFormed ([] ++ [e]) :=
  wellFormed_append_singleton.mpr
    ⟨wellFormed_nil, draft.builder.linked h, Draft.storable_of_build h⟩

omit [Interpreter] in
/-- A crash that leaves the first byte of the first line: no later append writes. -/
theorem laterAppends_sound_iff_torn :
    letI := Sha256.hashlib
    letI := Interpreter.plain
    ∃ e, crashDraft.build 0 genesisPrevHash = .ok e ∧
      ∀ step ∈ laterAppends (some 1000) [crashDraft.builder] (Store.opened (crashedBytes [] e 1)),
        step.Sound := by
  let _ := Sha256.hashlib
  let _ := Interpreter.plain
  obtain ⟨e, e', he, -⟩ := crashDraft_build
  have hlen : 1 ≤ (storedBytes e).length :=
    List.length_pos_iff.mpr (storedBytes_ne_nil e)
  refine ⟨e, he, (laterAppends_sound_iff (some 1000) [] e (wellFormed_build he) 1 hlen
    [crashDraft.builder]).mpr ?_⟩
  rintro ⟨hone, -⟩
  obtain ⟨t, ht⟩ : ∃ t, storedText e = lbrace :: quote :: t := ⟨_, rfl⟩
  rw [storedBytes, length_asciiBytes, ht] at hone
  simp at hone

omit [Interpreter] in
/-- **The cut right before the newline.**  The first line is whole but for its newline; the
next append succeeds, and leaves a file that cannot be read. -/
theorem laterAppends_glued :
    letI := Sha256.hashlib
    letI := Interpreter.plain
    ∃ e, crashDraft.build 0 genesisPrevHash = .ok e ∧ WellFormed [e] ∧
      ∃ step ∈ laterAppends (some 1000) [crashDraft.builder]
        (Store.opened (crashedBytes [] e (storedBytes e).length)), ¬ step.Sound := by
  let _ := Sha256.hashlib
  let _ := Interpreter.plain
  obtain ⟨e, e', he, he'⟩ := crashDraft_build
  have hfile : (Store.opened (crashedBytes [] e (storedBytes e).length)).file
      = trailBytes [] ++ storedBytes e := by
    rw [Store.opened, crashedBytes, List.take_length]
  have hiff := @laterAppends_unterminated _ (some 1000) [] e nofun
    (Draft.storable_of_build he) [crashDraft.builder] _ hfile (cleared_opened _ [])
  refine ⟨e, he, wellFormed_build he, ?_⟩
  by_contra hall
  push Not at hall
  refine hiff.mp hall ⟨(scanDue_ok_iff ?_).mpr (by decide), crashDraft.builder, by simp, e', he'⟩
  obtain ⟨b, -, -, -, hseq, -⟩ := Draft.build_eq_ok he
  rw [Entry.next, hseq]
  exact Int.one_pos

end Waxseal
