import Mathlib.Data.List.Induction
import Waxseal.Adapters.CrashConsistency
import Waxseal.Adapters.S3Backend
import Waxseal.Log.EntryBuilder

/-!
# The SQL backends

`adapters/sqlite.py` and `adapters/postgres.py` keep a trail in a table.  `append` takes a lock,
reads the last row, builds the entry on it and inserts it; the primary key on `seq` is the backstop
should the lock be bypassed.

The primary key alone is enough: whatever rows writers have read when, and whichever commits fail
or are not heard of, the table holds one chain, every entry that was returned is on it, and what is
on it stays (`sqlTable_never_forks`).

With the lock, the two backends, the one in memory (`adapters/memory.py`) and the one in a file
return the same entries and list the same trail (`backends_agree`).
-/

namespace Waxseal

/-! ## Rows -/

/-- The columns of a row. -/
structure EntryRow where
  seq : ℤ
  ts : PyStr
  hashVersion : PyStr
  payloadType : PyStr
  payloadHash : PyStr
  prevHash : PyStr
  entryHash : PyStr
  payload : Bytes
  deriving DecidableEq

/-- The parameters of the `INSERT`. -/
def EntryRow.ofEntry (entry : Entry) (payload : Bytes) : EntryRow where
  seq := entry.header.seq
  ts := entry.header.ts
  hashVersion := entry.header.hashVersion
  payloadType := entry.header.payloadType
  payloadHash := entry.header.payloadHash
  prevHash := entry.header.prevHash
  entryHash := entry.entryHash
  payload := payload

/-- `entry_from_fields`. -/
def EntryRow.entry (row : EntryRow) : Entry where
  header :=
    { seq := row.seq
      ts := row.ts
      hashVersion := row.hashVersion
      payloadType := row.payloadType
      payloadHash := row.payloadHash
      prevHash := row.prevHash }
  entryHash := row.entryHash
  payload := some row.payload

/-- The texts of a row. -/
def EntryRow.texts (row : EntryRow) : List PyStr :=
  [row.ts, row.hashVersion, row.payloadType, row.payloadHash, row.prevHash, row.entryHash]

/-- A row is read back as the entry it was made of. -/
theorem EntryRow.entry_ofEntry {e : Entry} {payload : Bytes} (h : e.payload = some payload) :
    (ofEntry e payload).entry = e := by
  obtain ⟨header, entryHash, payload'⟩ := e
  obtain rfl : payload' = some payload := h
  rfl

/-! ## The table -/

/-- What sets the two databases apart. -/
structure SqlBackend where
  /-- `entries()` goes by `rowid`, which is `seq`; else by the order of insertion. -/
  byRowid : Bool
  /-- What the driver raises about the texts of a row. -/
  refuses : List PyStr → Option PyErr

/-- `SQLiteBackend`: a text is bound as UTF-8. -/
def sqliteBackend : SqlBackend where
  byRowid := true
  refuses texts :=
    if texts.all fun s => (encodeUtf8 s).isSome then none else some .unicodeEncodeError

/-- `PostgresBackend`, with the driver it was given. -/
def postgresBackend (driver : List PyStr → Option PyErr) : SqlBackend := ⟨false, driver⟩

/-- What an append raises. -/
inductive SqlError where
  | built (e : PyErr)
  | payloadIsNone
  | refused (e : PyErr)
  /-- The integer is beyond 64 bits. -/
  | outOfRange
  /-- The primary key. -/
  | integrity
  /-- The connection or the commit. -/
  | aborted
  deriving DecidableEq

/-- What becomes of a transaction once the row is inserted. -/
inductive Commit where
  | done
  /-- It is rolled back. -/
  | aborted
  /-- It is done, and the reply is lost. -/
  | unheard
  deriving DecidableEq

/-- The one of two rows with the greater `seq`. -/
def laterRow (last : Option EntryRow) (row : EntryRow) : Option EntryRow :=
  match last with
  | none => some row
  | some last => if last.seq < row.seq then some row else some last

/-- `ORDER BY seq DESC LIMIT 1`. -/
def latestRow (rows : List EntryRow) : Option EntryRow := rows.foldl laterRow none

/-- `SELECT seq, entry_hash FROM entries ORDER BY seq DESC LIMIT 1`, and what comes next. -/
def sqlTail (rows : List EntryRow) : ℤ × PyStr :=
  match latestRow rows with
  | none => genesisLink
  | some row => (row.seq + 1, row.entryHash)

namespace SqlBackend

/-- The `INSERT`. -/
def insertRow (backend : SqlBackend) (row : EntryRow) (rows : List EntryRow) :
    Except SqlError (List EntryRow) :=
  if row.seq < -2 ^ 63 ∨ 2 ^ 63 ≤ row.seq then .error .outOfRange
  else
    match backend.refuses row.texts with
    | some e => .error (.refused e)
    | none =>
        if rows.any fun row' => row'.seq = row.seq then .error .integrity
        else .ok (rows ++ [row])

/-- What `append` does behind its read of the tail. -/
def write (backend : SqlBackend) (tail : ℤ × PyStr) (build : ℤ → PyStr → Except PyErr Entry)
    (commit : Commit) (rows : List EntryRow) : Except SqlError Entry × List EntryRow :=
  match build tail.1 tail.2 with
  | .error e => (.error (.built e), rows)
  | .ok entry =>
      match entry.payload with
      | none => (.error .payloadIsNone, rows)
      | some payload =>
          match backend.insertRow (.ofEntry entry payload) rows with
          | .error e => (.error e, rows)
          | .ok rows' =>
              match commit with
              | .done => (.ok entry, rows')
              | .aborted => (.error .aborted, rows)
              | .unheard => (.error .aborted, rows')

/-- `append(build)`, under its lock. -/
def append (backend : SqlBackend) (build : ℤ → PyStr → Except PyErr Entry) (commit : Commit)
    (rows : List EntryRow) : Except SqlError Entry × List EntryRow :=
  backend.write (sqlTail rows) build commit rows

/-- `entries()`. -/
def entries (backend : SqlBackend) (rows : List EntryRow) : List Entry :=
  (if backend.byRowid then rows.mergeSort fun a b => a.seq ≤ b.seq else rows).map EntryRow.entry

end SqlBackend

/-! ## Writers without a lock -/

/-- A table, the tails its writers have read, and what the appends have come to. -/
structure SqlWorld where
  rows : List EntryRow
  tails : ℕ → Option (ℤ × PyStr)
  answers : List (Except SqlError Entry)
  /-- How many commits were not heard of. -/
  unheard : ℕ

/-- What a writer does next. -/
inductive SqlStep where
  | read (writer : ℕ)
  | write (writer : ℕ) (build : Builder) (commit : Commit)

namespace SqlBackend

/-- One step.  A writer that has read nothing does not write. -/
def step (backend : SqlBackend) (w : SqlWorld) : SqlStep → SqlWorld
  | .read writer => { w with tails := Function.update w.tails writer (some (sqlTail w.rows)) }
  | .write writer build commit =>
      match w.tails writer with
      | none => w
      | some tail =>
          let out := backend.write tail build.build commit w.rows
          { rows := out.2
            tails := Function.update w.tails writer none
            answers := w.answers ++ [out.1]
            unheard := w.unheard + if out.2 ≠ w.rows ∧ commit = .unheard then 1 else 0 }

/-- A run. -/
def run (backend : SqlBackend) (w : SqlWorld) (steps : List SqlStep) : SqlWorld :=
  steps.foldl backend.step w

end SqlBackend

/-- An empty table. -/
def SqlWorld.start : SqlWorld := ⟨[], fun _ => none, [], 0⟩

/-- The entries that were returned, in order. -/
def SqlWorld.returned (w : SqlWorld) : List Entry := w.answers.filterMap Except.toOption

/-! ## One chain -/

variable {backend : SqlBackend} {rows : List EntryRow} {es : List Entry} {w : SqlWorld}

theorem linked_seq_lt {e e' : Entry} (h : Linked (es ++ [e])) (he' : e' ∈ es) :
    e'.header.seq < e.header.seq := by
  obtain ⟨n, hn⟩ := List.getElem?_of_mem he'
  obtain ⟨hlt, -⟩ := List.getElem?_eq_some_iff.mp hn
  have hleft := h.seq_eq (n := n) (by rw [List.getElem?_append_left hlt, hn])
  have hright := h.seq_eq (n := es.length) (List.getElem?_concat_length)
  omega

theorem latestRow_concat (rows : List EntryRow) (row : EntryRow) :
    latestRow (rows ++ [row]) = laterRow (latestRow rows) row := List.foldl_concat ..

theorem mem_of_latestRow {row : EntryRow} (h : latestRow rows = some row) : row ∈ rows := by
  induction rows using List.reverseRecOn generalizing row with
  | nil => cases h
  | append_singleton rows last ih =>
      have hlast : row = last → row ∈ rows ++ [last] := by
        rintro rfl
        exact List.mem_append_right rows (List.mem_singleton_self row)
      rw [latestRow_concat] at h
      cases hbefore : latestRow rows with
      | none =>
          rw [hbefore] at h
          exact hlast (Option.some.inj h).symm
      | some earlier =>
          rw [hbefore] at h
          dsimp only [laterRow] at h
          split_ifs at h
          · exact hlast (Option.some.inj h).symm
          · exact List.mem_append_left _ (ih (hbefore.trans h))

/-- **The tail that is read** is that of the chain. -/
theorem sqlTail_eq (hrows : rows.map EntryRow.entry = es) (hlinked : Linked es) :
    sqlTail rows = nextLink es := by
  subst hrows
  induction rows using List.reverseRecOn with
  | nil => rfl
  | append_singleton rows row _ =>
      rw [List.map_append] at hlinked ⊢
      have hmax : latestRow (rows ++ [row]) = some row := by
        rw [latestRow_concat]
        cases hbefore : latestRow rows with
        | none => rfl
        | some row' =>
            have hlt : row'.seq < row.seq :=
              linked_seq_lt hlinked (List.mem_map_of_mem (mem_of_latestRow hbefore))
            exact if_pos hlt
      rw [List.map_singleton, nextLink_append_singleton, sqlTail, hmax]
      rfl

/-- A row behind a tail that was known is inserted only if nothing was inserted meanwhile. -/
theorem nextLink_of_insertRow {row : EntryRow} {tail : ℤ × PyStr} {rows' : List EntryRow}
    (hrows : rows.map EntryRow.entry = es) (hlinked : Linked es) (htail : KnownTail es tail)
    (hseq : row.seq = tail.1) (h : backend.insertRow row rows = .ok rows') :
    tail = nextLink es ∧ rows' = rows ++ [row] := by
  rw [SqlBackend.insertRow] at h
  by_cases hrange : row.seq < -2 ^ 63 ∨ 2 ^ 63 ≤ row.seq
  · rw [if_pos hrange] at h
    cases h
  rw [if_neg hrange] at h
  cases hrefuses : backend.refuses row.texts with
  | some e =>
      rw [hrefuses] at h
      cases h
  | none =>
      rw [hrefuses] at h
      dsimp only at h
      split_ifs at h with hkey
      refine ⟨?_, (Except.ok.inj h).symm⟩
      obtain ⟨n, hn, -, hlast⟩ := htail.successor hlinked
      apply hlast
      cases hentry : es[n]? with
      | none => rfl
      | some e =>
          -- the key is taken
          obtain ⟨row', hrow', rfl⟩ := List.mem_map.mp (hrows ▸ List.mem_of_getElem? hentry)
          have htaken : row'.seq = row.seq := (hlinked.seq_eq hentry).trans (hseq.trans hn).symm
          exact absurd (List.any_eq_true.mpr ⟨row', hrow', decide_eq_true htaken⟩) hkey

/-- **What a write does**: nothing, or it puts the next entry on the chain. -/
theorem write_cases (backend : SqlBackend) {tail : ℤ × PyStr} (build : Builder) (commit : Commit)
    (hrows : rows.map EntryRow.entry = es) (hlinked : Linked es) (htail : KnownTail es tail) :
    let out := backend.write tail build.build commit rows
    ((∃ err, out.1 = .error err) ∧ out.2 = rows) ∨
      ∃ e, e.backLink = nextLink es ∧ out.2.map EntryRow.entry = es ++ [e] ∧
        (commit = .done ∧ out.1 = .ok e ∨ commit = .unheard ∧ out.1 = .error .aborted) := by
  intro out
  have hout : out = backend.write tail build.build commit rows := rfl
  unfold SqlBackend.write at hout
  cases hbuild : build.build tail.1 tail.2 with
  | error e =>
      rw [hbuild] at hout
      rw [hout]
      exact .inl ⟨⟨_, rfl⟩, rfl⟩
  | ok e =>
      rw [hbuild] at hout
      dsimp only at hout
      have hlink : e.backLink = tail := build.linked hbuild
      cases hpayload : e.payload with
      | none =>
          rw [hpayload] at hout
          rw [hout]
          exact .inl ⟨⟨_, rfl⟩, rfl⟩
      | some payload =>
          rw [hpayload] at hout
          dsimp only at hout
          cases hinsert : backend.insertRow (.ofEntry e payload) rows with
          | error err =>
              rw [hinsert] at hout
              rw [hout]
              exact .inl ⟨⟨_, rfl⟩, rfl⟩
          | ok rows' =>
              rw [hinsert] at hout
              -- the key was free, so the tail that was read is still the last row
              obtain ⟨hnext, rfl⟩ := nextLink_of_insertRow hrows hlinked htail
                (congrArg Prod.fst hlink) hinsert
              have hgrown : (rows ++ [EntryRow.ofEntry e payload]).map EntryRow.entry = es ++ [e] := by
                rw [List.map_append, hrows, List.map_singleton, EntryRow.entry_ofEntry hpayload]
              rw [hnext] at hlink
              cases commit with
              | aborted =>
                  rw [hout]
                  exact .inl ⟨⟨_, rfl⟩, rfl⟩
              | done =>
                  rw [hout]
                  exact .inr ⟨e, hlink, hgrown, .inl ⟨rfl, rfl⟩⟩
              | unheard =>
                  rw [hout]
                  exact .inr ⟨e, hlink, hgrown, .inr ⟨rfl, rfl⟩⟩

/-- What holds of a table: it is one chain, its writers have read tails of it, and on it are the
entries that were returned, and those whose commit was not heard of. -/
structure SqlWorld.Sound (w : SqlWorld) (es : List Entry) : Prop where
  rows : w.rows.map EntryRow.entry = es
  linked : Linked es
  tails : ∀ writer tail, w.tails writer = some tail → KnownTail es tail
  returned : w.returned.Sublist es
  count : es.length = w.returned.length + w.unheard

theorem sound_start : SqlWorld.start.Sound [] where
  rows := rfl
  linked := trivial
  tails := nofun
  returned := .slnil
  count := rfl

@[simp] theorem returned_append (answers : List (Except SqlError Entry)) (tails unheard)
    (answer : Except SqlError Entry) :
    SqlWorld.returned ⟨rows, tails, answers ++ [answer], unheard⟩ =
      answers.filterMap Except.toOption ++ answer.toOption.toList := by
  rw [SqlWorld.returned, List.filterMap_append]
  cases answer <;> rfl

/-- **A step** keeps one chain. -/
theorem SqlWorld.Sound.step (backend : SqlBackend) (h : w.Sound es) (s : SqlStep) :
    ∃ new, (backend.step w s).Sound (es ++ new) := by
  cases s with
  | read writer =>
      refine ⟨[], ?_⟩
      rw [List.append_nil]
      refine ⟨h.rows, h.linked, ?_, h.returned, h.count⟩
      intro writer' tail htail
      change Function.update w.tails writer (some (sqlTail w.rows)) writer' = some tail at htail
      by_cases hwriter : writer' = writer
      · rw [hwriter, Function.update_self, sqlTail_eq h.rows h.linked] at htail
        obtain rfl := Option.some.inj htail
        exact ⟨es.length, le_refl _, by rw [List.take_length]⟩
      · rw [Function.update_of_ne hwriter] at htail
        exact h.tails writer' tail htail
  | write writer build commit =>
      cases hread : w.tails writer with
      | none =>
          have hsame : backend.step w (.write writer build commit) = w := by
            simp only [SqlBackend.step, hread]
          exact ⟨[], by rwa [hsame, List.append_nil]⟩
      | some tail =>
          have hcases :=
            write_cases backend build commit h.rows h.linked (h.tails writer tail hread)
          -- what another writer has read stays known
          have htails : ∀ new writer' tail', Function.update w.tails writer none writer' = some tail' →
              KnownTail (es ++ new) tail' := by
            intro new writer' tail' htail'
            by_cases hwriter : writer' = writer
            · rw [hwriter, Function.update_self] at htail'
              cases htail'
            · rw [Function.update_of_ne hwriter] at htail'
              exact (h.tails writer' tail' htail').append new
          simp only [SqlBackend.step, hread]
          generalize backend.write tail build.build commit w.rows = out at hcases ⊢
          rcases hcases with ⟨⟨err, herr⟩, hsame⟩ | ⟨e, hlink, hgrown, hheard⟩
          · refine ⟨[], ?_⟩
            rw [List.append_nil]
            refine ⟨?_, h.linked, ?_, ?_, ?_⟩
            · rw [hsame]
              exact h.rows
            · simpa using htails []
            · rw [returned_append, herr]
              simpa [Except.toOption, SqlWorld.returned] using h.returned
            · rw [returned_append, herr]
              simpa [Except.toOption, SqlWorld.returned, hsame] using h.count
          · have hchanged : out.2 ≠ w.rows := by
              intro hsame
              rw [hsame, h.rows] at hgrown
              exact List.cons_ne_nil e [] (List.append_right_eq_self.mp hgrown.symm)
            have hcount := h.count
            refine ⟨[e], hgrown, linked_append_singleton.mpr ⟨h.linked, hlink⟩, htails [e], ?_, ?_⟩
            · rw [returned_append]
              rcases hheard with ⟨-, hok⟩ | ⟨-, herr⟩
              · rw [hok]
                exact h.returned.append_right [e]
              · rw [herr]
                exact (List.append_nil w.returned).symm ▸ h.returned.trans (List.sublist_append_left ..)
            · rw [returned_append, List.length_append, List.length_append, h.count]
              rcases hheard with ⟨hdone, hok⟩ | ⟨hunheard, herr⟩
              · simp [hok, hdone, Except.toOption, SqlWorld.returned]
                omega
              · simp [herr, hunheard, hchanged, Except.toOption, SqlWorld.returned]
                omega

/-- **A run**, from any table that is one chain: it only grows. -/
theorem SqlWorld.Sound.run (backend : SqlBackend) (h : w.Sound es) (steps : List SqlStep) :
    ∃ new, (backend.run w steps).Sound (es ++ new) := by
  induction steps generalizing w es with
  | nil => exact ⟨[], by rwa [List.append_nil]⟩
  | cons s steps ih =>
      obtain ⟨first, hfirst⟩ := h.step backend s
      obtain ⟨rest, hrest⟩ := ih hfirst
      refine ⟨first ++ rest, ?_⟩
      rw [← List.append_assoc]
      exact hrest

/-- On a chain the order of the numbers is the order of insertion. -/
theorem entries_eq (hrows : rows.map EntryRow.entry = es) (hlinked : Linked es) :
    backend.entries rows = es := by
  have hsorted : rows.Pairwise fun a b => a.seq ≤ b.seq := by
    rw [List.pairwise_iff_getElem]
    intro i j hi hj hij
    have hseq : ∀ (n : ℕ) (hn : n < rows.length), rows[n].seq = n := by
      intro n hn
      have hentry : es[n]? = some rows[n].entry := by
        rw [← hrows, List.getElem?_map, List.getElem?_eq_getElem hn]
        rfl
      exact hlinked.seq_eq hentry
    rw [hseq i hi, hseq j hj]
    omega
  rw [SqlBackend.entries, ← hrows]
  split
  · rw [List.mergeSort_of_pairwise]
    simpa using hsorted
  · rfl

/-- **Appends without a lock.**  Whatever tails are read when and behind which of them is written,
whatever the writers build and whichever commits fail or are not heard of: `entries()` lists one
chain, the entries that were returned are on it in the order they were, the others on it are of the
commits that were not heard of, and what it lists it goes on listing. -/
theorem sqlTable_never_forks (backend : SqlBackend) (steps more : List SqlStep) :
    let w := backend.run .start steps
    Linked (backend.entries w.rows) ∧ w.returned.Sublist (backend.entries w.rows) ∧
      (backend.entries w.rows).length = w.returned.length + w.unheard ∧
      backend.entries w.rows <+: backend.entries (backend.run .start (steps ++ more)).rows := by
  intro w
  obtain ⟨es, hw⟩ := sound_start.run backend steps
  rw [List.nil_append] at hw
  obtain ⟨new, hlater⟩ := hw.run backend more
  have hrun : backend.run .start (steps ++ more) = backend.run (backend.run .start steps) more :=
    List.foldl_append
  rw [hrun, entries_eq hw.rows hw.linked, entries_eq hlater.rows hlater.linked]
  exact ⟨hw.linked, hw.returned, hw.count, List.prefix_append es new⟩

/-! ## The backends side by side -/

/-- `MemoryBackend.append(build)`. -/
def MemoryBackend.append (build : ℤ → PyStr → Except PyErr Entry) (es : List Entry) :
    Except PyErr Entry × List Entry :=
  let tail :=
    match es.getLast? with
    | some last => (last.header.seq + 1, last.entryHash)
    | none => genesisLink
  match build tail.1 tail.2 with
  | .error e => (.error e, es)
  | .ok entry =>
      match entry.payload with
      | none => (.error .valueError, es)
      | some _ => (.ok entry, es ++ [entry])

/-- The appends of a log, one after another. -/
def appendAll {ε σ : Type} (append : Draft → σ → Except ε Entry × σ) :
    List Draft → σ → List (Except ε Entry) × σ
  | [], s => ([], s)
  | draft :: drafts, s =>
      let out := append draft s
      let rest := appendAll append drafts out.2
      (out.1 :: rest.1, rest.2)

/-- A database that stores what the log builds of a draft. -/
def SqlBackend.Takes (backend : SqlBackend) (draft : Draft) : Prop :=
  ∀ texts : List PyStr, (∀ s ∈ texts, (encodeUtf8 s).isSome = true ∧
    (s = draft.ts ∨ s = draft.payloadType ∨ isLowerHex s = true)) → backend.refuses texts = none

/-- A PostgreSQL text is any text in UTF-8 without a NUL. -/
def StoresTexts (driver : List PyStr → Option PyErr) : Prop :=
  ∀ texts : List PyStr, (∀ s ∈ texts, (encodeUtf8 s).isSome = true ∧ 0 ∉ s) → driver texts = none

theorem sqliteBackend_takes (draft : Draft) : sqliteBackend.Takes draft := by
  intro texts htexts
  refine if_pos (List.all_eq_true.mpr ?_)
  intro s hs
  exact (htexts s hs).1

theorem postgresBackend_takes {driver : List PyStr → Option PyErr} (hdriver : StoresTexts driver)
    {draft : Draft} (hts : 0 ∉ draft.ts) (htype : 0 ∉ draft.payloadType) :
    (postgresBackend driver).Takes draft := by
  intro texts htexts
  apply hdriver
  intro s hs
  obtain ⟨hutf8, horigin⟩ := htexts s hs
  refine ⟨hutf8, ?_⟩
  rcases horigin with rfl | rfl | hhex
  · exact hts
  · exact htype
  · intro hnul
    exact absurd (Json.isPrintable_of_isLowerHex hhex 0 hnul) (by decide)

section SideBySide

variable [Hashlib]

/-- The appends to a backend in memory. -/
def memoryAppends (drafts : List Draft) : List (Except PyErr Entry) × List Entry :=
  appendAll (fun draft => MemoryBackend.append draft.build) drafts []

/-- The appends to an empty table, of one process or of many under the lock. -/
def sqlAppends (backend : SqlBackend) (drafts : List Draft) :
    List (Except SqlError Entry) × List EntryRow :=
  appendAll (fun draft => backend.append draft.build .done) drafts []

/-- The appends to a file that is not there yet. -/
def fileAppends [Interpreter] (every : Option ℤ) (drafts : List Draft) :
    List (Except PyErr Entry) × Store :=
  appendAll (fun draft => JSONLBackend.append every .sound draft.build) drafts (.opened [])

/-- What an append of the log does in memory. -/
theorem memoryAppend_eq (draft : Draft) (es : List Entry) :
    MemoryBackend.append draft.build es =
      match draft.build (nextLink es).1 (nextLink es).2 with
      | .error err => (.error err, es)
      | .ok e => (.ok e, es ++ [e]) := by
  have htail : (match es.getLast? with
      | some last => (last.header.seq + 1, last.entryHash)
      | none => genesisLink) = nextLink es := by
    induction es using List.reverseRecOn with
    | nil => rfl
    | append_singleton es e _ =>
        rw [List.getLast?_concat, nextLink_append_singleton]
        rfl
  rw [MemoryBackend.append, htail]
  cases hbuild : draft.build (nextLink es).1 (nextLink es).2 with
  | error err => rfl
  | ok e =>
      obtain ⟨b, -, -, hpayload, -, -⟩ := Draft.build_eq_ok hbuild
      simp only [hpayload]

/-- **Side by side with the backend in memory**: a backend whose every append answers as it does
and stays in step with it answers the same to all of them. -/
theorem appendAll_in_step {ε σ : Type} (append : Draft → σ → Except ε Entry × σ)
    {raised : PyErr → ε} {InStep : σ → List Entry → Prop} {room : ℕ} {good : Draft → Prop}
    (hstep : ∀ draft s es, good draft → InStep s es → es.length < room →
      (append draft s).1 = (MemoryBackend.append draft.build es).1.mapError raised ∧
        InStep (append draft s).2 (MemoryBackend.append draft.build es).2)
    {drafts : List Draft} {s : σ} {es : List Entry} (hgood : ∀ draft ∈ drafts, good draft)
    (hs : InStep s es) (hroom : es.length + drafts.length ≤ room) :
    let memory := appendAll (fun draft => MemoryBackend.append draft.build) drafts es
    (appendAll append drafts s).1 = memory.1.map (Except.mapError raised) ∧
      InStep (appendAll append drafts s).2 memory.2 := by
  induction drafts generalizing s es with
  | nil => exact ⟨rfl, hs⟩
  | cons draft drafts ih =>
      rw [List.forall_mem_cons] at hgood
      rw [List.length_cons] at hroom
      obtain ⟨hanswer, hnext⟩ := hstep draft s es hgood.1 hs (by omega)
      have hgrow : (MemoryBackend.append draft.build es).2.length ≤ es.length + 1 := by
        rw [memoryAppend_eq]
        split
        · exact Nat.le_succ _
        · rw [List.length_append, List.length_singleton]
      obtain ⟨hanswers, hlast⟩ := ih hgood.2 hnext (by omega)
      refine ⟨?_, hlast⟩
      simp only [appendAll, List.map_cons, hanswer, hanswers]

/-- A table in step with the backend in memory. -/
structure TableHolds (rows : List EntryRow) (es : List Entry) : Prop where
  rows : rows.map EntryRow.entry = es
  linked : Linked es
  /-- The hash a next entry starts from is one. -/
  hex : isLowerHex (nextLink es).2 = true

/-- The texts of what the log builds have a UTF-8 form; those that are not the caller's are hex. -/
theorem texts_of_build {draft : Draft} {tail : ℤ × PyStr} {e : Entry}
    (hhex : isLowerHex tail.2 = true) (h : draft.build tail.1 tail.2 = .ok e) :
    ∀ s ∈ (EntryRow.ofEntry e draft.payloadBytes).texts, (encodeUtf8 s).isSome = true ∧
      (s = draft.ts ∨ s = draft.payloadType ∨ isLowerHex s = true) := by
  obtain ⟨entryHash, hhash, hentry⟩ := bind_eq_ok_iff.mp h
  obtain ⟨b, hframe, rfl⟩ := computeEntryHash_eq_ok_iff.mp hhash
  obtain rfl := (Except.ok.inj hentry).symm
  obtain ⟨r, hr, -⟩ := headerFrame_eq_ok hframe
  have hencodes := encodeUtf8_of_lpAll hr
  have hdigest : isLowerHex (hexdigest b) = true := isLowerHex_hex _
  have hascii : (encodeUtf8 (hexdigest b)).isSome = true := by
    rw [encodeUtf8_ascii (isAscii_of_printable (Json.isPrintable_of_isLowerHex hdigest))]
    rfl
  simp only [EntryHeader.fields, List.forall_mem_cons] at hencodes
  -- the frame was hashed, so each of its texts has a UTF-8 form
  obtain ⟨-, hts, hversion, htype, hpayloadHash, hprev, -⟩ := hencodes
  simp only [EntryRow.texts, EntryRow.ofEntry, List.forall_mem_cons]
  have some_of : ∀ {s : PyStr}, (∃ u, encodeUtf8 s = some u) → (encodeUtf8 s).isSome = true := by
    rintro s ⟨u, hu⟩
    rw [hu]
    rfl
  exact ⟨⟨some_of hts, .inl trivial⟩, ⟨some_of hversion, .inr (.inr (isLowerHex_hex _))⟩,
    ⟨some_of htype, .inr (.inl trivial)⟩, ⟨some_of hpayloadHash, .inr (.inr (isLowerHex_hex _))⟩,
    ⟨some_of hprev, .inr (.inr hhex)⟩, ⟨hascii, .inr (.inr hdigest)⟩,
    List.forall_mem_nil _⟩

/-- An append to a table, under its lock. -/
theorem tableAppend_in_step {draft : Draft} (htakes : backend.Takes draft)
    (h : TableHolds rows es) (hroom : es.length < 2 ^ 63) :
    (backend.append draft.build .done rows).1 =
        (MemoryBackend.append draft.build es).1.mapError SqlError.built ∧
      TableHolds (backend.append draft.build .done rows).2
        (MemoryBackend.append draft.build es).2 := by
  rw [memoryAppend_eq, SqlBackend.append, sqlTail_eq h.rows h.linked]
  cases hbuild : draft.build (nextLink es).1 (nextLink es).2 with
  | error err =>
      simp only [SqlBackend.write, hbuild]
      exact ⟨rfl, h⟩
  | ok e =>
      obtain ⟨b, -, hhash, hpayload, hseq, hprev⟩ := Draft.build_eq_ok hbuild
      have hnumber : (EntryRow.ofEntry e draft.payloadBytes).seq = es.length :=
        hseq.trans (nextLink_fst h.linked)
      -- no row has the number yet
      have hfree : ¬ (rows.any fun row => row.seq = (EntryRow.ofEntry e draft.payloadBytes).seq) = true := by
        rw [List.any_eq_true]
        rintro ⟨row, hrow, hsame⟩
        have hmem : row.entry ∈ es := h.rows ▸ List.mem_map_of_mem hrow
        obtain ⟨n, hn⟩ := List.getElem?_of_mem hmem
        obtain ⟨hlt, -⟩ := List.getElem?_eq_some_iff.mp hn
        have htaken : row.seq = n := h.linked.seq_eq hn
        have hsame := of_decide_eq_true hsame
        omega
      have hinsert : backend.insertRow (EntryRow.ofEntry e draft.payloadBytes) rows =
          .ok (rows ++ [EntryRow.ofEntry e draft.payloadBytes]) := by
        rw [SqlBackend.insertRow, if_neg (by omega), htakes _ (texts_of_build h.hex hbuild)]
        exact if_neg hfree
      simp only [SqlBackend.write, hbuild, hpayload, hinsert]
      refine ⟨rfl, ?_, linked_append_singleton.mpr ⟨h.linked, Prod.ext hseq hprev⟩, ?_⟩
      · rw [List.map_append, h.rows, List.map_singleton, EntryRow.entry_ofEntry hpayload]
      · rw [nextLink_append_singleton]
        show isLowerHex e.entryHash = true
        rw [hhash]
        exact isLowerHex_hex _

theorem sqlAppends_in_step {drafts : List Draft} (htakes : ∀ draft ∈ drafts, backend.Takes draft)
    (hroom : drafts.length ≤ 2 ^ 63) :
    (sqlAppends backend drafts).1 =
        (memoryAppends drafts).1.map (Except.mapError SqlError.built) ∧
      backend.entries (sqlAppends backend drafts).2 = (memoryAppends drafts).2 := by
  obtain ⟨hanswers, htable⟩ := appendAll_in_step
    (fun draft => backend.append draft.build .done)
    (fun draft s es htakes hs hlt => tableAppend_in_step htakes hs hlt) htakes
    (⟨rfl, trivial, by decide +kernel⟩ : TableHolds [] []) (by simpa using hroom)
  exact ⟨hanswers, entries_eq htable.rows htable.linked⟩

variable [Interpreter]

/-- A trail file in step with the backend in memory. -/
structure FileHolds (s : Store) (es : List Entry) : Prop where
  file : s.file = trailBytes es
  wellFormed : WellFormed es
  cleared : Cleared s es

theorem fileAppend_in_step {every : Option ℤ} (hevery : every ≠ some 0) {s : Store} (draft : Draft)
    (h : FileHolds s es) :
    (JSONLBackend.append every .sound draft.build s).1 =
        (MemoryBackend.append draft.build es).1.mapError id ∧
      FileHolds (JSONLBackend.append every .sound draft.build s).2
        (MemoryBackend.append draft.build es).2 := by
  have htail : tailLocked s.file = .ok (nextLink es) := by
    rw [h.file, tailLocked_trailBytes h.wellFormed.storable]
  have hdue : ∀ err, scanDue every (nextLink es).1 ≠ .error err := by
    intro err hdue
    unfold scanDue at hdue
    cases every with
    | none => cases hdue
    | some n =>
        dsimp only at hdue
        split_ifs at hdue with hpos hzero
        exact hevery (congrArg some hzero)
  rcases @scanStep_trail _ every (nextLink es).1 s es [] h.wellFormed.storable (.inl rfl)
      (by rw [h.file, List.append_nil]) h.cleared with ⟨err, hraise, -⟩ | ⟨s', hscan, hfile, hcleared⟩
  · exact absurd hraise (hdue err)
  -- so the scan of a whole trail raises nothing, and the tail is that of the entries
  have hprepare : prepare every .sound draft.build s =
      (encodeEntry .sound draft.build (nextLink es), s') := by
    simp only [prepare, lockedTail_sound, htail, hscan]
  rw [memoryAppend_eq, JSONLBackend.append, hprepare]
  cases hbuild : draft.build (nextLink es).1 (nextLink es).2 with
  | error err =>
      have hencode : encodeEntry .sound draft.build (nextLink es) = .error err := by
        rw [encodeEntry, hbuild]
        rfl
      rw [hencode]
      exact ⟨rfl, hfile.trans h.file, h.wellFormed, hcleared⟩
  | ok e =>
      have hencode : encodeEntry .sound draft.build (nextLink es) = .ok (e, storedBytes e ++ [LF]) := by
        rcases encodeEntry_sound draft.builder (nextLink es) with ⟨err, hraise, -⟩ | ⟨e', hbuild', hencode⟩
        · cases hraise.symm.trans hbuild
        · obtain rfl : e' = e := Except.ok.inj (hbuild'.symm.trans hbuild)
          exact hencode
      rw [hencode]
      refine ⟨rfl, ?_, ?_, hcleared.append e⟩
      · show s'.file ++ (storedBytes e ++ [LF]) = trailBytes (es ++ [e])
        rw [hfile, h.file, trailBytes_append, trailBytes_singleton]
      · exact wellFormed_append_singleton.mpr
          ⟨h.wellFormed, draft.builder.linked hbuild, Draft.storable_of_build hbuild⟩

theorem fileAppends_in_step {every : Option ℤ} (hevery : every ≠ some 0) (drafts : List Draft) :
    (fileAppends every drafts).1 = (memoryAppends drafts).1 ∧
      entries (fileAppends every drafts).2.file = .ok (memoryAppends drafts).2 := by
  have hid : (Except.mapError id : Except PyErr Entry → Except PyErr Entry) = id := by
    funext answer
    cases answer <;> rfl
  have hnone : (0 : ℕ) + drafts.length ≤ drafts.length := (Nat.zero_add _).le
  obtain ⟨hanswers, hfile⟩ := appendAll_in_step
    (fun draft => JSONLBackend.append every .sound draft.build)
    (fun draft s es (_ : True) hs _ => fileAppend_in_step hevery draft hs) (fun _ _ => trivial)
    (⟨rfl, wellFormed_nil, cleared_opened [] []⟩ : FileHolds (.opened []) []) hnone
  rw [hid, List.map_id] at hanswers
  refine ⟨hanswers, ?_⟩
  have hentries := entries_trailBytes hfile.wellFormed.storable
  rwa [← hfile.file] at hentries

/-- **The backends agree.**  Whatever is appended: the file, the SQLite table and, where no text has
a NUL, the PostgreSQL table answer every append as the backend in memory does, up to the type of
what is raised, and list the entries it lists. -/
theorem backends_agree (every : Option ℤ) (driver : List PyStr → Option PyErr)
    (drafts : List Draft) (hevery : every ≠ some 0) (hdriver : StoresTexts driver) (hroom : drafts.length ≤ 2 ^ 63) :
    let memory := memoryAppends drafts
    let file := fileAppends every drafts
    let sqlite := sqlAppends sqliteBackend drafts
    let postgres := sqlAppends (postgresBackend driver) drafts
    (file.1 = memory.1 ∧ entries file.2.file = .ok memory.2) ∧
      (sqlite.1 = memory.1.map (Except.mapError SqlError.built) ∧
        sqliteBackend.entries sqlite.2 = memory.2) ∧
      ((∀ draft ∈ drafts, 0 ∉ draft.ts ∧ 0 ∉ draft.payloadType) →
        postgres.1 = memory.1.map (Except.mapError SqlError.built) ∧
          (postgresBackend driver).entries postgres.2 = memory.2) := by
  refine ⟨fileAppends_in_step hevery drafts,
    sqlAppends_in_step (fun draft _ => sqliteBackend_takes draft) hroom, ?_⟩
  intro hnul
  refine sqlAppends_in_step (fun draft hdraft => ?_) hroom
  exact postgresBackend_takes hdriver (hnul draft hdraft).1 (hnul draft hdraft).2

end SideBySide

/-- A driver that refuses what a PostgreSQL text is not. -/
def plainDriver (texts : List PyStr) : Option PyErr :=
  if texts.all fun s => (encodeUtf8 s).isSome && !s.contains 0 then none else some .valueError

/-- Two drafts, the first of a lone surrogate. -/
def twoDrafts : List Draft := [⟨[0xD800], [], []⟩, ⟨str "2026-01-01T00:00:00Z", str "note", []⟩]

theorem backends_agree_surrogate :
    letI := Sha256.hashlib
    letI := Interpreter.plain
    let memory := memoryAppends twoDrafts
    let file := fileAppends (some 2) twoDrafts
    let sqlite := sqlAppends sqliteBackend twoDrafts
    let postgres := sqlAppends (postgresBackend plainDriver) twoDrafts
    (file.1 = memory.1 ∧ entries file.2.file = .ok memory.2) ∧
      (sqlite.1 = memory.1.map (Except.mapError SqlError.built) ∧
        sqliteBackend.entries sqlite.2 = memory.2) ∧
      postgres.1 = memory.1.map (Except.mapError SqlError.built) ∧
        (postgresBackend plainDriver).entries postgres.2 = memory.2 := by
  have hdriver : StoresTexts plainDriver := by
    intro texts htexts
    apply if_pos
    rw [List.all_eq_true]
    intro s hs
    simpa using htexts s hs
  obtain ⟨hfile, hsqlite, hpostgres⟩ := @backends_agree Sha256.hashlib Interpreter.plain (some 2)
    plainDriver twoDrafts (by decide) hdriver (by decide)
  exact ⟨hfile, hsqlite, hpostgres (by decide +kernel)⟩

end Waxseal
