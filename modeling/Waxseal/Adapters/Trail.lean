import Waxseal.Adapters.Jsonl

/-!
# Trails of stored entries

What the file of the JSONL backend looks like when the backend wrote it: the lines of its
entries, one after another (`trailBytes`), each entry linked to the one before (`Linked`).
On such a file the tail reader and the forward readers agree on what the entries are
(`tailLocked_trailBytes`, `entries_trailBytes`), also when an unterminated line follows.
-/

namespace Waxseal

open Json

/-! ## Linked entries -/

/-- What an entry says about its predecessor: its own position, and the hash before it. -/
def Entry.backLink (e : Entry) : ℤ × PyStr := (e.header.seq, e.header.prevHash)

/-- What the successor of an entry has to say. -/
def Entry.next (e : Entry) : ℤ × PyStr := (e.header.seq + 1, e.entryHash)

/-- What the first entry of a trail has to say. -/
def genesisLink : ℤ × PyStr := (0, genesisPrevHash)

/-- Each entry is linked to its predecessor, and counts its position. -/
def Linked (es : List Entry) : Prop := Chained Entry.backLink Entry.next genesisLink es

/-- The link the next entry of a trail carries. -/
def nextLink (es : List Entry) : ℤ × PyStr := headHash Entry.next genesisLink es

@[simp] theorem nextLink_append_singleton (es : List Entry) (e : Entry) :
    nextLink (es ++ [e]) = e.next := by
  rw [nextLink, headHash_append]
  rfl

theorem linked_append_singleton {es : List Entry} {e : Entry} :
    Linked (es ++ [e]) ↔ Linked es ∧ e.backLink = nextLink es := by
  rw [Linked, chained_append]
  simp [Linked, nextLink]

/-- A linked trail counts its entries. -/
theorem nextLink_fst {es : List Entry} (h : Linked es) : (nextLink es).1 = es.length := by
  induction es using List.reverseRecOn with
  | nil => rfl
  | append_singleton es e ih =>
      obtain ⟨hes, hlink⟩ := linked_append_singleton.mp h
      rw [nextLink_append_singleton, Entry.next, List.length_append]
      have hseq : e.header.seq = (nextLink es).1 := congrArg Prod.fst hlink
      rw [hseq, ih hes]
      simp

theorem Linked.backLink_eq {es : List Entry} (h : Linked es) {n : ℕ} {e : Entry}
    (he : es[n]? = some e) : e.backLink = nextLink (es.take n) :=
  h.prev_eq he

theorem Linked.take {es : List Entry} (h : Linked es) (n : ℕ) : Linked (es.take n) := by
  rw [← List.take_append_drop n es, Linked, chained_append] at h
  exact h.1

/-- A linked entry stands where it says it stands. -/
theorem Linked.seq_eq {es : List Entry} (h : Linked es) {n : ℕ} {e : Entry}
    (he : es[n]? = some e) : e.header.seq = n := by
  obtain ⟨hlt, -⟩ := List.getElem?_eq_some_iff.mp he
  have hfst : e.header.seq = (nextLink (es.take n)).1 := congrArg Prod.fst (h.backLink_eq he)
  rw [hfst, nextLink_fst (h.take n), List.length_take_of_le hlt.le]

theorem Linked.index_unique {es : List Entry} (h : Linked es) {m n : ℕ} {e : Entry}
    (hm : es[m]? = some e) (hn : es[n]? = some e) : m = n := by
  have := h.seq_eq hm
  have := h.seq_eq hn
  omega

/-- No entry is stored again behind itself. -/
theorem Linked.disjoint {es new : List Entry} (h : Linked (es ++ new)) {e : Entry} (he : e ∈ es) :
    e ∉ new := by
  intro hnew
  obtain ⟨m, hm⟩ := List.getElem?_of_mem he
  obtain ⟨n, hn⟩ := List.getElem?_of_mem hnew
  obtain ⟨hlt, -⟩ := List.getElem?_eq_some_iff.mp hm
  have hleft : (es ++ new)[m]? = some e := by rw [List.getElem?_append_left hlt, hm]
  have hright : (es ++ new)[es.length + n]? = some e := by
    rw [List.getElem?_append_right (Nat.le_add_right _ _), Nat.add_sub_cancel_left, hn]
  have := h.index_unique hleft hright
  omega

theorem nextLink_take_succ {es : List Entry} {n : ℕ} {e : Entry} (he : es[n]? = some e) :
    nextLink (es.take (n + 1)) = e.next := by
  rw [List.take_add_one, he, Option.toList_some, nextLink_append_singleton]

/-! ## Trails the log wrote -/

/-- A trail the log wrote: linked entries that can be read back. -/
structure WellFormed (es : List Entry) : Prop where
  linked : Linked es
  storable : ∀ e ∈ es, Storable e

theorem wellFormed_nil : WellFormed [] := ⟨trivial, nofun⟩

theorem wellFormed_append_singleton {es : List Entry} {e : Entry} :
    WellFormed (es ++ [e]) ↔ WellFormed es ∧ e.backLink = nextLink es ∧ Storable e := by
  constructor
  · rintro ⟨hlinked, hstorable⟩
    rw [List.forall_mem_append, List.forall_mem_singleton] at hstorable
    obtain ⟨hes, hlink⟩ := linked_append_singleton.mp hlinked
    exact ⟨⟨hes, hstorable.1⟩, hlink, hstorable.2⟩
  · rintro ⟨⟨hes, hstorable⟩, hlink, he⟩
    refine ⟨linked_append_singleton.mpr ⟨hes, hlink⟩, ?_⟩
    rw [List.forall_mem_append, List.forall_mem_singleton]
    exact ⟨hstorable, he⟩

/-! ## Builders -/

/-- The `build` an append is called with: whatever it puts in an entry, the entry is linked
where it was asked to be, and its JSON form can be read back. -/
structure Builder where
  build : ℤ → PyStr → Except PyErr Entry
  linked : ∀ {seq : ℤ} {prev : PyStr} {e : Entry}, build seq prev = .ok e → e.backLink = (seq, prev)
  storable : ∀ {seq : ℤ} {prev : PyStr} {e : Entry}, build seq prev = .ok e → Storable e

/-! ## Lines -/

theorem asciiBytes_LF : asciiBytes [0x0A] = [LF] := rfl

variable [Interpreter]

/-- The bytes of a stored entry, without the line end. -/
def storedBytes (e : Entry) : Bytes := asciiBytes (storedText e)

/-- The file of a list of entries. -/
def trailBytes (es : List Entry) : Bytes := es.flatMap fun e => storedBytes e ++ [LF]

theorem trailBytes_append (es es' : List Entry) :
    trailBytes (es ++ es') = trailBytes es ++ trailBytes es' := List.flatMap_append

theorem trailBytes_singleton (e : Entry) : trailBytes [e] = storedBytes e ++ [LF] := by
  simp [trailBytes]

theorem trailBytes_eq (es : List Entry) :
    trailBytes es = [] ∨ ∃ init, trailBytes es = init ++ [LF] := by
  induction es using List.reverseRecOn with
  | nil => exact .inl rfl
  | append_singleton es e ih =>
      refine .inr ⟨trailBytes es ++ storedBytes e, ?_⟩
      rw [trailBytes_append, trailBytes_singleton, List.append_assoc]

theorem endsLine_trailBytes (es : List Entry) : EndsLine (trailBytes es) :=
  (trailBytes_eq es).imp_right fun ⟨init, h⟩ => ⟨init, .inl h⟩

theorem opensObject_storedText (e : Entry) : OpensObject (storedText e) := opensObject_dumps _

theorem storedBytes_ne_LF (e : Entry) (t : Bytes) : storedBytes e ≠ LF :: t :=
  asciiBytes_ne_LF (opensObject_storedText e) t

theorem storedBytes_ne_nil (e : Entry) : storedBytes e ≠ [] := by
  obtain ⟨t, ht⟩ := opensObject_storedText e
  rw [storedBytes, ht]
  exact List.cons_ne_nil _ _

theorem storedLine_ne_LF (e : Entry) (more t : Bytes) : storedBytes e ++ more ≠ LF :: t := by
  obtain ⟨l, hl⟩ := opensObject_storedText e
  rw [storedBytes, hl]
  intro heq
  exact absurd (List.cons.inj heq).1 (by decide)

section Storable

variable {e : Entry} (h : Storable e)

include h

theorem isPrintable_storedText : ∀ c ∈ storedText e, IsPrintable c :=
  isPrintable_dumps (writable_storedMembers h)

theorem unbroken_storedBytes : Unbroken (storedBytes e) :=
  unbroken_dumps (writable_storedMembers h)

/-- The bytes `append` writes. -/
theorem encodeUtf8_storedText : encodeUtf8 (storedText e ++ [0x0A]) = some (storedBytes e ++ [LF]) := by
  rw [encodeUtf8_ascii, asciiBytes_append, asciiBytes_LF, storedBytes]
  rw [isAscii, List.all_append, Bool.and_eq_true]
  exact ⟨isAscii_of_printable (isPrintable_storedText h), rfl⟩

/-- **Reading back a stored line**, terminated or not. -/
theorem readLine_storedBytes {t : PyStr} (ht : t = [] ∨ t = [0x0A]) :
    readLine fromObj (storedBytes e ++ asciiBytes t) = .ok (some e) := by
  rw [storedBytes, ← asciiBytes_append, storedText, readLine_dumps _ (writable_storedMembers h) ht,
    fromObj_storedMembers h.payload]
  rfl

theorem readLine_entryHash :
    readLine entryHashField (storedBytes e ++ [LF]) = .ok (some e.entryHash) := by
  rw [storedBytes, ← asciiBytes_LF, ← asciiBytes_append, storedText,
    readLine_dumps _ (writable_storedMembers h) (.inr rfl), entryHashField_storedMembers]
  rfl

theorem loadsBytes_storedBytes : loadsBytes (storedBytes e) = .ok (.obj (storedMembers e)) := by
  have := @decode_dumps_append _ .compact _ (writable_storedMembers h) []
  rw [List.append_nil, if_pos (show skipWs [] = [] from rfl)] at this
  rw [storedBytes, loadsBytes_printable (isPrintable_storedText h), storedText, this]

theorem textLines_storedBytes : textLines (storedBytes e ++ [LF]) = [storedBytes e ++ [LF]] :=
  textLines_line (unbroken_storedBytes h)

/-- The line of an entry, read on its own. -/
theorem entries_storedBytes : entries (storedBytes e ++ [LF]) = .ok [e] := by
  have hread := readLine_storedBytes h (.inr rfl)
  rw [asciiBytes_LF] at hread
  simp only [entries, readLines, textLines_storedBytes h, readLinesLoop, hread]
  rfl

theorem entryHashes_storedBytes : entryHashes (storedBytes e ++ [LF]) = .ok [e.entryHash] := by
  simp only [entryHashes, readLines, textLines_storedBytes h, readLinesLoop, readLine_entryHash h]
  rfl

end Storable

/-! ## The readers on a trail -/

/-- **What an append adds to what the readers see**, on any file whose last line is
terminated. -/
theorem readLines_append_storedBytes {α : Type} (f : Json → Except PyErr α) {file : Bytes}
    (hfile : EndsLine file) (e : Entry) :
    readLines f (file ++ (storedBytes e ++ [LF])) = do
      let xs ← readLines f file
      let ys ← readLines f (storedBytes e ++ [LF])
      return xs ++ ys :=
  readLines_append f hfile (storedLine_ne_LF e [LF])

/-- **`entries()` of a trail the backend wrote.** -/
theorem entries_trailBytes {es : List Entry} (h : ∀ e ∈ es, Storable e) :
    entries (trailBytes es) = .ok es := by
  induction es using List.reverseRecOn with
  | nil => rfl
  | append_singleton es e ih =>
      rw [List.forall_mem_append, List.forall_mem_singleton] at h
      have hline := entries_storedBytes h.2
      rw [entries] at ih hline ⊢
      rw [trailBytes_append, trailBytes_singleton,
        readLines_append_storedBytes _ (endsLine_trailBytes es), ih h.1, hline]
      rfl

/-- **The tail of a trail the backend wrote.** -/
theorem tailLocked_trailBytes {es : List Entry} (h : ∀ e ∈ es, Storable e) :
    tailLocked (trailBytes es) = .ok (nextLink es) := by
  induction es using List.reverseRecOn with
  | nil => rfl
  | append_singleton es e _ =>
      rw [List.forall_mem_append, List.forall_mem_singleton] at h
      rw [tailLocked, readLastLine_eq, trailBytes_append, trailBytes_singleton,
        lastLine_line (unbroken_storedBytes h.2) (storedBytes_ne_nil e) (trailBytes_eq es)]
      simp only [loadsBytes_storedBytes h.2]
      rw [nextLink_append_singleton]
      rfl

/-- The tail when the last line was written but not terminated. -/
theorem tailLocked_unterminated {e : Entry} (he : Storable e) (es : List Entry) :
    tailLocked (trailBytes es ++ storedBytes e) = .ok e.next := by
  rw [tailLocked, readLastLine_eq,
    lastLine_unterminated (unbroken_storedBytes he) (storedBytes_ne_nil e) (trailBytes_eq es)]
  simp only [loadsBytes_storedBytes he]
  rfl

/-! ## What is on disk -/

/-- The entries on disk that can be read, whatever else is there. -/
def completeEntries (file : Bytes) : List Entry := readableLines fromObj file

theorem completeEntries_trailBytes {es : List Entry} (h : ∀ e ∈ es, Storable e) :
    completeEntries (trailBytes es) = es :=
  readableLines_eq fromObj (entries_trailBytes h)

end Waxseal
