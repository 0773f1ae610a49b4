import Mathlib.Data.List.Basic
import Mathlib.Logic.Function.Basic
import Mathlib.Logic.Relation

/-!
# Appends under a lock

Several writers append records to one file, each its own list of them.  A writer encodes a record,
takes the lock, opens the file, writes the bytes in as many pieces as it likes and gives the lock
up; a record that cannot be encoded is passed over before the file is touched.

Whatever the order of the steps, the file holds the records that were begun, one after the other,
up to what the holder of the lock has still to write (`Reaches.file`), and each writer's records
are begun in its own order (`Reaches.order`).
-/

namespace LockedAppends

variable {Writer Item Byte : Type*}

/-- How a record is written. -/
structure Encoding (Item Byte : Type*) where
  bytes : Item → List Byte
  /-- The record can be encoded. -/
  accepts : Item → Bool

/-- The writer that has the lock. -/
structure Holder (Writer Item Byte : Type*) where
  writer : Writer
  item : Item
  /-- What it has still to write. -/
  left : List Byte

/-- The file and its writers. -/
structure State (Writer Item Byte : Type*) where
  /-- There is no file before a writer opens it. -/
  file : Option (List Byte)
  /-- What each writer has still to append. -/
  waiting : Writer → List Item
  holder : Option (Holder Writer Item Byte)
  /-- What was appended, and by whom. -/
  done : List (Writer × Item)

namespace State

/-- Nothing was appended yet. -/
def start (program : Writer → List Item) : State Writer Item Byte := ⟨none, program, none, []⟩

/-- The record that is being written. -/
def held (s : State Writer Item Byte) : List (Writer × Item) :=
  s.holder.toList.map fun h => (h.writer, h.item)

/-- What is left of it. -/
def pending (s : State Writer Item Byte) : List Byte := (s.holder.map Holder.left).getD []

/-- The records that were begun. -/
def begun (s : State Writer Item Byte) : List (Writer × Item) := s.done ++ s.held

theorem begun_of_free {s : State Writer Item Byte} (h : s.holder = none) : s.begun = s.done := by
  rw [begun, held, h]
  exact List.append_nil _

theorem pending_of_free {s : State Writer Item Byte} (h : s.holder = none) : s.pending = [] := by
  rw [pending, h]
  rfl

theorem begun_of_holder {s : State Writer Item Byte} {h : Holder Writer Item Byte}
    (hholder : s.holder = some h) : s.begun = s.done ++ [(h.writer, h.item)] := by
  rw [begun, held, hholder]
  rfl

theorem pending_of_holder {s : State Writer Item Byte} {h : Holder Writer Item Byte}
    (hholder : s.holder = some h) : s.pending = h.left := by
  rw [pending, hholder]
  rfl

end State

section Steps

variable [DecidableEq Writer] (encoding : Encoding Item Byte)

/-- The records of a writer. -/
def ofWriter (w : Writer) (records : List (Writer × Item)) : List Item :=
  (records.filter fun record => record.1 = w).map Prod.snd

/-- A step of a writer. -/
inductive Step : State Writer Item Byte → State Writer Item Byte → Prop
  /-- Its next record cannot be encoded. -/
  | refuse {s : State Writer Item Byte} {w : Writer} {item : Item} {rest : List Item}
      (hwaiting : s.waiting w = item :: rest) (hrefused : encoding.accepts item = false) :
      Step s { s with waiting := Function.update s.waiting w rest }
  /-- It takes the lock for its next record, and opens the file. -/
  | acquire {s : State Writer Item Byte} {w : Writer} {item : Item} {rest : List Item}
      (hfree : s.holder = none) (hwaiting : s.waiting w = item :: rest)
      (haccepts : encoding.accepts item = true) :
      Step s
        { s with
          file := some (s.file.getD [])
          waiting := Function.update s.waiting w rest
          holder := some ⟨w, item, encoding.bytes item⟩ }
  /-- It writes some of what is left. -/
  | write {s : State Writer Item Byte} {w : Writer} {item : Item} {chunk left : List Byte}
      (hholder : s.holder = some ⟨w, item, chunk ++ left⟩) :
      Step s { s with file := some (s.file.getD [] ++ chunk), holder := some ⟨w, item, left⟩ }
  /-- It has written all, and gives the lock up. -/
  | release {s : State Writer Item Byte} {w : Writer} {item : Item}
      (hholder : s.holder = some ⟨w, item, []⟩) :
      Step s { s with holder := none, done := s.done ++ [(w, item)] }

/-- A state that some run of the writers' programs leads to. -/
def Reaches (program : Writer → List Item) : State Writer Item Byte → Prop :=
  Relation.ReflTransGen (Step encoding) (.start program)

/-- What every step keeps. -/
structure Ordered (program : Writer → List Item) (s : State Writer Item Byte) : Prop where
  file : s.file.getD [] ++ s.pending = s.begun.flatMap fun record => encoding.bytes record.2
  order : ∀ w, ofWriter w s.begun ++ (s.waiting w).filter encoding.accepts
    = (program w).filter encoding.accepts

end Steps

section Runs

variable [DecidableEq Writer] {encoding : Encoding Item Byte} {program : Writer → List Item}
  {s s' : State Writer Item Byte}

theorem ofWriter_append (w : Writer) (records more : List (Writer × Item)) :
    ofWriter w (records ++ more) = ofWriter w records ++ ofWriter w more := by
  rw [ofWriter, List.filter_append, List.map_append, ofWriter, ofWriter]

theorem ofWriter_self (w : Writer) (item : Item) : ofWriter w [(w, item)] = [item] := by
  simp [ofWriter]

theorem ofWriter_of_ne {v w : Writer} (h : v ≠ w) (item : Item) : ofWriter w [(v, item)] = [] := by
  simp [ofWriter, h]

theorem mem_ofWriter {w : Writer} {item : Item} {records : List (Writer × Item)} :
    item ∈ ofWriter w records ↔ (w, item) ∈ records := by
  simp [ofWriter]

/-- Taking a record off the list of its writer, as it is begun or passed over. -/
theorem ofWriter_append_update (encoding : Encoding Item Byte) {w : Writer} {item : Item}
    {rest : List Item} {waiting : Writer → List Item} (hwaiting : waiting w = item :: rest)
    (begun : List (Writer × Item)) (v : Writer) :
    ofWriter v (begun ++ if encoding.accepts item then [(w, item)] else []) ++
        (Function.update waiting w rest v).filter encoding.accepts
      = ofWriter v begun ++ (waiting v).filter encoding.accepts := by
  rw [ofWriter_append, List.append_assoc]
  refine congrArg (ofWriter v begun ++ ·) ?_
  by_cases hv : v = w
  · subst hv
    rw [hwaiting, Function.update_self]
    by_cases haccepts : encoding.accepts item = true
    · rw [if_pos haccepts, ofWriter_self, List.filter_cons_of_pos haccepts, List.singleton_append]
    · rw [if_neg haccepts, List.filter_cons_of_neg haccepts]
      rfl
  · rw [Function.update_of_ne hv]
    by_cases haccepts : encoding.accepts item = true
    · rw [if_pos haccepts, ofWriter_of_ne (Ne.symm hv), List.nil_append]
    · rw [if_neg haccepts]
      rfl

theorem ordered_start : Ordered encoding program (.start program) := ⟨rfl, fun _ => rfl⟩

/-- **No step disturbs the order.** -/
theorem Ordered.step (h : Ordered encoding program s) (hstep : Step encoding s s') :
    Ordered encoding program s' := by
  cases hstep with
  | @refuse w item rest hwaiting hrefused =>
      refine ⟨h.file, fun v => ?_⟩
      have htaken := ofWriter_append_update encoding hwaiting s.begun v
      rw [hrefused, if_neg Bool.false_ne_true, List.append_nil, h.order v] at htaken
      exact htaken
  | @acquire w item rest hfree hwaiting haccepts =>
      have hfile := h.file
      rw [State.pending_of_free hfree, State.begun_of_free hfree, List.append_nil] at hfile
      constructor
      · show s.file.getD [] ++ encoding.bytes item =
          (s.done ++ [(w, item)]).flatMap fun record => encoding.bytes record.2
        rw [hfile, List.flatMap_append, List.flatMap_singleton]
      · intro v
        have htaken := ofWriter_append_update encoding hwaiting s.begun v
        rw [haccepts, if_pos rfl, h.order v, State.begun_of_free hfree] at htaken
        exact htaken
  | @write w item chunk left hholder =>
      have hfile := h.file
      have hbegun : s.begun = s.done ++ [(w, item)] := State.begun_of_holder hholder
      rw [State.pending_of_holder hholder] at hfile
      refine ⟨?_, fun v => ?_⟩
      · show s.file.getD [] ++ chunk ++ left =
          (s.done ++ [(w, item)]).flatMap fun record => encoding.bytes record.2
        rw [← hbegun, List.append_assoc]
        exact hfile
      · show ofWriter v (s.done ++ [(w, item)]) ++ _ = _
        rw [← hbegun]
        exact h.order v
  | @release w item hholder =>
      have hfile := h.file
      have hbegun : s.begun = s.done ++ [(w, item)] := State.begun_of_holder hholder
      rw [State.pending_of_holder hholder, hbegun] at hfile
      refine ⟨?_, fun v => ?_⟩
      · show s.file.getD [] ++ [] =
          (s.done ++ [(w, item)] ++ []).flatMap fun record : Writer × Item =>
            encoding.bytes record.2
        rw [List.append_nil (s.done ++ _)]
        exact hfile
      · show ofWriter v (s.done ++ [(w, item)] ++ []) ++ _ = _
        rw [List.append_nil, ← hbegun]
        exact h.order v

/-- **Every run keeps the order.** -/
theorem Reaches.ordered (h : Reaches encoding program s) : Ordered encoding program s := by
  induction h with
  | refl => exact ordered_start
  | tail _ hstep ih => exact ih.step hstep

/-- **While no one has the lock, the file is what was appended.** -/
theorem Reaches.file (h : Reaches encoding program s) (hfree : s.holder = none) :
    s.file.getD [] = s.done.flatMap fun record => encoding.bytes record.2 := by
  have hfile := h.ordered.file
  rw [State.pending_of_free hfree, State.begun_of_free hfree, List.append_nil] at hfile
  exact hfile

/-- **Each writer appends in its own order**, and loses nothing that can be encoded. -/
theorem Reaches.order (h : Reaches encoding program s) (hfree : s.holder = none) (w : Writer) :
    ofWriter w s.done ++ (s.waiting w).filter encoding.accepts
      = (program w).filter encoding.accepts := by
  have horder := h.ordered.order w
  rw [State.begun_of_free hfree] at horder
  exact horder

/-- What was appended could be encoded. -/
theorem Reaches.accepts (h : Reaches encoding program s) (hfree : s.holder = none)
    {record : Writer × Item} (hmem : record ∈ s.done) : encoding.accepts record.2 = true := by
  have hitem : record.2 ∈ (program record.1).filter encoding.accepts := by
    rw [← h.order hfree record.1]
    exact List.mem_append_left _ (mem_ofWriter.mpr hmem)
  exact (List.mem_filter.mp hitem).2

/-- A writer that is not disturbed appends its next record. -/
theorem Reaches.append (h : Reaches encoding program s) (hfree : s.holder = none) {w : Writer}
    {item : Item} {rest : List Item} (hwaiting : s.waiting w = item :: rest)
    (haccepts : encoding.accepts item = true) :
    Reaches encoding program ⟨some (s.file.getD [] ++ encoding.bytes item),
      Function.update s.waiting w rest, none, s.done ++ [(w, item)]⟩ := by
  have hacquire := h.tail (Step.acquire hfree hwaiting haccepts)
  have hholder : some (Holder.mk w item (encoding.bytes item))
      = some ⟨w, item, encoding.bytes item ++ []⟩ := by
    rw [List.append_nil]
  exact (hacquire.tail (Step.write hholder)).tail (Step.release rfl)

end Runs

end LockedAppends
