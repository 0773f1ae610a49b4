import Mathlib.Data.List.Sort

/-!
# Tables with a serial column

A table whose rows get their ordinals from a sequence.  The rows themselves stand in no particular
order: an update writes the new version of a row behind the others.  What is read in the order of
the ordinals (`SerialTable.ordered`) is the list of what was inserted, updated in place
(`ordered_insert`, `ordered_update`); what is read without an order is the same as long as at most
one row is meant (`find?_eq_ordered`).
-/

/-- A table, and the next value of its sequence. -/
structure SerialTable (α : Type*) where
  rows : List (ℕ × α)
  next : ℕ
  nodup : (rows.map Prod.fst).Nodup
  lt_next : ∀ row ∈ rows, row.1 < next

namespace SerialTable

variable {α : Type*}

/-- The table when it is created. -/
def empty : SerialTable α := ⟨[], 1, List.nodup_nil, List.forall_mem_nil _⟩

/-- The rows in the order of their ordinals, without them. -/
def ordered (t : SerialTable α) : List α :=
  (t.rows.insertionSort fun row row' => row.1 ≤ row'.1).map Prod.snd

/-- A row with the next ordinal. -/
def insert (t : SerialTable α) (a : α) : SerialTable α where
  rows := t.rows ++ [(t.next, a)]
  next := t.next + 1
  nodup := by
    rw [List.map_append, List.map_singleton, List.nodup_append]
    refine ⟨t.nodup, List.nodup_singleton _, fun n hn m hm => ?_⟩
    obtain ⟨row, hrow, rfl⟩ := List.mem_map.mp hn
    rw [List.mem_singleton.mp hm]
    exact (t.lt_next row hrow).ne
  lt_next := by
    rw [List.forall_mem_append, List.forall_mem_singleton]
    exact ⟨fun row hrow => (t.lt_next row hrow).trans (Nat.lt_succ_self _), Nat.lt_succ_self _⟩

/-- An ordinal that no row gets. -/
def skip (t : SerialTable α) : SerialTable α where
  rows := t.rows
  next := t.next + 1
  nodup := t.nodup
  lt_next row hrow := (t.lt_next row hrow).trans (Nat.lt_succ_self _)

/-- The new versions of the rows that are meant, behind the others. -/
def updatedRows (p : α → Bool) (f : α → α) (rows : List (ℕ × α)) : List (ℕ × α) :=
  rows.filter (fun row => !p row.2) ++
    (rows.filter fun row => p row.2).map fun row => (row.1, f row.2)

/-- What an update makes of a row, wherever it stands. -/
def updatedRow (p : α → Bool) (f : α → α) (row : ℕ × α) : ℕ × α :=
  (row.1, if p row.2 then f row.2 else row.2)

theorem updatedRows_perm (p : α → Bool) (f : α → α) (rows : List (ℕ × α)) :
    (updatedRows p f rows).Perm (rows.map (updatedRow p f)) := by
  have hkept : (rows.filter fun row => !p row.2).map (updatedRow p f) =
      rows.filter fun row => !p row.2 := by
    refine (List.map_congr_left fun row hrow => ?_).trans (List.map_id _)
    have hp := (List.mem_filter.mp hrow).2
    rw [Bool.not_eq_true'] at hp
    rw [updatedRow, hp]
    rfl
  have hset : (rows.filter fun row => p row.2).map (updatedRow p f) =
      (rows.filter fun row => p row.2).map fun row => (row.1, f row.2) := by
    refine List.map_congr_left fun row hrow => ?_
    rw [updatedRow, (List.mem_filter.mp hrow).2]
    rfl
  rw [updatedRows, ← hset, ← hkept]
  have hperm := (List.filter_append_perm (fun row => p row.2) rows).map (updatedRow p f)
  rw [List.map_append] at hperm
  exact List.perm_append_comm.trans hperm

theorem map_fst_updatedRow (p : α → Bool) (f : α → α) (rows : List (ℕ × α)) :
    (rows.map (updatedRow p f)).map Prod.fst = rows.map Prod.fst := List.map_map

/-- `UPDATE ... SET ... WHERE`. -/
def update (t : SerialTable α) (p : α → Bool) (f : α → α) : SerialTable α where
  rows := updatedRows p f t.rows
  next := t.next
  nodup := by
    rw [((updatedRows_perm p f t.rows).map Prod.fst).nodup_iff, map_fst_updatedRow]
    exact t.nodup
  lt_next row hrow := by
    obtain ⟨row', hrow', rfl⟩ := List.mem_map.mp ((updatedRows_perm p f t.rows).mem_iff.mp hrow)
    exact t.lt_next row' hrow'

/-! ## Reading in order -/

/-- Rows in the order of their ordinals are read in this order. -/
theorem insertionSort_eq {rows rows' : List (ℕ × α)} (hnodup : (rows.map Prod.fst).Nodup)
    (hperm : rows.Perm rows') (hsorted : rows'.Pairwise fun row row' => row.1 ≤ row'.1) :
    (rows.insertionSort fun row row' => row.1 ≤ row'.1) = rows' := by
  have htotal : Std.Total fun row row' : ℕ × α => row.1 ≤ row'.1 :=
    ⟨fun row row' => le_total row.1 row'.1⟩
  have htrans : IsTrans (ℕ × α) fun row row' => row.1 ≤ row'.1 := ⟨fun _ _ _ => le_trans⟩
  refine List.Perm.eq_of_pairwise ?_ (List.pairwise_insertionSort _ rows) hsorted
    ((List.perm_insertionSort _ rows).trans hperm)
  intro row row' hrow hrow' hle hle'
  exact List.inj_on_of_nodup_map hnodup ((List.mem_insertionSort _).mp hrow)
    (hperm.mem_iff.mpr hrow') (le_antisymm hle hle')

theorem pairwise_sorted (t : SerialTable α) :
    (t.rows.insertionSort fun row row' => row.1 ≤ row'.1).Pairwise fun row row' => row.1 ≤ row'.1 := by
  have htotal : Std.Total fun row row' : ℕ × α => row.1 ≤ row'.1 :=
    ⟨fun row row' => le_total row.1 row'.1⟩
  have htrans : IsTrans (ℕ × α) fun row row' => row.1 ≤ row'.1 := ⟨fun _ _ _ => le_trans⟩
  exact List.pairwise_insertionSort _ t.rows

@[simp] theorem ordered_empty : (empty : SerialTable α).ordered = [] := rfl

@[simp] theorem ordered_skip (t : SerialTable α) : t.skip.ordered = t.ordered := rfl

/-- **An inserted row is read last.** -/
@[simp] theorem ordered_insert (t : SerialTable α) (a : α) :
    (t.insert a).ordered = t.ordered ++ [a] := by
  have hsort : ((t.insert a).rows.insertionSort fun row row' => row.1 ≤ row'.1) =
      (t.rows.insertionSort fun row row' => row.1 ≤ row'.1) ++ [(t.next, a)] := by
    refine insertionSort_eq (t.insert a).nodup
      ((List.perm_insertionSort _ t.rows).symm.append_right _) ?_
    refine List.pairwise_append.mpr ⟨t.pairwise_sorted, List.pairwise_singleton _ _, ?_⟩
    intro row hrow row' hrow'
    rw [List.mem_singleton.mp hrow']
    exact (t.lt_next row ((List.mem_insertionSort _).mp hrow)).le
  rw [ordered, hsort, List.map_append]
  rfl

/-- **An updated row is read in its place.** -/
@[simp] theorem ordered_update (t : SerialTable α) (p : α → Bool) (f : α → α) :
    (t.update p f).ordered = t.ordered.map fun a => if p a then f a else a := by
  have hsort : ((t.update p f).rows.insertionSort fun row row' => row.1 ≤ row'.1) =
      (t.rows.insertionSort fun row row' => row.1 ≤ row'.1).map (updatedRow p f) := by
    refine insertionSort_eq (t.update p f).nodup ((updatedRows_perm p f t.rows).trans
      ((List.perm_insertionSort _ t.rows).symm.map _)) ?_
    exact List.pairwise_map.mpr t.pairwise_sorted
  rw [ordered, hsort, List.map_map, ordered, List.map_map]
  rfl

/-! ## Reading without an order -/

theorem ordered_perm (t : SerialTable α) : t.ordered.Perm (t.rows.map Prod.snd) :=
  (List.perm_insertionSort _ t.rows).map _

/-- One row that is meant is found in any order. -/
theorem find?_eq_ordered {t : SerialTable α} {p : α → Bool}
    (huniq : ∀ a ∈ t.ordered, ∀ b ∈ t.ordered, p a = true → p b = true → a = b) :
    (t.rows.map Prod.snd).find? p = t.ordered.find? p := by
  cases hfind : t.ordered.find? p with
  | none =>
      refine List.find?_eq_none.mpr fun a ha => ?_
      exact List.find?_eq_none.mp hfind a (t.ordered_perm.mem_iff.mpr ha)
  | some a =>
      have ha := List.mem_of_find?_eq_some hfind
      have hp := List.find?_some hfind
      obtain ⟨b, hb⟩ : ∃ b, (t.rows.map Prod.snd).find? p = some b := by
        rw [← Option.isSome_iff_exists, List.find?_isSome]
        exact ⟨a, t.ordered_perm.mem_iff.mp ha, hp⟩
      have hmem := t.ordered_perm.mem_iff.mpr (List.mem_of_find?_eq_some hb)
      rw [hb, huniq b hmem a ha (List.find?_some hb) hp]

theorem any_eq_ordered (t : SerialTable α) (p : α → Bool) :
    (t.rows.map Prod.snd).any p = t.ordered.any p := (t.ordered_perm.any_eq).symm

theorem countP_eq_ordered (t : SerialTable α) (p : α → Bool) :
    (t.rows.map Prod.snd).countP p = t.ordered.countP p := (t.ordered_perm.countP_eq p).symm

end SerialTable
