import Mathlib.Data.List.Induction

/-!
# Rows of a key, of which the latest counts

Rows are taken in one after another, each at a position and under a key.  A row of a new key opens
a group, which comes after the groups there are; a row of a key that is known replaces what its
group says, and leaves where the group began.

The groups are then those of the keys, in the order in which they first appeared, and each says
where its first row and its last one are, how many there are, and what the last one says
(`fold_spec`).
-/

namespace LatestWins

variable {ι κ α : Type}

/-- What is known of a key. -/
structure Group (ι κ α : Type) where
  key : κ
  first : ι
  last : ι
  count : ℕ
  latest : α

section Folding

variable [DecidableEq κ] (key : α → κ)

/-- Take a row in. -/
def take (groups : List (Group ι κ α)) (row : ι × α) : List (Group ι κ α) :=
  if groups.any fun g => g.key = key row.2 then
    groups.map fun g =>
      if g.key = key row.2 then { g with last := row.1, count := g.count + 1, latest := row.2 } else g
  else groups ++ [⟨key row.2, row.1, row.1, 1, row.2⟩]

/-- Take the rows in. -/
def fold (rows : List (ι × α)) : List (Group ι κ α) := rows.foldl (take key) []

/-- The rows of a key. -/
def rowsOf (k : κ) (rows : List (ι × α)) : List (ι × α) := rows.filter fun row => key row.2 = k

/-- A group says what the rows of its key are. -/
structure Summarizes (rows : List (ι × α)) (g : Group ι κ α) : Prop where
  first : ∃ a, (rowsOf key g.key rows).head? = some (g.first, a)
  last : (rowsOf key g.key rows).getLast? = some (g.last, g.latest)
  count : (rowsOf key g.key rows).length = g.count

variable {key} {groups : List (Group ι κ α)} {rows more : List (ι × α)} {row : ι × α}
  {g : Group ι κ α} {k : κ}

theorem fold_concat : fold key (rows ++ [row]) = take key (fold key rows) row := by
  rw [fold, List.foldl_append]
  rfl

theorem rowsOf_concat_self :
    rowsOf key (key row.2) (rows ++ [row]) = rowsOf key (key row.2) rows ++ [row] := by
  rw [rowsOf, List.filter_append, List.filter_cons_of_pos (by simp)]
  rfl

theorem rowsOf_concat_of_ne (h : key row.2 ≠ k) : rowsOf key k (rows ++ [row]) = rowsOf key k rows := by
  rw [rowsOf, List.filter_append, List.filter_cons_of_neg (by simpa using h)]
  exact List.append_nil _

theorem rowsOf_eq_nil_iff : rowsOf key k rows = [] ↔ k ∉ rows.map fun row => key row.2 := by
  rw [rowsOf, List.filter_eq_nil_iff, List.mem_map, not_exists]
  constructor
  · rintro h row ⟨hrow, rfl⟩
    exact h row hrow (decide_eq_true rfl)
  · intro h row hrow hkey
    exact h row ⟨hrow, of_decide_eq_true hkey⟩

theorem any_key_iff : (groups.any fun g => g.key = k) = true ↔ k ∈ groups.map Group.key := by
  rw [List.any_eq_true, List.mem_map]
  exact exists_congr fun g => and_congr_right fun _ => decide_eq_true_iff

/-! ## One row -/

/-- The keys that are known are known in the same order. -/
theorem map_key_take : (take key groups row).map Group.key =
    if key row.2 ∈ groups.map Group.key then groups.map Group.key
    else groups.map Group.key ++ [key row.2] := by
  unfold take
  by_cases hknown : (groups.any fun g => g.key = key row.2) = true
  · rw [if_pos hknown, if_pos (any_key_iff.mp hknown), List.map_map]
    refine List.map_congr_left fun g _ => ?_
    show (if g.key = key row.2 then _ else g).key = g.key
    split_ifs <;> rfl
  · rw [if_neg hknown, if_neg fun h => hknown (any_key_iff.mpr h), List.map_append]
    rfl

/-- A group of another key is as it was. -/
theorem mem_take_of_ne (h : key row.2 ≠ g.key) : g ∈ take key groups row ↔ g ∈ groups := by
  unfold take
  split_ifs with hknown
  · rw [List.mem_map]
    constructor
    · rintro ⟨g', hg', rfl⟩
      split_ifs at h ⊢ with hsame
      · exact absurd hsame.symm h
      · exact hg'
    · intro hg
      exact ⟨g, hg, if_neg (Ne.symm h)⟩
  · rw [List.mem_append, List.mem_singleton, or_iff_left]
    rintro rfl
    exact h rfl

/-- The group of the key of the row says so. -/
theorem summarizes_of_mem_take (hgroups : groups.map Group.key = (rows.map fun r => key r.2).eraseDups)
    (hsummarizes : ∀ g ∈ groups, Summarizes key rows g) (hg : g ∈ take key groups row)
    (hkey : g.key = key row.2) : Summarizes key (rows ++ [row]) g := by
  have hrows : rowsOf key g.key (rows ++ [row]) = rowsOf key g.key rows ++ [row] := by
    rw [hkey]
    exact rowsOf_concat_self
  unfold take at hg
  split_ifs at hg with hknown
  · obtain ⟨g', hg', rfl⟩ := List.mem_map.mp hg
    split_ifs at hkey hrows ⊢ with hsame
    · obtain ⟨⟨a, hfirst⟩, hlast, hcount⟩ := hsummarizes g' hg'
      refine ⟨⟨a, ?_⟩, ?_, ?_⟩
      · rw [hrows, List.head?_append, hfirst]
        rfl
      · rw [hrows, List.getLast?_concat]
      · rw [hrows, List.length_append, List.length_singleton, hcount]
    · exact absurd hkey hsame
  · -- a new key has no rows so far
    have hnil : rowsOf key (key row.2) rows = [] := by
      rw [rowsOf_eq_nil_iff, ← List.mem_eraseDups, ← hgroups]
      exact fun h => hknown (any_key_iff.mpr h)
    rcases List.mem_append.mp hg with hold | hnew
    · exact absurd (any_key_iff.mpr (hkey ▸ List.mem_map_of_mem hold)) hknown
    · obtain rfl := List.mem_singleton.mp hnew
      have hone : rowsOf key (key row.2) (rows ++ [row]) = [row] := by
        rw [rowsOf_concat_self, hnil, List.nil_append]
      exact ⟨⟨row.2, congrArg List.head? hone⟩, congrArg List.getLast? hone, congrArg List.length hone⟩

/-! ## All rows -/

/-- **The groups are those of the keys, in the order of their first rows, and say what the rows of
their keys are.** -/
theorem fold_spec (rows : List (ι × α)) :
    (fold key rows).map Group.key = (rows.map fun row => key row.2).eraseDups ∧
      ∀ g ∈ fold key rows, Summarizes key rows g := by
  induction rows using List.reverseRecOn with
  | nil => exact ⟨rfl, List.forall_mem_nil _⟩
  | append_singleton rows row ih =>
      obtain ⟨hkeys, hsummarizes⟩ := ih
      rw [fold_concat]
      refine ⟨?_, fun g hg => ?_⟩
      · rw [map_key_take, hkeys, List.map_append, List.eraseDups_append]
        simp only [List.mem_eraseDups]
        by_cases hknown : key row.2 ∈ rows.map fun row => key row.2
        · rw [if_pos hknown]
          simp [List.removeAll, hknown]
        · rw [if_neg hknown]
          simp [List.removeAll, hknown, List.eraseDups_cons]
      · by_cases hkey : g.key = key row.2
        · exact summarizes_of_mem_take hkeys hsummarizes hg hkey
        · have hold := hsummarizes g ((mem_take_of_ne (Ne.symm hkey)).mp hg)
          obtain ⟨hfirst, hlast, hcount⟩ := hold
          have hrows : rowsOf key g.key (rows ++ [row]) = rowsOf key g.key rows :=
            rowsOf_concat_of_ne (Ne.symm hkey)
          rw [← hrows] at hfirst hlast hcount
          exact ⟨hfirst, hlast, hcount⟩

/-- Rows of other keys leave a group as it is. -/
theorem mem_fold_append_of_ne (h : ∀ row ∈ more, key row.2 ≠ g.key) :
    g ∈ fold key (rows ++ more) ↔ g ∈ fold key rows := by
  induction more using List.reverseRecOn with
  | nil => rw [List.append_nil]
  | append_singleton more row ih =>
      rw [List.forall_mem_append, List.forall_mem_singleton] at h
      rw [← List.append_assoc, fold_concat, mem_take_of_ne h.2, ih h.1]

end Folding

end LatestWins
