import Waxseal.Merkle.Tree

/-!
# Forests of complete trees

A list of leaves cut into blocks whose lengths are powers of two, each power smaller than
the one before, and the root over each block: the peaks of the leaves, here with the
smallest first.  A block of leaves after the others is merged into the blocks of its own
height (`Forest.merge`), and folding the peaks from the smallest up gives the root over all
the leaves (`Forest.foldl_eq_root`).
-/

namespace Waxseal.Merkle

universe u

variable {D : Type u} {node : D → D → D} {e : D}

/-- The peaks over a list of leaves, each with its height, the smallest first. -/
inductive Forest (node : D → D → D) (e : D) : List (ℕ × D) → List D → Prop where
  | nil : Forest node e [] []
  | cons {peaks : List (ℕ × D)} {ls rs : List D} {height : ℕ} (rest : Forest node e peaks ls)
      (higher : ∀ p ∈ peaks, height < p.1) (length : rs.length = 2 ^ height) :
      Forest node e ((height, root node e rs) :: peaks) (ls ++ rs)

/-- Two blocks of one height are one of the next. -/
theorem root_append_of_length {ls rs : List D} {height : ℕ} (hl : ls.length = 2 ^ height)
    (hr : rs.length = 2 ^ height) :
    root node e (ls ++ rs) = node (root node e ls) (root node e rs) := by
  have hpos := Nat.two_pow_pos height
  have hsplit : IsSplit height (ls ++ rs).length := by
    rw [IsSplit, List.length_append, hl, hr, pow_succ]
    omega
  rw [root_split hsplit, ← hl, List.take_left, List.drop_left]

/-- A shorter block after a complete one. -/
theorem root_append_of_lt {ls rs : List D} {height : ℕ} (hl : ls.length = 2 ^ height)
    (hr : rs.length < 2 ^ height) (hne : rs ≠ []) :
    root node e (ls ++ rs) = node (root node e ls) (root node e rs) := by
  have hpos := List.length_pos_iff.mpr hne
  have hsplit : IsSplit height (ls ++ rs).length := by
    rw [IsSplit, List.length_append, hl, pow_succ]
    omega
  rw [root_split hsplit, ← hl, List.take_left, List.drop_left]

/-- **One merge**: the smallest peak and a block of its height. -/
theorem Forest.merge {height : ℕ} {left : D} {peaks : List (ℕ × D)} {ls rs : List D}
    (h : Forest node e ((height, left) :: peaks) ls) (hlength : rs.length = 2 ^ height) :
    ∃ ls' rs', Forest node e peaks ls' ∧ ls ++ rs = ls' ++ rs' ∧
      rs'.length = 2 ^ (height + 1) ∧ root node e rs' = node left (root node e rs) ∧
      ∀ p ∈ peaks, height + 1 ≤ p.1 := by
  cases h with
  | @cons _ ls' block _ rest higher hblock =>
      refine ⟨ls', block ++ rs, rest, List.append_assoc _ _ _, ?_,
        root_append_of_length hblock hlength, higher⟩
      rw [List.length_append, hblock, hlength, pow_succ]
      omega

/-- **The root of a forest**: its peaks folded from the smallest up, on top of what stands
after them. -/
theorem Forest.foldl_eq_root {peaks : List (ℕ × D)} {ls : List D} (h : Forest node e peaks ls) :
    ∀ {rs : List D} {height : ℕ}, rs ≠ [] → rs.length < 2 ^ (height + 1) →
      (∀ p ∈ peaks, height < p.1) →
        (peaks.map Prod.snd).foldl (fun acc left => node left acc) (root node e rs)
          = root node e (ls ++ rs) := by
  induction h with
  | nil =>
      intro rs height _ _ _
      rfl
  | @cons peaks ls block height' rest higher hblock ih =>
      intro rs height hne hlt hhigher
      have hheight : height + 1 ≤ height' := hhigher _ List.mem_cons_self
      have hshort : rs.length < 2 ^ height' :=
        hlt.trans_le (Nat.pow_le_pow_right (by decide) hheight)
      have hlength : (block ++ rs).length < 2 ^ (height' + 1) := by
        rw [List.length_append, hblock, pow_succ]
        omega
      have hnode : node (root node e block) (root node e rs) = root node e (block ++ rs) :=
        (root_append_of_lt hblock hshort hne).symm
      rw [List.map_cons, List.foldl_cons, hnode,
        ih (List.append_ne_nil_of_right_ne_nil _ hne) hlength higher, List.append_assoc]

/-- The smallest peak and the others. -/
theorem Forest.root_eq {height : ℕ} {peak : D} {peaks : List (ℕ × D)} {ls : List D}
    (h : Forest node e ((height, peak) :: peaks) ls) :
    (peaks.map Prod.snd).foldl (fun acc left => node left acc) peak = root node e ls := by
  cases h with
  | @cons _ ls' block _ rest higher hblock =>
      have hpos := Nat.two_pow_pos height
      refine rest.foldl_eq_root (List.ne_nil_of_length_pos (by omega)) ?_ higher
      rw [hblock, pow_succ]
      omega

end Waxseal.Merkle
