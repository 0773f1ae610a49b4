import Mathlib.Tactic.Ring
import Waxseal.Merkle.Walk

/-!
# Consistency of two tree sizes

The tree over the first `m` leaves of a list and the tree over all of them share
a level on which the smaller tree ends: `level t xs`, where `2 ^ t` is the power of
two dividing `m`.  A consistency walk starts there (`exists_seed`).

`siblings_split_left` and `siblings_split_right` follow the RFC's top-down
recursion through the sibling list of that node, which the walk takes bottom up.
-/

namespace Waxseal.Merkle

universe u

variable {D : Type u} (node : D → D → D) {e : D}

/-! ## Levels -/

/-- The level `t` steps above the leaves. -/
def level (t : ℕ) (xs : List D) : List D := (pairUp node)^[t] xs

@[simp] theorem level_zero (xs : List D) : level node 0 xs = xs := rfl

theorem level_succ (t : ℕ) (xs : List D) :
    level node (t + 1) xs = level node t (pairUp node xs) := rfl

theorem root_level (t : ℕ) (xs : List D) :
    root node e (level node t xs) = root node e xs := by
  induction t generalizing xs with
  | zero => rfl
  | succ t ih => rw [level_succ, ih, root_pairUp]

theorem treePairs_level_subset (t : ℕ) (xs : List D) :
    treePairs node (level node t xs) ⊆ treePairs node xs := by
  induction t generalizing xs with
  | zero => exact List.Subset.refl _
  | succ t ih =>
      rw [level_succ, treePairs_eq xs]
      exact List.Subset.trans (ih _) (List.subset_append_right _ _)

theorem level_take (t k : ℕ) (xs : List D) (h : k * 2 ^ t ≤ xs.length) :
    level node t (xs.take (k * 2 ^ t)) = (level node t xs).take k := by
  induction t generalizing xs with
  | zero => simp
  | succ t ih =>
      have hmul : k * 2 ^ (t + 1) = 2 * (k * 2 ^ t) := by rw [pow_succ]; ring
      rw [hmul] at h ⊢
      rw [level_succ, level_succ, pairUp_take node _ _ h, ih]
      rw [length_pairUp]
      omega

theorem level_drop (t k : ℕ) (xs : List D) (h : k * 2 ^ t ≤ xs.length) :
    level node t (xs.drop (k * 2 ^ t)) = (level node t xs).drop k := by
  induction t generalizing xs with
  | zero => simp
  | succ t ih =>
      have hmul : k * 2 ^ (t + 1) = 2 * (k * 2 ^ t) := by rw [pow_succ]; ring
      rw [hmul] at h ⊢
      rw [level_succ, level_succ, pairUp_drop node _ _ h, ih]
      rw [length_pairUp]
      omega

/-- The last position of a level is the last position below it, shifted. -/
theorem length_level {t : ℕ} {xs : List D} (h : xs ≠ []) :
    (level node t xs).length = (xs.length - 1) / 2 ^ t + 1 := by
  induction t generalizing xs with
  | zero =>
      have := List.length_pos_iff.mpr h
      simp
      omega
  | succ t ih =>
      have hpos := List.length_pos_iff.mpr h
      have hlen := length_pairUp node xs
      have hne : pairUp node xs ≠ [] := List.length_pos_iff.mp (by omega)
      rw [level_succ, ih hne, pow_succ', ← Nat.div_div_eq_div_mul]
      congr 2
      omega

/-- A full subtree below a node puts the node into its level. -/
theorem lt_length_level {t fn : ℕ} {xs : List D} (h : (fn + 1) * 2 ^ t ≤ xs.length) :
    fn < (level node t xs).length := by
  have hpos := Nat.two_pow_pos t
  rw [Nat.add_mul, Nat.one_mul] at h
  rw [length_level node (List.ne_nil_of_length_pos (by omega : 0 < xs.length)),
    Nat.lt_succ_iff, Nat.le_div_iff_mul_le hpos]
  omega

/-- What the leaves and every pair hash have, every node of a level has. -/
theorem forall_mem_level {P : D → Prop} (hnode : ∀ a b, P (node a b)) {t : ℕ} {xs : List D}
    (h : ∀ x ∈ xs, P x) : ∀ x ∈ level node t xs, P x := by
  induction t generalizing xs with
  | zero => exact h
  | succ t ih =>
      rw [level_succ]
      exact ih (forall_mem_pairUp hnode h)

/-- `t` levels up, the split point is `2 ^ t` times smaller. -/
theorem IsSplit.level {j t : ℕ} {xs : List D} (h : IsSplit j xs.length) (ht : t ≤ j) :
    IsSplit (j - t) (level node t xs).length := by
  induction t generalizing j xs with
  | zero => exact h
  | succ t ih =>
      obtain ⟨j, rfl⟩ : ∃ i, j = i + 1 := ⟨j - 1, by omega⟩
      rw [level_succ, Nat.add_sub_add_right]
      refine ih ?_ (by omega)
      rw [length_pairUp]
      exact h.half

/-! ## Siblings, top down -/

/-- One level of the sibling list, also where there is no sibling. -/
theorem siblings_eq {xs : List D} {fn : ℕ} (h : fn < xs.length) :
    siblings node xs fn
      = (if fn % 2 = 1 then xs[fn - 1]? else xs[fn + 1]?).toList
        ++ siblings node (pairUp node xs) (fn / 2) := by
  by_cases hlen : xs.length ≤ 1
  · obtain ⟨a, rfl⟩ : ∃ a, xs = [a] := List.length_eq_one_iff.mp (by omega)
    have : fn = 0 := by simpa using h
    simp [this]
  · rw [siblings, if_neg hlen]

/-- In the left part of a split tree, the root of the right part is the last
sibling. -/
theorem siblings_split_left {j fn : ℕ} {xs : List D} (h : IsSplit j xs.length)
    (hfn : fn < 2 ^ j) :
    siblings node xs fn
      = siblings node (xs.take (2 ^ j)) fn ++ [root node e (xs.drop (2 ^ j))] := by
  induction j generalizing xs fn with
  | zero =>
      obtain ⟨a, b, rfl⟩ : ∃ a b, xs = [a, b] := by
        apply List.length_eq_two.mp
        have hlt : 1 < xs.length := h.1
        have hle : xs.length ≤ 2 := h.2
        omega
      obtain rfl : fn = 0 := by simpa using hfn
      rw [siblings_eq node (by simp)]
      simp [show List.take 1 [a, b] = [a] from rfl]
  | succ j ih =>
      have hle : 2 * 2 ^ j ≤ xs.length := by
        have := h.1
        rw [pow_succ] at this
        omega
      rw [pow_succ'] at hfn ⊢
      have hhalf : IsSplit j (pairUp node xs).length := by
        rw [length_pairUp]
        exact h.half
      have htake : fn < (xs.take (2 * 2 ^ j)).length := by
        rw [List.length_take]
        omega
      have hsib : (if fn % 2 = 1 then (xs.take (2 * 2 ^ j))[fn - 1]?
            else (xs.take (2 * 2 ^ j))[fn + 1]?)
          = if fn % 2 = 1 then xs[fn - 1]? else xs[fn + 1]? := by
        by_cases hodd : fn % 2 = 1
        · rw [if_pos hodd, if_pos hodd, List.getElem?_take_of_lt (by omega)]
        · rw [if_neg hodd, if_neg hodd, List.getElem?_take_of_lt (by omega)]
      have hlt : fn < xs.length := by omega
      rw [siblings_eq node hlt, siblings_eq node htake, ih hhalf (by omega),
        ← pairUp_take node _ _ hle, ← pairUp_drop node _ _ hle, root_pairUp,
        hsib, List.append_assoc]

/-- In the right part of a split tree, the root of the left part is the last
sibling. -/
theorem siblings_split_right {j fn : ℕ} {xs : List D} (h : IsSplit j xs.length)
    (hfn : 2 ^ j ≤ fn) (hlt : fn < xs.length) :
    siblings node xs fn
      = siblings node (xs.drop (2 ^ j)) (fn - 2 ^ j) ++ [root node e (xs.take (2 ^ j))] := by
  induction j generalizing xs fn with
  | zero =>
      obtain ⟨a, b, rfl⟩ : ∃ a b, xs = [a, b] := by
        apply List.length_eq_two.mp
        have hlt : 1 < xs.length := h.1
        have hle : xs.length ≤ 2 := h.2
        omega
      obtain rfl : fn = 1 := by
        simp at hfn hlt
        omega
      rw [siblings_eq node (by simp)]
      simp [show List.take 1 [a, b] = [a] from rfl]
  | succ j ih =>
      have hle : 2 * 2 ^ j ≤ xs.length := by
        have := h.1
        rw [pow_succ] at this
        omega
      rw [pow_succ'] at hfn ⊢
      have hhalf : IsSplit j (pairUp node xs).length := by
        rw [length_pairUp]
        exact h.half
      have hdrop : fn - 2 * 2 ^ j < (xs.drop (2 * 2 ^ j)).length := by
        rw [List.length_drop]
        omega
      have hhalf_lt : fn / 2 < (pairUp node xs).length := by
        rw [length_pairUp]
        omega
      have hsib : (if (fn - 2 * 2 ^ j) % 2 = 1 then (xs.drop (2 * 2 ^ j))[fn - 2 * 2 ^ j - 1]?
            else (xs.drop (2 * 2 ^ j))[fn - 2 * 2 ^ j + 1]?)
          = if fn % 2 = 1 then xs[fn - 1]? else xs[fn + 1]? := by
        rw [List.getElem?_drop, List.getElem?_drop]
        by_cases hodd : fn % 2 = 1
        · rw [if_pos hodd, if_pos (by omega)]
          congr 1
          omega
        · rw [if_neg hodd, if_neg (by omega)]
          congr 1
          omega
      have hsub : (fn - 2 * 2 ^ j) / 2 = fn / 2 - 2 ^ j := by omega
      rw [siblings_eq node hlt, siblings_eq node hdrop, ih hhalf (by omega) hhalf_lt,
        ← pairUp_take node _ _ hle, ← pairUp_drop node _ _ hle, root_pairUp,
        hsib, hsub, List.append_assoc]

/-! ## Sizes -/

section Arithmetic

variable {m t fn j n : ℕ}

/-- A positive number is in one way an odd number times a power of two. -/
theorem odd_mul_two_pow_unique {fn' t' : ℕ} (heven : fn % 2 = 0) (heven' : fn' % 2 = 0)
    (h : (fn + 1) * 2 ^ t = (fn' + 1) * 2 ^ t') : fn = fn' ∧ t = t' := by
  wlog hle : t ≤ t' generalizing fn fn' t t'
  · obtain ⟨hfn, ht⟩ := this heven' heven h.symm (by omega)
    exact ⟨hfn.symm, ht.symm⟩
  have hfn : fn + 1 = (fn' + 1) * 2 ^ (t' - t) := by
    apply Nat.eq_of_mul_eq_mul_right (Nat.two_pow_pos t)
    rw [h, Nat.mul_assoc, ← pow_add, Nat.sub_add_cancel hle]
  rcases Nat.eq_zero_or_pos (t' - t) with h0 | hlt
  · rw [h0, pow_zero, Nat.mul_one] at hfn
    exact ⟨by omega, by omega⟩
  · obtain ⟨i, hi⟩ : ∃ i, t' - t = i + 1 := ⟨t' - t - 1, by omega⟩
    rw [hi, pow_succ, ← Nat.mul_assoc] at hfn
    omega

/-- An odd multiple of a power of two that is a power of two is that power. -/
theorem eq_zero_of_odd_mul_eq (heven : fn % 2 = 0) (h : (fn + 1) * 2 ^ t = 2 ^ j) : fn = 0 :=
  (odd_mul_two_pow_unique heven rfl (h.trans (Nat.one_mul _).symm)).1

/-- The test `m & (m - 1) == 0`, on the odd part of `m`. -/
theorem and_pred_eq_zero_iff (heven : fn % 2 = 0) (hm : m = (fn + 1) * 2 ^ t) :
    m &&& (m - 1) = 0 ↔ fn = 0 := by
  have hpos : m ≠ 0 := by
    have := Nat.two_pow_pos t
    rw [hm]
    exact Nat.mul_ne_zero (Nat.succ_ne_zero fn) this.ne'
  rw [Nat.and_sub_one_eq_zero_iff_isPowerOfTwo hpos]
  constructor
  · rintro ⟨j, hj⟩
    exact eq_zero_of_odd_mul_eq heven (hm ▸ hj)
  · rintro rfl
    exact ⟨t, by simpa using hm⟩

/-- The two ways the top-down recursion can go from a seed inside a split tree. -/
theorem seed_split (h : IsSplit j n) (heven : fn % 2 = 0)
    (hm : m = (fn + 1) * 2 ^ t) (hlt : m < n) :
    t ≤ j ∧ (m ≤ 2 ^ j → fn < 2 ^ (j - t)) ∧
      (2 ^ j < m → 2 ^ (j - t) ≤ fn ∧ (fn - 2 ^ (j - t)) % 2 = 0 ∧
        m - 2 ^ j = (fn - 2 ^ (j - t) + 1) * 2 ^ t) := by
  have htj : t ≤ j := by
    by_contra hcon
    have : 2 ^ (j + 1) ≤ 2 ^ t := Nat.pow_le_pow_right (by norm_num) (by omega)
    have : 2 ^ t ≤ m := hm ▸ Nat.le_mul_of_pos_left _ (Nat.succ_pos fn)
    have := h.2
    omega
  have hpow : 2 ^ j = 2 ^ (j - t) * 2 ^ t := by rw [← pow_add, Nat.sub_add_cancel htj]
  have hpos := Nat.two_pow_pos t
  refine ⟨htj, fun hle => ?_, fun hgt => ?_⟩
  · rw [hm, hpow] at hle
    exact Nat.le_of_mul_le_mul_right hle hpos
  · rw [hm, hpow] at hgt
    have hfn : 2 ^ (j - t) < fn + 1 := Nat.lt_of_mul_lt_mul_right hgt
    refine ⟨by omega, ?_, ?_⟩
    · rcases Nat.eq_zero_or_pos (j - t) with h0 | hlt'
      · -- the seed is at the split point itself, so it cannot lie to the right of it
        have hle := h.2
        have heq : j = t := by omega
        subst heq
        rw [pow_succ'] at hle
        have : fn + 1 < 2 := Nat.lt_of_mul_lt_mul_right (a := 2 ^ j) (by omega)
        rw [h0] at hfn
        omega
      · obtain ⟨i, hi⟩ : ∃ i, j - t = i + 1 := ⟨j - t - 1, by omega⟩
        rw [hi, pow_succ] at hfn ⊢
        omega
    · rw [hm, hpow, ← Nat.sub_mul]
      congr 1
      omega

end Arithmetic

/-! ## The node a consistency walk starts from -/

/-- The level the trees over the first `m` leaves and over all of them share, cut
at the node the smaller tree ends with. -/
structure Seed (xs : List D) (m t : ℕ) (ls : List D) (a : D) (rs : List D) : Prop where
  level_eq : level node t xs = ls ++ a :: rs
  even : Even ls.length
  size : m = (ls.length + 1) * 2 ^ t

variable {node}

namespace Seed

variable {xs ls rs : List D} {m t : ℕ} {a : D}

/-- The smaller tree has the shared level up to its node `a`. -/
theorem level_take_eq (h : Seed node xs m t ls a rs) (hm : m ≤ xs.length) :
    level node t (xs.take m) = ls ++ [a] := by
  have hle : (ls.length + 1) * 2 ^ t ≤ xs.length := h.size ▸ hm
  rw [h.size, level_take node t _ xs hle, h.level_eq, List.append_cons, List.take_left' (by simp)]

theorem root_take (h : Seed node xs m t ls a rs) (hm : m ≤ xs.length) :
    root node e (xs.take m) = root node e (ls ++ [a]) := by
  rw [← root_level node t, h.level_take_eq hm]

/-- When the smaller tree is smaller, its last node has a right sibling. -/
theorem rs_ne_nil (h : Seed node xs m t ls a rs) (hm : m < xs.length) : rs ≠ [] := by
  have hlen := @length_level _ node t _ (List.ne_nil_of_length_pos (by omega : 0 < xs.length))
  have hdiv : ls.length + 1 ≤ (xs.length - 1) / 2 ^ t := by
    rw [Nat.le_div_iff_mul_le (Nat.two_pow_pos t), ← h.size]
    omega
  rw [h.level_eq, List.length_append, List.length_cons] at hlen
  exact List.length_pos_iff.mp (by omega)

/-- A seed with a right sibling belongs to a size below the current one. -/
theorem lt {c : D} (h : Seed node xs m t ls a (c :: rs)) : m < xs.length := by
  have hne : xs ≠ [] := by
    rintro rfl
    have hnil : level node t ([] : List D) = [] := by
      clear h
      induction t with
      | zero => rfl
      | succ t ih => exact ih
    simpa [hnil] using h.level_eq
  have hpos := List.length_pos_iff.mpr hne
  have hlen := @length_level _ node t _ hne
  rw [h.level_eq, List.length_append, List.length_cons, List.length_cons] at hlen
  have hdiv : ls.length + 1 ≤ (xs.length - 1) / 2 ^ t := by omega
  rw [Nat.le_div_iff_mul_le (Nat.two_pow_pos t), ← h.size] at hdiv
  omega

end Seed

/-- There is only one seed for each size, and stripping the trailing ones of
`m - 1` finds it. -/
theorem Seed.stripOnes_eq {xs ls rs : List D} {m t : ℕ} {a : D} (h : Seed node xs m t ls a rs)
    (hle : m ≤ xs.length) :
    stripOnes (m - 1) (xs.length - 1) = (ls.length, ls.length + rs.length) := by
  have hpos : 0 < m := h.size ▸ Nat.mul_pos (Nat.succ_pos _) (Nat.two_pow_pos t)
  obtain ⟨t', heven, hfn, hsn⟩ := stripOnes_spec (m - 1) (xs.length - 1)
  have hsize := h.size.symm.trans ((Nat.sub_add_cancel hpos).symm.trans hfn)
  obtain ⟨hls, rfl⟩ := odd_mul_two_pow_unique (Nat.even_iff.mp h.even) heven hsize
  have hlen := @length_level _ node t _ (List.ne_nil_of_length_pos (by omega : 0 < xs.length))
  rw [h.level_eq, List.length_append, List.length_cons] at hlen
  exact Prod.ext hls.symm (hsn.trans (by dsimp only; omega))

/-- Every size has its seed. -/
theorem exists_seed {xs : List D} {m : ℕ} (hm : 1 ≤ m) (hle : m ≤ xs.length) :
    ∃ t ls a rs, Seed node xs m t ls a rs := by
  obtain ⟨t, heven, hfn, -⟩ := stripOnes_spec (m - 1) (xs.length - 1)
  set fn := (stripOnes (m - 1) (xs.length - 1)).1
  have hlt : fn < (level node t xs).length := lt_length_level node (by omega)
  have htake : ((level node t xs).take fn).length = fn := by
    rw [List.length_take]
    omega
  refine ⟨t, (level node t xs).take fn, (level node t xs)[fn], (level node t xs).drop (fn + 1),
    ⟨?_, ?_, ?_⟩⟩
  · rw [← List.drop_eq_getElem_cons hlt, List.take_append_drop]
  · rw [htake]
    exact Nat.even_iff.mpr heven
  · rw [htake, ← hfn]
    omega

end Waxseal.Merkle
