import Mathlib.Algebra.Ring.Parity
import Mathlib.Data.List.Basic
import Mathlib.Data.Set.Function
import Mathlib.Tactic.Common

/-!
# Merkle trees by levels

The RFC 6962 tree over nodes of any type `D`, with any pair hash `node`.  A tree
is given by its bottom level, and `pairUp` makes the next level up, promoting an
odd last node unchanged; `root` folds the levels until one node is left.

The RFC's own definition splits a list at the largest power of two below its
length instead.  `root_split` is that recursion, so the two definitions agree, and
`auditPath_split_left`/`auditPath_split_right` say the same of the sibling path of
a node.

A position in a level is written `ls ++ a :: rs`.  `climb_induction` is the
induction principle the file rests on: it follows one node from its level to the
root, with one case for each way a node meets its sibling.
-/

namespace Waxseal.Merkle

universe u

variable {D : Type u} (node : D → D → D)

/-- The next level up: adjacent nodes are paired, an odd last one is promoted. -/
def pairUp : List D → List D
  | a :: b :: rest => node a b :: pairUp rest
  | [a] => [a]
  | [] => []

@[simp] theorem pairUp_nil : pairUp node [] = [] := rfl

@[simp] theorem pairUp_singleton (a : D) : pairUp node [a] = [a] := rfl

@[simp] theorem pairUp_cons_cons (a b : D) (rest : List D) :
    pairUp node (a :: b :: rest) = node a b :: pairUp node rest := rfl

theorem length_pairUp : ∀ xs : List D, (pairUp node xs).length = (xs.length + 1) / 2
  | [] => by simp
  | [a] => by simp
  | a :: b :: rest => by
      simp only [pairUp_cons_cons, List.length_cons, length_pairUp rest]
      omega

/-- Pairing is local: an even-length prefix is paired on its own. -/
theorem pairUp_append : ∀ {ls : List D} (rs : List D), Even ls.length →
    pairUp node (ls ++ rs) = pairUp node ls ++ pairUp node rs
  | [], _, _ => rfl
  | [_], _, h => absurd h (by simp)
  | a :: b :: ls, rs, h => by
      have heven : Even ls.length := by simpa [Nat.even_add_one] using h
      simp [pairUp_append rs heven]

theorem length_pairUp_of_even {ls : List D} (h : Even ls.length) :
    2 * (pairUp node ls).length = ls.length := by
  obtain ⟨k, hk⟩ := h
  rw [length_pairUp]
  omega

/-- Taking an even number of nodes commutes with pairing. -/
theorem pairUp_take (k : ℕ) (xs : List D) (h : 2 * k ≤ xs.length) :
    pairUp node (xs.take (2 * k)) = (pairUp node xs).take k := by
  have hlen : (xs.take (2 * k)).length = 2 * k := by simpa using h
  have heven : Even (xs.take (2 * k)).length := ⟨k, by omega⟩
  conv_rhs => rw [← List.take_append_drop (2 * k) xs, pairUp_append node _ heven]
  have := length_pairUp_of_even node heven
  rw [List.take_left' (by omega)]

/-- Dropping an even number of nodes commutes with pairing. -/
theorem pairUp_drop (k : ℕ) (xs : List D) (h : 2 * k ≤ xs.length) :
    pairUp node (xs.drop (2 * k)) = (pairUp node xs).drop k := by
  have hlen : (xs.take (2 * k)).length = 2 * k := by simpa using h
  have heven : Even (xs.take (2 * k)).length := ⟨k, by omega⟩
  conv_rhs => rw [← List.take_append_drop (2 * k) xs, pairUp_append node _ heven]
  have := length_pairUp_of_even node heven
  rw [List.drop_left' (by omega)]

/-! ## Climbing from a node to the root -/

/-- **Induction from a node to the root.**  The node `a` sits in its level as
`ls ++ a :: rs`.  At an odd position it is a right child, at an even one a left
child, and at an even last position it is promoted as it is. -/
theorem climb_induction {P : List D → D → List D → Prop}
    (top : ∀ a, P [] a [])
    (right : ∀ ls b a rs, Even ls.length →
      P (pairUp node ls) (node b a) (pairUp node rs) → P (ls ++ [b]) a rs)
    (left : ∀ ls a c rs, Even ls.length →
      P (pairUp node ls) (node a c) (pairUp node rs) → P ls a (c :: rs))
    (last : ∀ ls a, Even ls.length → ls ≠ [] →
      P (pairUp node ls) a [] → P ls a []) :
    ∀ ls a rs, P ls a rs := by
  suffices h : ∀ n ls a rs, ls.length + rs.length = n → P ls a rs from
    fun ls a rs => h _ ls a rs rfl
  intro n
  induction n using Nat.strong_induction_on with
  | _ n ih =>
      intro ls a rs hn
      rcases Nat.even_or_odd ls.length with heven | hodd
      · have hls := length_pairUp_of_even node heven
        rcases rs with - | ⟨c, rs⟩
        · rcases eq_or_ne ls [] with rfl | hne
          · exact top a
          · have := List.length_pos_iff.mpr hne
            exact last ls a heven hne (ih _ (by simp at hn ⊢; omega) _ _ _ rfl)
        · refine left ls a c rs heven (ih _ ?_ _ _ _ rfl)
          have := length_pairUp node rs
          simp only [List.length_cons] at hn
          omega
      · obtain ⟨ls, b, rfl⟩ : ∃ ls' b, ls = ls' ++ [b] :=
          (List.eq_nil_or_concat' ls).resolve_left (by rintro rfl; simp at hodd)
        have heven : Even ls.length := by simpa [Nat.odd_add_one] using hodd
        refine right ls b a rs heven (ih _ ?_ _ _ _ rfl)
        have := length_pairUp_of_even node heven
        have := length_pairUp node rs
        simp only [List.length_append, List.length_singleton] at hn
        omega

theorem pairUp_right {ls : List D} (b a : D) (rs : List D) (h : Even ls.length) :
    pairUp node (ls ++ [b] ++ a :: rs) = pairUp node ls ++ node b a :: pairUp node rs := by
  rw [List.append_assoc, pairUp_append node _ h]
  rfl

theorem pairUp_left {ls : List D} (a c : D) (rs : List D) (h : Even ls.length) :
    pairUp node (ls ++ a :: c :: rs) = pairUp node ls ++ node a c :: pairUp node rs :=
  pairUp_append node _ h

theorem pairUp_last {ls : List D} (a : D) (h : Even ls.length) :
    pairUp node (ls ++ [a]) = pairUp node ls ++ [a] :=
  pairUp_append node _ h

/-! ## The root -/

/-- The root over a level; `e` is the digest of the empty tree. -/
def root (e : D) : List D → D
  | [] => e
  | [a] => a
  | a :: b :: rest => root e (pairUp node (a :: b :: rest))
termination_by xs => xs.length
decreasing_by
  simp only [length_pairUp, List.length_cons]
  omega

variable {node} {e : D}

@[simp] theorem root_nil : root node e [] = e := by
  rw [root]

@[simp] theorem root_singleton (a : D) : root node e [a] = a := by
  rw [root]

/-- A level and the next one up have the same root. -/
theorem root_pairUp (xs : List D) : root node e (pairUp node xs) = root node e xs := by
  rcases xs with - | ⟨a, - | ⟨b, rest⟩⟩
  · rfl
  · rfl
  · conv_rhs => rw [root]

@[simp] theorem root_pair (a b : D) : root node e [a, b] = node a b := by
  rw [← root_pairUp, pairUp_cons_cons, pairUp_nil, root_singleton]

/-- `2 ^ j` is the split point of a list of length `n`: the largest power of two
below `n`. -/
def IsSplit (j n : ℕ) : Prop := 2 ^ j < n ∧ n ≤ 2 ^ (j + 1)

/-- One level up, the split point is half of what it was. -/
theorem IsSplit.half {j n : ℕ} (h : IsSplit (j + 1) n) : IsSplit j ((n + 1) / 2) := by
  obtain ⟨hlt, hle⟩ := h
  have := pow_succ 2 j
  have := pow_succ 2 (j + 1)
  constructor <;> omega

/-- **The root by splitting**: the recursion of RFC 6962 section 2.1. -/
theorem root_split {j : ℕ} {xs : List D} (h : IsSplit j xs.length) :
    root node e xs
      = node (root node e (xs.take (2 ^ j))) (root node e (xs.drop (2 ^ j))) := by
  induction j generalizing xs with
  | zero =>
      obtain ⟨a, b, rfl⟩ : ∃ a b, xs = [a, b] := by
        apply List.length_eq_two.mp
        have hlt : 1 < xs.length := h.1
        have hle : xs.length ≤ 2 := h.2
        omega
      simp [show List.take 1 [a, b] = [a] from rfl]
  | succ j ih =>
      have hle : 2 * 2 ^ j ≤ xs.length := by
        have := h.1
        rw [pow_succ] at this
        omega
      have hhalf : IsSplit j (pairUp node xs).length := by
        rw [length_pairUp]
        exact h.half
      rw [← root_pairUp, ih hhalf, ← pairUp_take node _ _ hle, ← pairUp_drop node _ _ hle,
        root_pairUp, root_pairUp, pow_succ']

/-- A map that commutes with the pair hashes commutes with `pairUp`. -/
theorem map_pairUp {E : Type u} {node' : E → E → E} (f : D → E)
    (hf : ∀ a b, f (node a b) = node' (f a) (f b)) :
    ∀ xs : List D, (pairUp node xs).map f = pairUp node' (xs.map f)
  | [] => rfl
  | [_] => rfl
  | a :: b :: rest => by
      simp [hf, map_pairUp f hf rest]

/-- A map that commutes with the pair hashes commutes with `root`. -/
theorem map_root {E : Type u} {node' : E → E → E} (f : D → E)
    (hf : ∀ a b, f (node a b) = node' (f a) (f b)) (xs : List D) :
    f (root node e xs) = root node' (f e) (xs.map f) := by
  induction xs using root.induct node with
  | case1 => simp
  | case2 a => simp
  | case3 a b rest ih =>
      rw [← root_pairUp, ih, map_pairUp f hf, root_pairUp]

/-! ## The pairs a tree hashes -/

/-- The pairs hashed between a level and the next. -/
def levelPairs : List D → List (D × D)
  | a :: b :: rest => (a, b) :: levelPairs rest
  | _ => []

variable (node) in
/-- All pairs hashed to compute the root of a level. -/
def treePairs : List D → List (D × D)
  | [] => []
  | [_] => []
  | a :: b :: rest =>
      levelPairs (a :: b :: rest) ++ treePairs (pairUp node (a :: b :: rest))
termination_by xs => xs.length
decreasing_by
  simp only [length_pairUp, List.length_cons]
  omega

theorem treePairs_eq (xs : List D) :
    treePairs node xs = levelPairs xs ++ treePairs node (pairUp node xs) := by
  rcases xs with - | ⟨a, - | ⟨b, rest⟩⟩
  · simp [treePairs, levelPairs]
  · simp [treePairs, levelPairs]
  · rw [treePairs]

theorem levelPairs_append : ∀ {ls : List D} (rs : List D), Even ls.length →
    levelPairs (ls ++ rs) = levelPairs ls ++ levelPairs rs
  | [], _, _ => rfl
  | [_], _, h => absurd h (by simp)
  | a :: b :: ls, rs, h => by
      have heven : Even ls.length := by simpa [Nat.even_add_one] using h
      simp [levelPairs, levelPairs_append rs heven]

/-- The pair of a right child, and every pair above it, is hashed by the tree. -/
theorem treePairs_right {ls : List D} (b a : D) (rs : List D) (h : Even ls.length) :
    (b, a) ∈ treePairs node (ls ++ [b] ++ a :: rs) ∧
      treePairs node (pairUp node ls ++ node b a :: pairUp node rs)
        ⊆ treePairs node (ls ++ [b] ++ a :: rs) := by
  rw [treePairs_eq (ls ++ [b] ++ a :: rs), pairUp_right node b a rs h, List.append_assoc,
    levelPairs_append _ h]
  exact ⟨by simp [levelPairs], List.subset_append_right _ _⟩

/-- The pair of a left child, and every pair above it, is hashed by the tree. -/
theorem treePairs_left {ls : List D} (a c : D) (rs : List D) (h : Even ls.length) :
    (a, c) ∈ treePairs node (ls ++ a :: c :: rs) ∧
      treePairs node (pairUp node ls ++ node a c :: pairUp node rs)
        ⊆ treePairs node (ls ++ a :: c :: rs) := by
  rw [treePairs_eq (ls ++ a :: c :: rs), pairUp_left node a c rs h, levelPairs_append _ h]
  exact ⟨by simp [levelPairs], List.subset_append_right _ _⟩

/-- A promoted node adds no pair. -/
theorem treePairs_last {ls : List D} (a : D) (h : Even ls.length) :
    treePairs node (pairUp node ls ++ [a]) ⊆ treePairs node (ls ++ [a]) := by
  rw [treePairs_eq (ls ++ [a]), pairUp_last node a h]
  exact List.subset_append_right _ _

/-- What every node of a level and every pair hash has, every node one level up has. -/
theorem forall_mem_pairUp {P : D → Prop} (hnode : ∀ a b, P (node a b)) :
    ∀ {xs : List D}, (∀ x ∈ xs, P x) → ∀ x ∈ pairUp node xs, P x
  | [], h => h
  | [_], h => h
  | a :: b :: rest, h => by
      rw [pairUp_cons_cons, List.forall_mem_cons]
      exact ⟨hnode a b, forall_mem_pairUp hnode fun x hx => h x (by simp [hx])⟩

theorem forall_mem_levelPairs {P : D → Prop} :
    ∀ {xs : List D}, (∀ x ∈ xs, P x) → ∀ x ∈ levelPairs xs, P x.1 ∧ P x.2
  | [], _ => by simp [levelPairs]
  | [_], _ => by simp [levelPairs]
  | a :: b :: rest, h => by
      rw [levelPairs, List.forall_mem_cons]
      exact ⟨⟨h a (by simp), h b (by simp)⟩, forall_mem_levelPairs fun x hx => h x (by simp [hx])⟩

/-- What every leaf and every pair hash has, both halves of every hashed pair have. -/
theorem forall_mem_treePairs {P : D → Prop} (hnode : ∀ a b, P (node a b)) {xs : List D}
    (h : ∀ x ∈ xs, P x) : ∀ x ∈ treePairs node xs, P x.1 ∧ P x.2 := by
  induction xs using treePairs.induct node with
  | case1 => simp [treePairs]
  | case2 a => simp [treePairs]
  | case3 a b rest ih =>
      intro x hx
      rw [treePairs, List.mem_append] at hx
      rcases hx with hx | hx
      · exact forall_mem_levelPairs h x hx
      · exact ih (forall_mem_pairUp hnode h) x hx

/-! ## Roots and leaves -/

/-- Where the pair hash is injective on the pairs of two levels of one length, the next levels
determine them. -/
theorem pairUp_inj {xs ys : List D} (hlength : xs.length = ys.length)
    (hinj : ∀ x ∈ levelPairs xs, ∀ y ∈ levelPairs ys, node x.1 x.2 = node y.1 y.2 → x = y)
    (h : pairUp node xs = pairUp node ys) : xs = ys := by
  match xs, ys, hlength with
  | [], [], _ => rfl
  | [a], [b], _ => exact h
  | a :: b :: xs, c :: d :: ys, hlength =>
      rw [pairUp_cons_cons, pairUp_cons_cons, List.cons.injEq] at h
      obtain ⟨rfl, rfl⟩ := Prod.mk.inj (hinj (a, b) List.mem_cons_self (c, d) List.mem_cons_self h.1)
      rw [pairUp_inj (Nat.succ.inj (Nat.succ.inj hlength)) (fun x hx y hy =>
        hinj x (List.mem_cons_of_mem _ hx) y (List.mem_cons_of_mem _ hy)) h.2]

/-- **The root determines the leaves** of trees of one size, where the pair hash is injective on
the pairs they hash. -/
theorem root_inj {xs ys : List D} (hlength : xs.length = ys.length)
    (hinj : ∀ x ∈ treePairs node xs, ∀ y ∈ treePairs node ys, node x.1 x.2 = node y.1 y.2 → x = y)
    (h : root node e xs = root node e ys) : xs = ys := by
  induction xs using root.induct node generalizing ys with
  | case1 => exact (List.length_eq_zero_iff.mp hlength.symm).symm
  | case2 a =>
      obtain ⟨b, rfl⟩ := List.length_eq_one_iff.mp hlength.symm
      rw [root_singleton, root_singleton] at h
      rw [h]
  | case3 a b rest ih =>
      rw [treePairs_eq, treePairs_eq ys] at hinj
      refine pairUp_inj hlength (fun x hx y hy =>
        hinj x (List.mem_append_left _ hx) y (List.mem_append_left _ hy)) (ih ?_ ?_ ?_)
      · rw [length_pairUp, length_pairUp, hlength]
      · exact fun x hx y hy =>
          hinj x (List.mem_append_right _ hx) y (List.mem_append_right _ hy)
      · rw [root_pairUp, root_pairUp, h]

end Waxseal.Merkle
