import Waxseal.Domain.Anchoring

/-!
# Consistency proofs

What `consistency_proof` generates and what `verify_consistency` accepts.

The generator recurses from the root down and the verifier climbs from the leaves up.
They meet in `proofNodes`: the last node of the smaller tree that is a full subtree
(`Merkle.Seed`) and its siblings on the way to the root.  Completeness is
`verifyConsistency_consistencyProof`.

The verifier does not check the width of the nodes it is offered, and its first step
hashes the first two nodes of the path glued together.  So besides the honest path it
accepts the same path with the seam between these two nodes moved, for an old root
rebuilt from the shortened or lengthened first node.  `verifyConsistency_pins_iff` says
that this is the only thing that goes wrong.
-/

namespace Waxseal

open Merkle

variable [Hashlib] {leaves : List Bytes} {m : ℕ}

/-- The nodes of a consistency proof, before the old root is left out of it: the last
node of the smaller tree and the siblings on its way to the root. -/
def proofNodes (leaves : List Bytes) (t fn : ℕ) : List Bytes :=
  ((level pairHash t (leaves.map leafHash))[fn]?).toList
    ++ siblings pairHash (level pairHash t (leaves.map leafHash)) fn

theorem isSplit_level {j t : ℕ} (h : IsSplit j leaves.length) (ht : t ≤ j) :
    IsSplit (j - t) (level pairHash t (leaves.map leafHash)).length :=
  IsSplit.level pairHash (by rwa [List.length_map]) ht

theorem level_take_map {j t : ℕ} (h : IsSplit j leaves.length) (ht : t ≤ j) :
    level pairHash t ((leaves.take (2 ^ j)).map leafHash)
      = (level pairHash t (leaves.map leafHash)).take (2 ^ (j - t)) := by
  have hpow : 2 ^ j = 2 ^ (j - t) * 2 ^ t := by rw [← pow_add, Nat.sub_add_cancel ht]
  have hlt := h.1
  rw [List.map_take, hpow, level_take pairHash t _ _ (by rw [List.length_map]; omega)]

theorem level_drop_map {j t : ℕ} (h : IsSplit j leaves.length) (ht : t ≤ j) :
    level pairHash t ((leaves.drop (2 ^ j)).map leafHash)
      = (level pairHash t (leaves.map leafHash)).drop (2 ^ (j - t)) := by
  have hpow : 2 ^ j = 2 ^ (j - t) * 2 ^ t := by rw [← pow_add, Nat.sub_add_cancel ht]
  have hlt := h.1
  rw [List.map_drop, hpow, level_drop pairHash t _ _ (by rw [List.length_map]; omega)]

theorem drop_root {j t : ℕ} (h : IsSplit j leaves.length) (ht : t ≤ j) :
    root pairHash emptyHash ((level pairHash t (leaves.map leafHash)).drop (2 ^ (j - t)))
      = treeHash (leaves.drop (2 ^ j)) := by
  rw [← level_drop_map h ht, root_level, treeHash_eq_root]

theorem take_root {j t : ℕ} (h : IsSplit j leaves.length) (ht : t ≤ j) :
    root pairHash emptyHash ((level pairHash t (leaves.map leafHash)).take (2 ^ (j - t)))
      = treeHash (leaves.take (2 ^ j)) := by
  rw [← level_take_map h ht, root_level, treeHash_eq_root]

/-- A list of `2 ^ t` leaves is one node at level `t`. -/
theorem level_of_length_eq {t : ℕ} (h : leaves.length = 2 ^ t) :
    level pairHash t (leaves.map leafHash) = [treeHash leaves] := by
  have hpos := Nat.two_pow_pos t
  have hne : leaves.map leafHash ≠ [] := by
    rw [Ne, List.map_eq_nil_iff]
    exact List.ne_nil_of_length_pos (by omega)
  have hlen := @length_level _ pairHash t _ hne
  rw [List.length_map, h, Nat.div_eq_of_lt (by omega)] at hlen
  obtain ⟨a, ha⟩ := List.length_eq_one_iff.mp hlen
  rw [treeHash_eq_root, ← root_level pairHash t, ha, root_singleton]

/-- One unfolding of SUBPROOF on a list it splits. -/
theorem consistencySubproof_split {j : ℕ} {complete : Bool} (h : IsSplit j leaves.length)
    (hk : splitPoint leaves.length = 2 ^ j) (hm : m ≠ leaves.length) :
    consistencySubproof m leaves complete
      = if m ≤ 2 ^ j then
          consistencySubproof m (leaves.take (2 ^ j)) complete ++ [treeHash (leaves.drop (2 ^ j))]
        else
          consistencySubproof (m - 2 ^ j) (leaves.drop (2 ^ j)) false
            ++ [treeHash (leaves.take (2 ^ j))] := by
  have hlt := h.1
  have hpos := Nat.two_pow_pos j
  rw [consistencySubproof, if_neg hm, if_neg (by omega), hk]

theorem proofNodes_split_left {j t fn : ℕ} (h : IsSplit j leaves.length) (ht : t ≤ j)
    (hfn : fn < 2 ^ (j - t)) :
    proofNodes (leaves.take (2 ^ j)) t fn ++ [treeHash (leaves.drop (2 ^ j))]
      = proofNodes leaves t fn := by
  rw [proofNodes, proofNodes, level_take_map h ht, ← drop_root h ht,
    siblings_split_left pairHash (isSplit_level h ht) hfn, List.getElem?_take_of_lt hfn,
    List.append_assoc]

theorem proofNodes_split_right {j t fn : ℕ} (h : IsSplit j leaves.length) (ht : t ≤ j)
    (hfn : 2 ^ (j - t) ≤ fn) (hlt : fn < (level pairHash t (leaves.map leafHash)).length) :
    proofNodes (leaves.drop (2 ^ j)) t (fn - 2 ^ (j - t)) ++ [treeHash (leaves.take (2 ^ j))]
      = proofNodes leaves t fn := by
  rw [proofNodes, proofNodes, level_drop_map h ht, ← take_root h ht,
    siblings_split_right pairHash (isSplit_level h ht) hfn hlt, List.getElem?_drop,
    Nat.add_sub_cancel' hfn, List.append_assoc]

/-- SUBPROOF without the old root: the seed node and its siblings. -/
theorem consistencySubproof_false (leaves : List Bytes) {m t fn : ℕ} (heven : fn % 2 = 0)
    (hm : m = (fn + 1) * 2 ^ t) (h : m < leaves.length ∨ m = leaves.length ∧ fn = 0) :
    consistencySubproof m leaves false = proofNodes leaves t fn := by
  induction hn : leaves.length using Nat.strong_induction_on generalizing leaves m fn with
  | _ n ih =>
      by_cases hmn : m = leaves.length
      · obtain rfl : fn = 0 := by omega
        have hlen : leaves.length = 2 ^ t := by rw [← hmn, hm, Nat.zero_add, Nat.one_mul]
        rw [consistencySubproof, if_pos hmn, proofNodes, level_of_length_eq hlen]
        simp
      · have hlt : m < leaves.length := by omega
        have hpos : 0 < m := hm ▸ Nat.mul_pos (Nat.succ_pos fn) (Nat.two_pow_pos t)
        obtain ⟨j, hk, hsplit⟩ := @splitPoint_spec leaves.length (by omega)
        obtain ⟨htj, hleft, hright⟩ := seed_split hsplit heven hm hlt
        have hj := hsplit.1
        have hjpos := Nat.two_pow_pos j
        rw [consistencySubproof_split hsplit hk hmn]
        by_cases hle : m ≤ 2 ^ j
        · have htake : (leaves.take (2 ^ j)).length = 2 ^ j := by
            rw [List.length_take]
            omega
          have hcases : m < 2 ^ j ∨ m = 2 ^ j ∧ fn = 0 := by
            rcases Nat.lt_or_ge m (2 ^ j) with hlt' | hge
            · exact Or.inl hlt'
            · have heq : m = 2 ^ j := by omega
              exact Or.inr ⟨heq, eq_zero_of_odd_mul_eq heven (hm ▸ heq)⟩
          rw [if_pos hle, ih (2 ^ j) (by omega) _ heven hm (htake.symm ▸ hcases) htake,
            proofNodes_split_left hsplit htj (hleft hle)]
        · obtain ⟨hfn, heven', hm'⟩ := hright (by omega)
          have hdrop : (leaves.drop (2 ^ j)).length = leaves.length - 2 ^ j := List.length_drop
          have hlevel : fn < (level pairHash t (leaves.map leafHash)).length :=
            lt_length_level pairHash (by rw [List.length_map, ← hm]; omega)
          rw [if_neg hle, ih (leaves.length - 2 ^ j) (by omega) _ heven' hm' (Or.inl (by omega))
            hdrop, proofNodes_split_right hsplit htj hfn hlevel]

/-- SUBPROOF keeps asking for the old root only at a power of two. -/
theorem consistencySubproof_true_eq (leaves : List Bytes) {m : ℕ} (hpos : 0 < m)
    (hm : ∀ j, m ≠ 2 ^ j) (h : m < leaves.length) :
    consistencySubproof m leaves true = consistencySubproof m leaves false := by
  induction hn : leaves.length using Nat.strong_induction_on generalizing leaves with
  | _ n ih =>
      obtain ⟨j, hk, hsplit⟩ := @splitPoint_spec leaves.length (by omega)
      have hj := hsplit.1
      have hne := hm j
      rw [consistencySubproof_split hsplit hk (by omega),
        consistencySubproof_split hsplit hk (by omega)]
      by_cases hle : m ≤ 2 ^ j
      · have htake : (leaves.take (2 ^ j)).length = 2 ^ j := by
          rw [List.length_take]
          omega
        rw [if_pos hle, if_pos hle, ih (2 ^ j) (by omega) _ (by omega) htake]
      · rw [if_neg hle, if_neg hle]

/-- SUBPROOF at a power of two: the siblings of the old root. -/
theorem consistencySubproof_two_pow (leaves : List Bytes) {t : ℕ} (h : 2 ^ t ≤ leaves.length) :
    consistencySubproof (2 ^ t) leaves true
      = siblings pairHash (level pairHash t (leaves.map leafHash)) 0 := by
  induction hn : leaves.length using Nat.strong_induction_on generalizing leaves with
  | _ n ih =>
      have hpos := Nat.two_pow_pos t
      by_cases hmn : 2 ^ t = leaves.length
      · rw [consistencySubproof, if_pos hmn, if_pos rfl, level_of_length_eq hmn.symm,
          siblings_singleton]
      · obtain ⟨j, hk, hsplit⟩ := @splitPoint_spec leaves.length (by omega)
        obtain ⟨htj, -, -⟩ := @seed_split (2 ^ t) t 0 j _ hsplit rfl (by simp) (by omega)
        have hj := hsplit.1
        have hle : 2 ^ t ≤ 2 ^ j := Nat.pow_le_pow_right (by norm_num) htj
        have htake : (leaves.take (2 ^ j)).length = 2 ^ j := by
          rw [List.length_take]
          omega
        rw [consistencySubproof_split hsplit hk hmn, if_pos hle,
          ih (2 ^ j) (by omega) _ (htake.symm ▸ hle) htake, level_take_map hsplit htj,
          ← drop_root hsplit htj,
          ← siblings_split_left pairHash (isSplit_level hsplit htj) (Nat.two_pow_pos _)]

/-! ## Accepted paths -/

/-- The bytes `pairHash` hashes for a pair. -/
def pairInput (x : Bytes × Bytes) : Bytes := 0x01 :: (x.1 ++ x.2)

/-- Everything the inner nodes of a tree hash. -/
def nodeInputs (leaves : List Bytes) : List Bytes :=
  (treePairs pairHash (leaves.map leafHash)).map pairInput

/-- Everything `consistencyFold` hashes on a path. -/
def foldInputs (m n : ℕ) : List Bytes → List Bytes
  | [] => []
  | seed :: path =>
      let (fn, sn) := stripOnes (m - 1) (n - 1)
      (frPairs pairHash fn sn seed path ++ srPairs pairHash fn sn seed path).map pairInput

theorem pairHash_inj {inputs : List Bytes} (hcf : CollisionFree inputs) {x y : Bytes × Bytes}
    (hx : pairInput x ∈ inputs) (hy : pairInput y ∈ inputs)
    (h : pairHash x.1 x.2 = pairHash y.1 y.2) : x.1 ++ x.2 = y.1 ++ y.2 :=
  (List.cons.inj (hcf _ hx _ hy (Subtype.ext h))).2

theorem length_of_mem_leafHashes {leaves : List Bytes} {b : Bytes}
    (hb : b ∈ leaves.map leafHash) : b.length = 32 := by
  obtain ⟨leaf, -, rfl⟩ := List.mem_map.mp hb
  exact length_leafHash leaf

/-- Every node of a tree has 32 bytes. -/
theorem length_of_mem_treePairs {leaves : List Bytes} {x : Bytes × Bytes}
    (hx : x ∈ treePairs pairHash (leaves.map leafHash)) : x.1.length = 32 ∧ x.2.length = 32 :=
  @forall_mem_treePairs _ pairHash (fun b => b.length = 32) length_pairHash _
    (fun _ hb => length_of_mem_leafHashes hb) x hx

theorem length_of_mem_level {leaves : List Bytes} {t : ℕ} {b : Bytes}
    (hb : b ∈ level pairHash t (leaves.map leafHash)) : b.length = 32 :=
  @forall_mem_level _ pairHash (fun b => b.length = 32) length_pairHash _ _
    (fun _ hx => length_of_mem_leafHashes hx) b hb

/-- In a walk that starts from 32 bytes, one half of every pair has 32 bytes: the
accumulator, which from then on is always a digest. -/
theorem length_of_mem_srPairs {path : List Bytes} {fn sn : ℕ} {sr : Bytes} (hsr : sr.length = 32)
    {x : Bytes × Bytes} (hx : x ∈ srPairs pairHash fn sn sr path) :
    x.1.length = 32 ∨ x.2.length = 32 := by
  induction path generalizing fn sn sr with
  | nil => simp [srPairs] at hx
  | cons sibling path ih =>
      rw [srPairs] at hx
      by_cases hsn : sn = 0
      · simp [hsn] at hx
      · by_cases hright : fn % 2 = 1 ∨ fn = sn
        · simp only [if_neg hsn, if_pos hright, List.mem_cons] at hx
          rcases hx with rfl | hx
          · exact Or.inr hsr
          · exact ih (length_pairHash _ _) hx
        · simp only [if_neg hsn, if_neg hright, List.mem_cons] at hx
          rcases hx with rfl | hx
          · exact Or.inl hsr
          · exact ih (length_pairHash _ _) hx

omit [Hashlib] in
/-- Two pairs with the same concatenation, one of them of 32-byte halves, are the
same pair as soon as one half of the other has 32 bytes. -/
theorem pair_eq_of_append_eq {x y : Bytes × Bytes} (h : x.1 ++ x.2 = y.1 ++ y.2)
    (hx : x.1.length = 32 ∨ x.2.length = 32) (hy : y.1.length = 32 ∧ y.2.length = 32) : x = y := by
  have hlen := congrArg List.length h
  rw [List.length_append, List.length_append] at hlen
  obtain ⟨h1, h2⟩ := List.append_inj h (by omega)
  exact Prod.ext h1 h2

/-- `consistencyFold` accepts when its walk ends at the two roots. -/
theorem consistencyFold_eq_true {oldHash newHash : Bytes} {m n : ℕ} {path : List Bytes} :
    consistencyFold oldHash newHash m n path = true ↔
      ∃ seed rest, path = seed :: rest ∧
        consistencyWalk pairHash (stripOnes (m - 1) (n - 1)).1 (stripOnes (m - 1) (n - 1)).2
          seed seed rest = some (oldHash, newHash, 0) := by
  cases path with
  | nil => simp [consistencyFold]
  | cons seed rest =>
      simp only [consistencyFold]
      rcases hw : consistencyWalk pairHash (stripOnes (m - 1) (n - 1)).1
          (stripOnes (m - 1) (n - 1)).2 seed seed rest with - | ⟨fr, sr, sn⟩
      · simp [hw]
      · simp [hw, and_assoc]

/-- `path` is the honest path of size `m` with the seam between its first two nodes,
64 bytes together, moved to byte `w`, and `oldHash` is the old root rebuilt with the
first of the two in its place. -/
def RecutAt (leaves : List Bytes) (m w : ℕ) (oldHash : Bytes) (path : List Bytes) : Prop :=
  ∃ t ls a c rs, Seed pairHash (leaves.map leafHash) m t ls a (c :: rs) ∧
    path = (a ++ c).take w :: (a ++ c).drop w ::
      siblings pairHash (pairUp pairHash ls ++ pairHash a c :: pairUp pairHash rs)
        (pairUp pairHash ls).length ∧
    oldHash = root pairHash emptyHash (ls ++ [(a ++ c).take w])

variable {oldHash : Bytes} {path : List Bytes}

theorem length_of_seed {t : ℕ} {ls rs : List Bytes} {a c : Bytes}
    (hseed : Seed pairHash (leaves.map leafHash) m t ls a (c :: rs)) :
    a.length = 32 ∧ c.length = 32 := by
  have hmem : ∀ b ∈ ls ++ a :: c :: rs, b.length = 32 := by
    rw [← hseed.level_eq]
    exact fun b hb => length_of_mem_level hb
  exact ⟨hmem a (by simp), hmem c (by simp)⟩

/-- The old root is the root of the shared level up to the seed. -/
theorem treeHash_take_of_seed {t : ℕ} {ls rs : List Bytes} {a : Bytes}
    (hseed : Seed pairHash (leaves.map leafHash) m t ls a rs) (hm : m ≤ leaves.length) :
    treeHash (leaves.take m) = root pairHash emptyHash (ls ++ [a]) := by
  rw [treeHash_eq_root, List.map_take, hseed.root_take (by rwa [List.length_map])]

theorem RecutAt.lt {w : ℕ} (h : RecutAt leaves m w oldHash path) : m < leaves.length := by
  obtain ⟨t, ls, a, c, rs, hseed, -, -⟩ := h
  simpa using hseed.lt

/-- A moved seam goes unnoticed: the pair hash of the first step is the same. -/
theorem RecutAt.accepted {w : ℕ} (h : RecutAt leaves m w oldHash path) :
    consistencyFold oldHash (treeHash leaves) m leaves.length path = true := by
  obtain ⟨t, ls, a, c, rs, hseed, rfl, rfl⟩ := h
  have hstrip := hseed.stripOnes_eq hseed.lt.le
  have hpair : pairHash ((a ++ c).take w) ((a ++ c).drop w) = pairHash a c := by
    rw [pairHash, List.take_append_drop, pairHash]
  rw [List.length_map] at hstrip
  rw [consistencyFold_eq_true]
  refine ⟨_, _, rfl, ?_⟩
  rw [hstrip, (consistencyWalk_left pairHash c hseed.even).1, hpair, consistencyWalk_siblings,
    ← pairUp_left pairHash a c rs hseed.even, ← pairUp_last pairHash _ hseed.even, root_pairUp,
    root_pairUp, ← hseed.level_eq, root_level, treeHash_eq_root]

/-- **What `verify_consistency` accepts** below the current size: the honest path, or
the honest path with its first seam moved. -/
theorem consistencyFold_iff (hm : 1 ≤ m) (hlt : m < leaves.length)
    (hcf : CollisionFree (foldInputs m leaves.length path ++ nodeInputs leaves)) :
    consistencyFold oldHash (treeHash leaves) m leaves.length path = true ↔
      ∃ w, RecutAt leaves m w oldHash path := by
  refine ⟨fun h => ?_, fun ⟨w, hw⟩ => hw.accepted⟩
  obtain ⟨t, ls, a, rs, hseed⟩ :=
    @exists_seed _ pairHash (leaves.map leafHash) m hm (by rw [List.length_map]; omega)
  obtain ⟨c, rs, rfl⟩ := List.exists_cons_of_ne_nil
    (hseed.rs_ne_nil (by rwa [List.length_map]))
  have hstrip := hseed.stripOnes_eq (by rw [List.length_map]; omega)
  rw [List.length_map] at hstrip
  obtain ⟨seed, rest, rfl, hwalk⟩ := consistencyFold_eq_true.mp h
  rw [hstrip] at hwalk
  cases rest with
  | nil => simp [consistencyWalk] at hwalk
  | cons node₁ rest =>
      obtain ⟨hstep, hpairs, -⟩ :=
        @consistencyWalk_left _ pairHash ls rs seed seed node₁ rest c hseed.even
      obtain ⟨hac, hup⟩ := @treePairs_left _ pairHash _ a c rs hseed.even
      have hlevel := treePairs_level_subset pairHash t (leaves.map leafHash)
      rw [hseed.level_eq] at hlevel
      have hfold : ∀ x ∈ srPairs pairHash ls.length (ls.length + (c :: rs).length) seed
          (node₁ :: rest), pairInput x ∈ foldInputs m leaves.length (seed :: node₁ :: rest)
            ++ nodeInputs leaves := by
        intro x hx
        simp only [foldInputs, hstrip, List.mem_append, List.mem_map]
        exact Or.inl ⟨x, Or.inr hx, rfl⟩
      have hnode : ∀ x ∈ treePairs pairHash (leaves.map leafHash), pairInput x ∈
          foldInputs m leaves.length (seed :: node₁ :: rest) ++ nodeInputs leaves :=
        fun x hx => List.mem_append_right _ (List.mem_map_of_mem hx)
      rw [hpairs] at hfold
      rw [hstep, treeHash_eq_root, ← root_level pairHash t, hseed.level_eq, ← root_pairUp,
        pairUp_left pairHash a c rs hseed.even] at hwalk
      obtain ⟨hpair, hold, hrest⟩ := consistencyWalk_sound pairHash _ _ _ (fun x hx y hy hxy =>
        pair_eq_of_append_eq
          (pairHash_inj hcf (hfold x (List.mem_cons_of_mem _ hx)) (hnode y (hlevel (hup hy))) hxy)
          (length_of_mem_srPairs (length_pairHash _ _) hx)
          (length_of_mem_treePairs (hlevel (hup hy)))) hwalk
      have hcat : seed ++ node₁ = a ++ c :=
        pairHash_inj hcf (hfold _ List.mem_cons_self) (hnode _ (hlevel hac)) hpair
      refine ⟨seed.length, t, ls, a, c, rs, hseed, ?_, ?_⟩
      · rw [← hcat, List.take_left, List.drop_left, hrest]
      · rw [← hcat, List.take_left, hold, ← pairUp_last pairHash seed hseed.even, root_pairUp]

/-- **An accepted path pins the old root exactly when its seam is in place.** -/
theorem RecutAt.old_root_iff {w : ℕ} (h : RecutAt leaves m w oldHash path)
    (hcf : CollisionFree (foldInputs m leaves.length path ++ nodeInputs (leaves.take m))) :
    oldHash = treeHash (leaves.take m) ↔ w = 32 := by
  obtain ⟨t, ls, a, c, rs, hseed, rfl, rfl⟩ := h
  have hlt := hseed.lt
  have hstrip := hseed.stripOnes_eq hlt.le
  rw [List.length_map] at hstrip hlt
  obtain ⟨ha, hc⟩ := length_of_seed hseed
  rw [treeHash_take_of_seed hseed hlt.le]
  constructor
  · intro hroot
    -- compare the two walks one level up, where both go along the same siblings
    have hwalk := @consistencyWalk_siblings _ pairHash emptyHash (pairUp pairHash ls)
      (pairHash a c) (pairUp pairHash rs)
    have hcut := hwalk ((a ++ c).take w)
    have hhonest := hwalk a
    rw [← pairUp_last pairHash _ hseed.even, root_pairUp, hroot] at hcut
    rw [← pairUp_last pairHash _ hseed.even, root_pairUp] at hhonest
    have heq : (a ++ c).take w = a := by
      refine @consistencyWalk_fr_inj _ pairHash {x | pairInput x ∈ foldInputs m leaves.length ((a ++ c).take w :: (a ++ c).drop w ::
          siblings pairHash (pairUp pairHash ls ++ pairHash a c :: pairUp pairHash rs)
            (pairUp pairHash ls).length) ++ nodeInputs (leaves.take m)}
        (fun l x y hx hy hxy => List.append_cancel_left (@pairHash_inj _ _ hcf (l, x) (l, y) hx hy hxy))
        _ _ _ _ _ _ _ _ _ _ _ _ hcut hhonest ?_ ?_
      · intro x hx
        have hfr := (@consistencyWalk_left _ pairHash ls rs ((a ++ c).take w) ((a ++ c).take w)
          ((a ++ c).drop w) (siblings pairHash (pairUp pairHash ls ++ pairHash a c ::
            pairUp pairHash rs) (pairUp pairHash ls).length) c hseed.even).2.2
        simp only [Set.mem_ofPred_eq, foldInputs, hstrip, hfr, List.mem_append, List.mem_map]
        exact Or.inl ⟨x, Or.inl hx, rfl⟩
      · intro x hx
        have hold := frPairs_siblings_subset pairHash _ _ _ _ hx
        have hup := @treePairs_last _ pairHash _ a hseed.even _ hold
        have hlevel := treePairs_level_subset pairHash t ((leaves.map leafHash).take m)
        rw [hseed.level_take_eq (by rw [List.length_map]; omega), ← List.map_take] at hlevel
        exact List.mem_append_right _ (List.mem_map_of_mem (hlevel hup))
    have hlen := congrArg List.length heq
    rw [List.length_take, List.length_append] at hlen
    omega
  · rintro rfl
    rw [List.take_left' ha]

/-- The honest proof, with the old root put back where it is left out, starts with the
seed and goes on with its siblings. -/
theorem consistencyPath_subproof {t : ℕ} {ls : List Bytes} {a c : Bytes} {rs : List Bytes}
    (hseed : Seed pairHash (leaves.map leafHash) m t ls a (c :: rs)) :
    consistencyPath (treeHash (leaves.take m)) m (consistencySubproof m leaves true)
      = a :: c :: siblings pairHash (pairUp pairHash ls ++ pairHash a c :: pairUp pairHash rs)
          (pairUp pairHash ls).length := by
  have hlt : m < leaves.length := by simpa using hseed.lt
  have heven := Nat.even_iff.mp hseed.even
  have hsib := siblings_left pairHash a c rs hseed.even
  rw [consistencyPath]
  by_cases h0 : ls.length = 0
  · have hm : m = 2 ^ t := by simpa [h0] using hseed.size
    have hroot : treeHash (leaves.take m) = a := by
      rw [treeHash_take_of_seed hseed hlt.le, List.length_eq_zero_iff.mp h0, List.nil_append,
        root_singleton]
    rw [if_pos ((and_pred_eq_zero_iff heven hseed.size).mpr h0), hroot, hm,
      consistencySubproof_two_pow leaves (by omega), hseed.level_eq, ← hsib, h0]
  · have hne : ∀ j, m ≠ 2 ^ j := fun j hj =>
      h0 (eq_zero_of_odd_mul_eq heven (hseed.size.symm.trans hj))
    have hpos : 0 < m := hseed.size ▸ Nat.mul_pos (Nat.succ_pos _) (Nat.two_pow_pos t)
    rw [if_neg (mt (and_pred_eq_zero_iff heven hseed.size).mp h0),
      consistencySubproof_true_eq leaves hpos hne hlt,
      consistencySubproof_false leaves heven hseed.size (Or.inl hlt), proofNodes, hseed.level_eq,
      hsib]
    simp

/-- Where all nodes have 32 bytes, the seam is in place. -/
theorem RecutAt.eq_seam {w : ℕ} (h : RecutAt leaves m w oldHash path)
    (hlen : ∀ b ∈ path, b.length = 32) : w = 32 := by
  obtain ⟨t, ls, a, c, rs, hseed, rfl, -⟩ := h
  obtain ⟨ha, hc⟩ := length_of_seed hseed
  have hfirst := hlen _ List.mem_cons_self
  rw [List.length_take, List.length_append] at hfirst
  omega

omit [Hashlib] in
theorem consistencyPath_inj {proof proof' : List Bytes}
    (h : consistencyPath oldHash m proof = consistencyPath oldHash m proof') : proof = proof' := by
  unfold consistencyPath at h
  split at h
  · exact (List.cons.inj h).2
  · exact h

/-- The path with its seam in place is the honest one. -/
theorem recutAt_seam_iff (hm : 1 ≤ m) (hlt : m < leaves.length) {proof : List Bytes} :
    RecutAt leaves m 32 oldHash (consistencyPath oldHash m proof) ↔
      oldHash = treeHash (leaves.take m) ∧ proof = consistencySubproof m leaves true := by
  constructor
  · rintro ⟨t, ls, a, c, rs, hseed, hpath, hold⟩
    obtain ⟨ha, -⟩ := length_of_seed hseed
    rw [List.take_left' ha, ← treeHash_take_of_seed hseed hlt.le] at hold
    rw [List.take_left' ha, List.drop_left' ha, ← consistencyPath_subproof hseed, hold] at hpath
    exact ⟨hold, consistencyPath_inj hpath⟩
  · rintro ⟨rfl, rfl⟩
    obtain ⟨t, ls, a, rs, hseed⟩ :=
      @exists_seed _ pairHash (leaves.map leafHash) m hm (by rw [List.length_map]; omega)
    obtain ⟨c, rs, rfl⟩ := List.exists_cons_of_ne_nil
      (hseed.rs_ne_nil (by rwa [List.length_map]))
    obtain ⟨ha, -⟩ := length_of_seed hseed
    refine ⟨t, ls, a, c, rs, hseed, ?_, ?_⟩
    · rw [List.take_left' ha, List.drop_left' ha, consistencyPath_subproof hseed]
    · rw [List.take_left' ha, treeHash_take_of_seed hseed hlt.le]

/-- A path has at least the two nodes on both sides of its seam, so the proof is not
empty even where the old root is put in front. -/
theorem RecutAt.proof_ne_nil {w : ℕ} {proof : List Bytes}
    (h : RecutAt leaves m w oldHash (consistencyPath oldHash m proof)) : proof ≠ [] := by
  obtain ⟨t, ls, a, c, rs, -, hpath, -⟩ := h
  rintro rfl
  have hlen := congrArg List.length hpath
  unfold consistencyPath at hlen
  split at hlen <;> simp at hlen

/-! ## The verifier on hex strings -/


/-- The tests `verify_consistency` makes, on the decoded strings. -/
theorem verifyConsistency_eq_true {r : PyStr} {m n : ℤ} {newHash : Bytes} {p : List PyStr} :
    verifyConsistency r m (hex newHash) n p = true ↔
      1 ≤ m ∧ m ≤ n ∧ ∃ oldHash path, fromhex r = some oldHash ∧ p.mapM fromhex = some path ∧
        (m = n ∧ path = [] ∧ oldHash = newHash ∨
          m < n ∧ path ≠ [] ∧ consistencyFold oldHash newHash m.toNat n.toNat
            (consistencyPath oldHash m.toNat path) = true) := by
  rw [verifyConsistency]
  by_cases hsize : m < 1 ∨ n < m
  · rw [if_pos hsize]
    constructor
    · intro h
      cases h
    · rintro ⟨hm, hn, -⟩
      omega
  · rw [if_neg hsize, fromhex_hex]
    rcases hr : fromhex r with - | oldHash
    · simp
    · rcases hp : p.mapM fromhex with - | path
      · simp
      · have hm : 1 ≤ m := by omega
        have hn : m ≤ n := by omega
        by_cases heq : m = n
        · simp [heq, hn.trans' hm]
        · have hlt : m < n := by omega
          cases path <;> simp [heq, hm, hn, hlt]

/-- What `verify_consistency` hashes on an offered old root and proof. -/
def consistencyInputs (r : PyStr) (m n : ℤ) (p : List PyStr) : List Bytes :=
  match fromhex r, p.mapM fromhex with
  | some oldHash, some path => foldInputs m.toNat n.toNat (consistencyPath oldHash m.toNat path)
  | _, _ => []

/-- The old root and proof are the honest ones of size `m`, except that the seam
between the first two nodes of the path, the old root among them when `m` is a power of
two, is not after 32 bytes. -/
def MovedSeam (leaves : List Bytes) (r : PyStr) (m : ℤ) (p : List PyStr) : Prop :=
  1 ≤ m ∧ ∃ oldHash path w, fromhex r = some oldHash ∧ p.mapM fromhex = some path ∧ w ≠ 32 ∧
    RecutAt leaves m.toNat w oldHash (consistencyPath oldHash m.toNat path)

/-- The old root and proof are the honest ones of size `m`, but the old root is not in
the spelling `batch_root` gives it. -/
def Respelled (leaves : List Bytes) (r : PyStr) (m : ℤ) (p : List PyStr) : Prop :=
  1 ≤ m ∧ m ≤ leaves.length ∧ fromhex r = some (treeHash (leaves.take m.toNat)) ∧
    r ≠ hex (treeHash (leaves.take m.toNat)) ∧
    p.mapM fromhex = some (consistencySubproof m.toNat leaves true)

theorem batchRoot_eq {hs : List PyStr} (h : hs.mapM fromhex = some leaves) :
    batchRoot hs = .ok (hex (treeHash leaves)) := by
  rw [batchRoot, h]

/-- The proof of the current size itself is empty. -/
theorem consistencySubproof_self (leaves : List Bytes) :
    consistencySubproof leaves.length leaves true = [] := by
  rw [consistencySubproof, if_pos rfl, if_pos rfl]

/-- **Consistency proofs are complete**: what `consistency_proof` returns for any size of
the trail, `verify_consistency` accepts for the two roots. -/
theorem verifyConsistency_consistencyProof (hs : List PyStr) (m : ℕ) (hm : 1 ≤ m)
    (hle : m ≤ hs.length) (hhex : ∀ h ∈ hs, (fromhex h).isSome) :
    ∃ oldRoot newRoot proof,
      batchRoot (hs.take m) = .ok oldRoot ∧ batchRoot hs = .ok newRoot ∧
      consistencyProof hs m = .ok proof ∧
      verifyConsistency oldRoot m newRoot hs.length proof = true := by
  obtain ⟨leaves, hleaves⟩ := exists_mapM_fromhex hhex
  have hlen := length_of_mapM_fromhex hleaves
  refine ⟨_, _, (consistencySubproof m leaves true).map hex,
    batchRoot_eq (mapM_fromhex_take hleaves m), batchRoot_eq hleaves, ?_, ?_⟩
  · rw [consistencyProof, if_pos (by omega), hleaves, Int.toNat_natCast]
  · rw [verifyConsistency_eq_true]
    refine ⟨by omega, by omega, _, _, fromhex_hex _, mapM_fromhex_hex _, ?_⟩
    rcases hle.eq_or_lt with heq | hlt
    · refine Or.inl ⟨by omega, ?_, ?_⟩
      · rw [heq, hlen, consistencySubproof_self]
      · rw [List.take_of_length_le (by omega)]
    · have hseam := (@recutAt_seam_iff _ leaves m _ hm (by omega) _).mpr ⟨rfl, rfl⟩
      rw [Int.toNat_natCast, Int.toNat_natCast, hlen]
      exact Or.inr ⟨by omega, hseam.proof_ne_nil, hseam.accepted⟩

/-- What `verify_consistency` accepts, on a trail whose root it is given. -/
theorem verifyConsistency_iff {r : PyStr} {m : ℤ} {p : List PyStr}
    (hcf : CollisionFree (consistencyInputs r m leaves.length p ++ nodeInputs leaves)) :
    verifyConsistency r m (hex (treeHash leaves)) leaves.length p = true ↔
      1 ≤ m ∧ m ≤ leaves.length ∧ ∃ oldHash path,
        fromhex r = some oldHash ∧ p.mapM fromhex = some path ∧
        (m = leaves.length ∧ path = [] ∧ oldHash = treeHash leaves ∨
          m < leaves.length ∧
            ∃ w, RecutAt leaves m.toNat w oldHash (consistencyPath oldHash m.toNat path)) := by
  rw [verifyConsistency_eq_true]
  refine and_congr_right fun hm => and_congr_right fun hle => ?_
  refine exists_congr fun oldHash => exists_congr fun path => and_congr_right fun hr =>
    and_congr_right fun hp => or_congr_right (and_congr_right fun hlt => ?_)
  rw [consistencyInputs, hr, hp, Int.toNat_natCast] at hcf
  have hiff := @consistencyFold_iff _ leaves m.toNat oldHash _ (by omega) (by omega) hcf
  rw [Int.toNat_natCast, hiff]
  constructor
  · rintro ⟨-, hw⟩
    exact hw
  · rintro ⟨w, hw⟩
    exact ⟨hw.proof_ne_nil, w, hw⟩

/-- A proof is accepted because it is honest or because its seam was moved. -/
theorem verifyConsistency_cases {r : PyStr} {m : ℤ} {p : List PyStr}
    (hcf : CollisionFree (consistencyInputs r m leaves.length p ++ nodeInputs leaves))
    (h : verifyConsistency r m (hex (treeHash leaves)) leaves.length p = true) :
    MovedSeam leaves r m p ∨
      1 ≤ m ∧ m ≤ leaves.length ∧ fromhex r = some (treeHash (leaves.take m.toNat)) ∧
        p.mapM fromhex = some (consistencySubproof m.toNat leaves true) := by
  obtain ⟨hm, hle, oldHash, path, hr, hp, hcase⟩ := (verifyConsistency_iff hcf).mp h
  rcases hcase with ⟨rfl, rfl, rfl⟩ | ⟨hlt, w, hw⟩
  · refine Or.inr ⟨hm, hle, ?_, ?_⟩
    · rw [hr, Int.toNat_natCast, List.take_length]
    · rw [hp, Int.toNat_natCast, consistencySubproof_self]
  · by_cases hseam : w = 32
    · rw [hseam, recutAt_seam_iff (by omega) (by omega)] at hw
      rw [hr, hp, hw.1, hw.2]
      exact Or.inr ⟨hm, hle, rfl, rfl⟩
    · exact Or.inl ⟨hm, oldHash, path, w, hr, hp, hseam, hw⟩

/-- A proof with a moved seam is accepted for an old root that is not the honest one. -/
theorem MovedSeam.accepted {r : PyStr} {m : ℤ} {p : List PyStr} (h : MovedSeam leaves r m p)
    (hcf : CollisionFree (consistencyInputs r m leaves.length p
      ++ nodeInputs (leaves.take m.toNat))) :
    verifyConsistency r m (hex (treeHash leaves)) leaves.length p = true ∧
      fromhex r ≠ some (treeHash (leaves.take m.toNat)) := by
  obtain ⟨hm, oldHash, path, w, hr, hp, hw, hcut⟩ := h
  have hlt := hcut.lt
  rw [consistencyInputs, hr, hp, Int.toNat_natCast] at hcf
  constructor
  · rw [verifyConsistency_eq_true, Int.toNat_natCast]
    exact ⟨hm, by omega, oldHash, path, hr, hp,
      Or.inr ⟨by omega, hcut.proof_ne_nil, hcut.accepted⟩⟩
  · rw [hr, Ne, Option.some.injEq, hcut.old_root_iff hcf]
    exact hw

/-- A respelled old root is accepted. -/
theorem Respelled.accepted {r : PyStr} {m : ℤ} {p : List PyStr} (h : Respelled leaves r m p) :
    verifyConsistency r m (hex (treeHash leaves)) leaves.length p = true := by
  obtain ⟨hm, hle, hr, -, hp⟩ := h
  rw [verifyConsistency_eq_true]
  refine ⟨hm, hle, _, _, hr, hp, ?_⟩
  rcases hle.eq_or_lt with rfl | hlt
  · rw [Int.toNat_natCast, consistencySubproof_self, List.take_length]
    exact Or.inl ⟨rfl, rfl, rfl⟩
  · have hseam := (@recutAt_seam_iff _ leaves m.toNat _ (by omega) (by omega) _).mpr ⟨rfl, rfl⟩
    rw [Int.toNat_natCast]
    exact Or.inr ⟨hlt, hseam.proof_ne_nil, hseam.accepted⟩

/-- **An accepted proof pins the old root** exactly when its seam has not been moved;
and it pins the old root's spelling exactly when, besides, the offered root is not a
respelling. -/
theorem verifyConsistency_pins_iff (hs : List PyStr) (r : PyStr) (m : ℤ) (p : List PyStr)
    {leaves : List Bytes} {newRoot oldRoot : PyStr} (hleaves : hs.mapM fromhex = some leaves)
    (hnew : batchRoot hs = .ok newRoot) (hold : batchRoot (hs.take m.toNat) = .ok oldRoot)
    (hcf : CollisionFree (consistencyInputs r m hs.length p ++ nodeInputs leaves
      ++ nodeInputs (leaves.take m.toNat))) :
    ((verifyConsistency r m newRoot hs.length p = true → fromhex r = fromhex oldRoot) ↔
        ¬MovedSeam leaves r m p) ∧
      ((verifyConsistency r m newRoot hs.length p = true → r = oldRoot) ↔
        ¬MovedSeam leaves r m p ∧ ¬Respelled leaves r m p) := by
  rw [batchRoot_eq hleaves, Except.ok.injEq] at hnew
  rw [batchRoot_eq (mapM_fromhex_take hleaves _), Except.ok.injEq] at hold
  subst hnew hold
  rw [length_of_mapM_fromhex hleaves] at hcf ⊢
  rw [fromhex_hex]
  have hcases := @verifyConsistency_cases _ leaves r m p
    (hcf.mono (List.subset_append_left _ _))
  have hmoved : MovedSeam leaves r m p → _ := fun h => h.accepted (hcf.mono (by
    intro x hx
    simp only [List.mem_append] at hx ⊢
    tauto))
  refine ⟨⟨?_, ?_⟩, ⟨?_, ?_⟩⟩
  · intro h hseam
    obtain ⟨haccept, hne⟩ := hmoved hseam
    exact hne (h haccept)
  · intro hseam haccept
    exact ((hcases haccept).resolve_left hseam).2.2.1
  · intro h
    refine ⟨fun hseam => ?_, fun hspell => hspell.2.2.2.1 (h hspell.accepted)⟩
    obtain ⟨haccept, hne⟩ := hmoved hseam
    rw [h haccept, fromhex_hex] at hne
    exact hne rfl
  · rintro ⟨hseam, hspell⟩ haccept
    obtain ⟨hm, hle, hr, hp⟩ := (hcases haccept).resolve_left hseam
    by_contra hne
    exact hspell ⟨hm, hle, hr, hne, hp⟩

/-! ## Two entries and the empty old root -/

section Example

/-- Two entry hashes. -/
def twoLeaves : List Bytes := [List.replicate 32 0, List.replicate 32 1]

/-- The two leaf hashes in one proof node: the honest path of size 1 with its seam
moved to the front. -/
def gluedNode : PyStr :=
  letI := Sha256.hashlib
  hex (leafHash (List.replicate 32 0) ++ leafHash (List.replicate 32 1))

omit [Hashlib] in
/-- `verify_consistency("", 1, batch_root(hs), 2, [glued])` is true, although the empty
string is no root of `hs[:1]`. -/
theorem verifyConsistency_moved_seam :
    letI := Sha256.hashlib
    ∃ newRoot oldRoot, batchRoot (twoLeaves.map hex) = .ok newRoot ∧
      batchRoot ((twoLeaves.map hex).take 1) = .ok oldRoot ∧
      CollisionFree (consistencyInputs [] 1 2 [gluedNode] ++ nodeInputs twoLeaves
        ++ nodeInputs (twoLeaves.take 1)) ∧
      verifyConsistency [] 1 newRoot 2 [gluedNode] = true ∧ fromhex [] ≠ fromhex oldRoot := by
  let _ := Sha256.hashlib
  refine ⟨hex (treeHash twoLeaves), hex (treeHash (twoLeaves.take 1)), ?_, ?_, ?_, ?_, ?_⟩
  all_goals decide +kernel

omit [Hashlib] in
/-- By the characterization, it is a moved seam that was accepted there. -/
theorem verifyConsistency_pins_iff_glued :
    letI := Sha256.hashlib
    MovedSeam twoLeaves [] 1 [gluedNode] := by
  let _ := Sha256.hashlib
  by_contra hseam
  have hpins := ((verifyConsistency_pins_iff (twoLeaves.map hex) [] 1 [gluedNode]
    (mapM_fromhex_hex twoLeaves) (batchRoot_eq (mapM_fromhex_hex twoLeaves))
    (batchRoot_eq (mapM_fromhex_take (mapM_fromhex_hex twoLeaves) _))
    (by decide +kernel)).1.mpr hseam) (by decide +kernel)
  revert hpins
  decide +kernel

omit [Hashlib] in
/-- The proof of size 1 of two entries is accepted. -/
theorem verifyConsistency_consistencyProof_two :
    letI := Sha256.hashlib
    ∃ oldRoot newRoot proof,
      batchRoot ((twoLeaves.map hex).take 1) = .ok oldRoot ∧
      batchRoot (twoLeaves.map hex) = .ok newRoot ∧
      consistencyProof (twoLeaves.map hex) 1 = .ok proof ∧
      verifyConsistency oldRoot 1 newRoot 2 proof = true := by
  let _ := Sha256.hashlib
  exact verifyConsistency_consistencyProof (twoLeaves.map hex) 1 (by decide) (by decide)
    (by decide +kernel)

end Example

end Waxseal
