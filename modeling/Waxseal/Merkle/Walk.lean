import Waxseal.Merkle.Tree

/-!
# Proof walks

A Merkle proof is checked without the tree, from two numbers and a list of
nodes: `fn` is the position of the current node in its level and `sn` the
position of the level's last node (RFC 9162 sections 2.1.3.2 and 2.1.4.2).
`consistencyWalk` and `membershipWalk` are the two loops over the proof nodes.

`siblings` is the list of nodes such a walk needs.  Completeness
(`consistencyWalk_siblings`) says the walk accepts it; soundness
(`consistencyWalk_sound`) says an accepted walk that ends at the root of a level
started from the node of that level, whatever the proof nodes were.
-/

namespace Waxseal.Merkle

universe u

variable {D : Type u} (node : D → D → D) {e : D}

/-! ## The loops -/

/-- `while LSB(fn): fn >>= 1; sn >>= 1`. -/
def stripOnes (fn sn : ℕ) : ℕ × ℕ :=
  if fn % 2 = 1 then stripOnes (fn / 2) (sn / 2) else (fn, sn)
termination_by fn
decreasing_by omega

/-- `while not LSB(fn) and fn != 0: fn >>= 1; sn >>= 1`. -/
def stripZeros (fn sn : ℕ) : ℕ × ℕ :=
  if fn % 2 = 0 ∧ fn ≠ 0 then stripZeros (fn / 2) (sn / 2) else (fn, sn)
termination_by fn
decreasing_by omega

/-- The loop over the nodes of a consistency proof.  `fr` and `sr` accumulate
the old and the new root; `none` is a proof that goes on after the root. -/
def consistencyWalk : ℕ → ℕ → D → D → List D → Option (D × D × ℕ)
  | _, sn, fr, sr, [] => some (fr, sr, sn)
  | fn, sn, fr, sr, sibling :: path =>
      if sn = 0 then none
      else if fn % 2 = 1 ∨ fn = sn then
        let (fn, sn) := stripZeros fn sn
        consistencyWalk (fn / 2) (sn / 2) (node sibling fr) (node sibling sr) path
      else consistencyWalk (fn / 2) (sn / 2) fr (node sr sibling) path

/-- The loop over the nodes of a membership proof. -/
def membershipWalk : ℕ → ℕ → D → List D → Option (D × ℕ)
  | _, sn, a, [] => some (a, sn)
  | fn, sn, a, sibling :: path =>
      if sn = 0 then none
      else if fn % 2 = 1 ∨ fn = sn then
        let (fn, sn) := if fn % 2 = 0 then stripZeros (fn / 2) (sn / 2) else (fn, sn)
        membershipWalk (fn / 2) (sn / 2) (node sibling a) path
      else membershipWalk (fn / 2) (sn / 2) (node a sibling) path

/-- The pairs a consistency walk hashes into `sr`. -/
def srPairs : ℕ → ℕ → D → List D → List (D × D)
  | _, _, _, [] => []
  | fn, sn, sr, sibling :: path =>
      if sn = 0 then []
      else if fn % 2 = 1 ∨ fn = sn then
        let (fn, sn) := stripZeros fn sn
        (sibling, sr) :: srPairs (fn / 2) (sn / 2) (node sibling sr) path
      else (sr, sibling) :: srPairs (fn / 2) (sn / 2) (node sr sibling) path

/-- The pairs a consistency walk hashes into `fr`. -/
def frPairs : ℕ → ℕ → D → List D → List (D × D)
  | _, _, _, [] => []
  | fn, sn, fr, sibling :: path =>
      if sn = 0 then []
      else if fn % 2 = 1 ∨ fn = sn then
        let (fn, sn) := stripZeros fn sn
        (sibling, fr) :: frPairs (fn / 2) (sn / 2) (node sibling fr) path
      else frPairs (fn / 2) (sn / 2) fr path

theorem stripZeros_odd {fn sn : ℕ} (h : fn % 2 = 1) : stripZeros fn sn = (fn, sn) := by
  rw [stripZeros, if_neg (by omega)]

theorem stripZeros_even {fn sn : ℕ} (h : fn % 2 = 0) (h0 : fn ≠ 0) :
    stripZeros fn sn = stripZeros (fn / 2) (sn / 2) := by
  rw [stripZeros, if_pos ⟨h, h0⟩]

/-- `fn` loses its trailing ones and `sn` as many bits. -/
theorem stripOnes_spec (fn sn : ℕ) :
    ∃ t, (stripOnes fn sn).1 % 2 = 0 ∧ fn + 1 = ((stripOnes fn sn).1 + 1) * 2 ^ t ∧
      (stripOnes fn sn).2 = sn / 2 ^ t := by
  induction fn, sn using stripOnes.induct with
  | case1 fn sn hodd ih =>
      obtain ⟨t, heven, hfn, hsn⟩ := ih
      rw [stripOnes, if_pos hodd]
      refine ⟨t + 1, heven, ?_, ?_⟩
      · rw [pow_succ, ← mul_assoc, ← hfn]
        omega
      · rw [hsn, pow_succ', Nat.div_div_eq_div_mul]
  | case2 fn sn heven =>
      rw [stripOnes, if_neg heven]
      exact ⟨0, by simpa using heven, by simp, by simp⟩

/-! ## One step of a walk, on a level -/

section Steps

variable {ls rs : List D} {fr sr sibling : D} {path : List D}

/-- The step of a right child. -/
theorem consistencyWalk_right (b : D) (h : Even ls.length) :
    consistencyWalk node (ls ++ [b]).length ((ls ++ [b]).length + rs.length) fr sr
        (sibling :: path)
      = consistencyWalk node (pairUp node ls).length
          ((pairUp node ls).length + (pairUp node rs).length)
          (node sibling fr) (node sibling sr) path ∧
    srPairs node (ls ++ [b]).length ((ls ++ [b]).length + rs.length) sr (sibling :: path)
      = (sibling, sr) :: srPairs node (pairUp node ls).length
          ((pairUp node ls).length + (pairUp node rs).length) (node sibling sr) path ∧
    frPairs node (ls ++ [b]).length ((ls ++ [b]).length + rs.length) fr (sibling :: path)
      = (sibling, fr) :: frPairs node (pairUp node ls).length
          ((pairUp node ls).length + (pairUp node rs).length) (node sibling fr) path := by
  have hls := length_pairUp_of_even node h
  have hrs := length_pairUp node rs
  have hodd : (ls ++ [b]).length % 2 = 1 := by simp; omega
  have hfn : (ls ++ [b]).length / 2 = (pairUp node ls).length := by simp; omega
  have hsn : ((ls ++ [b]).length + rs.length) / 2
      = (pairUp node ls).length + (pairUp node rs).length := by simp; omega
  have hpos : (ls ++ [b]).length + rs.length ≠ 0 := by simp
  rw [consistencyWalk, srPairs, frPairs]
  simp only [if_neg hpos, hodd, true_or, if_true, stripZeros_odd hodd, hfn, hsn, and_self]

/-- The step of a left child. -/
theorem consistencyWalk_left (c : D) (h : Even ls.length) :
    consistencyWalk node ls.length (ls.length + (c :: rs).length) fr sr (sibling :: path)
      = consistencyWalk node (pairUp node ls).length
          ((pairUp node ls).length + (pairUp node rs).length) fr (node sr sibling) path ∧
    srPairs node ls.length (ls.length + (c :: rs).length) sr (sibling :: path)
      = (sr, sibling) :: srPairs node (pairUp node ls).length
          ((pairUp node ls).length + (pairUp node rs).length) (node sr sibling) path ∧
    frPairs node ls.length (ls.length + (c :: rs).length) fr (sibling :: path)
      = frPairs node (pairUp node ls).length
          ((pairUp node ls).length + (pairUp node rs).length) fr path := by
  have hls := length_pairUp_of_even node h
  have hrs := length_pairUp node rs
  have hbranch : ¬(ls.length % 2 = 1 ∨ ls.length = ls.length + (c :: rs).length) := by
    simp; omega
  have hfn : ls.length / 2 = (pairUp node ls).length := by omega
  have hsn : (ls.length + (c :: rs).length) / 2
      = (pairUp node ls).length + (pairUp node rs).length := by simp; omega
  have hpos : ls.length + (c :: rs).length ≠ 0 := by simp
  rw [consistencyWalk, srPairs, frPairs]
  simp only [if_neg hpos, if_neg hbranch, hfn, hsn, and_self]

/-- A promoted node is looked up at the level where it meets a sibling: the
inner loop of the walk skips the levels between. -/
theorem consistencyWalk_last (h : Even ls.length) (hne : ls ≠ []) :
    consistencyWalk node ls.length ls.length fr sr (sibling :: path)
      = consistencyWalk node (pairUp node ls).length (pairUp node ls).length fr sr
          (sibling :: path) ∧
    srPairs node ls.length ls.length sr (sibling :: path)
      = srPairs node (pairUp node ls).length (pairUp node ls).length sr (sibling :: path) ∧
    frPairs node ls.length ls.length fr (sibling :: path)
      = frPairs node (pairUp node ls).length (pairUp node ls).length fr (sibling :: path) := by
  have hls := length_pairUp_of_even node h
  have hpos : ls.length ≠ 0 := by simpa using hne
  have hpos' : (pairUp node ls).length ≠ 0 := by omega
  have hstrip : stripZeros ls.length ls.length
      = stripZeros (pairUp node ls).length (pairUp node ls).length := by
    rw [stripZeros_even (by omega) hpos]
    congr 1 <;> omega
  rw [consistencyWalk, consistencyWalk, srPairs, srPairs, frPairs, frPairs]
  simp only [if_neg hpos, if_neg hpos', or_true, if_true, hstrip, and_self]

end Steps

/-! ## The siblings of a node -/

/-- The nodes a walk from position `fn` of the level `xs` meets, bottom up. -/
def siblings (xs : List D) (fn : ℕ) : List D :=
  if xs.length ≤ 1 then []
  else (if fn % 2 = 1 then xs[fn - 1]? else xs[fn + 1]?).toList
    ++ siblings (pairUp node xs) (fn / 2)
termination_by xs.length
decreasing_by
  rw [length_pairUp]
  omega

@[simp] theorem siblings_singleton (a : D) (fn : ℕ) : siblings node [a] fn = [] := by
  simp [siblings]

theorem siblings_right {ls : List D} (b a : D) (rs : List D) (h : Even ls.length) :
    siblings node (ls ++ [b] ++ a :: rs) (ls ++ [b]).length
      = b :: siblings node (pairUp node ls ++ node b a :: pairUp node rs)
          (pairUp node ls).length := by
  have hls := length_pairUp_of_even node h
  have hodd : (ls ++ [b]).length % 2 = 1 := by simp; omega
  have hfn : (ls ++ [b]).length / 2 = (pairUp node ls).length := by simp; omega
  rw [siblings, if_neg (by simp; omega), if_pos hodd, hfn, pairUp_right node b a rs h]
  simp

theorem siblings_left {ls : List D} (a c : D) (rs : List D) (h : Even ls.length) :
    siblings node (ls ++ a :: c :: rs) ls.length
      = c :: siblings node (pairUp node ls ++ node a c :: pairUp node rs)
          (pairUp node ls).length := by
  have hls := length_pairUp_of_even node h
  have hfn : ls.length / 2 = (pairUp node ls).length := by omega
  rw [siblings, if_neg (by simp; omega), if_neg (by omega), hfn, pairUp_left node a c rs h]
  simp

theorem siblings_last {ls : List D} (a : D) (h : Even ls.length) :
    siblings node (ls ++ [a]) ls.length
      = siblings node (pairUp node ls ++ [a]) (pairUp node ls).length := by
  have hls := length_pairUp_of_even node h
  have hfn : ls.length / 2 = (pairUp node ls).length := by omega
  rcases eq_or_ne ls [] with rfl | hne
  · rfl
  · have : ls.length ≠ 0 := by simpa using hne
    rw [siblings, if_neg (by simp; omega), if_neg (by omega), hfn, pairUp_last node a h]
    simp

/-! ## Completeness -/

/-- **Completeness of the consistency walk.**  Fed the siblings of `a`, the walk
rebuilds the root of the level into `sr`, and into `fr` the root of the level cut
after that position with `fr` in the place of `a`. -/
theorem consistencyWalk_siblings (ls : List D) (a : D) (rs : List D) (fr : D) :
    consistencyWalk node ls.length (ls.length + rs.length) fr a
        (siblings node (ls ++ a :: rs) ls.length)
      = some (root node e (ls ++ [fr]), root node e (ls ++ a :: rs), 0) := by
  revert fr
  induction ls, a, rs using climb_induction node with
  | top a => intro fr; simp [consistencyWalk]
  | right ls b a rs heven ih =>
      intro fr
      rw [siblings_right node b a rs heven, (consistencyWalk_right node b heven).1, ih,
        ← root_pairUp (ls ++ [b] ++ [fr]), ← root_pairUp (ls ++ [b] ++ a :: rs),
        pairUp_right node b fr [] heven, pairUp_right node b a rs heven]
      rfl
  | left ls a c rs heven ih =>
      intro fr
      rw [siblings_left node a c rs heven, (consistencyWalk_left node c heven).1, ih,
        ← root_pairUp (ls ++ [fr]), ← root_pairUp (ls ++ a :: c :: rs),
        pairUp_last node fr heven, pairUp_left node a c rs heven]
  | last ls a heven hne ih =>
      intro fr
      have hup := ih fr
      rw [siblings_last node a heven, ← root_pairUp (ls ++ [fr]), ← root_pairUp (ls ++ [a]),
        pairUp_last node fr heven, pairUp_last node a heven, ← hup]
      cases hs : siblings node (pairUp node ls ++ [a]) (pairUp node ls).length with
      | nil =>
          -- without a sibling left the walk above would have stopped short of the root
          have hls := length_pairUp_of_even node heven
          have hpos := List.length_pos_iff.mpr hne
          simp only [hs, consistencyWalk, List.length_nil, Option.some.injEq, Prod.mk.injEq] at hup
          omega
      | cons sibling path => exact (consistencyWalk_last node heven hne).1

/-! ## Soundness -/

/-- **Soundness of the consistency walk.**  If a walk started at position
`ls.length` ends at the root of the level `ls ++ a :: rs`, then it started from the
node `a`, and what it accumulated in `fr` is the root of the level cut after that
position, whatever the proof nodes were. -/
theorem consistencyWalk_sound (ls : List D) (a : D) (rs : List D) {fr sr fr' : D} {path : List D}
    (hinj : ∀ x ∈ srPairs node ls.length (ls.length + rs.length) sr path,
      ∀ y ∈ treePairs node (ls ++ a :: rs), node x.1 x.2 = node y.1 y.2 → x = y)
    (h : consistencyWalk node ls.length (ls.length + rs.length) fr sr path
      = some (fr', root node e (ls ++ a :: rs), 0)) :
    sr = a ∧ fr' = root node e (ls ++ [fr]) ∧ path = siblings node (ls ++ a :: rs) ls.length := by
  revert fr sr path
  induction ls, a, rs using climb_induction node with
  | top a =>
      intro fr sr path hinj h
      cases path with
      | nil =>
          simp only [consistencyWalk, Option.some.injEq, Prod.mk.injEq, List.nil_append,
            root_singleton] at h
          exact ⟨h.2.1, by simp [h.1], by simp⟩
      | cons sibling path => simp [consistencyWalk] at h
  | right ls b a rs heven ih =>
      intro fr sr path hinj h
      cases path with
      | nil => simp [consistencyWalk] at h
      | cons sibling path =>
          obtain ⟨hstep, hpairs, -⟩ := @consistencyWalk_right _ node ls rs fr sr sibling path b heven
          obtain ⟨hba, hup⟩ := @treePairs_right _ node _ b a rs heven
          rw [hstep, ← root_pairUp, pairUp_right node b a rs heven] at h
          rw [hpairs] at hinj
          obtain ⟨hsr, hfr, hpath⟩ := ih
            (fun x hx y hy => hinj x (List.mem_cons_of_mem _ hx) y (hup hy)) h
          obtain ⟨rfl, rfl⟩ := Prod.mk.inj
            (hinj _ List.mem_cons_self _ hba hsr)
          refine ⟨rfl, ?_, ?_⟩
          · rw [hfr, ← root_pairUp (ls ++ [sibling] ++ [fr]), pairUp_right node sibling fr [] heven]
            rfl
          · rw [siblings_right node _ _ rs heven, hpath]
  | left ls a c rs heven ih =>
      intro fr sr path hinj h
      cases path with
      | nil => simp [consistencyWalk] at h
      | cons sibling path =>
          obtain ⟨hstep, hpairs, -⟩ := @consistencyWalk_left _ node ls rs fr sr sibling path c heven
          obtain ⟨hac, hup⟩ := @treePairs_left _ node _ a c rs heven
          rw [hstep, ← root_pairUp, pairUp_left node a c rs heven] at h
          rw [hpairs] at hinj
          obtain ⟨hsr, hfr, hpath⟩ := ih
            (fun x hx y hy => hinj x (List.mem_cons_of_mem _ hx) y (hup hy)) h
          obtain ⟨rfl, rfl⟩ := Prod.mk.inj
            (hinj _ List.mem_cons_self _ hac hsr)
          refine ⟨rfl, ?_, ?_⟩
          · rw [hfr, ← root_pairUp (ls ++ [fr]), pairUp_last node fr heven]
          · rw [siblings_left node _ _ rs heven, hpath]
  | last ls a heven hne ih =>
      intro fr sr path hinj h
      cases path with
      | nil =>
          have := List.length_pos_iff.mpr hne
          simp only [consistencyWalk, Option.some.injEq, Prod.mk.injEq, List.length_nil] at h
          omega
      | cons sibling path =>
          obtain ⟨hstep, hpairs, -⟩ := @consistencyWalk_last _ node ls fr sr sibling path heven hne
          rw [List.length_nil, Nat.add_zero, hstep, ← root_pairUp, pairUp_last node a heven] at h
          rw [List.length_nil, Nat.add_zero, hpairs] at hinj
          obtain ⟨hsr, hfr, hpath⟩ := ih
            (fun x hx y hy => hinj x hx y (treePairs_last a heven hy)) h
          refine ⟨hsr, ?_, ?_⟩
          · rw [hfr, ← root_pairUp (ls ++ [fr]), pairUp_last node fr heven]
          · rw [siblings_last node a heven, hpath]

/-! ## The old root -/

/-- Along the siblings of a node, the walk hashes into `fr` only pairs of the tree
that ends at this node. -/
theorem frPairs_siblings_subset (ls : List D) (a : D) (rs : List D) (fr : D) :
    frPairs node ls.length (ls.length + rs.length) fr (siblings node (ls ++ a :: rs) ls.length)
      ⊆ treePairs node (ls ++ [fr]) := by
  revert fr
  induction ls, a, rs using climb_induction node with
  | top a => intro fr; simp [frPairs]
  | right ls b a rs heven ih =>
      intro fr
      obtain ⟨hba, hup⟩ := @treePairs_right _ node _ b fr [] heven
      rw [siblings_right node b a rs heven, (@consistencyWalk_right _ node _ rs fr fr _ _ b heven).2.2]
      exact List.cons_subset.mpr ⟨hba, List.Subset.trans (ih _) hup⟩
  | left ls a c rs heven ih =>
      intro fr
      rw [siblings_left node a c rs heven, (@consistencyWalk_left _ node _ rs fr fr _ _ c heven).2.2]
      exact List.Subset.trans (ih _) (treePairs_last fr heven)
  | last ls a heven hne ih =>
      intro fr
      have hup := ih fr
      rw [siblings_last node a heven]
      cases hs : siblings node (pairUp node ls ++ [a]) (pairUp node ls).length with
      | nil => simp [frPairs]
      | cons sibling path =>
          rw [hs] at hup
          refine List.Subset.trans ?_ (treePairs_last fr heven)
          rw [List.length_nil, Nat.add_zero, (@consistencyWalk_last _ node _ fr fr _ _ heven hne).2.2]
          exact hup

/-- Two walks along the same nodes that end with the same old root started from the
same one. -/
theorem consistencyWalk_fr_inj {S : Set (D × D)}
    (hinj : ∀ l a b, (l, a) ∈ S → (l, b) ∈ S → node l a = node l b → a = b)
    {path : List D} {fn sn : ℕ} {fr₁ fr₂ sr₁ sr₂ fr sr₁' sr₂' : D} {k₁ k₂ : ℕ}
    (h₁ : consistencyWalk node fn sn fr₁ sr₁ path = some (fr, sr₁', k₁))
    (h₂ : consistencyWalk node fn sn fr₂ sr₂ path = some (fr, sr₂', k₂))
    (hs₁ : ∀ x ∈ frPairs node fn sn fr₁ path, x ∈ S)
    (hs₂ : ∀ x ∈ frPairs node fn sn fr₂ path, x ∈ S) : fr₁ = fr₂ := by
  induction path generalizing fn sn fr₁ fr₂ sr₁ sr₂ with
  | nil =>
      simp only [consistencyWalk, Option.some.injEq, Prod.mk.injEq] at h₁ h₂
      rw [h₁.1, h₂.1]
  | cons sibling path ih =>
      rw [consistencyWalk] at h₁ h₂
      rw [frPairs] at hs₁ hs₂
      by_cases hsn : sn = 0
      · simp [hsn] at h₁
      · by_cases hright : fn % 2 = 1 ∨ fn = sn
        · simp only [if_neg hsn, if_pos hright] at h₁ h₂ hs₁ hs₂
          exact hinj sibling fr₁ fr₂ (hs₁ _ List.mem_cons_self) (hs₂ _ List.mem_cons_self)
            (ih h₁ h₂ (fun x hx => hs₁ x (List.mem_cons_of_mem _ hx))
              (fun x hx => hs₂ x (List.mem_cons_of_mem _ hx)))
        · simp only [if_neg hsn, if_neg hright] at h₁ h₂ hs₁ hs₂
          exact ih h₁ h₂ hs₁ hs₂

/-! ## Membership walks -/

/-- A membership walk is a consistency walk that keeps only the new root. -/
theorem membershipWalk_eq (fn sn : ℕ) (fr a : D) (path : List D) :
    membershipWalk node fn sn a path
      = (consistencyWalk node fn sn fr a path).map fun r => (r.2.1, r.2.2) := by
  induction path generalizing fn sn fr a with
  | nil => rfl
  | cons sibling path ih =>
      rw [membershipWalk, consistencyWalk]
      by_cases hsn : sn = 0
      · simp [hsn]
      · by_cases hright : fn % 2 = 1 ∨ fn = sn
        · -- a left child of the right edge skips its promotions, as `stripZeros` does
          have hstrip : (if fn % 2 = 0 then stripZeros (fn / 2) (sn / 2) else (fn, sn))
              = stripZeros fn sn := by
            by_cases heven : fn % 2 = 0
            · rw [if_pos heven, stripZeros_even heven (by omega)]
            · rw [if_neg heven, stripZeros_odd (by omega)]
          simp only [if_neg hsn, if_pos hright, hstrip]
          exact ih _ _ _ _
        · simp only [if_neg hsn, if_neg hright]
          exact ih _ _ _ _

/-- **Completeness of the membership walk.** -/
theorem membershipWalk_siblings (ls : List D) (a : D) (rs : List D) :
    membershipWalk node ls.length (ls.length + rs.length) a
        (siblings node (ls ++ a :: rs) ls.length)
      = some (root node e (ls ++ a :: rs), 0) := by
  rw [membershipWalk_eq node _ _ a, @consistencyWalk_siblings _ node e]
  rfl

/-- **Soundness of the membership walk.**  It ends at the root of a level only from the
node of that level, along its siblings. -/
theorem membershipWalk_sound (ls : List D) (a : D) (rs : List D) {b : D} {path : List D}
    (hinj : ∀ x ∈ srPairs node ls.length (ls.length + rs.length) b path,
      ∀ y ∈ treePairs node (ls ++ a :: rs), node x.1 x.2 = node y.1 y.2 → x = y)
    (h : membershipWalk node ls.length (ls.length + rs.length) b path
      = some (root node e (ls ++ a :: rs), 0)) :
    b = a ∧ path = siblings node (ls ++ a :: rs) ls.length := by
  rw [membershipWalk_eq node _ _ b, Option.map_eq_some_iff] at h
  obtain ⟨⟨fr, sr, sn⟩, hwalk, hroot⟩ := h
  obtain ⟨rfl, rfl⟩ := Prod.mk.inj hroot
  obtain ⟨hb, -, hpath⟩ := consistencyWalk_sound node ls a rs hinj hwalk
  exact ⟨hb, hpath⟩

end Waxseal.Merkle
