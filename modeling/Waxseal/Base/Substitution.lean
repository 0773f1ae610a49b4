import Waxseal.Base.Regex

/-!
# Replacing the matches of several patterns

A pattern is a regular expression with characters that may not stand right before its matches.
Its matches are replaced by a marker from the left, each search starting where the last match ended
(`Pattern.sub`); several patterns are replaced one after the other (`Pattern.subAll`).

A replacement can make a match out of what was none: it can take away the character that barred
one, and it can remove what stood in the way inside one.  `not_occurs_subAll` says that there is no
other way for a match to be left.
-/

namespace Regex

variable {α : Type*}

/-- A pattern. -/
structure Pattern (α : Type*) where
  /-- What may not stand right before a match. -/
  barred : α → Bool
  regex : Regex α

namespace Pattern

/-! ## Substitution -/

/-- A match may begin behind this character. -/
def allows (p : Pattern α) (before : Option α) : Bool := before.all (!p.barred ·)

/-- The length of the match at the front of a text, zero if there is none. -/
def matchLength (p : Pattern α) (before : Option α) (s : List α) : ℕ :=
  if p.allows before then ((p.regex.ends s).head?.map fun rest => s.length - rest.length).getD 0
  else 0

/-- Replaces the matches in a text, of which so many characters belong to the last match. -/
def subFrom (p : Pattern α) (marker : List α) : Option α → ℕ → List α → List α
  | _, _, [] => []
  | _, skip + 1, c :: s => p.subFrom marker (some c) skip s
  | before, 0, c :: s =>
      match p.matchLength before (c :: s) with
      | 0 => c :: p.subFrom marker (some c) 0 s
      | skip + 1 => marker ++ p.subFrom marker (some c) skip s

/-- `pattern.sub(marker, text)`, for a pattern that does not match nothing. -/
def sub (p : Pattern α) (marker text : List α) : List α := p.subFrom marker none 0 text

/-- There is a match in the text, which has this character before it. -/
def foundFrom (p : Pattern α) : Option α → List α → Bool
  | _, [] => false
  | before, c :: s => decide (0 < p.matchLength before (c :: s)) || p.foundFrom (some c) s

/-- `pattern.search(text) is not None`. -/
def found (p : Pattern α) (text : List α) : Bool := p.foundFrom none text

/-- One pattern after the other. -/
def subAll (marker : List α) (ps : List (Pattern α)) (text : List α) : List α :=
  ps.foldl (fun text p => p.sub marker text) text

/-- There is a match at the front of the text. -/
def MatchesAt (p : Pattern α) (before : Option α) (s : List α) : Prop :=
  p.allows before = true ∧ ∃ x rest, s = x ++ rest ∧ p.regex.Matches x

variable {p : Pattern α} {before : Option α} {s : List α}

/-- What the length says of the match. -/
theorem exists_of_matchLength {n : ℕ} (h : p.matchLength before s = n + 1) :
    ∃ x rest, s = x ++ rest ∧ x.length = n + 1 ∧ p.regex.Matches x := by
  unfold matchLength at h
  split_ifs at h
  cases hends : (p.regex.ends s).head? with
  | none =>
      rw [hends] at h
      cases h
  | some rest =>
      obtain ⟨x, rfl, hx⟩ := mem_ends.mp (List.mem_of_head? hends)
      refine ⟨x, rest, rfl, ?_, hx⟩
      rw [hends] at h
      have hlen : (x ++ rest).length - rest.length = n + 1 := h
      rw [List.length_append] at hlen
      omega

/-- **A match is found where there is one.** -/
theorem matchLength_pos_iff (hpos : 0 < p.regex.minLength) :
    0 < p.matchLength before s ↔ p.MatchesAt before s := by
  constructor
  · intro h
    obtain ⟨n, hn⟩ := Nat.exists_eq_succ_of_ne_zero h.ne'
    obtain ⟨x, rest, hs, -, hx⟩ := exists_of_matchLength hn
    refine ⟨?_, x, rest, hs, hx⟩
    by_contra hbarred
    rw [matchLength, if_neg hbarred] at hn
    cases hn
  · rintro ⟨hallows, x, rest, hs, hx⟩
    rw [matchLength, if_pos hallows]
    cases hends : (p.regex.ends s).head? with
    | none =>
        have hmem := mem_ends.mpr ⟨x, hs, hx⟩
        rw [List.head?_eq_none_iff.mp hends] at hmem
        cases hmem
    | some rest' =>
        obtain ⟨y, rfl, hy⟩ := mem_ends.mp (List.mem_of_head? hends)
        show 0 < (y ++ rest').length - rest'.length
        rw [List.length_append]
        have := minLength_le hy
        omega

theorem foundFrom_iff (hpos : 0 < p.regex.minLength) :
    p.foundFrom before s = true ↔ ∃ pre x rest, s = pre ++ (x ++ rest) ∧
      p.allows (pre.getLast?.or before) = true ∧ p.regex.Matches x := by
  induction s generalizing before with
  | nil =>
      constructor
      · intro h
        cases h
      · rintro ⟨pre, x, rest, hs, -, hx⟩
        have hnil := (List.append_eq_nil_iff.mp (List.append_eq_nil_iff.mp hs.symm).2).1
        have hlen := minLength_le hx
        rw [hnil] at hlen
        exact absurd (hpos.trans_le hlen) (lt_irrefl _)
  | cons c s ih =>
      rw [foundFrom, Bool.or_eq_true, decide_eq_true_eq, matchLength_pos_iff hpos, ih]
      constructor
      · rintro (⟨hallows, x, rest, hs, hx⟩ | ⟨pre, x, rest, rfl, hallows, hx⟩)
        · exact ⟨[], x, rest, hs, hallows, hx⟩
        · refine ⟨c :: pre, x, rest, rfl, ?_, hx⟩
          rw [List.getLast?_cons]
          cases hlast : pre.getLast? with
          | none =>
              rw [hlast] at hallows
              exact hallows
          | some d =>
              rw [hlast] at hallows
              exact hallows
      · rintro ⟨- | ⟨d, pre⟩, x, rest, hs, hallows, hx⟩
        · exact .inl ⟨hallows, x, rest, hs, hx⟩
        · obtain ⟨rfl, rfl⟩ := List.cons.inj hs
          refine .inr ⟨pre, x, rest, rfl, ?_, hx⟩
          rw [List.getLast?_cons] at hallows
          cases hlast : pre.getLast? with
          | none =>
              rw [hlast] at hallows
              exact hallows
          | some d =>
              rw [hlast] at hallows
              exact hallows

/-- **Searching finds a match if there is one.** -/
theorem found_iff (hpos : 0 < p.regex.minLength) {text : List α} :
    p.found text = true ↔ ∃ pre x rest, text = pre ++ (x ++ rest) ∧
      p.allows pre.getLast? = true ∧ p.regex.Matches x := by
  rw [found, foundFrom_iff hpos]
  simp only [Option.or_none]

/-- A text without a match stays as it is. -/
theorem subFrom_of_not_found {marker : List α} (h : p.foundFrom before s = false) :
    p.subFrom marker before 0 s = s := by
  induction s generalizing before with
  | nil => rfl
  | cons c s ih =>
      rw [foundFrom, Bool.or_eq_false_iff, decide_eq_false_iff_not] at h
      have hzero : p.matchLength before (c :: s) = 0 := by omega
      rw [subFrom, hzero]
      exact congrArg (c :: ·) (ih h.2)

theorem subAll_of_not_found {marker : List α} {ps : List (Pattern α)} {text : List α}
    (h : ∀ p ∈ ps, p.found text = false) : subAll marker ps text = text := by
  induction ps with
  | nil => rfl
  | cons p ps ih =>
      rw [List.forall_mem_cons] at h
      rw [subAll, List.foldl_cons, sub, subFrom_of_not_found h.1]
      exact ih h.2

end Pattern

/-! ## Rewriting -/

section Rewriting

/-- One text is the other with pieces replaced by the marker: pieces that are foreign to it, while
what is kept has a property, given the character before it. -/
inductive Rewrites (Kept : Option α → List α → Prop) (marker : List α) :
    Option α → List α → List α → Prop
  | nil (before : Option α) : Rewrites Kept marker before [] []
  | keep {before : Option α} {c : α} {s out : List α} (hkept : Kept before (c :: s))
      (h : Rewrites Kept marker (some c) s out) : Rewrites Kept marker before (c :: s) (c :: out)
  | replace {before : Option α} {m s out : List α} (hm : Foreign marker m)
      (h : Rewrites Kept marker m.getLast? s out) :
      Rewrites Kept marker before (m ++ s) (marker ++ out)

/-- One text is the other with foreign pieces replaced by the marker. -/
def Replaces (marker s out : List α) : Prop :=
  ∀ before, Rewrites (fun _ _ => True) marker before s out

variable {Kept : Option α → List α → Prop} {marker : List α} {before : Option α}
  {s out pre pre' b w x : List α} {star : α}

theorem Replaces.nil : Replaces marker [] [] := fun before => .nil before

theorem Replaces.cons (c : α) (h : Replaces marker s out) : Replaces marker (c :: s) (c :: out) :=
  fun _ => .keep trivial (h _)

theorem Replaces.append {m : List α} (hm : Foreign marker m) (h : Replaces marker s out) :
    Replaces marker (m ++ s) (marker ++ out) := fun _ => .replace hm (h _)

theorem Rewrites.replaces (h : Rewrites Kept marker before s out) : Replaces marker s out := by
  induction h with
  | nil before => exact .nil
  | keep hkept h ih => exact ih.cons _
  | replace hm h ih => exact ih.append hm

/-- **What a substitution does**, where nothing is kept at which there is a match. -/
theorem rewrites_sub {p : Pattern α} (hpos : 0 < p.regex.minLength)
    (hforeign : ∀ m, p.regex.Matches m → Foreign marker m) (text : List α) :
    Rewrites (fun before s => ¬ p.MatchesAt before s) marker none text (p.sub marker text) := by
  have hskip : ∀ (x s : List α) (before : Option α),
      p.subFrom marker before x.length (x ++ s) = p.subFrom marker (x.getLast?.or before) 0 s := by
    intro x
    induction x with
    | nil => exact fun _ _ => rfl
    | cons c x ih =>
        intro s before
        rw [List.length_cons, List.cons_append, Pattern.subFrom, ih, List.getLast?_cons]
        cases x.getLast? <;> rfl
  have hrun : ∀ (n : ℕ) (s : List α) (before : Option α), s.length ≤ n →
      Rewrites (fun before s => ¬ p.MatchesAt before s) marker before s
        (p.subFrom marker before 0 s) := by
    intro n
    induction n with
    | zero =>
        intro s before hlen
        rw [List.length_eq_zero_iff.mp (Nat.le_zero.mp hlen)]
        exact .nil before
    | succ n ih =>
        intro s before hlen
        cases s with
        | nil => exact .nil before
        | cons c s =>
            rw [List.length_cons] at hlen
            cases hmatch : p.matchLength before (c :: s) with
            | zero =>
                rw [Pattern.subFrom, hmatch]
                refine .keep ?_ (ih s (some c) (by omega))
                rw [← Pattern.matchLength_pos_iff hpos, hmatch]
                exact lt_irrefl 0
            | succ k =>
                obtain ⟨x, rest, hs, hx, hmatches⟩ := Pattern.exists_of_matchLength hmatch
                obtain ⟨d, y, rfl⟩ := List.exists_cons_of_length_eq_add_one hx
                obtain ⟨rfl, rfl⟩ := List.cons.inj hs
                have hk : y.length = k := Nat.succ.inj hx
                rw [Pattern.subFrom, hmatch]
                show Rewrites _ marker before ((c :: y) ++ rest)
                  (marker ++ p.subFrom marker (some c) k (y ++ rest))
                rw [← hk, hskip]
                have hshort : (y ++ rest).length + 1 ≤ n + 1 := hlen
                rw [List.length_append] at hshort
                have hlast : (c :: y).getLast? = y.getLast?.or (some c) := by
                  rw [List.getLast?_cons]
                  cases y.getLast? <;> rfl
                rw [← hlast]
                exact .replace (hforeign _ hmatches) (ih rest _ (by omega))
  exact hrun text.length text none le_rfl

/-! ## What a rewriting leaves in place -/

/-- No end of the text runs into the marker. -/
def Clear (marker x : List α) : Prop := ∀ y, y <:+ x → y ≠ [] → ¬ y <+: marker ∧ ¬ marker <+: y

/-- What cannot overlap a marker. -/
structure Solid (star : α) (marker b : List α) : Prop where
  not_mem : star ∉ b
  not_infix : ¬ b <:+: marker

theorem clear_of_not_mem (hhead : marker.head? = some star) (h : star ∉ x) : Clear marker x := by
  obtain ⟨t, rfl⟩ : ∃ t, marker = star :: t := by
    cases marker with
    | nil => cases hhead
    | cons c t => exact ⟨t, by rw [Option.some.inj hhead]⟩
  intro y hy hne
  constructor
  · rintro ⟨t', heq⟩
    obtain ⟨c, y, rfl⟩ := List.exists_cons_of_ne_nil hne
    obtain ⟨rfl, -⟩ := List.cons.inj heq
    exact h (hy.subset List.mem_cons_self)
  · rintro ⟨t', rfl⟩
    exact h (hy.subset List.mem_cons_self)

/-- What a text begins with is left in place, if it is clear of the marker. -/
theorem Rewrites.front (hclear : Clear marker x) (h : Rewrites Kept marker before s (x ++ w)) :
    ∃ w', s = x ++ w' ∧ Replaces marker w' w := by
  induction x generalizing before s with
  | nil => exact ⟨s, rfl, h.replaces⟩
  | cons c x ih =>
      have htail : Clear marker x := fun y hy => hclear y (hy.trans (List.suffix_cons c x))
      generalize hout : c :: x ++ w = out at h
      cases h with
      | nil => cases hout
      | keep hkept h =>
          obtain ⟨rfl, rfl⟩ := List.cons.inj hout
          obtain ⟨w', rfl, hw⟩ := ih htail h
          exact ⟨w', rfl, hw⟩
      | replace hm h =>
          have hnot := hclear (c :: x) List.suffix_rfl (List.cons_ne_nil c x)
          rcases List.append_eq_append_iff.mp hout with ⟨a, heq, -⟩ | ⟨a, heq, -⟩
          · exact absurd ⟨a, heq.symm⟩ hnot.1
          · exact absurd ⟨a, heq.symm⟩ hnot.2

/-- **A solid piece of the result was there before**, behind the same character. -/
theorem Rewrites.split (hhead : marker.head? = some star) (hlast : marker.getLast? = some star)
    (hb : Solid star marker b) (h : Rewrites Kept marker before s (pre ++ (b ++ w))) :
    ∃ pre' w', s = pre' ++ (b ++ w') ∧ Replaces marker pre' pre ∧ Replaces marker w' w ∧
      Kept (pre'.getLast?.or before) (b ++ w') := by
  have hne : b ≠ [] := by
    rintro rfl
    exact hb.not_infix List.nil_infix
  generalize hout : pre ++ (b ++ w) = out at h
  induction h generalizing pre with
  | nil before => exact absurd (List.append_eq_nil_iff.mp (List.append_eq_nil_iff.mp hout).2).1 hne
  | @keep before c s out hkept h ih =>
      cases pre with
      | nil =>
          obtain ⟨d, b, rfl⟩ := List.exists_cons_of_ne_nil hne
          obtain ⟨rfl, rfl⟩ := List.cons.inj hout
          have hclear := clear_of_not_mem hhead (List.not_mem_of_not_mem_cons hb.not_mem)
          obtain ⟨w', rfl, hw⟩ := h.front hclear
          exact ⟨[], w', rfl, .nil, hw, hkept⟩
      | cons d pre =>
          obtain ⟨rfl, rfl⟩ := List.cons.inj hout
          obtain ⟨pre', w', rfl, hpre, hw, hkept⟩ := ih rfl
          refine ⟨d :: pre', w', rfl, hpre.cons d, hw, ?_⟩
          have hor : (d :: pre').getLast?.or before = pre'.getLast?.or (some d) := by
            rw [List.getLast?_cons]
            cases pre'.getLast? <;> rfl
          rw [hor]
          exact hkept
  | @replace before m s out hm h ih =>
      have hbehind : ∀ {a}, out = a ++ (b ++ w) → ∃ pre' w', m ++ s = pre' ++ (b ++ w') ∧
          Replaces marker pre' (marker ++ a) ∧ Replaces marker w' w ∧
          Kept (pre'.getLast?.or before) (b ++ w') := by
        rintro a rfl
        obtain ⟨pre', w', rfl, hpre, hw, hkept⟩ := ih rfl
        refine ⟨m ++ pre', w', (List.append_assoc _ _ _).symm, hpre.append hm, hw, ?_⟩
        have hor : (m ++ pre').getLast?.or before = pre'.getLast?.or m.getLast? := by
          rw [List.getLast?_append, List.getLast?_eq_some_getLast hm.ne_nil]
          cases pre'.getLast? <;> rfl
        rw [hor]
        exact hkept
      rcases List.append_eq_append_iff.mp hout with ⟨a, hmarker, hrest⟩ | ⟨a, rfl, hrest⟩
      · -- The piece begins inside the marker, or right behind it.
        by_cases ha : a = []
        · subst ha
          rw [List.append_nil] at hmarker
          subst hmarker
          obtain ⟨pre', w', heq, hpre, hw, hkept⟩ := @hbehind [] hrest.symm
          rw [List.append_nil] at hpre
          exact ⟨pre', w', heq, hpre, hw, hkept⟩
        exfalso
        rcases List.append_eq_append_iff.mp hrest with ⟨d, rfl, -⟩ | ⟨d, rfl, -⟩
        · exact hb.not_infix ⟨pre, d, by rw [hmarker, List.append_assoc]⟩
        · rw [hmarker, List.getLast?_append_of_ne_nil _ ha] at hlast
          exact hb.not_mem (List.mem_append_left d (List.mem_of_getLast? hlast))
      · exact hbehind hrest

/-! ## What stands before a piece -/

/-- How a rewriting ends. -/
theorem Rewrites.ends (h : Rewrites Kept marker before s out) :
    (s = [] ∧ out = []) ∨
    (∃ c t t', s = t ++ [c] ∧ out = t' ++ [c] ∧ Replaces marker t t') ∨
    ∃ m t t', s = t ++ m ∧ out = t' ++ marker ∧ Foreign marker m ∧ Replaces marker t t' := by
  induction h with
  | nil before => exact .inl ⟨rfl, rfl⟩
  | @keep before c s out hkept h ih =>
      rcases ih with ⟨rfl, rfl⟩ | ⟨d, t, t', rfl, rfl, ht⟩ | ⟨m, t, t', rfl, rfl, hm, ht⟩
      · exact .inr (.inl ⟨c, [], [], rfl, rfl, .nil⟩)
      · exact .inr (.inl ⟨d, c :: t, c :: t', rfl, rfl, ht.cons c⟩)
      · exact .inr (.inr ⟨m, c :: t, c :: t', rfl, rfl, hm, ht.cons c⟩)
  | @replace before m s out hm h ih =>
      rcases ih with ⟨rfl, rfl⟩ | ⟨d, t, t', rfl, rfl, ht⟩ | ⟨m', t, t', rfl, rfl, hm', ht⟩
      · exact .inr (.inr ⟨m, [], [], List.append_nil m, List.append_nil marker, hm, .nil⟩)
      · exact .inr (.inl ⟨d, m ++ t, marker ++ t', (List.append_assoc _ _ _).symm,
          (List.append_assoc _ _ _).symm, ht.append hm⟩)
      · exact .inr (.inr ⟨m', m ++ t, marker ++ t', (List.append_assoc _ _ _).symm,
          (List.append_assoc _ _ _).symm, hm', ht.append hm⟩)

/-- What the marker begins with is left in place at the end. -/
theorem Replaces.suffix {u : List α} (hu : u <+: marker) (h : Replaces marker pre' pre)
    (hsuffix : u <:+ pre') : u <:+ pre := by
  induction u using List.reverseRecOn generalizing pre' pre with
  | nil => exact List.nil_suffix
  | append_singleton u c ih =>
      have hfront : u <+: marker := (List.prefix_append u [c]).trans hu
      rcases (h none).ends with ⟨rfl, -⟩ | ⟨d, t, t', rfl, rfl, ht⟩ | ⟨m, t, t', rfl, rfl, hm, -⟩
      · exact absurd (List.suffix_nil.mp hsuffix) (List.append_ne_nil_of_right_ne_nil _ (by simp))
      · obtain ⟨front, heq⟩ := hsuffix
        rw [← List.append_assoc] at heq
        obtain ⟨rfl, hlast⟩ := List.append_inj' heq rfl
        obtain ⟨front', rfl⟩ := ih hfront ht (List.suffix_append front u)
        exact ⟨front', by rw [← hlast, List.append_assoc]⟩
      · exfalso
        rcases List.suffix_or_suffix_of_suffix hsuffix (List.suffix_append t m) with hshort | hlong
        · exact hm.not_overlap _ hu (List.append_ne_nil_of_right_ne_nil _ (by simp)) hshort
        · exact hm.not_infix (hlong.isInfix.trans hu.isInfix)

/-- **Where no marker is, the same character is**, and no marker was. -/
theorem Replaces.getLast?_eq (h : Replaces marker pre' pre) (hpre : ¬ marker <:+ pre) :
    pre'.getLast? = pre.getLast? ∧ ¬ marker <:+ pre' := by
  refine ⟨?_, fun hmarker => hpre (h.suffix List.prefix_rfl hmarker)⟩
  rcases (h none).ends with ⟨rfl, rfl⟩ | ⟨c, t, t', rfl, rfl, -⟩ | ⟨m, t, t', rfl, rfl, -, -⟩
  · rfl
  · rw [List.getLast?_concat, List.getLast?_concat]
  · exact absurd (List.suffix_append t' marker) hpre

/-! ## Matches that are left -/

/-- Good matches of an expression stay good matches when pieces of the text around them, and inside
them, are put back. -/
def Lasting (star : α) (marker : List α) (r : Regex α) (Good : List α → Prop) : Prop :=
  ∀ x, r.Matches x → Good x → ∃ b w, x = b ++ w ∧ Solid star marker b ∧
    ∀ rest s, Replaces marker s (w ++ rest) →
      ∃ w' rest', s = w' ++ rest' ∧ r.Matches (b ++ w') ∧ Good (b ++ w')

/-- The text has a good match of the pattern, and not because a marker stands before it. -/
def Pattern.Occurs (p : Pattern α) (marker : List α) (Good : List α → Prop) (text : List α) : Prop :=
  ∃ pre x rest, text = pre ++ (x ++ rest) ∧ p.allows pre.getLast? = true ∧
    ((∀ c, p.barred c = false) ∨ ¬ marker <:+ pre) ∧ p.regex.Matches x ∧ Good x

variable {p : Pattern α} {Good : List α → Prop} {text text' : List α}

/-- A pattern that bars nothing is allowed everywhere. -/
theorem Pattern.allows_of_unbarred (h : ∀ c, p.barred c = false) (before : Option α) :
    p.allows before = true := by
  cases before with
  | none => rfl
  | some c => exact congrArg (!·) (h c)

/-- **A match that is left was there before**, where something was kept. -/
theorem Pattern.Occurs.putBack (hhead : marker.head? = some star)
    (hlast : marker.getLast? = some star) (hlasting : Lasting star marker p.regex Good)
    (h : Rewrites Kept marker none text text') (hoccurs : p.Occurs marker Good text') :
    p.Occurs marker Good text ∧
      ∃ before x rest, Kept before (x ++ rest) ∧ p.allows before = true ∧ p.regex.Matches x := by
  obtain ⟨pre, x, rest, rfl, hallows, hbare, hx, hgood⟩ := hoccurs
  obtain ⟨b, w, rfl, hb, hback⟩ := hlasting x hx hgood
  rw [List.append_assoc] at h
  obtain ⟨pre', s, rfl, hpre, hs, hkept⟩ := h.split hhead hlast hb
  obtain ⟨w', rest', rfl, hx', hgood'⟩ := hback rest s hs
  rw [← List.append_assoc b] at hkept ⊢
  rw [Option.or_none] at hkept
  rcases hbare with hunbarred | hbare
  · have hallows' := Pattern.allows_of_unbarred hunbarred pre'.getLast?
    exact ⟨⟨pre', b ++ w', rest', rfl, hallows', .inl hunbarred, hx', hgood'⟩,
      pre'.getLast?, b ++ w', rest', hkept, hallows', hx'⟩
  · obtain ⟨hsame, hbare'⟩ := hpre.getLast?_eq hbare
    rw [← hsame] at hallows
    exact ⟨⟨pre', b ++ w', rest', rfl, hallows, .inr hbare', hx', hgood'⟩,
      pre'.getLast?, b ++ w', rest', hkept, hallows, hx'⟩

/-- No match is left by the substitution of its own pattern. -/
theorem Pattern.not_occurs_sub (hhead : marker.head? = some star)
    (hlast : marker.getLast? = some star) (hlasting : Lasting star marker p.regex Good)
    (hpos : 0 < p.regex.minLength) (hapart : p.regex.keepsApart star marker = true)
    (text : List α) : ¬ p.Occurs marker Good (p.sub marker text) := by
  intro hoccurs
  have hrewrites := rewrites_sub hpos (fun m hm => foreign_of_keepsApart hhead hapart hm) text
  obtain ⟨-, before, x, rest, hkept, hallows, hx⟩ := hoccurs.putBack hhead hlast hlasting hrewrites
  exact hkept ⟨hallows, x, rest, rfl, hx⟩

/-- The matches of the pattern are not empty, and foreign to the marker. -/
def Pattern.isReplaceable (star : α) (marker : List α) (p : Pattern α) : Bool :=
  decide (0 < p.regex.minLength) && p.regex.keepsApart star marker

/-- **No match is left** by several substitutions, its own among them. -/
theorem Pattern.not_occurs_subAll (hhead : marker.head? = some star)
    (hlast : marker.getLast? = some star) (hlasting : Lasting star marker p.regex Good)
    {ps : List (Pattern α)} (hps : ∀ q ∈ ps, q.isReplaceable star marker = true) (hp : p ∈ ps)
    (text : List α) : ¬ p.Occurs marker Good (subAll marker ps text) := by
  have hlater : ∀ {qs : List (Pattern α)} {text : List α}, (∀ q ∈ qs, q.isReplaceable star marker = true) →
      ¬ p.Occurs marker Good text → ¬ p.Occurs marker Good (subAll marker qs text) := by
    intro qs
    induction qs with
    | nil => exact fun _ h => h
    | cons q qs ih =>
        intro text hqs h
        rw [List.forall_mem_cons, Pattern.isReplaceable, Bool.and_eq_true, decide_eq_true_eq] at hqs
        rw [subAll, List.foldl_cons]
        refine ih hqs.2 fun hoccurs => h ?_
        have hrewrites := rewrites_sub hqs.1.1
          (fun m hm => foreign_of_keepsApart hhead hqs.1.2 hm) text
        exact (hoccurs.putBack hhead hlast hlasting hrewrites).1
  induction ps generalizing text with
  | nil => cases hp
  | cons q ps ih =>
      rw [List.forall_mem_cons] at hps
      rw [subAll, List.foldl_cons]
      rcases List.mem_cons.mp hp with rfl | hp
      · have hown := hps.1
        rw [Pattern.isReplaceable, Bool.and_eq_true, decide_eq_true_eq] at hown
        exact hlater hps.2 (Pattern.not_occurs_sub hhead hlast hlasting hown.1 hown.2 text)
      · exact ih hps.2 hp _

/-! ## Expressions whose matches last -/

/-- Matches without the character the marker begins with. -/
theorem lasting_of_avoids {r : Regex α} (havoids : r.avoids star = true)
    (hapart : r.keepsApart star marker = true) : Lasting star marker r fun _ => True := by
  intro x hx _
  refine ⟨x, [], (List.append_nil x).symm,
    ⟨not_mem_of_avoids havoids hx, not_infix_of_keepsApart hapart hx⟩, fun rest s _ => ?_⟩
  refine ⟨[], s, rfl, ?_, trivial⟩
  rw [List.append_nil]
  exact hx

/-- Whatever stands between two such expressions. -/
theorem lasting_between {r r' : Regex α} {lazy : Bool} (hhead : marker.head? = some star)
    (hlast : marker.getLast? = some star)
    (havoids : r.avoids star = true) (hapart : r.keepsApart star marker = true)
    (havoids' : r'.avoids star = true) (hapart' : r'.keepsApart star marker = true) :
    Lasting star marker (.seq r (.seq (.many (fun _ => true) 0 lazy) r')) fun _ => True := by
  rintro x ⟨b, w, rfl, hb, y, e, rfl, -, he⟩ _
  refine ⟨b, y ++ e, rfl, ⟨not_mem_of_avoids havoids hb, not_infix_of_keepsApart hapart hb⟩, ?_⟩
  intro rest s hs
  rw [List.append_assoc] at hs
  have hsolid : Solid star marker e :=
    ⟨not_mem_of_avoids havoids' he, not_infix_of_keepsApart hapart' he⟩
  obtain ⟨y', rest', rfl, -, -, -⟩ := (hs none).split hhead hlast hsolid
  exact ⟨y' ++ e, rest', (List.append_assoc _ _ _).symm,
    ⟨b, y' ++ e, rfl, hb, y', e, rfl, ⟨Nat.zero_le _, fun _ _ => rfl⟩, he⟩, trivial⟩

/-- What begins with such an expression and ends outside the marker, as long as it has no marker
inside. -/
theorem lasting_open {r r' : Regex α} (havoids : r.avoids star = true)
    (hapart : r.keepsApart star marker = true) (hends : r'.endsForeign marker = true) :
    Lasting star marker (.seq r r') fun x => ¬ marker <:+: x := by
  rintro x ⟨b, w, rfl, hb, hw⟩ hgood
  refine ⟨b, w, rfl, ⟨not_mem_of_avoids havoids hb, not_infix_of_keepsApart hapart hb⟩, ?_⟩
  have hclear : Clear marker w := by
    intro y hy hne
    constructor
    · intro hfront
      obtain ⟨c, hc, hforeign⟩ := exists_getLast? hends hw
      obtain ⟨t, rfl⟩ := hy
      rw [List.getLast?_append_of_ne_nil _ hne] at hc
      exact hforeign (hfront.subset (List.mem_of_getLast? hc))
    · intro hfront
      exact hgood ((hfront.isInfix.trans hy.isInfix).trans (List.suffix_append b w).isInfix)
  intro rest s hs
  obtain ⟨rest', rfl, -⟩ := (hs none).front hclear
  exact ⟨w, rest', rfl, ⟨b, w, rfl, hb, hw⟩, hgood⟩

end Rewriting

end Regex
