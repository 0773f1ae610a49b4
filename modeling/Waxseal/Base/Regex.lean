import Mathlib.Data.List.Infix

/-!
# Regular expressions that backtrack

Regular expressions over characters of any kind, where only single characters are repeated, and the
matcher that tries what they offer in order: a greedy repetition the longest first, a lazy one the
shortest first.  What the matcher can reach is what the expression means (`mem_ends`).

What all matches of an expression have in common is computed from it: a character they avoid, how
long they are at least, and a character they have that a given word has not.
-/

/-- A regular expression. -/
inductive Regex (α : Type*) where
  | empty
  | char (p : α → Bool)
  | many (p : α → Bool) (least : ℕ) (lazy : Bool)
  | seq (r r' : Regex α)
  | alt (r r' : Regex α)

namespace Regex

variable {α : Type*}

/-- One expression after the other. -/
def concat : List (Regex α) → Regex α
  | [] => empty
  | [r] => r
  | r :: r' :: rs => seq r (concat (r' :: rs))

/-- One of some expressions, the first ones first. -/
def choice (r : Regex α) : List (Regex α) → Regex α
  | [] => r
  | r' :: rs => alt r (choice r' rs)

/-- So many characters of a class. -/
def times (n : ℕ) (p : α → Bool) : Regex α := concat (List.replicate n (char p))

/-! ## Matching -/

/-- What can be left after a repetition, the most first. -/
def leftAfter (p : α → Bool) : ℕ → List α → List (List α)
  | 0, [] => [[]]
  | 0, c :: s => (c :: s) :: if p c then leftAfter p 0 s else []
  | _ + 1, [] => []
  | least + 1, c :: s => if p c then leftAfter p least s else []

/-- What can be left of a text after a match at its front, in the order it is tried. -/
def ends : Regex α → List α → List (List α)
  | empty, s => [s]
  | char _, [] => []
  | char p, c :: s => if p c then [s] else []
  | many p least lazy, s => if lazy then leftAfter p least s else (leftAfter p least s).reverse
  | seq r r', s => (ends r s).flatMap (ends r')
  | alt r r', s => ends r s ++ ends r' s

/-- What an expression means. -/
def Matches : Regex α → List α → Prop
  | empty, x => x = []
  | char p, x => ∃ c, p c = true ∧ x = [c]
  | many p least _, x => least ≤ x.length ∧ ∀ c ∈ x, p c = true
  | seq r r', x => ∃ y z, x = y ++ z ∧ Matches r y ∧ Matches r' z
  | alt r r', x => Matches r x ∨ Matches r' x

theorem mem_leftAfter {p : α → Bool} {least : ℕ} {s rest : List α} :
    rest ∈ leftAfter p least s ↔ ∃ x, s = x ++ rest ∧ least ≤ x.length ∧ ∀ c ∈ x, p c = true := by
  induction s generalizing least with
  | nil =>
      cases least with
      | zero => simp [leftAfter]
      | succ least => simp [leftAfter]
  | cons c s ih =>
      cases least with
      | zero =>
          rw [leftAfter, List.mem_cons]
          constructor
          · rintro (rfl | hrest)
            · exact ⟨[], rfl, le_rfl, List.forall_mem_nil _⟩
            · split_ifs at hrest with hc
              · obtain ⟨x, rfl, -, hx⟩ := ih.mp hrest
                exact ⟨c :: x, rfl, Nat.zero_le _, List.forall_mem_cons.mpr ⟨hc, hx⟩⟩
              · cases hrest
          · rintro ⟨- | ⟨d, x⟩, heq, -, hx⟩
            · exact .inl heq.symm
            · obtain ⟨rfl, rfl⟩ := List.cons.inj heq
              rw [List.forall_mem_cons] at hx
              rw [if_pos hx.1]
              exact .inr (ih.mpr ⟨x, rfl, Nat.zero_le _, hx.2⟩)
      | succ least =>
          rw [leftAfter]
          constructor
          · intro hrest
            split_ifs at hrest with hc
            · obtain ⟨x, rfl, hlen, hx⟩ := ih.mp hrest
              exact ⟨c :: x, rfl, Nat.succ_le_succ hlen, List.forall_mem_cons.mpr ⟨hc, hx⟩⟩
            · cases hrest
          · rintro ⟨- | ⟨d, x⟩, heq, hlen, hx⟩
            · exact absurd hlen (Nat.not_succ_le_zero least)
            · obtain ⟨rfl, rfl⟩ := List.cons.inj heq
              rw [List.forall_mem_cons] at hx
              rw [if_pos hx.1]
              exact ih.mpr ⟨x, rfl, Nat.le_of_succ_le_succ hlen, hx.2⟩

/-- **The matcher reaches what the expression means.** -/
theorem mem_ends {r : Regex α} {s rest : List α} :
    rest ∈ r.ends s ↔ ∃ x, s = x ++ rest ∧ r.Matches x := by
  induction r generalizing s rest with
  | empty =>
      rw [ends, List.mem_singleton]
      constructor
      · rintro rfl
        exact ⟨[], rfl, rfl⟩
      · rintro ⟨x, rfl, rfl⟩
        rfl
  | char p =>
      constructor
      · intro h
        cases s with
        | nil => cases h
        | cons c s =>
            rw [ends] at h
            split_ifs at h with hc
            · obtain rfl := List.mem_singleton.mp h
              exact ⟨[c], rfl, c, hc, rfl⟩
            · cases h
      · rintro ⟨x, rfl, c, hc, rfl⟩
        rw [List.singleton_append, ends, if_pos hc]
        exact List.mem_singleton_self rest
  | many p least lazy =>
      rw [ends]
      split_ifs
      · exact mem_leftAfter
      · rw [List.mem_reverse]
        exact mem_leftAfter
  | seq r r' ih ih' =>
      rw [ends, List.mem_flatMap]
      constructor
      · rintro ⟨middle, hmiddle, hrest⟩
        obtain ⟨y, rfl, hy⟩ := ih.mp hmiddle
        obtain ⟨z, rfl, hz⟩ := ih'.mp hrest
        exact ⟨y ++ z, (List.append_assoc y z rest).symm, y, z, rfl, hy, hz⟩
      · rintro ⟨x, rfl, y, z, rfl, hy, hz⟩
        refine ⟨z ++ rest, ih.mpr ⟨y, List.append_assoc y z rest, hy⟩, ih'.mpr ⟨z, rfl, hz⟩⟩
  | alt r r' ih ih' =>
      rw [ends, List.mem_append, ih, ih']
      constructor
      · rintro (⟨x, rfl, hx⟩ | ⟨x, rfl, hx⟩)
        · exact ⟨x, rfl, .inl hx⟩
        · exact ⟨x, rfl, .inr hx⟩
      · rintro ⟨x, rfl, hx | hx⟩
        · exact .inl ⟨x, rfl, hx⟩
        · exact .inr ⟨x, rfl, hx⟩

/-! ## What the matches have in common -/

/-- No match holds the character. -/
def avoids (star : α) : Regex α → Bool
  | empty => true
  | char p => !p star
  | many p _ _ => !p star
  | seq r r' => avoids star r && avoids star r'
  | alt r r' => avoids star r && avoids star r'

/-- How long a match is at least. -/
def minLength : Regex α → ℕ
  | empty => 0
  | char _ => 1
  | many _ least _ => least
  | seq r r' => minLength r + minLength r'
  | alt r r' => min (minLength r) (minLength r')

/-- No character of the class is in the word. -/
def isForeign (marker : List α) (p : α → Bool) : Bool := marker.all (!p ·)

/-- Every match has a character that the word has not. -/
def hasForeign (marker : List α) : Regex α → Bool
  | empty => false
  | char p => isForeign marker p
  | many p least _ => decide (0 < least) && isForeign marker p
  | seq r r' => hasForeign marker r || hasForeign marker r'
  | alt r r' => hasForeign marker r && hasForeign marker r'

/-- Every match ends in a character that the word has not. -/
def endsForeign (marker : List α) : Regex α → Bool
  | empty => false
  | char p => isForeign marker p
  | many p least _ => decide (0 < least) && isForeign marker p
  | seq _ r' => endsForeign marker r'
  | alt r r' => endsForeign marker r && endsForeign marker r'

variable {star : α} {marker : List α} {r : Regex α} {x : List α}

theorem not_mem_of_avoids (h : r.avoids star = true) (hx : r.Matches x) : star ∉ x := by
  induction r generalizing x with
  | empty =>
      rw [show x = [] from hx]
      exact List.not_mem_nil
  | char p =>
      obtain ⟨c, hc, rfl⟩ := hx
      rw [List.mem_singleton]
      rintro rfl
      rw [avoids, hc] at h
      cases h
  | many p least lazy =>
      intro hstar
      rw [avoids, hx.2 star hstar] at h
      cases h
  | seq r r' ih ih' =>
      obtain ⟨y, z, rfl, hy, hz⟩ := hx
      rw [avoids, Bool.and_eq_true] at h
      rw [List.mem_append, not_or]
      exact ⟨ih h.1 hy, ih' h.2 hz⟩
  | alt r r' ih ih' =>
      rw [avoids, Bool.and_eq_true] at h
      exact hx.elim (ih h.1) (ih' h.2)

theorem minLength_le (hx : r.Matches x) : r.minLength ≤ x.length := by
  induction r generalizing x with
  | empty => exact Nat.zero_le _
  | char p =>
      obtain ⟨c, -, rfl⟩ := hx
      exact le_rfl
  | many p least lazy => exact hx.1
  | seq r r' ih ih' =>
      obtain ⟨y, z, rfl, hy, hz⟩ := hx
      rw [List.length_append]
      exact Nat.add_le_add (ih hy) (ih' hz)
  | alt r r' ih ih' =>
      exact hx.elim (fun h => (Nat.min_le_left _ _).trans (ih h))
        fun h => (Nat.min_le_right _ _).trans (ih' h)

theorem not_mem_of_isForeign {p : α → Bool} {c : α} (h : isForeign marker p = true)
    (hc : p c = true) : c ∉ marker := by
  intro hmem
  have hnot := List.all_eq_true.mp h c hmem
  rw [hc] at hnot
  cases hnot

theorem exists_foreign (h : r.hasForeign marker = true) (hx : r.Matches x) :
    ∃ c ∈ x, c ∉ marker := by
  induction r generalizing x with
  | empty => cases h
  | char p =>
      obtain ⟨c, hc, rfl⟩ := hx
      exact ⟨c, List.mem_singleton_self c, not_mem_of_isForeign h hc⟩
  | many p least lazy =>
      rw [hasForeign, Bool.and_eq_true, decide_eq_true_eq] at h
      obtain ⟨c, hc⟩ := List.exists_mem_of_length_pos (h.1.trans_le hx.1)
      exact ⟨c, hc, not_mem_of_isForeign h.2 (hx.2 c hc)⟩
  | seq r r' ih ih' =>
      obtain ⟨y, z, rfl, hy, hz⟩ := hx
      rw [hasForeign, Bool.or_eq_true] at h
      rcases h with h | h
      · obtain ⟨c, hc, hforeign⟩ := ih h hy
        exact ⟨c, List.mem_append_left z hc, hforeign⟩
      · obtain ⟨c, hc, hforeign⟩ := ih' h hz
        exact ⟨c, List.mem_append_right y hc, hforeign⟩
  | alt r r' ih ih' =>
      rw [hasForeign, Bool.and_eq_true] at h
      exact hx.elim (ih h.1) (ih' h.2)

theorem exists_getLast? (h : r.endsForeign marker = true) (hx : r.Matches x) :
    ∃ c, x.getLast? = some c ∧ c ∉ marker := by
  induction r generalizing x with
  | empty => cases h
  | char p =>
      obtain ⟨c, hc, rfl⟩ := hx
      exact ⟨c, rfl, not_mem_of_isForeign h hc⟩
  | many p least lazy =>
      rw [endsForeign, Bool.and_eq_true, decide_eq_true_eq] at h
      have hne : x ≠ [] := List.ne_nil_of_length_pos (h.1.trans_le hx.1)
      exact ⟨x.getLast hne, List.getLast?_eq_some_getLast hne,
        not_mem_of_isForeign h.2 (hx.2 _ (List.getLast_mem hne))⟩
  | seq r r' ih ih' =>
      obtain ⟨y, z, rfl, hy, hz⟩ := hx
      obtain ⟨c, hc, hforeign⟩ := ih' h hz
      refine ⟨c, ?_, hforeign⟩
      rw [List.getLast?_append, hc]
      rfl
  | alt r r' ih ih' =>
      rw [endsForeign, Bool.and_eq_true] at h
      exact hx.elim (ih h.1) (ih' h.2)

/-! ## Matches and a word -/

/-- Every match is foreign to the word: no part of it, and not overlapping its start. -/
def keepsApart (star : α) (marker : List α) (r : Regex α) : Bool :=
  (r.avoids star || r.endsForeign marker) &&
    (r.hasForeign marker || decide (marker.length < r.minLength))

/-- What is no part of a word, and cannot run into it from the left. -/
structure Foreign (marker x : List α) : Prop where
  not_infix : ¬ x <:+: marker
  not_overlap : ∀ v, v <+: marker → v ≠ [] → ¬ v <:+ x

theorem Foreign.ne_nil (h : Foreign marker x) : x ≠ [] := by
  rintro rfl
  exact h.not_infix (List.nil_infix)

theorem not_infix_of_keepsApart (h : r.keepsApart star marker = true) (hx : r.Matches x) :
    ¬ x <:+: marker := by
  rw [keepsApart, Bool.and_eq_true] at h
  have hsecond := h.2
  rw [Bool.or_eq_true, decide_eq_true_eq] at hsecond
  intro hpart
  rcases hsecond with hforeign | hlong
  · obtain ⟨c, hc, hnot⟩ := exists_foreign hforeign hx
    exact hnot (hpart.subset hc)
  · exact absurd (hlong.trans_le ((minLength_le hx).trans hpart.length_le)) (lt_irrefl _)

/-- **What an expression matches is foreign to the word**, as computed. -/
theorem foreign_of_keepsApart (hhead : marker.head? = some star)
    (h : r.keepsApart star marker = true) (hx : r.Matches x) : Foreign marker x := by
  refine ⟨not_infix_of_keepsApart h hx, fun v hv hne hsuffix => ?_⟩
  rw [keepsApart, Bool.and_eq_true, Bool.or_eq_true] at h
  rcases h.1 with havoids | hends
  · -- The overlap starts as the word does.
    obtain ⟨c, v, rfl⟩ := List.exists_cons_of_ne_nil hne
    obtain ⟨t, rfl⟩ := hv
    obtain rfl := Option.some.inj hhead
    exact not_mem_of_avoids havoids hx (hsuffix.subset List.mem_cons_self)
  · -- The overlap ends as the match does.
    obtain ⟨c, hc, hforeign⟩ := exists_getLast? hends hx
    obtain ⟨t, rfl⟩ := hsuffix
    rw [List.getLast?_append_of_ne_nil _ hne] at hc
    exact hforeign (hv.subset (List.mem_of_getLast? hc))

end Regex
