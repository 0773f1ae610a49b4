import Mathlib.Data.List.Infix

/-!
# Cutting at a delimiter

`cut d s` is what is before the first occurrence of `d` in `s`, and what is behind it.

A writer that puts `d` behind a text gets the text cut off where it ends only if no occurrence of
`d` begins inside the text, and one may begin there and end behind it.  It cannot if the first
symbol of `d` comes no second time in `d` (`cut_append`).
-/

namespace Delimiters

variable {α : Type*} [DecidableEq α]

/-- What is before the first occurrence of a delimiter, and what is behind it. -/
def cut (d : List α) : List α → Option (List α × List α)
  | [] => if d = [] then some ([], []) else none
  | a :: s =>
      if d <+: a :: s then some ([], (a :: s).drop d.length)
      else (cut d s).map fun out => (a :: out.1, out.2)

theorem cut_of_prefix {d s : List α} (h : d <+: s) : cut d s = some ([], s.drop d.length) := by
  cases s with
  | nil =>
      obtain rfl := List.prefix_nil.mp h
      exact if_pos rfl
  | cons a s => exact if_pos h

/-- A delimiter is found behind a text in which none begins. -/
theorem cut_eq {d text rest : List α}
    (h : ∀ t, t ≠ [] → t <:+ text → ¬ d <+: t ++ (d ++ rest)) :
    cut d (text ++ (d ++ rest)) = some (text, rest) := by
  induction text with
  | nil =>
      rw [List.nil_append, cut_of_prefix (List.prefix_append d rest), List.drop_left]
  | cons a text ih =>
      have hnot : ¬ d <+: a :: (text ++ (d ++ rest)) :=
        h (a :: text) (List.cons_ne_nil a text) (List.suffix_refl _)
      have hnext : cut d (text ++ (d ++ rest)) = some (text, rest) := by
        apply ih
        intro t ht hsuffix
        exact h t ht (hsuffix.trans (List.suffix_cons a text))
      rw [List.cons_append, cut, if_neg hnot, hnext]
      rfl

/-- **A delimiter whose first symbol comes once** ends every text it does not occur in. -/
theorem cut_append {a : α} {d text : List α} (ha : a ∉ d) (h : ¬ (a :: d) <:+: text)
    (rest : List α) : cut (a :: d) (text ++ (a :: d ++ rest)) = some (text, rest) := by
  apply cut_eq
  intro t ht hsuffix hprefix
  rcases Nat.lt_or_ge t.length (a :: d).length with hlt | hge
  · -- the occurrence ends behind the text, where another one starts
    have hpre : t <+: a :: d :=
      List.prefix_of_prefix_length_le (List.prefix_append t _) hprefix hlt.le
    obtain ⟨u, hu⟩ := hpre
    have hover : t ++ u <+: t ++ (a :: d ++ rest) := by
      rw [hu]
      exact hprefix
    rw [List.prefix_append_right_inj] at hover
    cases u with
    | nil =>
        rw [List.append_nil] at hu
        rw [hu] at hlt
        exact absurd hlt (lt_irrefl _)
    | cons b u =>
        obtain rfl : b = a := (List.cons_prefix_cons.mp hover).1
        cases t with
        | nil => exact ht rfl
        | cons c t =>
            have htail : t ++ b :: u = d := (List.cons.inj hu).2
            exact ha (htail ▸ List.mem_append_right t List.mem_cons_self)
  · -- the occurrence is inside the text
    have hpre : a :: d <+: t :=
      List.prefix_of_prefix_length_le hprefix (List.prefix_append t _) hge
    exact h (hpre.isInfix.trans hsuffix.isInfix)

/-- A delimiter of one symbol. -/
theorem cut_singleton {a : α} {text : List α} (h : a ∉ text) (rest : List α) :
    cut [a] (text ++ a :: rest) = some (text, rest) := by
  refine cut_append List.not_mem_nil ?_ rest
  intro hoccurs
  exact h (hoccurs.subset (List.mem_singleton.mpr rfl))

end Delimiters
