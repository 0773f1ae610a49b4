import Mathlib.Algebra.Order.Field.Basic
import Mathlib.Order.Interval.Set.Basic
import Mathlib.Order.Monotone.Basic
import Mathlib.Tactic.FieldSimp
import Mathlib.Tactic.Positivity
import Mathlib.Tactic.Ring

/-!
# Clamping an optimum

A function that falls as far as a point and rises from there on has its least value on an
interval where that point lands when it is clamped to the interval (`FallsRises.clamp_le`).  The
sum of a share of `1 / x` and a share of `x` is such a function (`fallsRises_hyperbola`).
-/

namespace Waxseal

section

variable {α β : Type*} [LinearOrder α] [Preorder β] {f : α → β} {s : Set α} {a lo hi x : α}

/-- `f` falls on `s` as far as `a`, and rises from there on. -/
structure FallsRises (f : α → β) (s : Set α) (a : α) : Prop where
  falls : AntitoneOn f (s ∩ Set.Iic a)
  rises : MonotoneOn f (s ∩ Set.Ici a)

theorem FallsRises.clamp_le (h : FallsRises f s a) (hs : Set.Icc lo hi ⊆ s)
    (hx : x ∈ Set.Icc lo hi) : f (min (max a lo) hi) ≤ f x := by
  have hle : lo ≤ hi := hx.1.trans hx.2
  rcases le_total a lo with hlow | hlow
  · -- The point lies below the interval.
    rw [max_eq_right hlow, min_eq_left hle]
    exact h.rises ⟨hs ⟨le_rfl, hle⟩, hlow⟩ ⟨hs hx, hlow.trans hx.1⟩ hx.1
  · rw [max_eq_left hlow]
    rcases le_total hi a with hhigh | hhigh
    · -- It lies above.
      rw [min_eq_right hhigh]
      exact h.falls ⟨hs hx, hx.2.trans hhigh⟩ ⟨hs ⟨hle, le_rfl⟩, hhigh⟩ hx.2
    · rw [min_eq_left hhigh]
      have ha : a ∈ s := hs ⟨hlow, hhigh⟩
      rcases le_total x a with hxa | hax
      · exact h.falls ⟨hs hx, hxa⟩ ⟨ha, le_rfl⟩ hxa
      · exact h.rises ⟨ha, le_rfl⟩ ⟨hs hx, hax⟩ hax

end

section

variable {K : Type*} [Field K] [LinearOrder K] [IsStrictOrderedRing K] {A B a : K}

omit [IsStrictOrderedRing K] in
/-- The step from `x` to `y` changes `A / x + B * x` by a multiple of `B * x * y - A`. -/
theorem hyperbola_sub {x y : K} (hx : 0 < x) (hy : 0 < y) :
    (A / y + B * y) - (A / x + B * x) = (y - x) * (B * (x * y) - A) / (x * y) := by
  field_simp
  ring

theorem fallsRises_hyperbola (hB : 0 < B) (ha : 0 < a) (hsq : a ^ 2 = A / B) :
    FallsRises (fun x => A / x + B * x) (Set.Ioi 0) a := by
  have hA : B * (a * a) = A := by
    rw [← pow_two, hsq, mul_div_cancel₀ A hB.ne']
  constructor
  · intro x hx y hy hxy
    have hpos : 0 < x * y := mul_pos hx.1 hy.1
    have hle : B * (x * y) ≤ A := by
      rw [← hA]
      exact mul_le_mul_of_nonneg_left (mul_le_mul hx.2 hy.2 hy.1.le ha.le) hB.le
    refine sub_nonpos.mp ?_
    rw [hyperbola_sub hx.1 hy.1]
    refine div_nonpos_of_nonpos_of_nonneg ?_ hpos.le
    exact mul_nonpos_of_nonneg_of_nonpos (sub_nonneg.mpr hxy) (sub_nonpos.mpr hle)
  · intro x hx y hy hxy
    have hpos : 0 < x * y := mul_pos hx.1 hy.1
    have hle : A ≤ B * (x * y) := by
      rw [← hA]
      exact mul_le_mul_of_nonneg_left (mul_le_mul hx.2 hy.2 ha.le hx.1.le) hB.le
    refine sub_nonneg.mp ?_
    rw [hyperbola_sub hx.1 hy.1]
    refine div_nonneg ?_ hpos.le
    exact mul_nonneg (sub_nonneg.mpr hxy) (sub_nonneg.mpr hle)

end

end Waxseal
