import Mathlib.Analysis.Real.Sqrt
import Waxseal.Base.Bytes
import Waxseal.Base.Clamping

/-!
# How often to anchor

`domain/cadence.py`, over the reals: what anchoring every `n` entries costs, the cadence that
costs least, and the plan that keeps it within what the operator tolerates.

`planCadence_optimal` says that the plan is infeasible just when one anchor takes longer than is
tolerated, that a feasible plan costs least of all tolerated cadences, and that sharing an anchor
divides the optimum as `fleetDividend` says.
-/

noncomputable section

namespace Waxseal

/-- What the module raises: `AnchorTechnologyInfeasible`, or a `ValueError`. -/
inductive CadenceError where
  | infeasible (delta tMax : ℝ)
  | valueError

/-- `_require_positive(lam=lam, c=c, w=w, rho=rho)`. -/
def requirePositive (values : List ℝ) : Except CadenceError Unit :=
  if ∃ value ∈ values, value ≤ 0 then .error .valueError else .ok ()

/-- `_require_agent_count`. -/
def requireAgentCount (M : ℤ) : Except CadenceError Unit :=
  if M < 1 then .error .valueError else .ok ()

/-- `optimal_cadence`. -/
def optimalCadence (lam c w rho : ℝ) (M : ℤ) : Except CadenceError ℝ := do
  requirePositive [lam, c, w, rho]
  requireAgentCount M
  return √(2 * c * lam / (M * w * rho))

/-- `fleet_dividend`. -/
def fleetDividend (nStarSingleAgent : ℝ) (M : ℤ) : Except CadenceError ℝ := do
  requireAgentCount M
  return nStarSingleAgent / √M

/-- `anchor_cost_term`. -/
def anchorCostTerm (n lam c : ℝ) : ℝ := c * lam / n

/-- `exposure_cost_term`. -/
def exposureCostTerm (n w rho : ℝ) (M : ℤ) : ℝ := M * w * rho * n / 2

/-- `total_cost`. -/
def totalCost (n lam c w rho : ℝ) (M : ℤ) : ℝ := c * lam / n + M * w * rho * (n - 1) / 2

/-- `clamp_to_feasible`. -/
def clampToFeasible (nStar lam delta tMax : ℝ) : Except CadenceError ℝ :=
  if tMax < delta then .error (.infeasible delta tMax)
  else .ok (min (max nStar (lam * delta)) (lam * tMax))

/-- `CadencePlan`. -/
structure CadencePlan where
  nStar : ℝ
  nOpt : ℝ
  lowerBound : ℝ
  upperBound : ℝ
  anchorTerm : ℝ
  exposureTerm : ℝ

/-- `plan_cadence`. -/
def planCadence (lam c w rho : ℝ) (M : ℤ) (delta tMax : ℝ) : Except CadenceError CadencePlan :=
  if tMax < delta then .error (.infeasible delta tMax)
  else do
    let nStar ← optimalCadence lam c w rho M
    let nOpt ← clampToFeasible nStar lam delta tMax
    return {
      nStar := nStar
      nOpt := nOpt
      lowerBound := lam * delta
      upperBound := lam * tMax
      anchorTerm := anchorCostTerm nStar lam c
      exposureTerm := exposureCostTerm nStar w rho M }

/-! ## The optimum -/

section

variable {lam c w rho : ℝ} {M : ℤ} (hlam : 0 < lam) (hc : 0 < c) (hw : 0 < w) (hrho : 0 < rho)
  (hM : 1 ≤ M)

include hlam hc hw hrho hM

/-- Measurements that are positive have an optimum. -/
theorem optimalCadence_eq_ok :
    optimalCadence lam c w rho M = .ok √(2 * c * lam / (M * w * rho)) := by
  have hpositive : ¬ ∃ value ∈ [lam, c, w, rho], value ≤ 0 := by
    simp only [List.mem_cons, List.not_mem_nil, or_false, exists_eq_or_imp, exists_eq_left,
      not_or, not_le]
    exact ⟨hlam, hc, hw, hrho⟩
  rw [optimalCadence, requirePositive, if_neg hpositive, requireAgentCount, if_neg hM.not_gt]
  rfl

/-- The cost falls up to the optimum and rises behind it. -/
theorem fallsRises_totalCost :
    FallsRises (fun n => totalCost n lam c w rho M) (Set.Ioi 0) √(2 * c * lam / (M * w * rho)) := by
  have hpos : (0 : ℝ) < M := by exact_mod_cast hM
  have hrate : 0 < M * w * rho / 2 := by positivity
  have hsq : √(2 * c * lam / (M * w * rho)) ^ 2 = c * lam / (M * w * rho / 2) := by
    rw [Real.sq_sqrt (by positivity)]
    field_simp
  have hcost : ∀ n, totalCost n lam c w rho M =
      (c * lam / n + M * w * rho / 2 * n) - M * w * rho / 2 := by
    intro n
    rw [totalCost]
    ring
  obtain ⟨hfalls, hrises⟩ := fallsRises_hyperbola hrate (Real.sqrt_pos.mpr (by positivity)) hsq
  constructor
  · intro x hx y hy hxy
    simp only [hcost]
    exact sub_le_sub_right (hfalls hx hy hxy) _
  · intro x hx y hy hxy
    simp only [hcost]
    exact sub_le_sub_right (hrises hx hy hxy) _

/-- Pooled agents anchor as often as the dividend of one of them says. -/
theorem fleetDividend_optimalCadence :
    ∃ single pooled, optimalCadence lam c w rho 1 = .ok single ∧
      optimalCadence lam c w rho M = .ok pooled ∧ fleetDividend single M = .ok pooled := by
  refine ⟨_, _, optimalCadence_eq_ok hlam hc hw hrho le_rfl,
    optimalCadence_eq_ok hlam hc hw hrho hM, ?_⟩
  have hpos : (0 : ℝ) < M := by exact_mod_cast hM
  rw [fleetDividend, requireAgentCount, if_neg hM.not_gt, ← Real.sqrt_div (by positivity)]
  refine congrArg (fun x => Except.ok √x) ?_
  rw [Int.cast_one, one_mul, div_div]
  ring

end

/-! ## The plan -/

/-- **The recommended cadence costs least.**  With everything positive, a plan fails just when an
anchor takes longer than is tolerated; the optimum of a plan has the square of the closed form,
and clamped it is tolerated and costs no more than any tolerated cadence; and the dividend of one
agent's optimum is the optimum of the fleet. -/
theorem planCadence_optimal {lam c w rho delta tMax : ℝ} {M : ℤ} (hlam : 0 < lam) (hc : 0 < c)
    (hw : 0 < w) (hrho : 0 < rho) (hM : 1 ≤ M) (hdelta : 0 < delta) :
    ((∃ d t, planCadence lam c w rho M delta tMax = .error (.infeasible d t)) ↔ tMax < delta) ∧
    (delta ≤ tMax → ∃ plan, planCadence lam c w rho M delta tMax = .ok plan ∧
      plan.nStar ^ 2 = 2 * c * lam / (M * w * rho) ∧
      plan.nOpt = min (max plan.nStar (lam * delta)) (lam * tMax) ∧
      plan.nOpt ∈ Set.Icc (lam * delta) (lam * tMax) ∧
      ∀ n ∈ Set.Icc (lam * delta) (lam * tMax),
        totalCost plan.nOpt lam c w rho M ≤ totalCost n lam c w rho M) ∧
    ∃ single pooled, optimalCadence lam c w rho 1 = .ok single ∧
      optimalCadence lam c w rho M = .ok pooled ∧ fleetDividend single M = .ok pooled := by
  have hplan : ∀ hle : delta ≤ tMax, ∃ plan, planCadence lam c w rho M delta tMax = .ok plan ∧
      plan.nStar = √(2 * c * lam / (M * w * rho)) ∧
      plan.nOpt = min (max plan.nStar (lam * delta)) (lam * tMax) := by
    intro hle
    rw [planCadence, if_neg hle.not_gt, optimalCadence_eq_ok hlam hc hw hrho hM]
    simp only [clampToFeasible, if_neg hle.not_gt]
    exact ⟨_, rfl, rfl, rfl⟩
  refine ⟨⟨?_, fun h => ⟨delta, tMax, if_pos h⟩⟩, fun hle => ?_, ?_⟩
  · rintro ⟨d, t, herror⟩
    by_contra hle
    obtain ⟨plan, hok, -⟩ := hplan (not_lt.mp hle)
    rw [hok] at herror
    cases herror
  · obtain ⟨plan, hok, hstar, hopt⟩ := hplan hle
    have hlower : lam * delta ≤ lam * tMax := mul_le_mul_of_nonneg_left hle hlam.le
    have hwithin : Set.Icc (lam * delta) (lam * tMax) ⊆ Set.Ioi 0 := fun n hn =>
      (mul_pos hlam hdelta).trans_le hn.1
    refine ⟨plan, hok, ?_, hopt, ?_, ?_⟩
    · have hpos : (0 : ℝ) < M := by exact_mod_cast hM
      rw [hstar, Real.sq_sqrt (by positivity)]
    · rw [hopt]
      exact ⟨le_min (le_max_right _ _) hlower, min_le_right _ _⟩
    · intro n hn
      rw [hopt, hstar]
      exact (fallsRises_totalCost hlam hc hw hrho hM).clamp_le hwithin hn
  · exact fleetDividend_optimalCadence hlam hc hw hrho hM

/-- Two agents, and an optimum beyond what is tolerated. -/
theorem planCadence_optimal_clamped :
    ((∃ d t, planCadence 4 2 1 1 2 1 2 = .error (.infeasible d t)) ↔ (2 : ℝ) < 1) ∧
    ((1 : ℝ) ≤ 2 → ∃ plan, planCadence 4 2 1 1 2 1 2 = .ok plan ∧
      plan.nStar ^ 2 = 2 * 2 * 4 / ((2 : ℤ) * 1 * 1) ∧
      plan.nOpt = min (max plan.nStar (4 * 1)) (4 * 2) ∧
      plan.nOpt ∈ Set.Icc (4 * 1) (4 * 2) ∧
      ∀ n ∈ Set.Icc (4 * 1) (4 * 2), totalCost plan.nOpt 4 2 1 1 2 ≤ totalCost n 4 2 1 1 2) ∧
    ∃ single pooled, optimalCadence 4 2 1 1 1 = .ok single ∧
      optimalCadence 4 2 1 1 2 = .ok pooled ∧ fleetDividend single 2 = .ok pooled :=
  planCadence_optimal (by norm_num) (by norm_num) (by norm_num) (by norm_num) (by norm_num)
    (by norm_num)

end Waxseal

end
