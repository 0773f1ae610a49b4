import Mathlib.Order.Basic

/-!
# Verdicts

`domain/verdict.py`.  One finding of a check, and the join that takes the more severe of
two.  Severity is not the exit code: `unverifiable` exits with the larger number and is the
weaker finding.
-/

namespace Waxseal

/-- `Verdict`. -/
inductive Verdict where
  | ok
  | unverifiable
  | broken
  deriving DecidableEq, Repr

namespace Verdict

/-- `_SEVERITY`. -/
def severity : Verdict → ℕ
  | ok => 0
  | unverifiable => 1
  | broken => 2

/-- `join`. -/
def join (a b : Verdict) : Verdict := if b.severity ≤ a.severity then a else b

/-- `to_exit_code`. -/
def toExitCode : Verdict → ℕ
  | ok => 0
  | broken => 1
  | unverifiable => 2

@[simp] theorem join_eq_broken {a b : Verdict} : a.join b = broken ↔ a = broken ∨ b = broken := by
  cases a <;> cases b <;> decide

@[simp] theorem join_eq_ok {a b : Verdict} : a.join b = ok ↔ a = ok ∧ b = ok := by
  cases a <;> cases b <;> decide

/-- The join of several verdicts is a break when one of them is. -/
theorem foldl_join_eq_broken {vs : List Verdict} {v : Verdict} :
    vs.foldl join v = broken ↔ v = broken ∨ broken ∈ vs := by
  induction vs generalizing v with
  | nil => simp
  | cons w vs ih =>
      rw [List.foldl_cons, ih, join_eq_broken, List.mem_cons, or_assoc, eq_comm (a := broken)]

theorem foldl_join_eq_ok {vs : List Verdict} {v : Verdict} :
    vs.foldl join v = ok ↔ v = ok ∧ ∀ w ∈ vs, w = ok := by
  induction vs generalizing v with
  | nil => simp
  | cons w vs ih => rw [List.foldl_cons, ih, join_eq_ok, List.forall_mem_cons, and_assoc]

theorem join_right_comm (a b c : Verdict) : (a.join b).join c = (a.join c).join b := by
  cases a <;> cases b <;> cases c <;> rfl

/-- The order of the verdicts is of no effect on their join. -/
theorem foldl_join_perm {vs ws : List Verdict} (h : vs.Perm ws) (v : Verdict) :
    vs.foldl join v = ws.foldl join v := by
  induction h generalizing v with
  | nil => rfl
  | cons w _ ih => exact ih (v.join w)
  | swap w w' vs => rw [List.foldl_cons, List.foldl_cons, join_right_comm, ← List.foldl_cons,
      ← List.foldl_cons]
  | trans _ _ ih ih' => exact (ih v).trans (ih' v)

/-! ## The first finding -/

/-- What a check answers that stops at its first finding. -/
def first : List Verdict → Verdict
  | [] => ok
  | ok :: vs => first vs
  | v :: _ => v

theorem first_eq_ok {vs : List Verdict} : first vs = ok ↔ ∀ v ∈ vs, v = ok := by
  induction vs with
  | nil => simp [first]
  | cons v vs ih => cases v <;> simp [first, ih]

theorem first_mem {vs : List Verdict} (h : first vs ≠ ok) : first vs ∈ vs := by
  induction vs with
  | nil => exact absurd rfl h
  | cons v vs ih =>
      cases v with
      | ok => exact List.mem_cons_of_mem _ (ih h)
      | unverifiable => exact List.mem_cons_self
      | broken => exact List.mem_cons_self

/-- **Stopping at the first finding loses nothing** if the findings are all of one kind. -/
theorem first_eq_foldl_join {vs : List Verdict} (h : ¬ (unverifiable ∈ vs ∧ broken ∈ vs)) :
    first vs = vs.foldl join ok := by
  by_cases hok : first vs = ok
  · rw [hok, eq_comm, foldl_join_eq_ok]
    exact ⟨rfl, first_eq_ok.mp hok⟩
  · have hmem := first_mem hok
    rcases hfirst : first vs with _ | _ | _
    · exact absurd hfirst hok
    · rw [hfirst] at hmem
      have hbroken : vs.foldl join ok ≠ broken := fun hjoin =>
        h ⟨hmem, (foldl_join_eq_broken.mp hjoin).resolve_left nofun⟩
      have hjoin : vs.foldl join ok ≠ ok := fun hjoin =>
        nomatch (foldl_join_eq_ok.mp hjoin).2 _ hmem
      cases hv : vs.foldl join ok with
      | ok => exact absurd hv hjoin
      | unverifiable => rfl
      | broken => exact absurd hv hbroken
    · rw [hfirst] at hmem
      exact (foldl_join_eq_broken.mpr (.inr hmem)).symm

end Verdict

end Waxseal
