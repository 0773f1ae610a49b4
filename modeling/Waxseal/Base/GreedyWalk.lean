import Mathlib.Data.List.Chain
import Mathlib.Data.List.Nodup
import Mathlib.Logic.Relation

/-!
# Greedy walks on a graph

A greedy walk looks for a goal in a finite graph: from a node that is no goal it goes on to the
first listed neighbour it has not visited, and never back.  What it finds is there
(`reaches_of_walk`), but it can miss what is there: it finds a goal wherever one can be reached
exactly if it takes no wrong turn (`walk_exact_iff`), a step from which no goal can be reached any
more although one could be before.  No turn is wrong where no node has two neighbours
(`not_wrongTurn_of_unique`).
-/

namespace Waxseal

universe u

variable {α : Type u} [DecidableEq α] (next : α → α → Bool) (goal : α → Bool) (nodes : List α)

/-- The first listed neighbour of `a` that has not been visited. -/
def firstUnvisited (visited : List α) (a : α) : Option α :=
  nodes.find? fun b => decide (b ∉ visited) && next a b

theorem firstUnvisited_eq_some {next : α → α → Bool} {nodes visited : List α} {a b : α}
    (h : firstUnvisited next nodes visited a = some b) :
    b ∈ nodes ∧ b ∉ visited ∧ next a b = true := by
  have hb := List.find?_some h
  rw [Bool.and_eq_true, decide_eq_true_eq] at hb
  exact ⟨List.mem_of_find?_eq_some h, hb⟩

theorem firstUnvisited_eq_none {next : α → α → Bool} {nodes visited : List α} {a : α} :
    firstUnvisited next nodes visited a = none ↔
      ∀ b ∈ nodes, b ∉ visited → next a b = false := by
  simp [firstUnvisited]

/-- Visiting a listed node leaves fewer of them. -/
theorem length_unvisited_lt {nodes visited : List α} {b : α} (hb : b ∈ nodes)
    (hnew : b ∉ visited) :
    (nodes.filter (· ∉ b :: visited)).length < (nodes.filter (· ∉ visited)).length := by
  have hsub : (nodes.filter (· ∉ b :: visited)) =
      (nodes.filter (· ∉ visited)).filter (· ≠ b) := by
    rw [List.filter_filter]
    apply List.filter_congr
    intro c _
    simp
  rw [hsub]
  apply List.length_filter_lt_length_iff_exists.mpr
  exact ⟨b, by simp [hb, hnew]⟩

/-- The walk from `a`, where `visited` holds the nodes on the way to it and `a` itself. -/
def walk (visited : List α) (a : α) : Bool :=
  if goal a then
    true
  else
    match _h : firstUnvisited next nodes visited a with
    | none => false
    | some b => walk (b :: visited) b
termination_by (nodes.filter (· ∉ visited)).length
decreasing_by
  obtain ⟨hb, hnew, -⟩ := firstUnvisited_eq_some ‹_›
  exact length_unvisited_lt hb hnew

variable {next goal nodes} {visited : List α} {a b : α}

theorem walk_of_goal (h : goal a = true) : walk next goal nodes visited a = true := by
  rw [walk, if_pos h]

theorem walk_step (h : goal a = false) (hb : firstUnvisited next nodes visited a = some b) :
    walk next goal nodes visited a = walk next goal nodes (b :: visited) b := by
  rw [walk, if_neg (by simp [h])]
  split
  · rename_i hnone
    rw [hb] at hnone
    cases hnone
  · rename_i c hc
    rw [hb, Option.some.injEq] at hc
    rw [hc]

theorem walk_stuck (h : goal a = false) (hb : firstUnvisited next nodes visited a = none) :
    walk next goal nodes visited a = false := by
  rw [walk, if_neg (by simp [h])]
  split
  · rfl
  · rename_i c hc
    rw [hb] at hc
    cases hc

/-! ## Routes -/

variable (next goal nodes) in
/-- A goal can be reached from `a` over distinct listed nodes, none of them visited. -/
def Reaches (visited : List α) (a : α) : Prop :=
  ∃ route : List α, (a :: route).Nodup ∧ (∀ b ∈ route, b ∈ nodes ∧ b ∉ visited) ∧
    (a :: route).IsChain (fun b c => next b c = true) ∧
    goal ((a :: route).getLast (List.cons_ne_nil a route)) = true

omit [DecidableEq α] in
theorem reaches_of_goal (h : goal a = true) : Reaches next goal nodes visited a :=
  ⟨[], List.nodup_singleton a, by simp, List.IsChain.singleton a, h⟩

omit [DecidableEq α] in
/-- A route that starts at a visited node goes on with a neighbour that has not been visited. -/
theorem reaches_iff (hgoal : goal a = false) (hvisited : a ∈ visited) :
    Reaches next goal nodes visited a ↔
      ∃ b ∈ nodes, b ∉ visited ∧ next a b = true ∧ Reaches next goal nodes (b :: visited) b := by
  constructor
  · rintro ⟨_ | ⟨b, route⟩, hnodup, hfree, hchain, hlast⟩
    · simp [hgoal] at hlast
    · obtain ⟨hb, hnew⟩ := hfree b List.mem_cons_self
      rw [List.isChain_cons_cons] at hchain
      have htail := (List.nodup_cons.mp hnodup).2
      refine ⟨b, hb, hnew, hchain.1, route, htail, ?_, hchain.2, hlast⟩
      intro c hc
      obtain ⟨hmem, hfresh⟩ := hfree c (List.mem_cons_of_mem b hc)
      refine ⟨hmem, ?_⟩
      rintro (_ | ⟨_, hold⟩)
      · exact (List.nodup_cons.mp htail).1 hc
      · exact hfresh hold
  · rintro ⟨b, hb, hnew, hstep, route, hnodup, hfree, hchain, hlast⟩
    have hold : ∀ c ∈ b :: route, c ∈ nodes ∧ c ∉ visited := by
      rintro c (_ | ⟨_, hc⟩)
      · exact ⟨hb, hnew⟩
      · exact ⟨(hfree c hc).1, fun h => (hfree c hc).2 (List.mem_cons_of_mem b h)⟩
    -- `a` is visited, so the rest of the route cannot come back to it
    have ha : a ∉ b :: route := fun h => (hold a h).2 hvisited
    exact ⟨b :: route, List.nodup_cons.mpr ⟨ha, hnodup⟩, hold,
      List.isChain_cons_cons.mpr ⟨hstep, hchain⟩, hlast⟩

/-- **What the walk finds is there.** -/
theorem reaches_of_walk (hvisited : a ∈ visited) (h : walk next goal nodes visited a = true) :
    Reaches next goal nodes visited a := by
  induction visited, a using walk.induct next goal nodes with
  | case1 visited a hgoal => exact reaches_of_goal hgoal
  | case2 visited a hgoal hnone =>
      rw [walk_stuck (Bool.not_eq_true _ ▸ hgoal) hnone] at h
      cases h
  | case3 visited a hgoal b hb ih =>
      rw [walk_step (Bool.not_eq_true _ ▸ hgoal) hb] at h
      obtain ⟨hmem, hnew, hstep⟩ := firstUnvisited_eq_some hb
      exact (reaches_iff (Bool.not_eq_true _ ▸ hgoal) hvisited).mpr
        ⟨b, hmem, hnew, hstep, ih List.mem_cons_self h⟩

/-! ## Wrong turns -/

variable (next goal nodes) in
/-- The step of the walk: on from a node that is no goal to its first unvisited neighbour. -/
def WalkStep (s t : List α × α) : Prop :=
  goal s.2 = false ∧ firstUnvisited next nodes s.1 s.2 = some t.2 ∧ t.1 = t.2 :: s.1

variable (next goal nodes) in
/-- The walk from `a` turns wrong: on its way it leaves a node from which a goal can be reached
for one from which none can be. -/
def WrongTurn (visited : List α) (a : α) : Prop :=
  ∃ s t, Relation.ReflTransGen (WalkStep next goal nodes) (visited, a) s ∧
    WalkStep next goal nodes s t ∧
    Reaches next goal nodes s.1 s.2 ∧ ¬ Reaches next goal nodes t.1 t.2

theorem WalkStep.unique {s t t' : List α × α} (h : WalkStep next goal nodes s t)
    (h' : WalkStep next goal nodes s t') : t = t' := by
  obtain ⟨-, hfirst, hvisited⟩ := h
  obtain ⟨-, hfirst', hvisited'⟩ := h'
  have hnode : t.2 = t'.2 := Option.some.inj (hfirst.symm.trans hfirst')
  exact Prod.ext (by rw [hvisited, hvisited', hnode]) hnode

/-- A wrong turn is the first step or lies behind it. -/
theorem wrongTurn_step {t : List α × α} (h : WalkStep next goal nodes (visited, a) t) :
    WrongTurn next goal nodes visited a ↔
      (Reaches next goal nodes visited a ∧ ¬ Reaches next goal nodes t.1 t.2) ∨
        WrongTurn next goal nodes t.1 t.2 := by
  constructor
  · rintro ⟨s, t', hrun, hstep, hbefore, hafter⟩
    rcases Relation.ReflTransGen.cases_head hrun with rfl | ⟨s', hfirst, hrest⟩
    · rw [← h.unique hstep] at hafter
      exact .inl ⟨hbefore, hafter⟩
    · rw [← h.unique hfirst] at hrest
      exact .inr ⟨s, t', hrest, hstep, hbefore, hafter⟩
  · rintro (⟨hbefore, hafter⟩ | ⟨s, t', hrun, hstep, hbefore, hafter⟩)
    · exact ⟨(visited, a), t, .refl, h, hbefore, hafter⟩
    · exact ⟨s, t', .head h hrun, hstep, hbefore, hafter⟩

theorem not_wrongTurn_of_end (h : ∀ t, ¬ WalkStep next goal nodes (visited, a) t) :
    ¬ WrongTurn next goal nodes visited a := by
  rintro ⟨s, t, hrun, hstep, -⟩
  rcases Relation.ReflTransGen.cases_head hrun with rfl | ⟨s', hfirst, -⟩
  · exact h t hstep
  · exact h s' hfirst

/-- **The walk is exact unless it turns wrong.**  By induction along the walk: a step that is no
wrong turn keeps what can be reached. -/
theorem walk_exact_iff (hvisited : a ∈ visited) :
    (walk next goal nodes visited a = true ↔ Reaches next goal nodes visited a) ↔
      ¬ WrongTurn next goal nodes visited a := by
  induction visited, a using walk.induct next goal nodes with
  | case1 visited a hgoal =>
      refine iff_of_true ⟨fun _ => reaches_of_goal hgoal, fun _ => walk_of_goal hgoal⟩ ?_
      apply not_wrongTurn_of_end
      intro t h
      rw [show goal a = false from h.1] at hgoal
      cases hgoal
  | case2 visited a hgoal hnone =>
      have hgoal : goal a = false := Bool.not_eq_true _ ▸ hgoal
      refine iff_of_true (iff_of_false ?_ ?_) ?_
      · simp [walk_stuck hgoal hnone]
      · rw [reaches_iff hgoal hvisited]
        rintro ⟨b, hb, hnew, hstep, -⟩
        rw [firstUnvisited_eq_none.mp hnone b hb hnew] at hstep
        cases hstep
      · apply not_wrongTurn_of_end
        intro t h
        rw [show firstUnvisited next nodes visited a = some t.2 from h.2.1] at hnone
        cases hnone
  | case3 visited a hgoal b hb ih =>
      have hgoal : goal a = false := Bool.not_eq_true _ ▸ hgoal
      have hstep : WalkStep next goal nodes (visited, a) (b :: visited, b) := ⟨hgoal, hb, rfl⟩
      obtain ⟨hmem, hnew, hnext⟩ := firstUnvisited_eq_some hb
      have hback : Reaches next goal nodes (b :: visited) b → Reaches next goal nodes visited a :=
        fun h => (reaches_iff hgoal hvisited).mpr ⟨b, hmem, hnew, hnext, h⟩
      have hwalk : walk next goal nodes (b :: visited) b = true →
          Reaches next goal nodes (b :: visited) b := reaches_of_walk List.mem_cons_self
      rw [walk_step hgoal hb, wrongTurn_step hstep, not_or, ← ih List.mem_cons_self]
      tauto

/-- No turn is wrong where no listed node has two listed neighbours. -/
theorem not_wrongTurn_of_unique
    (hunique : ∀ c, ∀ b ∈ nodes, ∀ b' ∈ nodes, next c b = true → next c b' = true → b = b')
    (hvisited : a ∈ visited) : ¬ WrongTurn next goal nodes visited a := by
  have hmem : ∀ s, Relation.ReflTransGen (WalkStep next goal nodes) (visited, a) s → s.2 ∈ s.1 := by
    intro s hrun
    induction hrun with
    | refl => exact hvisited
    | tail _ hstep _ => exact hstep.2.2 ▸ List.mem_cons_self
  rintro ⟨s, t, hrun, ⟨hgoal, hfirst, hvis⟩, hbefore, hafter⟩
  obtain ⟨b, hb, -, hnext, hreach⟩ := (reaches_iff hgoal (hmem s hrun)).mp hbefore
  obtain ⟨ht, -, hnext'⟩ := firstUnvisited_eq_some hfirst
  rw [hunique s.2 b hb t.2 ht hnext hnext', ← hvis] at hreach
  exact hafter hreach

end Waxseal
