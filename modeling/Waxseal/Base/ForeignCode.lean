import Mathlib.Data.List.Basic
import Mathlib.Tactic.Common

/-!
# Contracts among foreign code

A contract that hands control to code it does not know.  Foreign code is any tree of calls
of the contract: it calls, it opens frames of its own that may be rolled back, and in the
end it returns or reverts.  A call of the contract changes the state first; where it then
transfers ether, the recipient is foreign code again and runs on the changed state.  If the
recipient reverts, or the call does not get to its end, the call leaves no trace.

What a call does to the state is a parameter.  `run_rel` is the one induction over such
trees: a reflexive and transitive relation that every state change respects holds from the
start of a run to each state foreign code ever sees, those of rolled back frames included.
-/

namespace Waxseal

universe u v

/-- Foreign code, with calls in `κ`. -/
inductive ForeignCode (κ : Type u) where
  /-- Return, or revert. -/
  | done (accept : Bool)
  /-- Call the contract and go on.  `completes` says whether the call gets to its end,
  `recipient` is the code that runs if the call transfers ether. -/
  | call (c : κ) (completes : Bool) (recipient rest : ForeignCode κ)
  /-- Run a frame of one's own and go on. -/
  | frame (body rest : ForeignCode κ)

namespace ForeignCode

variable {κ : Type u} {σ : Type v}

/-- What a run comes to: whether the code returned, the state it leaves, and all states in
which foreign code ran. -/
structure Outcome (σ : Type v) where
  accepted : Bool
  state : σ
  seen : List σ

/-- Go on after the states `seen` before. -/
def Outcome.after (o : Outcome σ) (seen : List σ) : Outcome σ :=
  { o with seen := seen ++ o.seen }

/-- Run foreign code.  `enter` is what a call does before it transfers: `none` is a revert,
and the flag says whether a transfer follows. -/
def run (enter : σ → κ → Option (σ × Bool)) : ForeignCode κ → σ → Outcome σ
  | done accept, s => ⟨accept, s, [s]⟩
  | call c completes recipient rest, s =>
      match enter s c with
      | none => (run enter rest s).after [s]
      | some (s₁, false) => (run enter rest (if completes then s₁ else s)).after [s]
      | some (s₁, true) =>
          let o := run enter recipient s₁
          (run enter rest (if o.accepted && completes then o.state else s)).after (s :: o.seen)
  | frame body rest, s =>
      let o := run enter body s
      (run enter rest (if o.accepted then o.state else s)).after (s :: o.seen)

variable {enter : σ → κ → Option (σ × Bool)} {R : σ → σ → Prop}

/-- Everything in the outcome is related to a state. -/
def Outcome.All (o : Outcome σ) (P : σ → Prop) : Prop := P o.state ∧ ∀ t ∈ o.seen, P t

theorem Outcome.All.after {o : Outcome σ} {P : σ → Prop} {seen : List σ} (h : o.All P)
    (hseen : ∀ t ∈ seen, P t) : (o.after seen).All P := by
  refine ⟨h.1, fun t ht => ?_⟩
  rcases List.mem_append.mp ht with ht | ht
  · exact hseen t ht
  · exact h.2 t ht

/-- **The run lemma.**  What every state change respects, every run does, at each point where
foreign code runs. -/
theorem run_rel (hrefl : ∀ s, R s s) (htrans : ∀ s t u, R s t → R t u → R s u)
    (henter : ∀ s c s' sends, enter s c = some (s', sends) → R s s') (code : ForeignCode κ)
    (s : σ) : (run enter code s).All (R s) := by
  have hfrom : ∀ {o : Outcome σ} {t u : σ}, R t u → o.All (R u) → o.All (R t) :=
    fun htu h => ⟨htrans _ _ _ htu h.1, fun x hx => htrans _ _ _ htu (h.2 x hx)⟩
  induction code generalizing s with
  | done accept => exact ⟨hrefl s, fun t ht => by rw [List.mem_singleton.mp ht]; exact hrefl s⟩
  | call c completes recipient rest ihr ih =>
      rw [run]
      have hself : ∀ t ∈ [s], R s t := fun t ht => by
        rw [List.mem_singleton.mp ht]
        exact hrefl s
      rcases hc : enter s c with - | ⟨s₁, sends⟩
      · exact (ih s).after hself
      · have hs₁ := henter s c s₁ sends hc
        cases sends with
        | false =>
            refine (hfrom ?_ (ih _)).after hself
            split
            · exact hs₁
            · exact hrefl s
        | true =>
            have hinner := hfrom hs₁ (ihr s₁)
            refine (hfrom ?_ (ih _)).after ?_
            · split
              · exact hinner.1
              · exact hrefl s
            · exact List.forall_mem_cons.mpr ⟨hrefl s, hinner.2⟩
  | frame body rest ihb ih =>
      have hinner := ihb s
      rw [run]
      refine (hfrom ?_ (ih _)).after ?_
      · split
        · exact hinner.1
        · exact hrefl s
      · exact List.forall_mem_cons.mpr ⟨hrefl s, hinner.2⟩

end ForeignCode

end Waxseal
