import Mathlib.Data.List.Basic
import Mathlib.Order.Nat

/-!
# Reading what moves

A program that looks places up, one after the other: what it finds decides where it looks
next.  On a store that stands still it is a function (`eval`), of the places it asks about
(`asks`) and of no others.

A store may also change while the program reads.  `Along` is the program read at moments of a
history; it comes out as if the store had stood still whenever each place it asks about has
(`Along.eval_eq`).
-/

namespace Waxseal

/-- A program that looks places up. -/
inductive Reads (ι α β : Type) where
  | done (value : β)
  | look (place : ι) (next : α → Reads ι α β)

namespace Reads

variable {ι α β γ : Type}

/-- One program after another. -/
protected def bind (p : Reads ι α β) (f : β → Reads ι α γ) : Reads ι α γ :=
  match p with
  | done b => f b
  | look i next => look i fun a => (next a).bind f

instance : Monad (Reads ι α) where
  pure := done
  bind := Reads.bind

@[simp] theorem pure_eq (b : β) : (pure b : Reads ι α β) = done b := rfl

@[simp] theorem done_bind (b : β) (f : β → Reads ι α γ) : (done b : Reads ι α β) >>= f = f b := rfl

@[simp] theorem look_bind (i : ι) (next : α → Reads ι α β) (f : β → Reads ι α γ) :
    look i next >>= f = look i fun a => next a >>= f := rfl

/-! ## A store that stands still -/

/-- What the program returns. -/
def eval (store : ι → α) : Reads ι α β → β
  | done b => b
  | look i next => (next (store i)).eval store

/-- Where it looks. -/
def asks (store : ι → α) : Reads ι α β → List ι
  | done _ => []
  | look i next => i :: (next (store i)).asks store

@[simp] theorem eval_done (store : ι → α) (b : β) : (done b : Reads ι α β).eval store = b := rfl

@[simp] theorem eval_look (store : ι → α) (i : ι) (next : α → Reads ι α β) :
    (look i next).eval store = (next (store i)).eval store := rfl

@[simp] theorem eval_bind (store : ι → α) (p : Reads ι α β) (f : β → Reads ι α γ) :
    (p >>= f).eval store = (f (p.eval store)).eval store := by
  induction p with
  | done b => rfl
  | look i next ih => exact ih (store i)

/-! ## What it was told -/

/-- Told these things at these places, the program returns this. -/
def Replies : Reads ι α β → List (ι × α) → β → Prop
  | done b, told, b' => told = [] ∧ b = b'
  | look i next, told, b' => ∃ a rest, told = (i, a) :: rest ∧ (next a).Replies rest b'

theorem Replies.of_bind {p : Reads ι α β} {f : β → Reads ι α γ} {told : List (ι × α)} {c : γ}
    (h : (p >>= f).Replies told c) :
    ∃ first second b, told = first ++ second ∧ p.Replies first b ∧ (f b).Replies second c := by
  induction p generalizing told with
  | done b => exact ⟨[], told, b, rfl, ⟨rfl, rfl⟩, h⟩
  | look i next ih =>
      obtain ⟨a, rest, rfl, hrest⟩ := h
      obtain ⟨first, second, b, rfl, hfirst, hsecond⟩ := ih a hrest
      exact ⟨(i, a) :: first, second, b, rfl, ⟨a, first, rfl, hfirst⟩, hsecond⟩

/-! ## A store that moves -/

/-- The program, read at moments of a history from the first moment on: what is left of it at
the second. -/
inductive Along (history : ℕ → ι → α) (p : Reads ι α β) (t : ℕ) : ℕ → Reads ι α β → Prop where
  | start : Along history p t t p
  | wait {u : ℕ} {q : Reads ι α β} : Along history p t u q → Along history p t (u + 1) q
  | look {u : ℕ} {i : ι} {next : α → Reads ι α β} : Along history p t u (.look i next) →
      Along history p t (u + 1) (next (history u i))

variable {history : ℕ → ι → α} {p q : Reads ι α β} {t u : ℕ}

theorem Along.le (h : Along history p t u q) : t ≤ u := by
  induction h with
  | start => exact le_rfl
  | wait _ ih => exact ih.trans (Nat.le_succ _)
  | look _ ih => exact ih.trans (Nat.le_succ _)

/-- Waiting for longer. -/
theorem Along.mono {v : ℕ} (h : Along history p t u q) (hle : u ≤ v) : Along history p t v q := by
  induction v, hle using Nat.le_induction with
  | base => exact h
  | succ v _ ih => exact ih.wait

/-- As far as the program asks, the history is this store. -/
def Stands (history : ℕ → ι → α) (t u : ℕ) (store : ι → α) (p : Reads ι α β) : Prop :=
  ∀ i ∈ p.asks store, ∀ v, t ≤ v → v < u → history v i = store i

theorem Along.follows {store : ι → α} (h : Along history p t u q)
    (hstands : Stands history t u store p) :
    q.eval store = p.eval store ∧ ∀ i ∈ q.asks store, i ∈ p.asks store := by
  induction h with
  | start => exact ⟨rfl, fun i hi => hi⟩
  | wait _ ih =>
      refine ih ?_
      intro i hi v htv hvu
      exact hstands i hi v htv (hvu.trans (Nat.lt_succ_self _))
  | @look u i next halong ih =>
      have hbefore : Stands history t u store p := by
        intro j hj v htv hvu
        exact hstands j hj v htv (hvu.trans (Nat.lt_succ_self _))
      obtain ⟨heval, hasks⟩ := ih hbefore
      have hseen : history u i = store i :=
        hstands i (hasks i List.mem_cons_self) u halong.le (Nat.lt_succ_self _)
      rw [hseen]
      refine ⟨heval, ?_⟩
      intro j hj
      exact hasks j (List.mem_cons_of_mem i hj)

/-- **A program reads a moving store as one that stands still**, if the places it asks about
do. -/
theorem Along.eval_eq {store : ι → α} {b : β} (h : Along history p t u (.done b))
    (hstands : Stands history t u store p) : b = p.eval store :=
  (h.follows hstands).1

/-- What the program is told is what the history holds at some moment. -/
theorem Along.exists_replies {told : List (ι × α)} {b : β} (h : Along history p t u q)
    (hq : q.Replies told b) :
    ∃ first, p.Replies (first ++ told) b ∧
      ∀ x ∈ first, ∃ v, t ≤ v ∧ v < u ∧ history v x.1 = x.2 := by
  induction h generalizing told with
  | start => exact ⟨[], hq, fun x hx => absurd hx List.not_mem_nil⟩
  | wait _ ih =>
      obtain ⟨first, hfirst, hseen⟩ := ih hq
      refine ⟨first, hfirst, ?_⟩
      intro x hx
      obtain ⟨v, htv, hvu, hv⟩ := hseen x hx
      exact ⟨v, htv, hvu.trans (Nat.lt_succ_self _), hv⟩
  | @look u i next halong ih =>
      obtain ⟨first, hfirst, hseen⟩ := ih ⟨history u i, told, rfl, hq⟩
      refine ⟨first ++ [(i, history u i)], ?_, ?_⟩
      · rw [List.append_assoc]
        exact hfirst
      · intro x hx
        rcases List.mem_append.mp hx with hx | hx
        · obtain ⟨v, htv, hvu, hv⟩ := hseen x hx
          exact ⟨v, htv, hvu.trans (Nat.lt_succ_self _), hv⟩
        · obtain rfl := List.mem_singleton.mp hx
          exact ⟨u, halong.le, Nat.lt_succ_self _, rfl⟩

/-- What a finished program was told is what the history held at moments of its run. -/
theorem Along.exists_told {b : β} (h : Along history p t u (.done b)) :
    ∃ told, p.Replies told b ∧ ∀ x ∈ told, ∃ v, t ≤ v ∧ v < u ∧ history v x.1 = x.2 := by
  obtain ⟨told, hreplies, hseen⟩ :=
    h.exists_replies (⟨rfl, rfl⟩ : (done b : Reads ι α β).Replies [] b)
  rw [List.append_nil] at hreplies
  exact ⟨told, hreplies, hseen⟩

end Reads

end Waxseal
