import Mathlib.Data.List.Forall2

/-!
# Hash chains

A hash chain is a list whose items each carry the hash of their predecessor.
This file is about the pattern alone: items of any type `α`, a hash `hash x` an
item carries, a back link `prev x`, and a part `key x` of the item that the hash
commits to.

`Chained.commits` is the reason such chains are used: if the hash determines the
key on the items at hand, and the key determines the back link, then the last
hash determines every key and every hash before it.
-/

namespace Waxseal

universe u v w

variable {α : Type u} {H : Type v} {K : Type w} {prev hash : α → H} {key : α → K}

/-- `xs` is chained after an item with hash `p`: each back link is the hash
just before it. -/
def Chained (prev hash : α → H) : H → List α → Prop
  | _, [] => True
  | p, x :: xs => prev x = p ∧ Chained prev hash (hash x) xs

/-- The hash the next item of a chain must link to. -/
def headHash (hash : α → H) : H → List α → H
  | p, [] => p
  | _, x :: xs => headHash hash (hash x) xs

@[simp] theorem chained_nil (p : H) : Chained prev hash p [] := trivial

@[simp] theorem chained_cons {p : H} {x : α} {xs : List α} :
    Chained prev hash p (x :: xs) ↔ prev x = p ∧ Chained prev hash (hash x) xs := Iff.rfl

@[simp] theorem headHash_nil (p : H) : headHash hash p [] = p := rfl

@[simp] theorem headHash_cons (p : H) (x : α) (xs : List α) :
    headHash hash p (x :: xs) = headHash hash (hash x) xs := rfl

theorem headHash_append (p : H) (xs ys : List α) :
    headHash hash p (xs ++ ys) = headHash hash (headHash hash p xs) ys := by
  induction xs generalizing p with
  | nil => rfl
  | cons x xs ih => exact ih (hash x)

theorem headHash_eq_getLast? (p : H) (xs : List α) :
    headHash hash p xs = (xs.getLast?.map hash).getD p := by
  induction xs generalizing p with
  | nil => rfl
  | cons x xs ih =>
      rw [headHash_cons, ih, List.getLast?_cons]
      cases xs.getLast? <;> rfl

/-- Appending one item to a chain. -/
theorem chained_append {p : H} {xs ys : List α} :
    Chained prev hash p (xs ++ ys) ↔
      Chained prev hash p xs ∧ Chained prev hash (headHash hash p xs) ys := by
  induction xs generalizing p with
  | nil => simp
  | cons x xs ih => simp [ih, and_assoc]

/-- The back link of an item is the hash of what stands before it. -/
theorem Chained.prev_eq {p : H} {xs : List α} (h : Chained prev hash p xs) {i : ℕ} {x : α}
    (hx : xs[i]? = some x) : prev x = headHash hash p (xs.take i) := by
  obtain ⟨hlt, rfl⟩ := List.getElem?_eq_some_iff.mp hx
  rw [← List.take_append_drop i xs, chained_append, List.drop_eq_getElem_cons hlt] at h
  exact h.2.1

/-- **The last hash commits to the whole chain.**  The induction runs from the
front, but the argument runs from the back: the tail's conclusion includes that
the two tails start from the same hash, which is the hash of the two heads. -/
theorem Chained.commits (hprev : ∀ x y, key x = key y → prev x = prev y) :
    ∀ {xs ys : List α} {p q : H},
      (∀ x ∈ xs, ∀ y ∈ ys, hash x = hash y → key x = key y) →
      xs.length = ys.length →
      Chained prev hash p xs → Chained prev hash q ys →
      headHash hash p xs = headHash hash q ys →
        p = q ∧ List.Forall₂ (fun x y => key x = key y ∧ hash x = hash y) xs ys := by
  intro xs
  induction xs with
  | nil =>
      intro ys p q _ hlen _ _ hhead
      obtain rfl := List.length_eq_zero_iff.mp hlen.symm
      exact ⟨hhead, List.Forall₂.nil⟩
  | cons x xs ih =>
      intro ys p q hinj hlen hx hy hhead
      cases ys with
      | nil => simp at hlen
      | cons y ys =>
          obtain ⟨hash_eq, htail⟩ := ih
            (fun a ha b hb => hinj a (List.mem_cons_of_mem _ ha) b (List.mem_cons_of_mem _ hb))
            (by simpa using hlen) hx.2 hy.2 hhead
          have key_eq : key x = key y :=
            hinj x List.mem_cons_self y List.mem_cons_self hash_eq
          refine ⟨?_, List.Forall₂.cons ⟨key_eq, hash_eq⟩ htail⟩
          rw [← hx.1, ← hy.1]
          exact hprev x y key_eq

end Waxseal
