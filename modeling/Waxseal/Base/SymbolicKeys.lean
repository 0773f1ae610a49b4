import Mathlib.Data.Set.Basic
import Mathlib.Logic.Function.Iterate

/-!
# Keys that are hashed forward

A symbolic attacker against a chain of keys, each the hash of the one before.  A value is a term:
something public, the first key, a hash, or a tag of a message under a key.  Who breaks in at some
epoch is told the key of that epoch and the tags that were published before it, and from there
computes as he likes (`Computes`).

He has then no key from before (`Computes.le_of_key`), and of the tags under such keys only those
that were published (`Computes.mem_of_tag`).
-/

namespace SymbolicKeys

/-- Values over a type of public ones. -/
inductive Term (α : Type*) where
  | data (a : α)
  | seed
  | hash (t : Term α)
  | tag (key message : Term α)

variable {α : Type*}

/-- The key of an epoch. -/
def key (epoch : ℕ) : Term α := Term.hash^[epoch] .seed

/-- What can be computed from what is told. -/
inductive Computes (told : Set (Term α)) : Term α → Prop
  | told {t : Term α} (h : t ∈ told) : Computes told t
  | data (a : α) : Computes told (.data a)
  | hash {t : Term α} (h : Computes told t) : Computes told (.hash t)
  | tag {k m : Term α} (hk : Computes told k) (hm : Computes told m) : Computes told (.tag k m)

/-- What a break-in at an epoch tells, where `published` are the messages tagged in each epoch
before. -/
def brokenInto (epoch : ℕ) (published : ℕ → Set α) : Set (Term α) :=
  {t | t = key epoch ∨ ∃ i < epoch, ∃ a ∈ published i, t = .tag (key i) (.data a)}

@[simp] theorem key_zero : (key 0 : Term α) = .seed := rfl

theorem key_succ (epoch : ℕ) : (key (epoch + 1) : Term α) = .hash (key epoch) :=
  Function.iterate_succ_apply' _ _ _

theorem key_injective : Function.Injective (key : ℕ → Term α) := by
  intro i j h
  induction i generalizing j with
  | zero =>
      cases j with
      | zero => rfl
      | succ j =>
          rw [key_succ] at h
          cases h
  | succ i ih =>
      cases j with
      | zero =>
          rw [key_succ] at h
          cases h
      | succ j =>
          rw [key_succ, key_succ, Term.hash.injEq] at h
          rw [ih h]

/-- A key is no tag. -/
theorem key_ne_tag (epoch : ℕ) (k m : Term α) : key epoch ≠ .tag k m := by
  cases epoch with
  | zero => exact nofun
  | succ epoch =>
      rw [key_succ]
      exact nofun

variable {epoch i : ℕ} {published : ℕ → Set α} {a : α}

/-- **No key from before** the break-in can be computed. -/
theorem Computes.le_of_key (h : Computes (brokenInto epoch published) (key i)) : epoch ≤ i := by
  generalize ht : key i = t at h
  -- a key is told, or the hash of the key before it was computed
  induction h generalizing i with
  | told h =>
      subst ht
      rcases h with heq | ⟨j, -, b, -, heq⟩
      · exact (key_injective heq).ge
      · exact absurd heq (key_ne_tag _ _ _)
  | data b =>
      cases i with
      | zero => cases ht
      | succ i =>
          rw [key_succ] at ht
          cases ht
  | hash _ ih =>
      cases i with
      | zero => cases ht
      | succ i =>
          rw [key_succ, Term.hash.injEq] at ht
          exact (ih ht).trans (Nat.le_succ i)
  | tag _ _ _ _ => exact absurd ht (key_ne_tag _ _ _)

/-- **No tag under such a key** can be computed that was not published. -/
theorem Computes.mem_of_tag (h : Computes (brokenInto epoch published) (.tag (key i) (.data a)))
    (hi : i < epoch) : a ∈ published i := by
  cases h with
  | told h =>
      rcases h with heq | ⟨j, -, b, hb, heq⟩
      · exact absurd heq.symm (key_ne_tag _ _ _)
      · rw [Term.tag.injEq, Term.data.injEq] at heq
        obtain ⟨hkey, rfl⟩ := heq
        rw [key_injective hkey]
        exact hb
  | tag hk _ => exact absurd hk.le_of_key (Nat.not_le.mpr hi)

/-- The keys from the break-in on can be. -/
theorem computes_key (h : epoch ≤ i) : Computes (brokenInto epoch published) (key i) := by
  induction i, h using Nat.le_induction with
  | base => exact .told (.inl rfl)
  | succ i _ ih =>
      rw [key_succ]
      exact .hash ih

/-- And so can every tag under such a key, and every tag that was published. -/
theorem computes_tag (h : i < epoch → a ∈ published i) :
    Computes (brokenInto epoch published) (.tag (key i) (.data a)) := by
  rcases Nat.lt_or_ge i epoch with hi | hi
  · exact .told (.inr ⟨i, hi, a, h hi, rfl⟩)
  · exact .tag (computes_key hi) (.data a)

end SymbolicKeys
