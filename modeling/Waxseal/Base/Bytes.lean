import Mathlib.Algebra.Ring.Int.Defs
import Mathlib.Algebra.Ring.Nat
import Mathlib.Data.List.Basic
import Mathlib.Data.List.TakeDrop
import Mathlib.Tactic.Common

/-!
# Byte strings

Byte strings, the 32-byte strings a SHA-256 digest and a `bytes32` word live
in, and the 8-byte big-endian length prefix `struct.pack(">Q", n)`.

Nothing here depends on the log: the length prefix is the one fact every frame
of the development needs, namely that a length-prefixed field can be read back
off the front of any longer byte string (`be64_append_inj`).
-/

namespace Waxseal

/-- A byte string. -/
abbrev Bytes := List UInt8

/-- A byte string of exactly 32 bytes: a SHA-256 digest, or a Solidity
`bytes32`. -/
abbrev Bytes32 := { b : Bytes // b.length = 32 }

@[simp] theorem Bytes32.length_val (b : Bytes32) : b.val.length = 32 := b.property

/-- Errors a Python call can raise, named by their class. -/
inductive PyErr where
  | valueError
  | unicodeEncodeError
  | unicodeDecodeError
  | jsonDecodeError
  | lpEncodingError
  | structError
  | typeError
  | keyError
  | indexError
  | attributeError
  | zeroDivisionError
  | overflowError
  | recursionError
  | runtimeError
  | osError
  | preconditionFailed
  deriving DecidableEq, Repr

/-- `isinstance(e, ValueError)`: `UnicodeError`, `JSONDecodeError` and
`LpEncodingError` are subclasses. -/
def PyErr.isValueError : PyErr → Bool
  | .valueError | .unicodeEncodeError | .unicodeDecodeError
  | .jsonDecodeError | .lpEncodingError => true
  | _ => false

/-- A call that goes on after another returns only if both do. -/
theorem bind_eq_ok_iff {ε α β : Type} {x : Except ε α} {f : α → Except ε β} {b : β} :
    x >>= f = .ok b ↔ ∃ a, x = .ok a ∧ f a = .ok b := by
  cases x with
  | error e => exact ⟨nofun, nofun⟩
  | ok a => exact ⟨fun h => ⟨a, rfl, h⟩, fun ⟨_, ha, h⟩ => Except.ok.inj ha ▸ h⟩

/-- A call that goes on after another raises what either raises. -/
theorem bind_eq_error_iff {ε α β : Type} {x : Except ε α} {f : α → Except ε β} {e : ε} :
    x >>= f = .error e ↔ x = .error e ∨ ∃ a, x = .ok a ∧ f a = .error e := by
  cases x with
  | error e' =>
      constructor
      · exact fun h => .inl (congrArg _ (Except.error.inj h))
      · rintro (h | ⟨a, h, -⟩)
        · exact congrArg _ (Except.error.inj h)
        · cases h
  | ok a =>
      constructor
      · exact fun h => .inr ⟨a, rfl, h⟩
      · rintro (h | ⟨a', h, hf⟩)
        · cases h
        · exact (Except.ok.inj h) ▸ hf

theorem exists_eq_ok_of_isSome {α : Type} {x : Except PyErr α} (h : x.toOption.isSome = true) :
    ∃ a, x = .ok a := by
  cases x with
  | error e => cases h
  | ok a => exact ⟨a, rfl⟩

theorem toOption_eq_some_iff {α : Type} {x : Except PyErr α} {a : α} :
    x.toOption = some a ↔ x = .ok a := by
  cases x with
  | error e => exact ⟨nofun, nofun⟩
  | ok b => exact ⟨fun h => congrArg _ (Option.some.inj h), fun h => congrArg _ (Except.ok.inj h)⟩

/-- A loop of calls that may raise returns if each of them does. -/
theorem isOk_mapM {α β : Type} {f : α → Except PyErr β} {xs : List α} :
    (∃ ys, xs.mapM f = .ok ys) ↔ ∀ x ∈ xs, ∃ y, f x = .ok y := by
  induction xs with
  | nil => exact ⟨fun _ => nofun, fun _ => ⟨[], rfl⟩⟩
  | cons x xs ih =>
      rw [List.mapM_cons, List.forall_mem_cons, ← ih]
      constructor
      · rintro ⟨ys, h⟩
        obtain ⟨y, hy, h⟩ := bind_eq_ok_iff.mp h
        obtain ⟨zs, hzs, -⟩ := bind_eq_ok_iff.mp h
        exact ⟨⟨y, hy⟩, zs, hzs⟩
      · rintro ⟨⟨y, hy⟩, zs, hzs⟩
        exact ⟨y :: zs, by rw [hy, hzs]; rfl⟩

theorem isOk_map {α β : Type} {f : α → β} {x : Except PyErr α} :
    (∃ b, f <$> x = .ok b) ↔ ∃ a, x = .ok a := by
  cases x with
  | error e => exact ⟨nofun, nofun⟩
  | ok a => exact ⟨fun _ => ⟨a, rfl⟩, fun _ => ⟨f a, rfl⟩⟩

theorem map_eq_ok_iff {α β : Type} {f : α → β} {x : Except PyErr α} {b : β} :
    f <$> x = .ok b ↔ ∃ a, x = .ok a ∧ f a = b := by
  cases x with
  | error e => exact ⟨nofun, nofun⟩
  | ok a =>
      constructor
      · exact fun h => ⟨a, rfl, Except.ok.inj h⟩
      · rintro ⟨a, h, rfl⟩
        obtain rfl := Except.ok.inj h
        rfl

/-! ## `struct.pack(">Q", n)` -/

/-- The eight big-endian bytes of `n` (of `n` modulo `2^64`). -/
def be64 (n : ℕ) : Bytes :=
  [UInt8.ofNat (n / 2 ^ 56), UInt8.ofNat (n / 2 ^ 48), UInt8.ofNat (n / 2 ^ 40),
    UInt8.ofNat (n / 2 ^ 32), UInt8.ofNat (n / 2 ^ 24), UInt8.ofNat (n / 2 ^ 16),
    UInt8.ofNat (n / 2 ^ 8), UInt8.ofNat n]

@[simp] theorem length_be64 (n : ℕ) : (be64 n).length = 8 := rfl

/-- Below `2^64` the eight bytes determine the number. -/
theorem be64_inj {m n : ℕ} (hm : m < 2 ^ 64) (hn : n < 2 ^ 64)
    (h : be64 m = be64 n) : m = n := by
  simp only [be64, List.cons.injEq, and_true] at h
  obtain ⟨h7, h6, h5, h4, h3, h2, h1, h0⟩ := h
  have digit : ∀ {a b : ℕ}, UInt8.ofNat a = UInt8.ofNat b → a % 256 = b % 256 := by
    intro a b hab
    simpa using congrArg UInt8.toNat hab
  have h0 := digit h0
  have h1 := digit h1
  have h2 := digit h2
  have h3 := digit h3
  have h4 := digit h4
  have h5 := digit h5
  have h6 := digit h6
  have h7 := digit h7
  omega

/-- `struct.pack(">Q", n)`: eight big-endian bytes, or `struct.error` when `n`
does not fit. -/
def packQ (n : ℕ) : Except PyErr Bytes :=
  if n < 2 ^ 64 then .ok (be64 n) else .error .structError

theorem packQ_of_lt {n : ℕ} (h : n < 2 ^ 64) : packQ n = .ok (be64 n) := if_pos h

theorem packQ_eq_ok_iff {n : ℕ} {b : Bytes} :
    packQ n = .ok b ↔ n < 2 ^ 64 ∧ be64 n = b := by
  rw [packQ]
  by_cases h : n < 2 ^ 64
  · rw [if_pos h, Except.ok.injEq, and_iff_right h]
  · rw [if_neg h]
    exact ⟨fun h' => (nomatch h'), fun h' => absurd h'.1 h⟩

/-- `struct.unpack(">Q", b)`, of eight bytes. -/
def unpackQ (b : Bytes) : ℕ := b.foldl (fun n x => 256 * n + x.toNat) 0

theorem unpackQ_be64 {n : ℕ} (h : n < 2 ^ 64) : unpackQ (be64 n) = n := by
  simp only [unpackQ, be64, List.foldl_cons, List.foldl_nil, UInt8.toNat_ofNat']
  omega

theorem be64_unpackQ {b : Bytes} (h : b.length = 8) :
    be64 (unpackQ b) = b ∧ unpackQ b < 2 ^ 64 := by
  obtain ⟨b₇, b₆, b₅, b₄, b₃, b₂, b₁, b₀, rfl⟩ : ∃ b₇ b₆ b₅ b₄ b₃ b₂ b₁ b₀ : UInt8,
      b = [b₇, b₆, b₅, b₄, b₃, b₂, b₁, b₀] := by
    rcases b with - | ⟨b₇, - | ⟨b₆, - | ⟨b₅, - | ⟨b₄, - | ⟨b₃, - | ⟨b₂, - | ⟨b₁, - | ⟨b₀, rest⟩⟩⟩⟩⟩⟩⟩⟩
    all_goals first | cases h | skip
    obtain rfl : rest = [] := List.length_eq_zero_iff.mp (by simpa using h)
    exact ⟨_, _, _, _, _, _, _, _, rfl⟩
  have hlt : ∀ x : UInt8, x.toNat < 256 := fun x => x.toNat_lt
  have h₀ := hlt b₀
  have h₁ := hlt b₁
  have h₂ := hlt b₂
  have h₃ := hlt b₃
  have h₄ := hlt b₄
  have h₅ := hlt b₅
  have h₆ := hlt b₆
  have h₇ := hlt b₇
  have byte : ∀ {n : ℕ} {b : UInt8}, n % 256 = b.toNat → UInt8.ofNat n = b := by
    intro n b h
    refine UInt8.toNat_inj.mp ?_
    rw [UInt8.toNat_ofNat', h]
  simp only [unpackQ, List.foldl_cons, List.foldl_nil]
  constructor
  · rw [be64]
    simp only [List.cons.injEq, and_true]
    exact ⟨byte (by omega), byte (by omega), byte (by omega), byte (by omega), byte (by omega),
      byte (by omega), byte (by omega), byte (by omega)⟩
  · omega

/-- **A length-prefixed field can be read off the front.**  Two byte strings
that start with a length-prefixed field and agree as a whole agree on the field
and on what follows it. -/
theorem be64_append_inj {a b r s : Bytes} (ha : a.length < 2 ^ 64)
    (hb : b.length < 2 ^ 64)
    (h : be64 a.length ++ a ++ r = be64 b.length ++ b ++ s) : a = b ∧ r = s := by
  rw [List.append_assoc, List.append_assoc] at h
  obtain ⟨hlen, hrest⟩ := List.append_inj h (by simp)
  exact List.append_inj hrest (be64_inj ha hb hlen)

end Waxseal
