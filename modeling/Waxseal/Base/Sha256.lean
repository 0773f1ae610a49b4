import Waxseal.Base.Hex

/-!
# SHA-256 and HMAC-SHA-256

The hash is a parameter of the development: `Hashlib` is Python's `hashlib`
and the EVM's SHA-256 precompile, reduced to the one function both provide.  No
proof looks inside it; results that need it collision free say on which inputs.

`Sha256.digest` is the function itself (FIPS 180-4), over natural-number words so
that a closed digest evaluates, and `Sha256.hashlib` the instance it gives.
-/

namespace Waxseal

/-- The hash library: SHA-256, from byte strings to 32-byte digests. -/
class Hashlib where
  sha256 : Bytes → Bytes32

export Hashlib (sha256)

section Hmac

variable [Hashlib]

/-- `hashlib.sha256(b).hexdigest()`. -/
def hexdigest (b : Bytes) : PyStr := hex (sha256 b).val

@[simp] theorem length_hexdigest (b : Bytes) : (hexdigest b).length = 64 := by
  simp [hexdigest]

/-- SHA-256 is injective on the listed inputs.  Results that need collision
freeness ask for it on the inputs their runs hash, never on all byte strings,
where no function to 32 bytes has it. -/
def CollisionFree (inputs : List Bytes) : Prop :=
  ∀ x ∈ inputs, ∀ y ∈ inputs, sha256 x = sha256 y → x = y

instance (inputs : List Bytes) : Decidable (CollisionFree inputs) :=
  inferInstanceAs (Decidable (∀ x ∈ inputs, ∀ y ∈ inputs, sha256 x = sha256 y → x = y))

theorem CollisionFree.mono {inputs inputs' : List Bytes} (h : CollisionFree inputs')
    (hsub : inputs ⊆ inputs') : CollisionFree inputs :=
  fun x hx y hy => h x (hsub hx) y (hsub hy)

theorem hexdigest_eq_iff {a b : Bytes} : hexdigest a = hexdigest b ↔ sha256 a = sha256 b := by
  rw [hexdigest, hexdigest, hex_inj, Subtype.val_inj]

/-- The 64-byte block HMAC keys its two passes with: a long key is hashed
first, a short one padded with zeros. -/
def hmacBlock (key : Bytes) : Bytes :=
  let k := if key.length > 64 then (sha256 key).val else key
  k ++ List.replicate (64 - k.length) 0

/-- `hmac.new(key, msg, hashlib.sha256).digest()`. -/
def hmacSha256 (key msg : Bytes) : Bytes32 :=
  sha256 ((hmacBlock key).map (· ^^^ 0x5C)
    ++ (sha256 ((hmacBlock key).map (· ^^^ 0x36) ++ msg)).val)

end Hmac

namespace Sha256

/-- Rotate a 32-bit word right. -/
def rotr (n x : ℕ) : ℕ := (x >>> n ||| x <<< (32 - n)) % 2 ^ 32

/-- The round constants. -/
def roundConstants : List ℕ :=
  [0x428a2f98, 0x71374491, 0xb5c0fbcf, 0xe9b5dba5, 0x3956c25b, 0x59f111f1, 0x923f82a4, 0xab1c5ed5,
   0xd807aa98, 0x12835b01, 0x243185be, 0x550c7dc3, 0x72be5d74, 0x80deb1fe, 0x9bdc06a7, 0xc19bf174,
   0xe49b69c1, 0xefbe4786, 0x0fc19dc6, 0x240ca1cc, 0x2de92c6f, 0x4a7484aa, 0x5cb0a9dc, 0x76f988da,
   0x983e5152, 0xa831c66d, 0xb00327c8, 0xbf597fc7, 0xc6e00bf3, 0xd5a79147, 0x06ca6351, 0x14292967,
   0x27b70a85, 0x2e1b2138, 0x4d2c6dfc, 0x53380d13, 0x650a7354, 0x766a0abb, 0x81c2c92e, 0x92722c85,
   0xa2bfe8a1, 0xa81a664b, 0xc24b8b70, 0xc76c51a3, 0xd192e819, 0xd6990624, 0xf40e3585, 0x106aa070,
   0x19a4c116, 0x1e376c08, 0x2748774c, 0x34b0bcb5, 0x391c0cb3, 0x4ed8aa4a, 0x5b9cca4f, 0x682e6ff3,
   0x748f82ee, 0x78a5636f, 0x84c87814, 0x8cc70208, 0x90befffa, 0xa4506ceb, 0xbef9a3f7, 0xc67178f2]

/-- The eight chaining words. -/
structure State where
  (a b c d e f g h : ℕ)

/-- The initial chaining value. -/
def init : State :=
  ⟨0x6a09e667, 0xbb67ae85, 0x3c6ef372, 0xa54ff53a, 0x510e527f, 0x9b05688c, 0x1f83d9ab, 0x5be0cd19⟩

/-- Extend a message schedule, held latest word first, by `n` words. -/
def schedule : ℕ → List ℕ → List ℕ
  | 0, w => w
  | n + 1, w =>
      let s₀ := w.getD 14 0
      let s₁ := w.getD 1 0
      let σ₀ := rotr 7 s₀ ^^^ rotr 18 s₀ ^^^ s₀ >>> 3
      let σ₁ := rotr 17 s₁ ^^^ rotr 19 s₁ ^^^ s₁ >>> 10
      schedule n ((w.getD 15 0 + σ₀ + w.getD 6 0 + σ₁) % 2 ^ 32 :: w)

/-- One round, with round constant `k` and schedule word `w`. -/
def round (s : State) (k w : ℕ) : State :=
  let ch := (s.e &&& s.f) ^^^ ((s.e ^^^ 0xffffffff) &&& s.g)
  let maj := (s.a &&& s.b) ^^^ (s.a &&& s.c) ^^^ (s.b &&& s.c)
  let t₁ := s.h + (rotr 6 s.e ^^^ rotr 11 s.e ^^^ rotr 25 s.e) + ch + k + w
  let t₂ := (rotr 2 s.a ^^^ rotr 13 s.a ^^^ rotr 22 s.a) + maj
  ⟨(t₁ + t₂) % 2 ^ 32, s.a, s.b, s.c, (s.d + t₁) % 2 ^ 32, s.e, s.f, s.g⟩

/-- All rounds of one block. -/
def rounds (s : State) : List ℕ → List ℕ → State
  | k :: ks, w :: ws => rounds (round s k w) ks ws
  | _, _ => s

/-- The big-endian words of a block. -/
def words : Bytes → List ℕ
  | b₀ :: b₁ :: b₂ :: b₃ :: rest =>
      (b₀.toNat * 2 ^ 24 + b₁.toNat * 2 ^ 16 + b₂.toNat * 2 ^ 8 + b₃.toNat) :: words rest
  | _ => []

/-- Absorb one 64-byte block. -/
def compress (s : State) (block : Bytes) : State :=
  let t := rounds s roundConstants (schedule 48 (words block).reverse).reverse
  ⟨(s.a + t.a) % 2 ^ 32, (s.b + t.b) % 2 ^ 32, (s.c + t.c) % 2 ^ 32, (s.d + t.d) % 2 ^ 32,
    (s.e + t.e) % 2 ^ 32, (s.f + t.f) % 2 ^ 32, (s.g + t.g) % 2 ^ 32, (s.h + t.h) % 2 ^ 32⟩

/-- Absorb `n` blocks. -/
def absorb : ℕ → State → Bytes → State
  | 0, s, _ => s
  | n + 1, s, msg => absorb n (compress s (msg.take 64)) (msg.drop 64)

/-- The padded message: a one bit, zeros, and the bit length. -/
def pad (msg : Bytes) : Bytes :=
  msg ++ 0x80 :: List.replicate ((119 - msg.length % 64) % 64) 0 ++ be64 (8 * msg.length)

/-- The four big-endian bytes of a word. -/
def wordBytes (w : ℕ) : Bytes :=
  [UInt8.ofNat (w / 2 ^ 24), UInt8.ofNat (w / 2 ^ 16), UInt8.ofNat (w / 2 ^ 8), UInt8.ofNat w]

/-- SHA-256. -/
def digest (msg : Bytes) : Bytes32 :=
  let p := pad msg
  let s := absorb (p.length / 64) init p
  ⟨wordBytes s.a ++ wordBytes s.b ++ wordBytes s.c ++ wordBytes s.d ++
    wordBytes s.e ++ wordBytes s.f ++ wordBytes s.g ++ wordBytes s.h, by simp [wordBytes]⟩

/-- The hash library with SHA-256 itself. -/
@[reducible] def hashlib : Hashlib := ⟨digest⟩

end Sha256

/-- The FIPS 180-4 vector for `"abc"`. -/
example : hex (Sha256.digest [0x61, 0x62, 0x63]).val =
    str "ba7816bf8f01cfea414140de5dae2223b00361a396177a9cb410ff61f20015ad" := by
  decide +kernel

end Waxseal
