import Waxseal.Base.Text

/-!
# Base64

`base64.b64encode` and `base64.b64decode`.  The lenient reader of `binascii`
skips every character outside the alphabet, counts padding only where a group can end,
and stops at the end of a padded group; the strict one refuses what the other skips.
Both invert the writer (`b64decode_b64encode`, `b64decodeValidate_b64encode`).
-/

namespace Waxseal

/-- The character of a 6-bit value. -/
def b64char (n : ℕ) : CodePoint :=
  if n < 26 then Fin.ofNat 0x110000 (0x41 + n)
  else if n < 52 then Fin.ofNat 0x110000 (0x47 + n)
  else if n < 62 then Fin.ofNat 0x110000 (n - 4)
  else if n = 62 then 0x2B
  else 0x2F

/-- The value of a character of the alphabet. -/
def b64val (c : CodePoint) : Option ℕ :=
  if 0x41 ≤ c.val ∧ c.val ≤ 0x5A then some (c.val - 0x41)
  else if 0x61 ≤ c.val ∧ c.val ≤ 0x7A then some (c.val - 0x47)
  else if 0x30 ≤ c.val ∧ c.val ≤ 0x39 then some (c.val + 4)
  else if c.val = 0x2B then some 62
  else if c.val = 0x2F then some 63
  else none

/-- `=`. -/
def b64pad : CodePoint := 0x3D

/-- `base64.b64encode(b).decode("ascii")`. -/
def b64encode : Bytes → PyStr
  | [] => []
  | [x] => [b64char (x.toNat / 4), b64char (x.toNat % 4 * 16), b64pad, b64pad]
  | [x, y] =>
      [b64char (x.toNat / 4), b64char (x.toNat % 4 * 16 + y.toNat / 16),
        b64char (y.toNat % 16 * 4), b64pad]
  | x :: y :: z :: rest =>
      b64char (x.toNat / 4) :: b64char (x.toNat % 4 * 16 + y.toNat / 16) ::
        b64char (y.toNat % 16 * 4 + z.toNat / 64) :: b64char (z.toNat % 64) :: b64encode rest

/-- The loop of `binascii.a2b_base64`: the position in the group, the bits left over from
the character before, and the padding seen.  `none` is `binascii.Error`. -/
def a2bBase64 (quadPos leftchar pads : ℕ) : PyStr → Option Bytes
  | [] => if quadPos = 0 then some [] else none
  | c :: s =>
      if c = b64pad then
        if 2 ≤ quadPos then
          if 4 ≤ quadPos + (pads + 1) then some [] else a2bBase64 quadPos leftchar (pads + 1) s
        else a2bBase64 quadPos leftchar pads s
      else
        match b64val c with
        | none => a2bBase64 quadPos leftchar pads s
        | some v =>
            match quadPos with
            | 0 => a2bBase64 1 v 0 s
            | 1 => (a2bBase64 2 (v % 16) 0 s).map (UInt8.ofNat (leftchar * 4 + v / 16) :: ·)
            | 2 => (a2bBase64 3 (v % 4) 0 s).map (UInt8.ofNat (leftchar * 16 + v / 4) :: ·)
            | _ => (a2bBase64 0 0 0 s).map (UInt8.ofNat (leftchar * 64 + v) :: ·)

/-- `base64.b64decode(s)`: a string has to be ASCII. -/
def b64decode (s : PyStr) : Except PyErr Bytes :=
  if isAscii s then
    match a2bBase64 0 0 0 s with
    | some b => .ok b
    | none => .error .valueError
  else .error .valueError

/-- The loop of `binascii.a2b_base64` in strict mode.  `started` says that padding was
seen. -/
def a2bBase64Strict (quadPos leftchar pads : ℕ) (started : Bool) : PyStr → Option Bytes
  | [] => if quadPos = 0 then some [] else none
  | c :: s =>
      if c = b64pad then
        if 2 ≤ quadPos then
          if 4 ≤ quadPos + (pads + 1) then if s = [] then some [] else none
          else a2bBase64Strict quadPos leftchar (pads + 1) true s
        else a2bBase64Strict quadPos leftchar pads true s
      else
        match b64val c with
        | none => none
        | some v =>
            if started then none
            else
              match quadPos with
              | 0 => a2bBase64Strict 1 v 0 false s
              | 1 => (a2bBase64Strict 2 (v % 16) 0 false s).map
                  (UInt8.ofNat (leftchar * 4 + v / 16) :: ·)
              | 2 => (a2bBase64Strict 3 (v % 4) 0 false s).map
                  (UInt8.ofNat (leftchar * 16 + v / 4) :: ·)
              | _ => (a2bBase64Strict 0 0 0 false s).map (UInt8.ofNat (leftchar * 64 + v) :: ·)

/-- `base64.b64decode(s, validate=True)`; a string may not start with padding. -/
def b64decodeValidate (s : PyStr) : Except PyErr Bytes :=
  if isAscii s ∧ s.head? ≠ some b64pad then
    match a2bBase64Strict 0 0 0 false s with
    | some b => .ok b
    | none => .error .valueError
  else .error .valueError

theorem b64val_b64char {n : ℕ} (h : n < 64) : b64val (b64char n) = some n := by
  revert n
  decide

/-- The characters of the alphabet are printable, and none is the padding. -/
theorem b64char_val {n : ℕ} (h : n < 64) :
    (0x20 ≤ (b64char n).val ∧ (b64char n).val ≤ 0x7E) ∧ b64char n ≠ b64pad := by
  revert n
  decide

theorem b64encode_val (b : Bytes) : ∀ c ∈ b64encode b, 0x20 ≤ c.val ∧ c.val ≤ 0x7E := by
  have pad : 0x20 ≤ b64pad.val ∧ b64pad.val ≤ 0x7E := by decide
  induction b using b64encode.induct with
  | case1 => exact nofun
  | case2 x =>
      have hx := x.toNat_lt
      simp only [b64encode, List.forall_mem_cons, List.not_mem_nil, false_imp_iff, implies_true,
        and_true]
      exact ⟨(b64char_val (by omega)).1, (b64char_val (by omega)).1, pad, pad⟩
  | case3 x y =>
      have hx := x.toNat_lt
      have hy := y.toNat_lt
      simp only [b64encode, List.forall_mem_cons, List.not_mem_nil, false_imp_iff, implies_true,
        and_true]
      exact ⟨(b64char_val (by omega)).1, (b64char_val (by omega)).1, (b64char_val (by omega)).1,
        pad⟩
  | case4 x y z rest ih =>
      have hx := x.toNat_lt
      have hy := y.toNat_lt
      have hz := z.toNat_lt
      simp only [b64encode, List.forall_mem_cons]
      exact ⟨(b64char_val (by omega)).1, (b64char_val (by omega)).1, (b64char_val (by omega)).1,
        (b64char_val (by omega)).1, ih⟩

/-- One character of the alphabet, at each position of a group. -/
theorem a2bBase64_char {n : ℕ} (h : n < 64) (quadPos leftchar pads : ℕ) (s : PyStr) :
    a2bBase64 quadPos leftchar pads (b64char n :: s) =
      match quadPos with
      | 0 => a2bBase64 1 n 0 s
      | 1 => (a2bBase64 2 (n % 16) 0 s).map (UInt8.ofNat (leftchar * 4 + n / 16) :: ·)
      | 2 => (a2bBase64 3 (n % 4) 0 s).map (UInt8.ofNat (leftchar * 16 + n / 4) :: ·)
      | _ => (a2bBase64 0 0 0 s).map (UInt8.ofNat (leftchar * 64 + n) :: ·) := by
  rw [a2bBase64, if_neg (b64char_val h).2]
  simp only [b64val_b64char h]

theorem a2bBase64_b64encode (b : Bytes) : a2bBase64 0 0 0 (b64encode b) = some b := by
  have byte : ∀ {n : ℕ} {x : UInt8}, n = x.toNat → UInt8.ofNat n = x := fun h => by
    rw [h, UInt8.ofNat_toNat]
  induction b using b64encode.induct with
  | case1 => rfl
  | case2 x =>
      have hx := x.toNat_lt
      simp only [b64encode, a2bBase64_char (show x.toNat / 4 < 64 by omega),
        a2bBase64_char (show x.toNat % 4 * 16 < 64 by omega)]
      simp only [a2bBase64, show (2 : ℕ) ≤ 2 from le_rfl, if_pos, zero_add,
        show ¬ (4 : ℕ) ≤ 2 + 1 by decide, if_false, show (4 : ℕ) ≤ 2 + (1 + 1) by decide,
        Option.map_some]
      rw [byte (x := x) (by omega)]
  | case3 x y =>
      have hx := x.toNat_lt
      have hy := y.toNat_lt
      simp only [b64encode, a2bBase64_char (show x.toNat / 4 < 64 by omega),
        a2bBase64_char (show x.toNat % 4 * 16 + y.toNat / 16 < 64 by omega),
        a2bBase64_char (show y.toNat % 16 * 4 < 64 by omega)]
      simp only [a2bBase64, show (2 : ℕ) ≤ 3 by decide, if_pos, zero_add,
        show (4 : ℕ) ≤ 3 + 1 by decide, Option.map_some]
      rw [byte (x := x) (by omega), byte (x := y) (by omega)]
  | case4 x y z rest ih =>
      have hx := x.toNat_lt
      have hy := y.toNat_lt
      have hz := z.toNat_lt
      simp only [b64encode, a2bBase64_char (show x.toNat / 4 < 64 by omega),
        a2bBase64_char (show x.toNat % 4 * 16 + y.toNat / 16 < 64 by omega),
        a2bBase64_char (show y.toNat % 16 * 4 + z.toNat / 64 < 64 by omega),
        a2bBase64_char (show z.toNat % 64 < 64 by omega), ih, Option.map_some]
      rw [byte (x := x) (by omega), byte (x := y) (by omega), byte (x := z) (by omega)]

theorem isAscii_b64encode (b : Bytes) : isAscii (b64encode b) = true := by
  refine List.all_eq_true.mpr fun c hc => decide_eq_true ?_
  have := (b64encode_val b c hc).2
  omega

/-- **The reader inverts the writer.** -/
theorem b64decode_b64encode (b : Bytes) : b64decode (b64encode b) = .ok b := by
  rw [b64decode, if_pos (isAscii_b64encode b), a2bBase64_b64encode]

/-! ## The strict reader -/

/-- One character of the alphabet, before any padding. -/
theorem a2bBase64Strict_char {n : ℕ} (h : n < 64) (quadPos leftchar pads : ℕ) (s : PyStr) :
    a2bBase64Strict quadPos leftchar pads false (b64char n :: s) =
      match quadPos with
      | 0 => a2bBase64Strict 1 n 0 false s
      | 1 => (a2bBase64Strict 2 (n % 16) 0 false s).map (UInt8.ofNat (leftchar * 4 + n / 16) :: ·)
      | 2 => (a2bBase64Strict 3 (n % 4) 0 false s).map (UInt8.ofNat (leftchar * 16 + n / 4) :: ·)
      | _ => (a2bBase64Strict 0 0 0 false s).map (UInt8.ofNat (leftchar * 64 + n) :: ·) := by
  rw [a2bBase64Strict, if_neg (b64char_val h).2]
  simp only [b64val_b64char h, Bool.false_eq_true, if_false]

theorem a2bBase64Strict_b64encode (b : Bytes) :
    a2bBase64Strict 0 0 0 false (b64encode b) = some b := by
  have byte : ∀ {n : ℕ} {x : UInt8}, n = x.toNat → UInt8.ofNat n = x := fun h => by
    rw [h, UInt8.ofNat_toNat]
  induction b using b64encode.induct with
  | case1 => rfl
  | case2 x =>
      have hx := x.toNat_lt
      simp only [b64encode, a2bBase64Strict_char (show x.toNat / 4 < 64 by omega),
        a2bBase64Strict_char (show x.toNat % 4 * 16 < 64 by omega)]
      simp only [a2bBase64Strict, show (2 : ℕ) ≤ 2 from le_rfl, if_pos, zero_add,
        show ¬ (4 : ℕ) ≤ 2 + 1 by decide, if_false, show (4 : ℕ) ≤ 2 + (1 + 1) by decide,
        Option.map_some]
      rw [byte (x := x) (by omega)]
  | case3 x y =>
      have hx := x.toNat_lt
      have hy := y.toNat_lt
      simp only [b64encode, a2bBase64Strict_char (show x.toNat / 4 < 64 by omega),
        a2bBase64Strict_char (show x.toNat % 4 * 16 + y.toNat / 16 < 64 by omega),
        a2bBase64Strict_char (show y.toNat % 16 * 4 < 64 by omega)]
      simp only [a2bBase64Strict, show (2 : ℕ) ≤ 3 by decide, if_pos, zero_add,
        show (4 : ℕ) ≤ 3 + 1 by decide, Option.map_some]
      rw [byte (x := x) (by omega), byte (x := y) (by omega)]
  | case4 x y z rest ih =>
      have hx := x.toNat_lt
      have hy := y.toNat_lt
      have hz := z.toNat_lt
      simp only [b64encode, a2bBase64Strict_char (show x.toNat / 4 < 64 by omega),
        a2bBase64Strict_char (show x.toNat % 4 * 16 + y.toNat / 16 < 64 by omega),
        a2bBase64Strict_char (show y.toNat % 16 * 4 + z.toNat / 64 < 64 by omega),
        a2bBase64Strict_char (show z.toNat % 64 < 64 by omega), ih, Option.map_some]
      rw [byte (x := x) (by omega), byte (x := y) (by omega), byte (x := z) (by omega)]

/-- What is written is ASCII, and does not start with padding. -/
theorem b64encode_opens (b : Bytes) :
    isAscii (b64encode b) = true ∧ (b64encode b).head? ≠ some b64pad := by
  refine ⟨isAscii_b64encode b, ?_⟩
  cases b using b64encode.induct with
  | case1 => exact nofun
  | case2 x =>
      have hx := x.toNat_lt
      exact fun h => (b64char_val (by omega)).2 (Option.some.inj h)
  | case3 x y =>
      have hx := x.toNat_lt
      exact fun h => (b64char_val (by omega)).2 (Option.some.inj h)
  | case4 x y z rest =>
      have hx := x.toNat_lt
      exact fun h => (b64char_val (by omega)).2 (Option.some.inj h)

/-- **The strict reader inverts the writer.** -/
theorem b64decodeValidate_b64encode (b : Bytes) : b64decodeValidate (b64encode b) = .ok b := by
  rw [b64decodeValidate, if_pos (b64encode_opens b), a2bBase64Strict_b64encode]

end Waxseal
