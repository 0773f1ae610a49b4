import Mathlib.Data.Nat.Basic
import Waxseal.Base.Bytes

/-!
# Python strings and their UTF-8 form

A Python `str` is a sequence of code points, and a code point may be a lone
UTF-16 surrogate: `json.loads` produces one from `"\ud800"`.  Lean's `String`
excludes exactly those, so text is modelled as `PyStr`, a list of `CodePoint`,
and `encodeUtf8` fails where `str.encode("utf-8")` does.

## Main definitions

* `PyStr` — a Python `str`
* `strInt` — `str(n)` for a Python `int`
* `encodeUtf8`, `decodeUtf8` — the strict UTF-8 codec

`encodeUtf8_inj` is what the canonical encoding of a header rests on.
-/

namespace Waxseal

/-- A Unicode code point, surrogates included. -/
abbrev CodePoint := Fin 0x110000

/-- Code point literals. -/
instance neZero_codePoints : NeZero 0x110000 := ⟨by decide⟩

/-- A Python `str`. -/
abbrev PyStr := List CodePoint

/-- `s in strings`. -/
instance decidableMemStrings (s : PyStr) (strings : List PyStr) : Decidable (s ∈ strings) :=
  List.instDecidableMemOfLawfulBEq s strings

namespace CodePoint

/-- The code point of a character. -/
def ofChar (c : Char) : CodePoint :=
  ⟨c.toNat, by
    rcases c.valid with h | ⟨-, h⟩
    · exact lt_trans h (by decide)
    · exact h⟩

/-- The code point of an ASCII byte (of any byte, as Latin-1). -/
def ofByte (b : UInt8) : CodePoint :=
  ⟨b.toNat, lt_trans b.toNat_lt (by decide)⟩

@[simp] theorem val_ofChar (c : Char) : (ofChar c).val = c.toNat := rfl

@[simp] theorem val_ofByte (b : UInt8) : (ofByte b).val = b.toNat := rfl

theorem ofChar_injective : Function.Injective ofChar := by
  intro c d h
  have hval : c.toNat = d.toNat := by
    simpa using congrArg (fun x : CodePoint => x.val) h
  exact Char.ext (UInt32.toNat_inj.mp hval)

/-- `0xD800 … 0xDFFF`: the code points UTF-8 has no form for. -/
def isSurrogate (c : CodePoint) : Bool := 0xD800 ≤ c.val && c.val ≤ 0xDFFF

/-- An ASCII code point. -/
def isAscii (c : CodePoint) : Bool := c.val < 0x80

end CodePoint

/-- A string literal. -/
def str (s : String) : PyStr := s.toList.map CodePoint.ofChar

/-- `str.isascii`. -/
def isAscii (s : PyStr) : Bool := s.all CodePoint.isAscii

/-- `str.isspace` for one character: what `str.strip` removes. -/
def isSpace (c : CodePoint) : Bool :=
  (0x09 ≤ c.val && c.val ≤ 0x0D) || (0x1C ≤ c.val && c.val ≤ 0x20)
    || c.val == 0x85 || c.val == 0xA0 || c.val == 0x1680
    || (0x2000 ≤ c.val && c.val ≤ 0x200A)
    || c.val == 0x2028 || c.val == 0x2029 || c.val == 0x202F
    || c.val == 0x205F || c.val == 0x3000

/-- `s.strip()` is empty: the test every line reader makes before decoding. -/
def isBlank (s : PyStr) : Bool := s.all isSpace

/-! ## `str(int)` -/

/-- The decimal spelling of a natural number. -/
def strNat (n : ℕ) : PyStr := (Nat.toDigits 10 n).map CodePoint.ofChar

/-- `str(n)`: decimal digits, with a leading `-` for a negative number. -/
def strInt : ℤ → PyStr
  | .ofNat n => strNat n
  | .negSucc n => CodePoint.ofChar '-' :: strNat (n + 1)

theorem strNat_injective : Function.Injective strNat := by
  intro m n h
  have hdigits : Nat.toDigits 10 m = Nat.toDigits 10 n :=
    List.map_injective_iff.mpr CodePoint.ofChar_injective h
  rw [← Nat.ofDigitChars_ten_toDigits (n := m), hdigits,
    Nat.ofDigitChars_ten_toDigits]

theorem isDigit_of_mem_strNat {n : ℕ} {c : CodePoint} (h : c ∈ strNat n) :
    0x30 ≤ c.val ∧ c.val ≤ 0x39 := by
  obtain ⟨d, hd, rfl⟩ := List.mem_map.mp h
  have hdigit := Nat.isDigit_of_mem_toDigits (by decide) (by decide) hd
  simp only [Char.isDigit, Bool.and_eq_true, decide_eq_true_eq] at hdigit
  exact ⟨hdigit.1, hdigit.2⟩

theorem isAscii_strNat (n : ℕ) : isAscii (strNat n) = true := by
  refine List.all_eq_true.mpr fun c hc => ?_
  have hdigit := isDigit_of_mem_strNat hc
  simp only [CodePoint.isAscii, decide_eq_true_eq]
  omega

theorem strNat_ne_nil (n : ℕ) : strNat n ≠ [] := by
  simp [strNat, Nat.toDigits_ne_nil]

theorem length_strNat_le {n k : ℕ} (hk : k ≠ 0) (h : n < 10 ^ k) : (strNat n).length ≤ k := by
  rw [strNat, List.length_map]
  exact (Nat.length_toDigits_le_iff (by decide) (Nat.pos_of_ne_zero hk)).mpr h

theorem strInt_injective : Function.Injective strInt := by
  have minus_notMem : ∀ n : ℕ, CodePoint.ofChar '-' ∉ strNat n := by
    intro n hmem
    exact absurd (isDigit_of_mem_strNat hmem).1 (by decide)
  intro a b h
  cases a with
  | ofNat m =>
      cases b with
      | ofNat n => exact congrArg Int.ofNat (strNat_injective h)
      | negSucc n =>
          refine absurd ?_ (minus_notMem m)
          rw [show strNat m = _ from h]
          exact List.mem_cons_self
  | negSucc m =>
      cases b with
      | ofNat n =>
          refine absurd ?_ (minus_notMem n)
          rw [show strNat n = _ from h.symm]
          exact List.mem_cons_self
      | negSucc n =>
          have htail : strNat (m + 1) = strNat (n + 1) := (List.cons.inj h).2
          exact congrArg Int.negSucc (Nat.succ.inj (strNat_injective htail))

/-! ## UTF-8 -/

/-- The UTF-8 form of one code point; a surrogate has none. -/
def encodeCodePoint (c : CodePoint) : Option Bytes :=
  let n := c.val
  if n < 0x80 then some [UInt8.ofNat n]
  else if n < 0x800 then
    some [UInt8.ofNat (0xC0 + n / 0x40), UInt8.ofNat (0x80 + n % 0x40)]
  else if c.isSurrogate then none
  else if n < 0x10000 then
    some [UInt8.ofNat (0xE0 + n / 0x1000), UInt8.ofNat (0x80 + n / 0x40 % 0x40),
      UInt8.ofNat (0x80 + n % 0x40)]
  else
    some [UInt8.ofNat (0xF0 + n / 0x40000), UInt8.ofNat (0x80 + n / 0x1000 % 0x40),
      UInt8.ofNat (0x80 + n / 0x40 % 0x40), UInt8.ofNat (0x80 + n % 0x40)]

/-- `s.encode("utf-8")`; `none` is `UnicodeEncodeError`. -/
def encodeUtf8 : PyStr → Option Bytes
  | [] => some []
  | c :: s =>
      match encodeCodePoint c, encodeUtf8 s with
      | some b, some bs => some (b ++ bs)
      | _, _ => none

/-- A continuation byte. -/
def isCont (b : UInt8) : Bool := 0x80 ≤ b.toNat && b.toNat ≤ 0xBF

/-- A code point from a number the decoder computed; `none` above `0x10FFFF`. -/
def codePoint? (n : ℕ) : Option CodePoint :=
  if h : n < 0x110000 then some ⟨n, h⟩ else none

/-- Read one code point off the front.  Overlong forms and numbers above
`0x10FFFF` are refused; surrogates are refused unless `pass`, which is the
codec's `surrogatepass` error handler. -/
def decodeCodePoint (pass : Bool) : Bytes → Option (CodePoint × Bytes)
  | [] => none
  | b₀ :: r₀ =>
      let n₀ := b₀.toNat
      if n₀ < 0x80 then (codePoint? n₀).map (·, r₀)
      else if 0xC2 ≤ n₀ ∧ n₀ ≤ 0xDF then
        match r₀ with
        | b₁ :: r₁ =>
            if isCont b₁ then
              (codePoint? ((n₀ - 0xC0) * 0x40 + (b₁.toNat - 0x80))).map (·, r₁)
            else none
        | _ => none
      else if 0xE0 ≤ n₀ ∧ n₀ ≤ 0xEF then
        match r₀ with
        | b₁ :: b₂ :: r₂ =>
            let n := (n₀ - 0xE0) * 0x1000 + (b₁.toNat - 0x80) * 0x40 + (b₂.toNat - 0x80)
            if isCont b₁ && isCont b₂ && 0x800 ≤ n
                && (pass || !(0xD800 ≤ n && n ≤ 0xDFFF)) then
              (codePoint? n).map (·, r₂)
            else none
        | _ => none
      else if 0xF0 ≤ n₀ ∧ n₀ ≤ 0xF4 then
        match r₀ with
        | b₁ :: b₂ :: b₃ :: r₃ =>
            let n := (n₀ - 0xF0) * 0x40000 + (b₁.toNat - 0x80) * 0x1000
              + (b₂.toNat - 0x80) * 0x40 + (b₃.toNat - 0x80)
            if isCont b₁ && isCont b₂ && isCont b₃ && 0x10000 ≤ n then
              (codePoint? n).map (·, r₃)
            else none
        | _ => none
      else none

/-- `decodeUtf8` with a bound on the number of code points read. -/
def decodeUtf8Aux (pass : Bool) : ℕ → Bytes → Option PyStr
  | _, [] => some []
  | 0, _ :: _ => none
  | fuel + 1, b :: bs =>
      match decodeCodePoint pass (b :: bs) with
      | none => none
      | some (c, rest) => (decodeUtf8Aux pass fuel rest).map (c :: ·)

/-- `b.decode("utf-8")`; `none` is `UnicodeDecodeError`.  Every code point takes
at least one byte, so the length bounds the number of steps. -/
def decodeUtf8 (b : Bytes) : Option PyStr := decodeUtf8Aux false b.length b

private theorem toNat_ofNat_of_lt {n : ℕ} (h : n < 256) : (UInt8.ofNat n).toNat = n := by
  simpa using Nat.mod_eq_of_lt h

private theorem codePoint?_val (c : CodePoint) : codePoint? c.val = some c := by
  simp [codePoint?, c.isLt]

theorem encodeCodePoint_ne_nil {c : CodePoint} {b : Bytes}
    (h : encodeCodePoint c = some b) : b ≠ [] := by
  unfold encodeCodePoint at h
  rintro rfl
  simp only at h
  split_ifs at h <;> simp at h

/-- Reading back the UTF-8 form of one code point. -/
theorem decodeCodePoint_encode {pass : Bool} {c : CodePoint} {b : Bytes} (rest : Bytes)
    (h : encodeCodePoint c = some b) :
    decodeCodePoint pass (b ++ rest) = some (c, rest) := by
  have hc := c.isLt
  unfold encodeCodePoint at h
  simp only at h
  split_ifs at h with h1 h2 h3 h4
  · obtain rfl := Option.some.inj h
    simp [decodeCodePoint, toNat_ofNat_of_lt (show c.val < 256 by omega), h1, codePoint?_val]
  · obtain rfl := Option.some.inj h
    have e₀ := toNat_ofNat_of_lt (show 0xC0 + c.val / 0x40 < 256 by omega)
    have e₁ := toNat_ofNat_of_lt (show 0x80 + c.val % 0x40 < 256 by omega)
    have hn : (0xC0 + c.val / 0x40 - 0xC0) * 0x40 + (0x80 + c.val % 0x40 - 0x80) = c.val := by
      omega
    have hcont : isCont (UInt8.ofNat (0x80 + c.val % 0x40)) = true := by
      simp only [isCont, e₁, Bool.and_eq_true, decide_eq_true_eq]
      omega
    simp only [decodeCodePoint, List.cons_append, List.nil_append, e₀, hcont, if_true]
    rw [if_neg (by omega), if_pos (by omega), e₁, hn, codePoint?_val]
    rfl
  · obtain rfl := Option.some.inj h
    have e₀ := toNat_ofNat_of_lt (show 0xE0 + c.val / 0x1000 < 256 by omega)
    have e₁ := toNat_ofNat_of_lt (show 0x80 + c.val / 0x40 % 0x40 < 256 by omega)
    have e₂ := toNat_ofNat_of_lt (show 0x80 + c.val % 0x40 < 256 by omega)
    have hn : (0xE0 + c.val / 0x1000 - 0xE0) * 0x1000
        + (0x80 + c.val / 0x40 % 0x40 - 0x80) * 0x40 + (0x80 + c.val % 0x40 - 0x80)
        = c.val := by
      omega
    have hsur : (decide (0xD800 ≤ c.val) && decide (c.val ≤ 0xDFFF)) = false := by
      simpa [CodePoint.isSurrogate] using h3
    have hok : (isCont (UInt8.ofNat (0x80 + c.val / 0x40 % 0x40))
        && isCont (UInt8.ofNat (0x80 + c.val % 0x40)) && decide (0x800 ≤ c.val)
        && (pass || !(decide (0xD800 ≤ c.val) && decide (c.val ≤ 0xDFFF)))) = true := by
      simp only [isCont, e₁, e₂, hsur, Bool.and_eq_true, decide_eq_true_eq, Bool.not_false,
        Bool.or_true, and_true]
      omega
    simp only [decodeCodePoint, List.cons_append, List.nil_append, e₀, e₁, e₂, hn, hok,
      if_true, codePoint?_val]
    rw [if_neg (by omega), if_neg (by omega), if_pos (by omega)]
    rfl
  · obtain rfl := Option.some.inj h
    have e₀ := toNat_ofNat_of_lt (show 0xF0 + c.val / 0x40000 < 256 by omega)
    have e₁ := toNat_ofNat_of_lt (show 0x80 + c.val / 0x1000 % 0x40 < 256 by omega)
    have e₂ := toNat_ofNat_of_lt (show 0x80 + c.val / 0x40 % 0x40 < 256 by omega)
    have e₃ := toNat_ofNat_of_lt (show 0x80 + c.val % 0x40 < 256 by omega)
    have hn : (0xF0 + c.val / 0x40000 - 0xF0) * 0x40000
        + (0x80 + c.val / 0x1000 % 0x40 - 0x80) * 0x1000
        + (0x80 + c.val / 0x40 % 0x40 - 0x80) * 0x40 + (0x80 + c.val % 0x40 - 0x80)
        = c.val := by
      omega
    have hok : (isCont (UInt8.ofNat (0x80 + c.val / 0x1000 % 0x40))
        && isCont (UInt8.ofNat (0x80 + c.val / 0x40 % 0x40))
        && isCont (UInt8.ofNat (0x80 + c.val % 0x40)) && decide (0x10000 ≤ c.val)) = true := by
      simp only [isCont, e₁, e₂, e₃, Bool.and_eq_true, decide_eq_true_eq]
      omega
    simp only [decodeCodePoint, List.cons_append, List.nil_append, e₀, e₁, e₂, e₃, hn, hok,
      if_true, codePoint?_val]
    rw [if_neg (by omega), if_neg (by omega), if_neg (by omega), if_pos (by omega)]
    rfl

theorem encodeUtf8_cons {c : CodePoint} {s : PyStr} {b : Bytes} :
    encodeUtf8 (c :: s) = some b ↔
      ∃ b₀ b₁, encodeCodePoint c = some b₀ ∧ encodeUtf8 s = some b₁ ∧ b = b₀ ++ b₁ := by
  rw [encodeUtf8]
  cases encodeCodePoint c with
  | none => simp
  | some b₀ =>
      cases encodeUtf8 s with
      | none => simp
      | some b₁ => simp [eq_comm]

/-- **The decoder inverts the encoder.** -/
theorem decodeUtf8Aux_encode {pass : Bool} {s : PyStr} :
    ∀ {b : Bytes} {fuel : ℕ}, encodeUtf8 s = some b → b.length ≤ fuel →
      decodeUtf8Aux pass fuel b = some s := by
  induction s with
  | nil =>
      intro b fuel h _
      obtain rfl := Option.some.inj h
      cases fuel <;> rfl
  | cons c s ih =>
      intro b fuel h hfuel
      obtain ⟨b₀, b₁, hc, hs, rfl⟩ := encodeUtf8_cons.mp h
      cases hb₀ : b₀ with
      | nil => exact absurd hb₀ (encodeCodePoint_ne_nil hc)
      | cons x xs =>
          subst hb₀
          rw [List.length_append, List.length_cons] at hfuel
          obtain ⟨fuel, rfl⟩ : ∃ k, fuel = k + 1 := ⟨fuel - 1, by omega⟩
          have hread := @decodeCodePoint_encode pass _ _ b₁ hc
          rw [List.cons_append] at hread ⊢
          rw [decodeUtf8Aux, hread]
          simp only [ih hs (show b₁.length ≤ fuel by omega), Option.map_some]

theorem decodeUtf8_encode {s : PyStr} {b : Bytes} (h : encodeUtf8 s = some b) :
    decodeUtf8 b = some s :=
  decodeUtf8Aux_encode h le_rfl

theorem ofNat_eq_of_toNat {n : ℕ} {b : UInt8} (h : n = b.toNat) : UInt8.ofNat n = b := by
  rw [h, UInt8.ofNat_toNat]

theorem codePoint?_eq_some {n : ℕ} {c : CodePoint} (h : codePoint? n = some c) : c.val = n := by
  rw [codePoint?] at h
  split_ifs at h
  rw [← Option.some.inj h]

theorem isCont_iff {b : UInt8} : isCont b = true ↔ 0x80 ≤ b.toNat ∧ b.toNat ≤ 0xBF := by
  simp [isCont]

/-- A code point that was read is what its bytes spell. -/
theorem encodeCodePoint_of_decode {bytes : Bytes} {c : CodePoint} {rest : Bytes}
    (h : decodeCodePoint false bytes = some (c, rest)) :
    ∃ b, encodeCodePoint c = some b ∧ bytes = b ++ rest := by
  cases bytes with
  | nil => cases h
  | cons b₀ r₀ =>
      simp only [decodeCodePoint] at h
      split_ifs at h with h1 h2 h3 h4
      · obtain ⟨c', hc, hpair⟩ := Option.map_eq_some_iff.mp h
        obtain ⟨rfl, rfl⟩ := Prod.mk.inj hpair
        have hval := codePoint?_eq_some hc
        refine ⟨[b₀], ?_, rfl⟩
        simp only [encodeCodePoint]
        rw [if_pos (by omega), ofNat_eq_of_toNat hval]
      · cases r₀ with
        | nil => cases h
        | cons b₁ r₁ =>
            dsimp only at h
            split_ifs at h with hcont
            obtain ⟨c', hc, hpair⟩ := Option.map_eq_some_iff.mp h
            obtain ⟨rfl, rfl⟩ := Prod.mk.inj hpair
            have hval := codePoint?_eq_some hc
            rw [isCont_iff] at hcont
            refine ⟨[b₀, b₁], ?_, rfl⟩
            simp only [encodeCodePoint]
            rw [if_neg (by omega), if_pos (by omega),
              @ofNat_eq_of_toNat (0xC0 + c'.val / 0x40) b₀ (by omega),
              @ofNat_eq_of_toNat (0x80 + c'.val % 0x40) b₁ (by omega)]
      · rcases r₀ with - | ⟨b₁, - | ⟨b₂, r₂⟩⟩
        · cases h
        · cases h
        · dsimp only at h
          split_ifs at h with hcond
          obtain ⟨c', hc, hpair⟩ := Option.map_eq_some_iff.mp h
          obtain ⟨rfl, rfl⟩ := Prod.mk.inj hpair
          have hval := codePoint?_eq_some hc
          simp only [Bool.and_eq_true, isCont_iff, decide_eq_true_eq, Bool.false_or,
            Bool.not_eq_true', Bool.and_eq_false_iff, decide_eq_false_iff_not] at hcond
          refine ⟨[b₀, b₁, b₂], ?_, rfl⟩
          have hsur : c'.isSurrogate = false := by
            simp only [CodePoint.isSurrogate, Bool.and_eq_false_iff, decide_eq_false_iff_not]
            omega
          simp only [encodeCodePoint, hsur]
          rw [if_neg (by omega), if_neg (by omega), if_neg (by decide), if_pos (by omega),
            @ofNat_eq_of_toNat (0xE0 + c'.val / 0x1000) b₀ (by omega),
            @ofNat_eq_of_toNat (0x80 + c'.val / 0x40 % 0x40) b₁ (by omega),
            @ofNat_eq_of_toNat (0x80 + c'.val % 0x40) b₂ (by omega)]
      · rcases r₀ with - | ⟨b₁, - | ⟨b₂, - | ⟨b₃, r₃⟩⟩⟩
        · cases h
        · cases h
        · cases h
        · dsimp only at h
          split_ifs at h with hcond
          obtain ⟨c', hc, hpair⟩ := Option.map_eq_some_iff.mp h
          obtain ⟨rfl, rfl⟩ := Prod.mk.inj hpair
          have hval := codePoint?_eq_some hc
          simp only [Bool.and_eq_true, isCont_iff, decide_eq_true_eq] at hcond
          refine ⟨[b₀, b₁, b₂, b₃], ?_, rfl⟩
          have hsur : c'.isSurrogate = false := by
            simp only [CodePoint.isSurrogate, Bool.and_eq_false_iff, decide_eq_false_iff_not]
            omega
          simp only [encodeCodePoint, hsur]
          rw [if_neg (by omega), if_neg (by omega), if_neg (by decide), if_neg (by omega),
            @ofNat_eq_of_toNat (0xF0 + c'.val / 0x40000) b₀ (by omega),
            @ofNat_eq_of_toNat (0x80 + c'.val / 0x1000 % 0x40) b₁ (by omega),
            @ofNat_eq_of_toNat (0x80 + c'.val / 0x40 % 0x40) b₂ (by omega),
            @ofNat_eq_of_toNat (0x80 + c'.val % 0x40) b₃ (by omega)]

/-- **The encoder inverts the decoder.** -/
theorem encodeUtf8_of_decodeUtf8Aux {fuel : ℕ} :
    ∀ {bytes : Bytes} {s : PyStr}, decodeUtf8Aux false fuel bytes = some s →
      encodeUtf8 s = some bytes := by
  induction fuel with
  | zero =>
      intro bytes s h
      cases bytes with
      | nil =>
          obtain rfl := Option.some.inj h
          rfl
      | cons b bs => cases h
  | succ fuel ih =>
      intro bytes s h
      cases bytes with
      | nil =>
          obtain rfl := Option.some.inj h
          rfl
      | cons b bs =>
          rw [decodeUtf8Aux] at h
          rcases hread : decodeCodePoint false (b :: bs) with - | ⟨c, rest⟩
          · rw [hread] at h
            cases h
          · rw [hread] at h
            obtain ⟨s', hs, rfl⟩ := Option.map_eq_some_iff.mp h
            obtain ⟨b₀, hb₀, hbytes⟩ := encodeCodePoint_of_decode hread
            exact encodeUtf8_cons.mpr ⟨b₀, rest, hb₀, ih hs, hbytes⟩

theorem decodeUtf8_eq_some_iff {bytes : Bytes} {s : PyStr} :
    decodeUtf8 bytes = some s ↔ encodeUtf8 s = some bytes :=
  ⟨encodeUtf8_of_decodeUtf8Aux, decodeUtf8_encode⟩

/-- **UTF-8 is injective** on the strings it can encode. -/
theorem encodeUtf8_inj {s t : PyStr} {b : Bytes} (hs : encodeUtf8 s = some b)
    (ht : encodeUtf8 t = some b) : s = t :=
  Option.some.inj ((decodeUtf8_encode hs).symm.trans (decodeUtf8_encode ht))

/-! ## ASCII -/

/-- An ASCII character as a byte. -/
def CodePoint.toByte (c : CodePoint) : UInt8 := UInt8.ofNat c.val

/-- `s.encode("ascii")` for a string that is ASCII. -/
def asciiBytes (s : PyStr) : Bytes := s.map CodePoint.toByte

/-- `s.encode("ascii")`; `none` is `UnicodeEncodeError`. -/
def encodeAscii (s : PyStr) : Option Bytes := if isAscii s then some (asciiBytes s) else none

@[simp] theorem asciiBytes_append (s t : PyStr) :
    asciiBytes (s ++ t) = asciiBytes s ++ asciiBytes t := List.map_append

@[simp] theorem length_asciiBytes (s : PyStr) : (asciiBytes s).length = s.length :=
  List.length_map _

theorem encodeUtf8_ascii {s : PyStr} (h : isAscii s = true) :
    encodeUtf8 s = some (asciiBytes s) := by
  induction s with
  | nil => rfl
  | cons c s ih =>
      simp only [isAscii, List.all_cons, Bool.and_eq_true] at h
      have hc : encodeCodePoint c = some [c.toByte] := by
        simp only [CodePoint.isAscii, decide_eq_true_eq] at h
        exact if_pos h.1
      exact encodeUtf8_cons.mpr ⟨_, _, hc, ih h.2, rfl⟩

theorem encodeAscii_eq_some_iff {s : PyStr} {b : Bytes} :
    encodeAscii s = some b ↔ isAscii s = true ∧ asciiBytes s = b := by
  rw [encodeAscii]
  split_ifs with h
  · rw [Option.some.injEq, and_iff_right h]
  · exact ⟨nofun, fun h' => absurd h'.1 h⟩

/-- ASCII is injective on the strings it can encode. -/
theorem encodeAscii_inj {s t : PyStr} {b : Bytes} (hs : encodeAscii s = some b)
    (ht : encodeAscii t = some b) : s = t := by
  obtain ⟨hs', rfl⟩ := encodeAscii_eq_some_iff.mp hs
  obtain ⟨ht', heq⟩ := encodeAscii_eq_some_iff.mp ht
  exact encodeUtf8_inj (encodeUtf8_ascii hs') (heq ▸ encodeUtf8_ascii ht')

end Waxseal
