import Mathlib.Data.List.Basic
import Waxseal.Base.Text

/-!
# Hex spellings

`bytes.hex` and `bytes.fromhex`.  The writer has one spelling, two lowercase
digits a byte; the reader is more liberal, taking uppercase digits and ASCII
whitespace between bytes, so `fromhex` is a left inverse of `hex` but not an
injection.  `isHex` strings are exactly the ones the writer can have produced.
-/

namespace Waxseal

/-- The lowercase hex digit of `n < 16`. -/
def hexDigit (n : ℕ) : CodePoint :=
  if n < 10 then Fin.ofNat 0x110000 (0x30 + n) else Fin.ofNat 0x110000 (0x57 + n)

/-- The value of a hex digit, of either case. -/
def hexVal (c : CodePoint) : Option ℕ :=
  if 0x30 ≤ c.val ∧ c.val ≤ 0x39 then some (c.val - 0x30)
  else if 0x61 ≤ c.val ∧ c.val ≤ 0x66 then some (c.val - 0x57)
  else if 0x41 ≤ c.val ∧ c.val ≤ 0x46 then some (c.val - 0x37)
  else none

/-- `b.hex()`: two lowercase digits a byte. -/
def hex : Bytes → PyStr
  | [] => []
  | b :: bs => hexDigit (b.toNat / 16) :: hexDigit (b.toNat % 16) :: hex bs

/-- The ASCII whitespace `bytes.fromhex` skips between bytes. -/
def isHexSpace (c : CodePoint) : Bool := (0x09 ≤ c.val && c.val ≤ 0x0D) || c.val == 0x20

/-- `bytes.fromhex(s)`; `none` is `ValueError`. -/
def fromhex : PyStr → Option Bytes
  | [] => some []
  | c :: s =>
      if isHexSpace c then fromhex s
      else
        match s with
        | [] => none
        | d :: s =>
            match hexVal c, hexVal d with
            | some hi, some lo => (fromhex s).map (UInt8.ofNat (16 * hi + lo) :: ·)
            | _, _ => none

/-- A string of lowercase hex digits. -/
def isLowerHex (s : PyStr) : Bool :=
  s.all fun c => (0x30 ≤ c.val && c.val ≤ 0x39) || (0x61 ≤ c.val && c.val ≤ 0x66)

theorem hexVal_hexDigit {n : ℕ} (h : n < 16) : hexVal (hexDigit n) = some n := by
  revert n
  decide

theorem isHexSpace_hexDigit {n : ℕ} (h : n < 16) : isHexSpace (hexDigit n) = false := by
  revert n
  decide

@[simp] theorem length_hex (b : Bytes) : (hex b).length = 2 * b.length := by
  induction b with
  | nil => rfl
  | cons b bs ih => simp only [hex, List.length_cons, ih]; omega

/-- **The reader inverts the writer.** -/
@[simp] theorem fromhex_hex (b : Bytes) : fromhex (hex b) = some b := by
  induction b with
  | nil => rfl
  | cons b bs ih =>
      have hb := b.toNat_lt
      rw [hex, fromhex, if_neg (by simp [isHexSpace_hexDigit (show b.toNat / 16 < 16 by omega)])]
      simp only [hexVal_hexDigit (show b.toNat / 16 < 16 by omega),
        hexVal_hexDigit (show b.toNat % 16 < 16 by omega), ih, Option.map_some]
      rw [show 16 * (b.toNat / 16) + b.toNat % 16 = b.toNat by omega, UInt8.ofNat_toNat]

theorem hex_injective : Function.Injective hex := by
  intro a b h
  have := congrArg fromhex h
  simpa using this

@[simp] theorem hex_inj {a b : Bytes} : hex a = hex b ↔ a = b := hex_injective.eq_iff

theorem isLowerHex_hex (b : Bytes) : isLowerHex (hex b) = true := by
  have digit : ∀ n < 16, ((0x30 ≤ (hexDigit n).val && (hexDigit n).val ≤ 0x39)
      || (0x61 ≤ (hexDigit n).val && (hexDigit n).val ≤ 0x66)) = true := by
    decide
  induction b with
  | nil => rfl
  | cons b bs ih =>
      have hb := b.toNat_lt
      simp only [isLowerHex, hex, List.all_cons] at ih ⊢
      rw [digit _ (show b.toNat / 16 < 16 by omega), digit _ (show b.toNat % 16 < 16 by omega), ih]
      rfl

theorem isAscii_hex (b : Bytes) : isAscii (hex b) = true := by
  refine List.all_eq_true.mpr fun c hc => ?_
  have hlow := List.all_eq_true.mp (isLowerHex_hex b) c hc
  simp only [Bool.or_eq_true, Bool.and_eq_true, decide_eq_true_eq] at hlow
  simp only [CodePoint.isAscii, decide_eq_true_eq]
  omega

/-- A lowercase digit is not whitespace, and is the digit of its value. -/
theorem lowerHex_digit {c : CodePoint}
    (h : (0x30 ≤ c.val ∧ c.val ≤ 0x39) ∨ (0x61 ≤ c.val ∧ c.val ≤ 0x66)) :
    isHexSpace c = false ∧ ∃ n < 16, hexVal c = some n ∧ hexDigit n = c := by
  refine ⟨?_, ?_⟩
  · simp only [isHexSpace, Bool.or_eq_false_iff, Bool.and_eq_false_iff, decide_eq_false_iff_not,
      beq_eq_false_iff_ne]
    omega
  · rcases h with ⟨hlo, hhi⟩ | ⟨hlo, hhi⟩
    · refine ⟨c.val - 0x30, by omega, by rw [hexVal, if_pos ⟨hlo, hhi⟩], ?_⟩
      rw [hexDigit, if_pos (by omega)]
      exact Fin.ext (by simp only [Fin.val_ofNat]; omega)
    · refine ⟨c.val - 0x57, by omega, by rw [hexVal, if_neg (by omega), if_pos ⟨hlo, hhi⟩], ?_⟩
      rw [hexDigit, if_neg (by omega)]
      exact Fin.ext (by simp only [Fin.val_ofNat]; omega)

/-- **Lowercase spellings are canonical.** -/
theorem hex_of_fromhex {s : PyStr} {b : Bytes} (hlow : isLowerHex s = true)
    (h : fromhex s = some b) : hex b = s := by
  have hdigit : ∀ c ∈ s, isHexSpace c = false ∧ ∃ n < 16, hexVal c = some n ∧ hexDigit n = c := by
    intro c hc
    refine lowerHex_digit ?_
    simpa using List.all_eq_true.mp hlow c hc
  clear hlow
  fun_induction fromhex s generalizing b with
  | case1 =>
      obtain rfl := Option.some.inj h
      rfl
  | case2 c s hspace ih =>
      rw [(hdigit c List.mem_cons_self).1] at hspace
      cases hspace
  | case3 c hspace => cases h
  | case4 c hspace d s hi lo hval hval' ih =>
      obtain ⟨rest, hrest, rfl⟩ := Option.map_eq_some_iff.mp h
      obtain ⟨-, n, hlt, hn, hc⟩ := hdigit c (by simp)
      obtain ⟨-, m, hlt', hm, hd⟩ := hdigit d (by simp)
      obtain rfl := Option.some.inj (hval'.symm.trans hn)
      obtain rfl := Option.some.inj (hval.symm.trans hm)
      have hbyte : (UInt8.ofNat (16 * hi + lo)).toNat = 16 * hi + lo := by
        rw [UInt8.toNat_ofNat']
        omega
      rw [hex, hbyte, show (16 * hi + lo) / 16 = hi by omega, show (16 * hi + lo) % 16 = lo by omega,
        hc, hd, ih hrest fun c hc => hdigit c (by simp [hc])]
  | case5 c hspace d s hval => cases h

/-- An even number of lowercase digits can be decoded. -/
theorem isSome_fromhex_of_isLowerHex {s : PyStr} (hlow : isLowerHex s = true)
    (heven : s.length % 2 = 0) : (fromhex s).isSome := by
  have hdigit : ∀ c ∈ s, isHexSpace c = false ∧ ∃ n < 16, hexVal c = some n ∧ hexDigit n = c := by
    intro c hc
    refine lowerHex_digit ?_
    simpa using List.all_eq_true.mp hlow c hc
  clear hlow
  fun_induction fromhex s with
  | case1 => rfl
  | case2 c s hspace ih =>
      rw [(hdigit c List.mem_cons_self).1] at hspace
      cases hspace
  | case3 c hspace => cases heven
  | case4 c hspace d s hi lo hval hval' ih =>
      have hrest := ih (by rw [List.length_cons, List.length_cons] at heven; omega)
        fun c hc => hdigit c (by simp [hc])
      rwa [Option.isSome_map]
  | case5 c hspace d s hval =>
      obtain ⟨-, n, -, hn, -⟩ := hdigit c (by simp)
      obtain ⟨-, m, -, hm, -⟩ := hdigit d (by simp)
      exact absurd hm (hval n m hn)

/-! ## Lists of hex strings -/

theorem mapM_fromhex_cons {s : PyStr} {ss : List PyStr} {bs : List Bytes} :
    (s :: ss).mapM fromhex = some bs ↔
      ∃ b bs', fromhex s = some b ∧ ss.mapM fromhex = some bs' ∧ bs = b :: bs' := by
  rw [List.mapM_cons]
  simp only [Option.bind_eq_bind, Option.pure_def, Option.bind_eq_some_iff, Option.some.injEq]
  constructor
  · rintro ⟨b, hb, bs', hbs, rfl⟩
    exact ⟨b, bs', hb, hbs, rfl⟩
  · rintro ⟨b, bs', hb, hbs, rfl⟩
    exact ⟨b, hb, bs', hbs, rfl⟩

@[simp] theorem mapM_fromhex_nil {bs : List Bytes} : [].mapM fromhex = some bs ↔ bs = [] := by
  simp [eq_comm]

theorem mapM_fromhex_hex (bs : List Bytes) : (bs.map hex).mapM fromhex = some bs := by
  induction bs with
  | nil => rfl
  | cons b bs ih => exact mapM_fromhex_cons.mpr ⟨b, bs, fromhex_hex b, ih, rfl⟩

theorem length_of_mapM_fromhex {ss : List PyStr} {bs : List Bytes}
    (h : ss.mapM fromhex = some bs) : ss.length = bs.length := by
  induction ss generalizing bs with
  | nil => simp [mapM_fromhex_nil.mp h]
  | cons s ss ih =>
      obtain ⟨b, bs', -, hbs, rfl⟩ := mapM_fromhex_cons.mp h
      rw [List.length_cons, List.length_cons, ih hbs]

theorem mapM_fromhex_take {ss : List PyStr} {bs : List Bytes}
    (h : ss.mapM fromhex = some bs) (k : ℕ) :
    (ss.take k).mapM fromhex = some (bs.take k) := by
  induction ss generalizing bs k with
  | nil =>
      obtain rfl := mapM_fromhex_nil.mp h
      simp
  | cons s ss ih =>
      obtain ⟨b, bs', hb, hbs, rfl⟩ := mapM_fromhex_cons.mp h
      cases k with
      | zero => rfl
      | succ k => exact mapM_fromhex_cons.mpr ⟨b, bs'.take k, hb, ih hbs k, rfl⟩

theorem fromhex_getElem {ss : List PyStr} {bs : List Bytes} (h : ss.mapM fromhex = some bs) {i : ℕ}
    (hi : i < ss.length) :
    fromhex ss[i] = some (bs.get ⟨i, length_of_mapM_fromhex h ▸ hi⟩) := by
  induction ss generalizing bs i with
  | nil => exact absurd hi (Nat.not_lt_zero i)
  | cons s ss ih =>
      obtain ⟨b, bs', hb, hbs, rfl⟩ := mapM_fromhex_cons.mp h
      cases i with
      | zero => exact hb
      | succ i => exact ih hbs (Nat.lt_of_succ_lt_succ hi)

theorem exists_mapM_fromhex {ss : List PyStr} (h : ∀ s ∈ ss, (fromhex s).isSome) :
    ∃ bs, ss.mapM fromhex = some bs := by
  induction ss with
  | nil => exact ⟨[], rfl⟩
  | cons s ss ih =>
      rw [List.forall_mem_cons] at h
      obtain ⟨b, hb⟩ := Option.isSome_iff_exists.mp h.1
      obtain ⟨bs, hbs⟩ := ih h.2
      exact ⟨b :: bs, mapM_fromhex_cons.mpr ⟨b, bs, hb, hbs, rfl⟩⟩

end Waxseal
