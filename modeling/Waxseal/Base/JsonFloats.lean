import Waxseal.Base.JsonLoads

/-!
# Floats in a JSON text

`json.loads` reads a number with a fraction or an exponent as a double, and takes `NaN`,
`Infinity` and `-Infinity` besides.  A decimal whose nearest double would be `2 ** 1024` or
more is infinite too, without a word from the parser: what raises is the `int(...)` of it.

`floatInt` is that conversion, with the rounding of a double.  An interpreter whose own
conversions are these has `StandardNumbers`.
-/

namespace Waxseal

namespace Json

/-! ## Decimals -/

/-- A decimal as it is written: a sign, and a coefficient times a power of ten. -/
structure Decimal where
  negative : Bool
  coefficient : ℕ
  exponent : ℤ

/-- The power of ten a literal ends in, from its `e` on. -/
def exponentOf : PyStr → ℤ
  | _ :: c :: s =>
      if c.val = 0x2D then -ofDigits s
      else if c.val = 0x2B then ofDigits s
      else ofDigits (c :: s)
  | _ => 0

/-- The decimal a literal spells. -/
def decimalOf (lexeme : PyStr) : Option Decimal :=
  let sign := scanSign lexeme
  (scanNat sign.2).map fun (digits, s) =>
    let frac := scanFrac s
    { negative := sign.1 ≠ []
      coefficient := ofDigits (digits ++ frac.1.tail)
      exponent := exponentOf (scanExp frac.2).1 - frac.1.tail.length }

namespace Decimal

/-- The magnitude is `num / den`. -/
def num (d : Decimal) : ℕ := d.coefficient * 10 ^ d.exponent.toNat

/-- The magnitude is `num / den`. -/
def den (d : Decimal) : ℕ := 10 ^ (-d.exponent).toNat

/-- The magnitude lies halfway or more from the largest double to `2 ** 1024`. -/
def overflows (d : Decimal) : Bool := (2 ^ 1024 - 2 ^ 970) * d.den ≤ d.num

end Decimal

/-! ## Doubles -/

/-- `num / den` rounded to an integer, a tie to the even one. -/
def roundHalfEven (num den : ℕ) : ℕ :=
  let q := num / den
  let r := num % den
  if 2 * r < den ∨ 2 * r = den ∧ q % 2 = 0 then q else q + 1

/-- The integer part of the double nearest to `num / den`.  A double has 53 digits; the ones just
below 1 are as close together as those from a half on. -/
def doubleFloor (num den : ℕ) : ℕ :=
  let e := Nat.log2 (num / den)
  if num < den then roundHalfEven (num * 2 ^ 53) den / 2 ^ 53
  else if e ≤ 52 then roundHalfEven (num * 2 ^ (52 - e)) den / 2 ^ (52 - e)
  else roundHalfEven num (den * 2 ^ (e - 52)) * 2 ^ (e - 52)

/-- `math.isnan(float(lexeme))`. -/
def isNaN (lexeme : PyStr) : Bool := lexeme = Waxseal.str "NaN"

/-- `math.isinf(float(lexeme))`. -/
def isInf (lexeme : PyStr) : Bool :=
  lexeme = Waxseal.str "Infinity" || lexeme = Waxseal.str "-Infinity" ||
    (decimalOf lexeme).any Decimal.overflows

/-- `int(float(lexeme))`. -/
def floatInt (lexeme : PyStr) : Except PyErr ℤ :=
  if isNaN lexeme then .error .valueError
  else if isInf lexeme then .error .overflowError
  else
    match decimalOf lexeme with
    | none => .error .valueError
    | some d =>
        let n : ℤ := doubleFloor d.num d.den
        .ok (if d.negative then -n else n)

theorem not_isNaN_of_isInf {lexeme : PyStr} (h : isInf lexeme = true) : isNaN lexeme = false := by
  apply decide_eq_false
  rintro rfl
  have hfinite : isInf (Waxseal.str "NaN") = false := by decide
  rw [hfinite] at h
  cases h

/-- **`int` of a float overflows on the infinite ones**, and raises a `ValueError` at most on the
others. -/
theorem floatInt_raises (lexeme : PyStr) :
    (isInf lexeme = true ∧ floatInt lexeme = .error .overflowError) ∨
      (isInf lexeme = false ∧ ∀ e, floatInt lexeme = .error e → e = .valueError) := by
  cases hinf : isInf lexeme with
  | true =>
      refine .inl ⟨rfl, ?_⟩
      rw [floatInt, not_isNaN_of_isInf hinf, hinf]
      rfl
  | false =>
      refine .inr ⟨rfl, ?_⟩
      intro e h
      rw [floatInt, hinf, if_neg Bool.false_ne_true] at h
      split_ifs at h
      · exact (Except.error.inj h).symm
      · split at h
        · exact (Except.error.inj h).symm
        · cases h

/- A float of sixteen nines after the point is still below 1, the next one is not; and a decimal
may have an exponent that no double has. -/
example : floatInt (Waxseal.str "0.9999999999999999") = .ok 0 ∧
    floatInt (Waxseal.str "-0.99999999999999999") = .ok (-1) ∧
    floatInt (Waxseal.str "1e309") = .error .overflowError := by
  refine ⟨?_, ?_, ?_⟩ <;> decide +kernel

/-! ## The interpreter's own -/

/-- The numbers of the interpreter are the language's: a float is a double, and `int(s)` of a
string raises a `ValueError` at most. -/
class Interpreter.StandardNumbers [Interpreter] : Prop where
  floatToInt_eq : ∀ lexeme, floatToInt lexeme = floatInt lexeme
  strToInt_raises : ∀ s e, strToInt s = .error e → e = .valueError

/-- `Interpreter.plain` with doubles. -/
@[reducible] def Interpreter.doubles : Interpreter :=
  { Interpreter.plain with floatToInt := floatInt }

theorem Interpreter.doubles_standardNumbers : @Interpreter.StandardNumbers Interpreter.doubles :=
  letI := Interpreter.doubles
  { floatToInt_eq := fun _ => rfl
    strToInt_raises := fun _ _ h => (Except.error.inj h).symm }

variable [Interpreter] [Interpreter.StandardNumbers]

/-- `int(x)` overflows on an infinite float, and raises a `ValueError` or a `TypeError` at most on
everything else. -/
theorem pyInt_raises (value : Json) :
    (∃ lexeme, value = .float lexeme ∧ isInf lexeme = true ∧ pyInt value = .error .overflowError) ∨
      ((∀ lexeme, value = .float lexeme → isInf lexeme = false) ∧
        ∀ e, pyInt value = .error e → e = .typeError ∨ e = .valueError) := by
  cases value with
  | float lexeme =>
      have hint : pyInt (.float lexeme) = floatInt lexeme :=
        Interpreter.StandardNumbers.floatToInt_eq lexeme
      rcases floatInt_raises lexeme with ⟨hinf, hover⟩ | ⟨hfinite, hraises⟩
      · exact .inl ⟨lexeme, rfl, hinf, hint.trans hover⟩
      · refine .inr ⟨fun _ h => (Json.float.inj h) ▸ hfinite, ?_⟩
        intro e h
        exact .inr (hraises e (hint ▸ h))
  | str s =>
      refine .inr ⟨nofun, ?_⟩
      intro e h
      exact .inr (Interpreter.StandardNumbers.strToInt_raises s e h)
  | int n | bool b => exact .inr ⟨nofun, nofun⟩
  | null | arr items | obj members =>
      refine .inr ⟨nofun, ?_⟩
      intro e h
      exact .inl (Except.error.inj h).symm

end Json

end Waxseal
