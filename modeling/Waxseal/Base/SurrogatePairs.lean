import Waxseal.Base.JsonRoundTrip

/-!
# Surrogate pairs

A string may hold a high surrogate before a low one, if it was decoded from bytes that spell
the two out.  `json.dumps` writes such a pair as it writes the one character the pair stands
for, so what is read back has the pairs joined (`joinPairs`), and it is written the same way
(`dumpsStr_joinPairs`).
-/

namespace Waxseal.Json

/-- Every surrogate pair joined, from the left. -/
def joinPairs : PyStr → PyStr
  | [] => []
  | [c] => [c]
  | c :: d :: s =>
      if isHigh c.val ∧ isLow d.val then joinSurrogates c.val d.val :: joinPairs s
      else c :: joinPairs (d :: s)

theorem isHigh_iff {n : ℕ} : isHigh n = true ↔ 0xD800 ≤ n ∧ n ≤ 0xDBFF := by
  simp [isHigh]

theorem isLow_iff {n : ℕ} : isLow n = true ↔ 0xDC00 ≤ n ∧ n ≤ 0xDFFF := by
  simp [isLow]

/-- What a pair stands for is no surrogate. -/
theorem joinSurrogates_val {h l : ℕ} (hh : isHigh h = true) (hl : isLow l = true) :
    (joinSurrogates h l).val = 0x10000 + (h - 0xD800) * 0x400 + (l - 0xDC00) := by
  rw [isHigh_iff] at hh
  rw [isLow_iff] at hl
  rw [joinSurrogates, ofUnit, Fin.ofNat]
  exact Nat.mod_eq_of_lt (by omega)

/-- A pair is written as what it stands for. -/
theorem escapeChar_joinSurrogates {c d : CodePoint} (hc : isHigh c.val = true)
    (hd : isLow d.val = true) :
    escapeChar (joinSurrogates c.val d.val) = escapeChar c ++ escapeChar d := by
  have hval := joinSurrogates_val hc hd
  rw [isHigh_iff] at hc
  rw [isLow_iff] at hd
  have unit : ∀ {x : CodePoint}, 0x7F ≤ x.val → x.val < 0x10000 →
      escapeChar x = escapeUnit x.val := by
    intro x hlow hhigh
    have hquote : x ≠ quote := fun h => by rw [h] at hlow; exact absurd hlow (by decide)
    have hback : x ≠ backslash := fun h => by rw [h] at hlow; exact absurd hlow (by decide)
    rw [escapeChar, if_neg hquote, if_neg hback, if_neg (by omega), if_neg (by omega),
      if_neg (by omega), if_neg (by omega), if_neg (by omega), if_neg (by omega), if_pos hhigh]
  have hquote : joinSurrogates c.val d.val ≠ quote := fun h => by
    rw [h] at hval
    exact absurd hval (by simp only [quote, Fin.isValue]; omega)
  have hback : joinSurrogates c.val d.val ≠ backslash := fun h => by
    rw [h] at hval
    exact absurd hval (by simp only [backslash, Fin.isValue]; omega)
  have hhigh : escapeChar c = escapeUnit c.val := unit (by omega) (by omega)
  have hlow : escapeChar d = escapeUnit d.val := unit (by omega) (by omega)
  have hfirst : 0xD800 + ((joinSurrogates c.val d.val).val - 0x10000) / 0x400 = c.val := by omega
  have hsecond : 0xDC00 + ((joinSurrogates c.val d.val).val - 0x10000) % 0x400 = d.val := by omega
  rw [hhigh, hlow, escapeChar, if_neg hquote, if_neg hback, if_neg (by omega), if_neg (by omega),
    if_neg (by omega), if_neg (by omega), if_neg (by omega), if_neg (by omega),
    if_neg (by omega), hfirst, hsecond]

/-- **A string is written with its pairs joined.** -/
theorem dumpsStr_joinPairs (s : PyStr) : dumpsStr (joinPairs s) = dumpsStr s := by
  have hflat : (joinPairs s).flatMap escapeChar = s.flatMap escapeChar := by
    induction s using joinPairs.induct with
    | case1 => rfl
    | case2 c => rfl
    | case3 c d s hpair ih =>
        rw [joinPairs, if_pos hpair, List.flatMap_cons, List.flatMap_cons, List.flatMap_cons, ih,
          escapeChar_joinSurrogates hpair.1 hpair.2, List.append_assoc]
    | case4 c d s hpair ih =>
        rw [joinPairs, if_neg hpair, List.flatMap_cons, List.flatMap_cons, ih]
  rw [dumpsStr, dumpsStr, hflat]

/-- What the pairs are joined to starts like the string, or with no surrogate. -/
theorem head?_joinPairs (s : PyStr) :
    (joinPairs s).head? = s.head? ∨ ∀ c ∈ (joinPairs s).head?, isLow c.val = false := by
  cases s using joinPairs.induct with
  | case1 => exact .inl rfl
  | case2 c => exact .inl rfl
  | case3 c d s hpair ih =>
      refine .inr fun e he => ?_
      rw [joinPairs, if_pos hpair] at he
      obtain rfl := Option.some.inj he
      have hval := joinSurrogates_val hpair.1 hpair.2
      rw [← Bool.not_eq_true, isLow_iff]
      omega
  | case4 c d s hpair ih =>
      rw [joinPairs, if_neg hpair]
      exact .inl rfl

/-- Joined once, no pair is left. -/
theorem noSurrogatePair_joinPairs (s : PyStr) : NoSurrogatePair (joinPairs s) := by
  induction s using joinPairs.induct with
  | case1 => exact .nil
  | case2 c => exact .singleton c
  | case3 c d s hpair ih =>
      rw [joinPairs, if_pos hpair]
      refine List.isChain_cons.mpr ⟨fun e _ hsurrogates => ?_, ih⟩
      have hval := joinSurrogates_val hpair.1 hpair.2
      have hhigh := isHigh_iff.mp hsurrogates.1
      omega
  | case4 c d s hpair ih =>
      rw [joinPairs, if_neg hpair]
      refine List.isChain_cons.mpr ⟨fun e he hsurrogates => ?_, ih⟩
      rcases head?_joinPairs (d :: s) with hhead | hlow
      · rw [hhead] at he
        obtain rfl := Option.some.inj he
        exact hpair hsurrogates
      · rw [hlow e he] at hsurrogates
        exact absurd hsurrogates.2 Bool.false_ne_true

/-- A string without pairs stays as it is. -/
theorem joinPairs_eq_self {s : PyStr} (h : NoSurrogatePair s) : joinPairs s = s := by
  induction s using joinPairs.induct with
  | case1 => rfl
  | case2 c => rfl
  | case3 c d s hpair ih => exact absurd hpair (List.isChain_cons_cons.mp h).1
  | case4 c d s hpair ih =>
      rw [joinPairs, if_neg hpair, ih (List.isChain_cons_cons.mp h).2]

/-- Joined strings are the strings where no pair is. -/
theorem joinPairs_eq_self_iff {s : PyStr} : joinPairs s = s ↔ NoSurrogatePair s :=
  ⟨fun h => h ▸ noSurrogatePair_joinPairs s, joinPairs_eq_self⟩

end Waxseal.Json
