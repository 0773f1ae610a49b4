import Waxseal.Base.JsonLines

/-!
# Text files of printable lines

A file that is read as text and split: what was written as lines of printable characters comes
back as those lines, and so does something unterminated behind them (`textFileLines_lines`).
-/

namespace Waxseal

open Json

/-- The text of a file of lines. -/
def joinLines (lines : List PyStr) : PyStr := lines.flatMap (· ++ [0x0A])

theorem isLineEnd_of_printable {c : CodePoint} (h : IsPrintable c) : isLineEnd c = false := by
  obtain ⟨hlo, hhi⟩ := h
  simp only [isLineEnd, Bool.or_eq_false_iff, Bool.and_eq_false_iff, beq_eq_false_iff_ne,
    decide_eq_false_iff_not, ne_eq]
  omega

/-- Something unterminated is one line, unless it is nothing. -/
theorem splitlines_printable {l : PyStr} (h : ∀ c ∈ l, IsPrintable c) :
    splitlines l = if l = [] then [] else [l] := by
  induction l with
  | nil => rfl
  | cons c l ih =>
      rw [List.forall_mem_cons] at h
      rw [splitlines, if_neg (by simp [isLineEnd_of_printable h.1]), ih h.2,
        if_neg (List.cons_ne_nil c l)]
      by_cases hl : l = []
      · rw [if_pos hl, hl]
      · rw [if_neg hl]

theorem splitlines_lines {lines : List PyStr} (h : ∀ l ∈ lines, ∀ c ∈ l, IsPrintable c)
    {last : PyStr} (hlast : ∀ c ∈ last, IsPrintable c) :
    splitlines (joinLines lines ++ last) = lines ++ if last = [] then [] else [last] := by
  induction lines with
  | nil => exact splitlines_printable hlast
  | cons l lines ih =>
      rw [List.forall_mem_cons] at h
      have hl : ∀ c ∈ l, isLineEnd c = false := fun c hc => isLineEnd_of_printable (h.1 c hc)
      have hjoin : joinLines (l :: lines) ++ last = l ++ 0x0A :: (joinLines lines ++ last) := by
        simp [joinLines]
      rw [hjoin, splitlines_line hl, ih h.2, List.cons_append]

/-- **What was written as lines is read as lines.** -/
theorem textFileLines_lines {lines : List PyStr} (h : ∀ l ∈ lines, ∀ c ∈ l, IsPrintable c)
    {last : PyStr} (hlast : ∀ c ∈ last, IsPrintable c) :
    textFileLines (asciiBytes (joinLines lines ++ last)) =
      some (lines ++ if last = [] then [] else [last]) := by
  have hchar : ∀ c ∈ joinLines lines ++ last, IsPrintable c ∨ c = 0x0A := by
    intro c hc
    rcases List.mem_append.mp hc with hc | hc
    · obtain ⟨l, hl, hc⟩ := List.mem_flatMap.mp hc
      rcases List.mem_append.mp hc with hc | hc
      · exact .inl (h l hl c hc)
      · exact .inr (List.mem_singleton.mp hc)
    · exact .inl (hlast c hc)
  have hascii : isAscii (joinLines lines ++ last) = true := by
    refine List.all_eq_true.mpr fun c hc => decide_eq_true ?_
    rcases hchar c hc with hprint | rfl
    · exact lt_of_le_of_lt hprint.2 (by decide)
    · decide
  have hreturn : ∀ c ∈ joinLines lines ++ last, c.val ≠ 0x0D := by
    intro c hc
    rcases hchar c hc with hprint | rfl
    · have := hprint.1
      omega
    · decide
  rw [textFileLines, decodeUtf8_encode (encodeUtf8_ascii hascii), Option.map_some,
    universalNewlines_eq_self hreturn, splitlines_lines h hlast]

end Waxseal
