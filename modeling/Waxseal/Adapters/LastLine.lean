import Waxseal.Adapters.Jsonl

/-!
# The last line, from both ends

`read_last_line` looks for the last line from the end of the file, and cuts at `\n` alone;
`entries` reads the file forward, cuts at `\n`, `\r\n` and `\r`, and passes over lines that hold
nothing but whitespace.  For every chunk size the two agree on the last line exactly where the
file is UTF-8 and what stands between its last two line feeds, trailing breaks apart, has no
carriage return and is not blank (`readLastLine_agrees_iff`).
-/

namespace Waxseal

/-! ## Lines and their ends -/

/-- The lines of a file are the file. -/
theorem flatten_textLines (file : Bytes) : (textLines file).flatten = file := by
  induction file using textLines.induct with
  | case1 => rfl
  | case2 bs ih => rw [textLines_LF, List.flatten_cons, ih, List.singleton_append]
  | case3 hne => simp only [textLines, if_neg hne, if_true, List.flatten_singleton]
  | case4 bs hne ih =>
      simp only [textLines, if_neg hne, if_true, List.flatten_cons, ih, List.cons_append,
        List.nil_append]
  | case5 c bs hne hc ih =>
      simp only [textLines, if_neg hne, if_true, if_neg hc, List.flatten_cons, ih,
        List.singleton_append]
  | case6 b bs hLF hCR ih =>
      rw [textLines_cons hLF hCR]
      cases hlines : textLines bs with
      | nil =>
          rw [hlines] at ih
          rw [← ih]
          rfl
      | cons line lines =>
          rw [hlines] at ih
          rw [← ih]
          rfl

/-- A line of a text file: no break in it but at its end. -/
def IsTextLine (line : Bytes) : Prop :=
  ∃ l breaks, Unbroken l ∧ (∀ b ∈ breaks, isBreak b = true) ∧ line = l ++ breaks

theorem isTextLine_of_mem {file line : Bytes} (h : line ∈ textLines file) : IsTextLine line := by
  have hbreaks : ∀ breaks : Bytes, (∀ b ∈ breaks, isBreak b = true) → IsTextLine breaks :=
    fun breaks hb => ⟨[], breaks, nofun, hb, rfl⟩
  have hends : isBreak LF = true ∧ isBreak CR = true := ⟨rfl, rfl⟩
  induction file using textLines.induct generalizing line with
  | case1 => cases h
  | case2 bs ih =>
      rw [textLines_LF, List.mem_cons] at h
      rcases h with rfl | h
      · exact hbreaks _ (by simp [hends])
      · exact ih h
  | case3 hne =>
      simp only [textLines, if_neg hne, if_true, List.mem_singleton] at h
      exact hbreaks _ (by simp [h, hends])
  | case4 bs hne ih =>
      simp only [textLines, if_neg hne, if_true, List.mem_cons] at h
      rcases h with rfl | h
      · exact hbreaks _ (by simp [hends])
      · exact ih h
  | case5 c bs hne hc ih =>
      simp only [textLines, if_neg hne, if_true, if_neg hc, List.mem_cons] at h
      rcases h with rfl | h
      · exact hbreaks _ (by simp [hends])
      · exact ih h
  | case6 b bs hLF hCR ih =>
      have hb : ∀ l, Unbroken l → Unbroken (b :: l) := by
        intro l hl c hc
        rcases List.mem_cons.mp hc with rfl | hc
        · exact ⟨hLF, hCR⟩
        · exact hl c hc
      rw [textLines_cons hLF hCR] at h
      cases hlines : textLines bs with
      | nil =>
          rw [hlines, consLine, List.mem_singleton] at h
          exact ⟨[b], [], hb [] nofun, nofun, by rw [h, List.append_nil]⟩
      | cons first lines =>
          rw [hlines, consLine, List.mem_cons] at h
          rw [hlines] at ih
          rcases h with rfl | h
          · obtain ⟨l, breaks, hl, hbreak, rfl⟩ := ih List.mem_cons_self
            exact ⟨b :: l, breaks, hb l hl, hbreak, rfl⟩
          · exact ih (List.mem_cons_of_mem _ h)

theorem rdropWhile_append_breaks {breaks : Bytes} (h : ∀ b ∈ breaks, isBreak b = true)
    (l : Bytes) : (l ++ breaks).rdropWhile isBreak = l.rdropWhile isBreak := by
  induction breaks using List.reverseRecOn with
  | nil => rw [List.append_nil]
  | append_singleton breaks b ih =>
      rw [List.forall_mem_append, List.forall_mem_singleton] at h
      rw [← List.append_assoc, List.rdropWhile_concat_pos _ _ _ h.2, ih h.1]

/-- What follows a line that is not broken off ends it, and goes on with lines of its own. -/
theorem textLines_unbroken_append {l : Bytes} (h : Unbroken l) (hne : l ≠ []) (more : Bytes) :
    textLines (l ++ more) = (l ++ (textLines more).headD []) :: (textLines more).tail := by
  induction l with
  | nil => exact absurd rfl hne
  | cons b l ih =>
      obtain ⟨hLF, hCR⟩ := h b List.mem_cons_self
      rw [List.cons_append, textLines_cons hLF hCR]
      by_cases hl : l = []
      · rw [hl, List.nil_append]
        cases textLines more <;> rfl
      · rw [ih h.tail hl]
        rfl

/-! ## Text -/

theorem encodeUtf8_append {s t : PyStr} {a b : Bytes} (hs : encodeUtf8 s = some a)
    (ht : encodeUtf8 t = some b) : encodeUtf8 (s ++ t) = some (a ++ b) := by
  induction s generalizing a with
  | nil =>
      obtain rfl := Option.some.inj hs
      exact ht
  | cons c s ih =>
      obtain ⟨b₀, b₁, hc, htail, rfl⟩ := encodeUtf8_cons.mp hs
      rw [List.cons_append, List.append_assoc]
      exact encodeUtf8_cons.mpr ⟨b₀, b₁ ++ b, hc, ih htail, rfl⟩

/-- No byte of a longer character is ASCII. -/
theorem encodeCodePoint_ascii_last {c : CodePoint} {l : Bytes} {b : UInt8} (hb : b.toNat < 0x80)
    (h : encodeCodePoint c = some (l ++ [b])) : l = [] := by
  have hlast := congrArg (Option.map List.getLast?) h
  rw [Option.map_some, List.getLast?_concat] at hlast
  have hc := c.isLt
  rw [encodeCodePoint] at h hlast
  split_ifs at h hlast
  · exact (List.append_eq_singleton_iff.mp (Option.some.inj h).symm).elim And.left
      fun hcons => absurd hcons.2 (List.cons_ne_nil _ _)
  all_goals
    simp only [Option.map_some, Option.some.injEq, List.getLast?_cons_cons,
      List.getLast?_singleton] at hlast
    rw [← hlast, UInt8.toNat_ofNat'] at hb
    omega

/-- An ASCII byte at the end of a text is its last character. -/
theorem exists_encodeUtf8_of_ascii_last {s : PyStr} {l : Bytes} {b : UInt8} (hb : b.toNat < 0x80)
    (h : encodeUtf8 s = some (l ++ [b])) : ∃ t, encodeUtf8 t = some l := by
  induction s generalizing l with
  | nil => simp [encodeUtf8] at h
  | cons c s ih =>
      obtain ⟨b₀, b₁, hc, hs, hsplit⟩ := encodeUtf8_cons.mp h
      rcases List.eq_nil_or_concat b₁ with rfl | ⟨l₁, b', rfl⟩
      · rw [List.append_nil] at hsplit
        rw [← hsplit] at hc
        exact ⟨[], by rw [encodeCodePoint_ascii_last hb hc]; rfl⟩
      · rw [List.concat_eq_append, ← List.append_assoc] at hsplit
        obtain ⟨rfl, hlast⟩ := List.append_inj' hsplit rfl
        obtain rfl := (List.cons.inj hlast).1
        obtain ⟨t, ht⟩ := ih (by rw [hs, List.concat_eq_append])
        exact ⟨c :: t, encodeUtf8_cons.mpr ⟨b₀, l₁, hc, ht, rfl⟩⟩

/-- A text that holds nothing but whitespace, as bytes. -/
def BlankBytes (l : Bytes) : Prop := ∃ s, decodeUtf8 l = some s ∧ isBlank s = true

theorem toNat_of_isBreak {b : UInt8} (h : isBreak b = true) : b.toNat = 0x0A ∨ b.toNat = 0x0D := by
  rw [isBreak, Bool.or_eq_true, beq_iff_eq, beq_iff_eq] at h
  rcases h with rfl | rfl
  · exact .inl rfl
  · exact .inr rfl

/-- The text of line breaks. -/
theorem exists_blank_of_breaks {breaks : Bytes} (h : ∀ b ∈ breaks, isBreak b = true) :
    ∃ t, encodeUtf8 t = some breaks ∧ isBlank t = true := by
  induction breaks with
  | nil => exact ⟨[], rfl, rfl⟩
  | cons b breaks ih =>
      rw [List.forall_mem_cons] at h
      obtain ⟨t, ht, hblank⟩ := ih h.2
      have hval : (CodePoint.ofByte b).val = b.toNat := CodePoint.val_ofByte b
      have hascii : encodeCodePoint (CodePoint.ofByte b) = some [b] := by
        rw [encodeCodePoint, if_pos (by rw [hval]; have := toNat_of_isBreak h.1; omega), hval,
          UInt8.ofNat_toNat]
      refine ⟨CodePoint.ofByte b :: t, encodeUtf8_cons.mpr ⟨_, _, hascii, ht, rfl⟩, ?_⟩
      have hspace : isSpace (CodePoint.ofByte b) = true := by
        rw [isSpace, hval]
        rcases toNat_of_isBreak h.1 with hb | hb <;> rw [hb] <;> rfl
      rw [isBlank, List.all_cons, hspace]
      exact hblank

theorem blankBytes_of_breaks {breaks : Bytes} (h : ∀ b ∈ breaks, isBreak b = true) :
    BlankBytes breaks := by
  obtain ⟨t, ht, hblank⟩ := exists_blank_of_breaks h
  exact ⟨t, decodeUtf8_encode ht, hblank⟩

/-- The end of a line makes it neither text nor blank, nor keeps it from it. -/
theorem blankBytes_append_breaks {l breaks : Bytes} (h : ∀ b ∈ breaks, isBreak b = true) :
    BlankBytes (l ++ breaks) ↔ BlankBytes l := by
  obtain ⟨t, ht, hblank⟩ := exists_blank_of_breaks h
  constructor
  · rintro ⟨u, hu, hublank⟩
    have hl : ∃ s, encodeUtf8 s = some l := by
      clear ht hblank hublank
      induction breaks using List.reverseRecOn generalizing u with
      | nil => exact ⟨u, by rw [decodeUtf8_eq_some_iff.mp hu, List.append_nil]⟩
      | append_singleton breaks b ih =>
          rw [List.forall_mem_append, List.forall_mem_singleton] at h
          rw [← List.append_assoc, decodeUtf8_eq_some_iff] at hu
          have hb := toNat_of_isBreak h.2
          obtain ⟨u', hu'⟩ := exists_encodeUtf8_of_ascii_last (by omega) hu
          exact ih h.1 u' (decodeUtf8_encode hu')
    obtain ⟨s, hs⟩ := hl
    obtain rfl : s ++ t = u :=
      encodeUtf8_inj (encodeUtf8_append hs ht) (decodeUtf8_eq_some_iff.mp hu)
    rw [isBlank, List.all_append, Bool.and_eq_true] at hublank
    exact ⟨s, decodeUtf8_encode hs, hublank.1⟩
  · rintro ⟨s, hs, hsblank⟩
    refine ⟨s ++ t, decodeUtf8_encode (encodeUtf8_append (decodeUtf8_eq_some_iff.mp hs) ht), ?_⟩
    rw [isBlank, List.all_append, Bool.and_eq_true]
    exact ⟨hsblank, hblank⟩

/-! ## Forward -/

/-- `not line.strip()`. -/
def blankLine (line : Bytes) : Bool := (decodeUtf8 line).any isBlank

/-- The lines `entries()` decodes, without their line ends; it raises where a line is no UTF-8. -/
def decodedLines (file : Bytes) : Except PyErr (List Bytes) :=
  if (textLines file).all fun line => (decodeUtf8 line).isSome then
    .ok (((textLines file).filter fun line => !blankLine line).map (List.rdropWhile isBreak))
  else .error .unicodeDecodeError

theorem blankLine_iff {line : Bytes} : blankLine line = true ↔ BlankBytes line := by
  rw [blankLine, BlankBytes]
  cases decodeUtf8 line with
  | none => exact iff_of_false nofun fun ⟨_, h, _⟩ => nomatch h
  | some s => exact ⟨fun h => ⟨s, rfl, h⟩, fun ⟨_, h, hblank⟩ => Option.some.inj h ▸ hblank⟩

/-- The last line that `entries()` decodes. -/
def lastDecoded (file : Bytes) : Except PyErr (Option Bytes) := List.getLast? <$> decodedLines file

/-! ## Backward -/

/-- What stands behind the last line feed that is followed by more than breaks. -/
def LastSegment (file last : Bytes) : Prop :=
  ∃ init breaks, file = init ++ last ++ breaks ∧ (init = [] ∨ ∃ t, init = t ++ [LF]) ∧
    LF ∉ last ∧ (∀ b ∈ breaks, isBreak b = true) ∧
    ∃ h : last ≠ [], isBreak (last.getLast h) = false

theorem lastLine_eq_some_iff {file last : Bytes} :
    lastLine file = some last ↔ LastSegment file last := by
  constructor
  · intro h
    rw [lastLine] at h
    split_ifs at h with htrim
    obtain rfl := Option.some.inj h
    obtain ⟨breaks, hbreaks⟩ := List.rdropWhile_prefix isBreak (l := file)
    have hlast := List.rdropWhile_last_not isBreak file htrim
    have hend : (file.rdropWhile isBreak).getLast htrim ≠ LF := by
      intro hLF
      rw [hLF] at hlast
      exact hlast rfl
    have hne : (file.rdropWhile isBreak).rtakeWhile (· ≠ LF) ≠ [] := by
      rw [Ne, List.rtakeWhile_eq_nil_iff]
      intro hall
      exact hall htrim (decide_eq_true hend)
    refine ⟨(file.rdropWhile isBreak).rdropWhile (· ≠ LF), breaks, ?_, ?_, ?_, ?_, hne, ?_⟩
    · rw [List.rdropWhile_append_rtakeWhile, hbreaks]
    · rcases List.eq_nil_or_concat' ((file.rdropWhile isBreak).rdropWhile (· ≠ LF)) with hnil |
        ⟨t, b, hb⟩
      · exact .inl hnil
      · refine .inr ⟨t, ?_⟩
        have hne : (file.rdropWhile isBreak).rdropWhile (· ≠ LF) ≠ [] :=
          hb ▸ List.concat_ne_nil b t
        have hstop := List.rdropWhile_last_not (fun b => decide (b ≠ LF)) _ hne
        rw [List.getLast_congr hne (List.concat_ne_nil b t) hb, List.getLast_concat,
          decide_eq_true_eq, not_not] at hstop
        rw [hb, hstop]
    · intro hmem
      have hne := List.mem_rtakeWhile_imp hmem
      simp only [ne_eq, not_true_eq_false, decide_false, Bool.false_eq_true] at hne
    · have hsplit : file.rdropWhile isBreak ++ file.rtakeWhile isBreak = file :=
        List.rdropWhile_append_rtakeWhile
      have hsame : breaks = file.rtakeWhile isBreak :=
        List.append_cancel_left (hbreaks.trans hsplit.symm)
      intro b hb
      rw [hsame] at hb
      exact List.mem_rtakeWhile_imp hb
    · have hsuffix := List.rtakeWhile_suffix (fun b => decide (b ≠ LF)) (file.rdropWhile isBreak)
      rw [hsuffix.getLast hne]
      exact Bool.eq_false_iff.mpr hlast
  · rintro ⟨init, breaks, rfl, hinit, hLF, hbreaks, hne, hend⟩
    have htrim : (init ++ last ++ breaks).rdropWhile isBreak = init ++ last := by
      rw [rdropWhile_append_breaks hbreaks, List.rdropWhile_eq_self_iff]
      intro hne'
      rw [List.getLast_append_of_right_ne_nil _ _ hne, hend]
      decide
    have htake : (init ++ last).rtakeWhile (· ≠ LF) = last := by
      have hall : ∀ b ∈ last.reverse, decide (b ≠ LF) = true := fun b hb =>
        decide_eq_true fun h => hLF (h ▸ List.mem_reverse.mp hb)
      rw [List.rtakeWhile, List.reverse_append, List.takeWhile_append_of_pos hall]
      rcases hinit with rfl | ⟨t, rfl⟩ <;> simp
    rw [lastLine, htrim, htake, if_neg (by simp [hne])]

theorem lastLine_eq_none_iff {file : Bytes} :
    lastLine file = none ↔ ∀ b ∈ file, isBreak b = true := by
  rw [lastLine, ← List.rdropWhile_eq_nil_iff]
  by_cases h : file.rdropWhile isBreak = []
  · rw [if_pos h]
    exact iff_of_true rfl h
  · rw [if_neg h]
    exact iff_of_false (Option.some_ne_none _) h

/-! ## Agreement -/

/-- The last segment of a file, if there is one, is a line: it has no carriage return, and more
than whitespace. -/
def PlainEnd (file : Bytes) : Prop := ∀ last, LastSegment file last → CR ∉ last ∧ ¬ BlankBytes last

/-- The bytes of a line are bytes of its file. -/
theorem mem_of_mem_textLines {file line : Bytes} (h : line ∈ textLines file) {b : UInt8}
    (hb : b ∈ line) : b ∈ file := by
  rw [← flatten_textLines file]
  exact List.mem_flatten_of_mem h hb

theorem filter_blank_of_breaks {file : Bytes} (h : ∀ b ∈ file, isBreak b = true) :
    ((textLines file).filter fun line => !blankLine line) = [] := by
  rw [List.filter_eq_nil_iff]
  intro line hline
  rw [blankLine_iff.mpr (blankBytes_of_breaks fun b hb => h b (mem_of_mem_textLines hline hb))]
  decide

/-- The lines of breaks are breaks, and blank. -/
theorem breaks_of_textLines {breaks : Bytes} (h : ∀ b ∈ breaks, isBreak b = true) :
    (∀ b ∈ (textLines breaks).headD [], isBreak b = true) ∧
      ((textLines breaks).tail.filter fun line => !blankLine line) = [] := by
  have hnone := filter_blank_of_breaks h
  have hmem : ∀ line ∈ textLines breaks, ∀ b ∈ line, isBreak b = true :=
    fun line hline b hb => h b (mem_of_mem_textLines hline hb)
  cases hlines : textLines breaks with
  | nil => exact ⟨nofun, rfl⟩
  | cons first lines =>
      rw [hlines] at hnone hmem
      refine ⟨hmem first List.mem_cons_self, ?_⟩
      rw [List.filter_eq_nil_iff] at hnone ⊢
      exact fun line hline => hnone line (List.mem_cons_of_mem first hline)

/-- The last segment starts a line of its own. -/
theorem textLines_lastSegment {init last breaks : Bytes}
    (hinit : init = [] ∨ ∃ t, init = t ++ [LF]) (hl : Unbroken last) (hne : last ≠ []) :
    textLines (init ++ last ++ breaks) =
      textLines init ++ (last ++ (textLines breaks).headD []) :: (textLines breaks).tail := by
  have hends : EndsLine init := by
    rcases hinit with rfl | ⟨t, rfl⟩
    · exact .inl rfl
    · exact EndsLine.of_append_LF t
  have hstart : ∀ t, last ++ breaks ≠ LF :: t := by
    intro t ht
    cases last with
    | nil => exact hne rfl
    | cons b last => exact (hl b List.mem_cons_self).1 (List.cons.inj ht).1
  rw [List.append_assoc, textLines_append hends hstart, textLines_unbroken_append hl hne]

/-- **Both readers find the same last line**, for every chunk size, exactly if the file is UTF-8
and ends plainly. -/
theorem readLastLine_agrees_iff (seekChunk : ℕ+) (file : Bytes) :
    lastDecoded file = .ok (readLastLineBy seekChunk file) ↔
      (∀ line ∈ textLines file, (decodeUtf8 line).isSome = true) ∧ PlainEnd file := by
  rw [readLastLineBy_eq, lastDecoded, decodedLines, ← List.all_eq_true]
  split_ifs with htext
  · rw [and_iff_right htext]
    show Except.ok _ = Except.ok _ ↔ _
    rw [Except.ok.injEq]
    cases hlast : lastLine file with
    | none =>
        have hbreaks := lastLine_eq_none_iff.mp hlast
        refine iff_of_true ?_ ?_
        · rw [filter_blank_of_breaks hbreaks]
          rfl
        · intro last hsegment
          rw [lastLine_eq_some_iff.mpr hsegment] at hlast
          cases hlast
    | some last =>
        have hsegment := lastLine_eq_some_iff.mp hlast
        constructor
        · intro hfound
          obtain ⟨line, hline, rfl⟩ := List.mem_map.mp (List.mem_of_getLast? hfound)
          obtain ⟨hline, hblank⟩ := List.mem_filter.mp hline
          obtain ⟨l, breaks, hl, hbreaks, rfl⟩ := isTextLine_of_mem hline
          rw [rdropWhile_append_breaks hbreaks, rdropWhile_isBreak hl] at hsegment
          intro last hother
          obtain rfl : l = last := by
            rw [← lastLine_eq_some_iff] at hsegment hother
            exact Option.some.inj (hsegment.symm.trans hother)
          refine ⟨fun hCR => (hl CR hCR).2 rfl, ?_⟩
          rw [← blankBytes_append_breaks hbreaks, ← blankLine_iff]
          simpa using hblank
        · intro hplain
          obtain ⟨hCR, hblank⟩ := hplain last hsegment
          obtain ⟨init, breaks, rfl, hinit, hLF, hbreaks, hne, -⟩ := hsegment
          have hl : Unbroken last := fun b hb =>
            ⟨fun h => hLF (h ▸ hb), fun h => hCR (h ▸ hb)⟩
          rw [textLines_lastSegment hinit hl hne]
          obtain ⟨hhead, htail⟩ := breaks_of_textLines hbreaks
          have hnonblank : blankLine (last ++ (textLines breaks).headD []) = false := by
            rw [← Bool.not_eq_true, blankLine_iff, blankBytes_append_breaks hhead]
            exact hblank
          rw [List.filter_append, List.filter_cons_of_pos (by rw [hnonblank]; rfl), htail,
            List.map_append, List.map_cons, rdropWhile_append_breaks hhead, rdropWhile_isBreak hl,
            List.map_nil, List.getLast?_concat]
  · exact iff_of_false nofun fun h => htext h.1

/-- **The readers disagree** on a file that holds only spaces and a line feed, and on a carriage
return inside the last line. -/
theorem last_line_disagrees :
    lastDecoded (ascii "  \n") = .ok none ∧ readLastLine (ascii "  \n") = some (ascii "  ") ∧
      lastDecoded (ascii "x\ry\n") = .ok (some (ascii "y")) ∧
      readLastLine (ascii "x\ry\n") = some (ascii "x\ry") := by
  refine ⟨?_, ?_, ?_, ?_⟩
  · rfl
  · decide +kernel
  · rfl
  · decide +kernel

end Waxseal
