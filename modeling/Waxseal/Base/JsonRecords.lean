import Waxseal.Base.JsonLines

/-!
# Files of records

A record format: how a value becomes a JSON object and is read back from one.  A file of
records holds one written object a line.  Its reader returns the records
(`readLines_fileBytes`), refuses a line torn inside its object (`readLine_torn`), and reads a
file that grew by one line as what it read before and the new record (`readLines_snoc`).

What was written over a torn line need not be told apart: no two writes that share a line
give two records (`length_textLines_append_le`, `length_le_of_readLines`).
-/

namespace Waxseal

open Json

/-! ## Counting lines -/

theorem length_consLine_le (b : UInt8) (lines : List Bytes) :
    (consLine b lines).length ≤ lines.length + 1 := by
  cases lines with
  | nil => exact le_rfl
  | cons line lines => exact Nat.le_succ _

theorem length_consLine {b : UInt8} {lines : List Bytes} (h : lines ≠ []) :
    (consLine b lines).length = lines.length := by
  cases lines with
  | nil => exact absurd rfl h
  | cons line lines => rfl

theorem length_textLines_cons_le (b : UInt8) (bs : Bytes) :
    (textLines (b :: bs)).length ≤ (textLines bs).length + 1 := by
  by_cases hLF : b = LF
  · rw [hLF, textLines_LF]
    exact le_rfl
  by_cases hCR : b = CR
  · subst hCR
    cases bs with
    | nil => exact le_rfl
    | cons c bs =>
        simp only [textLines, if_neg hLF, if_true]
        split_ifs with hc
        · rw [hc, textLines_LF]
          exact Nat.le_succ _
        · exact le_rfl
  · rw [textLines_cons hLF hCR]
    exact length_consLine_le b _

/-- **Putting two files together makes no lines.** -/
theorem length_textLines_append_le (file more : Bytes) :
    (textLines (file ++ more)).length ≤ (textLines file).length + (textLines more).length := by
  induction file using textLines.induct with
  | case1 => exact (Nat.zero_add _).ge
  | case2 bs ih =>
      rw [List.cons_append, textLines_LF, textLines_LF, List.length_cons, List.length_cons]
      omega
  | case3 hne =>
      have := length_textLines_cons_le CR more
      rw [List.singleton_append, show textLines [CR] = [[CR]] from rfl, List.length_singleton]
      omega
  | case4 bs hne ih =>
      simp only [List.cons_append, textLines, if_neg hne, if_true, List.length_cons]
      omega
  | case5 c bs hne hc ih =>
      rw [List.cons_append] at ih
      simp only [List.cons_append, textLines, if_neg hne, if_true, if_neg hc, List.length_cons]
      omega
  | case6 b bs hLF hCR ih =>
      rw [List.cons_append, textLines_cons hLF hCR, textLines_cons hLF hCR]
      by_cases hbs : bs = []
      · rw [hbs, List.nil_append]
        have := length_consLine_le b (textLines more)
        rw [show consLine b (textLines []) = [[b]] from rfl, List.length_singleton]
        omega
      · rw [length_consLine (textLines_ne_nil hbs),
          length_consLine (textLines_ne_nil (fun h => hbs (List.append_eq_nil_iff.mp h).1))]
        exact ih

section Readers

variable [Interpreter] {α : Type} (f : Json → Except PyErr α)

/-- No line gives two values. -/
theorem length_le_of_readLines {file : Bytes} {xs : List α} (h : readLines f file = .ok xs) :
    xs.length ≤ (textLines file).length := by
  unfold readLines at h
  generalize textLines file = lines at h ⊢
  induction lines generalizing xs with
  | nil => rw [← Except.ok.inj h]; rfl
  | cons line lines ih =>
      rw [readLinesLoop] at h
      obtain ⟨x, -, h⟩ := bind_eq_ok_iff.mp h
      obtain ⟨ys, hys, h⟩ := bind_eq_ok_iff.mp h
      rw [← Except.ok.inj h, List.length_append, List.length_cons]
      have := ih hys
      have : x.toList.length ≤ 1 := by cases x <;> simp
      omega

/-- A line that cannot be read spoils the file it ends. -/
theorem readLines_append_unreadable {file line : Bytes} (h : EndsLine file)
    (hline : ∀ t, line ≠ LF :: t) (hone : textLines line = [line])
    (hread : ∀ x, readLine f line ≠ .ok x) (xs : List α) : readLines f (file ++ line) ≠ .ok xs := by
  rw [readLines_append f h hline]
  intro hok
  obtain ⟨ys, -, hok⟩ := bind_eq_ok_iff.mp hok
  obtain ⟨zs, hzs, -⟩ := bind_eq_ok_iff.mp hok
  rw [readLines, hone, readLinesLoop] at hzs
  obtain ⟨x, hx, -⟩ := bind_eq_ok_iff.mp hzs
  exact hread x hx

end Readers

/-! ## Record formats -/

section Records

variable [Interpreter]

/-- A record format, with its round trip on the values it can store. -/
structure RecordFormat (α : Type) where
  members : α → List (PyStr × Json)
  read : Json → Except PyErr α
  Storable : α → Prop
  writable : ∀ {a : α}, Storable a → Writable recursionLimit (.obj (members a))
  read_members : ∀ {a : α}, Storable a → read (.obj (members a)) = .ok a

namespace RecordFormat

variable {α : Type} (R : RecordFormat α)

/-- The text of a record. -/
def text (a : α) : PyStr := dumps .compact (.obj (R.members a))

/-- The bytes of a record, without the line end. -/
def bytes (a : α) : Bytes := asciiBytes (R.text a)

/-- A file of records. -/
def fileBytes (as : List α) : Bytes := as.flatMap fun a => R.bytes a ++ [LF]

theorem fileBytes_snoc (as : List α) (a : α) :
    R.fileBytes (as ++ [a]) = R.fileBytes as ++ (R.bytes a ++ [LF]) := by
  rw [fileBytes, List.flatMap_append, List.flatMap_singleton]
  rfl

/-- A file of records is empty or ends in a newline. -/
theorem fileBytes_eq (as : List α) :
    R.fileBytes as = [] ∨ ∃ init, R.fileBytes as = init ++ [LF] := by
  induction as using List.reverseRecOn with
  | nil => exact .inl rfl
  | append_singleton as a _ =>
      exact .inr ⟨R.fileBytes as ++ R.bytes a, by rw [fileBytes_snoc, List.append_assoc]⟩

theorem endsLine_fileBytes (as : List α) : EndsLine (R.fileBytes as) :=
  (R.fileBytes_eq as).imp_right fun ⟨init, h⟩ => ⟨init, .inl h⟩

theorem opensObject_text (a : α) : OpensObject (R.text a) := opensObject_dumps _

theorem bytes_ne_nil (a : α) : R.bytes a ≠ [] := by
  obtain ⟨t, ht⟩ := R.opensObject_text a
  rw [bytes, ht]
  exact List.cons_ne_nil _ _

/-- No record starts with a newline, nor does a torn one. -/
theorem line_ne_LF (a : α) (more t : Bytes) : R.bytes a ++ more ≠ LF :: t := by
  obtain ⟨l, hl⟩ := R.opensObject_text a
  rw [bytes, hl]
  intro heq
  exact absurd (List.cons.inj heq).1 (by decide)

variable {R}

section Storable

variable {a : α} (h : R.Storable a)

include h

theorem isPrintable_text : ∀ c ∈ R.text a, IsPrintable c := isPrintable_dumps (R.writable h)

theorem unbroken_bytes : Unbroken (R.bytes a) := unbroken_dumps (R.writable h)

theorem textLines_bytes : textLines (R.bytes a ++ [LF]) = [R.bytes a ++ [LF]] :=
  textLines_line (unbroken_bytes h)

/-- **Reading back a record**, terminated or not. -/
theorem readLine_bytes {t : PyStr} (ht : t = [] ∨ t = [0x0A]) :
    readLine R.read (R.bytes a ++ asciiBytes t) = .ok (some a) := by
  rw [bytes, ← asciiBytes_append, text, readLine_dumps _ (R.writable h) ht, R.read_members h]
  rfl

/-- **A torn record is refused.** -/
theorem readLine_torn {n : ℕ} (hpos : 0 < n) (hn : n < (R.bytes a).length) (x : Option α) :
    readLine R.read ((R.bytes a).take n) ≠ .ok x := by
  have htake : (R.bytes a).take n = asciiBytes ((R.text a).take n) := List.map_take.symm
  rw [bytes, length_asciiBytes] at hn
  have hne : (R.text a).take n ≠ [] := List.ne_nil_of_length_pos (by
    rw [List.length_take]
    omega)
  have hdrop : (R.text a).drop n ≠ [] := List.ne_nil_of_length_pos (by
    rw [List.length_drop]
    omega)
  rw [htake]
  exact Waxseal.readLine_torn R.read (R.writable h) (List.take_append_drop n (R.text a)) hne hdrop x

/-- A line that was added to a file is read as one more record. -/
theorem readLines_snoc {file : Bytes} (hfile : EndsLine file) {as : List α}
    (has : readLines R.read file = .ok as) :
    readLines R.read (file ++ (R.bytes a ++ [LF])) = .ok (as ++ [a]) := by
  have hline : readLines R.read (R.bytes a ++ [LF]) = .ok [a] := by
    have hread := readLine_bytes h (.inr rfl)
    rw [show asciiBytes [0x0A] = [LF] from rfl] at hread
    simp only [readLines, textLines_bytes h, readLinesLoop, hread]
    rfl
  rw [readLines_append R.read hfile (R.line_ne_LF a [LF]), has, hline]
  rfl

end Storable

/-- **The reader returns the records of the file.** -/
theorem readLines_fileBytes {as : List α} (h : ∀ a ∈ as, R.Storable a) :
    readLines R.read (R.fileBytes as) = .ok as := by
  induction as using List.reverseRecOn with
  | nil => rfl
  | append_singleton as a ih =>
      rw [List.forall_mem_append, List.forall_mem_singleton] at h
      rw [fileBytes_snoc]
      exact readLines_snoc h.2 (R.endsLine_fileBytes as) (ih h.1)

/-- **The lines of the text** of a file of records. -/
theorem textFileLines_fileBytes {as : List α} (h : ∀ a ∈ as, R.Storable a) :
    textFileLines (R.fileBytes as) = some (as.map R.text) := by
  have hfile : R.fileBytes as = asciiBytes (as.flatMap fun a => R.text a ++ [0x0A]) := by
    induction as with
    | nil => rfl
    | cons a as ih =>
        rw [List.flatMap_cons, asciiBytes_append, asciiBytes_append,
          ← ih fun a ha => h a (List.mem_cons_of_mem _ ha)]
        rfl
  have hchar : ∀ c ∈ as.flatMap fun a => R.text a ++ [0x0A], IsPrintable c ∨ c = 0x0A := by
    intro c hc
    obtain ⟨a, ha, hc⟩ := List.mem_flatMap.mp hc
    rcases List.mem_append.mp hc with hc | hc
    · exact .inl (isPrintable_text (h a ha) c hc)
    · exact .inr (List.mem_singleton.mp hc)
  have hascii : isAscii (as.flatMap fun a => R.text a ++ [0x0A]) = true := by
    refine List.all_eq_true.mpr fun c hc => decide_eq_true ?_
    rcases hchar c hc with hprint | rfl
    · exact lt_of_le_of_lt hprint.2 (by decide)
    · decide
  have hreturn : ∀ c ∈ as.flatMap fun a => R.text a ++ [0x0A], c.val ≠ 0x0D := by
    intro c hc
    rcases hchar c hc with hprint | rfl
    · have := hprint.1
      omega
    · decide
  rw [textFileLines, hfile, decodeUtf8_encode (encodeUtf8_ascii hascii), Option.map_some,
    universalNewlines_eq_self hreturn]
  refine congrArg some ?_
  clear hfile hchar hascii hreturn
  induction as with
  | nil => rfl
  | cons a as ih =>
      rw [List.flatMap_cons, List.append_assoc, List.singleton_append, splitlines_line,
        ih fun a ha => h a (List.mem_cons_of_mem _ ha), List.map_cons]
      intro c hc
      obtain ⟨hlo, hhi⟩ := isPrintable_text (h a List.mem_cons_self) c hc
      simp only [isLineEnd, Bool.or_eq_false_iff, Bool.and_eq_false_iff, beq_eq_false_iff_ne,
        decide_eq_false_iff_not, ne_eq]
      omega

end RecordFormat

end Records

end Waxseal
