import Mathlib.Data.List.DropRight
import Waxseal.Base.JsonLoads

/-!
# Files of JSON lines

How Python cuts a file into lines, and what a reader of one JSON value a line makes of
them.  A file read in binary is cut after `\n`; a file read as text with `newline=""` is
cut after `\n`, `\r\n` and `\r`.  UTF-8 uses none of these bytes inside a longer form, so
the cut is made before the lines are decoded.

A written object is one line (`isLine_dumps`), and the reader reads it back
(`readLine_dumps`); a torn one, and two on a line, it refuses (`readLine_torn`,
`readLine_glued`).
-/

namespace Waxseal

/-- `\n`. -/
def LF : UInt8 := 0x0A

/-- `\r`. -/
def CR : UInt8 := 0x0D

/-! ## Lines -/

/-- A byte in front of the first line. -/
def consLine (b : UInt8) : List Bytes → List Bytes
  | [] => [[b]]
  | line :: lines => (b :: line) :: lines

/-- The lines of a file opened in binary, each with its `\n`. -/
def rawLines : Bytes → List Bytes
  | [] => []
  | b :: bs => if b = LF then [b] :: rawLines bs else consLine b (rawLines bs)

/-- The lines of a file opened with `newline=""`, each with its line end. -/
def textLines : Bytes → List Bytes
  | [] => []
  | b :: bs =>
      if b = LF then [b] :: textLines bs
      else if b = CR then
        match bs with
        | [] => [[b]]
        | c :: bs' => if c = LF then [b, c] :: textLines bs' else [b] :: textLines (c :: bs')
      else consLine b (textLines bs)

/-- Where `str.splitlines` cuts.  A text that was read with universal newlines holds no
carriage return, the one that is left out here. -/
def isLineEnd (c : CodePoint) : Bool :=
  (0x0A ≤ c.val && c.val ≤ 0x0C) || (0x1C ≤ c.val && c.val ≤ 0x1E) || c.val == 0x85
    || c.val == 0x2028 || c.val == 0x2029

/-- `str.splitlines`. -/
def splitlines : PyStr → List PyStr
  | [] => []
  | c :: s =>
      if isLineEnd c then [] :: splitlines s
      else
        match splitlines s with
        | [] => [[c]]
        | line :: lines => (c :: line) :: lines

/-- `path.read_text(encoding="utf-8").splitlines()`. -/
def textFileLines (file : Bytes) : Option (List PyStr) :=
  (decodeUtf8 file).map fun s => splitlines (Json.universalNewlines s)

theorem splitlines_line {l : PyStr} (h : ∀ c ∈ l, isLineEnd c = false) (s : PyStr) :
    splitlines (l ++ 0x0A :: s) = l :: splitlines s := by
  induction l with
  | nil => rfl
  | cons c l ih =>
      have hc := h c List.mem_cons_self
      have hl := ih fun d hd => h d (List.mem_cons_of_mem c hd)
      simp only [List.cons_append, splitlines, hc, hl, Bool.false_eq_true, if_false]

/-- A byte string with no line break in it. -/
def Unbroken (l : Bytes) : Prop := ∀ b ∈ l, b ≠ LF ∧ b ≠ CR

/-- A file whose last line is terminated. -/
def EndsLine (file : Bytes) : Prop := file = [] ∨ ∃ init, file = init ++ [LF] ∨ file = init ++ [CR]

@[simp] theorem consLine_ne_nil (b : UInt8) (lines : List Bytes) : consLine b lines ≠ [] := by
  cases lines <;> exact List.cons_ne_nil _ _

theorem textLines_LF (bs : Bytes) : textLines (LF :: bs) = [LF] :: textLines bs := by
  cases bs <;> rfl

theorem textLines_cons {b : UInt8} (hLF : b ≠ LF) (hCR : b ≠ CR) (bs : Bytes) :
    textLines (b :: bs) = consLine b (textLines bs) := by
  cases bs <;> simp only [textLines, if_neg hLF, if_neg hCR]

theorem textLines_ne_nil {file : Bytes} (h : file ≠ []) : textLines file ≠ [] := by
  match file, h with
  | [b], _ =>
      rw [textLines]
      split_ifs
      · exact List.cons_ne_nil _ _
      · exact List.cons_ne_nil _ _
      · exact consLine_ne_nil _ _
  | b :: c :: bs, _ =>
      rw [textLines]
      split_ifs
      · exact List.cons_ne_nil _ _
      · exact List.cons_ne_nil _ _
      · exact List.cons_ne_nil _ _
      · exact consLine_ne_nil _ _

theorem EndsLine.tail {b : UInt8} {file : Bytes} (h : EndsLine (b :: file)) : EndsLine file := by
  rcases h with h | ⟨init, h⟩
  · cases h
  · cases init with
    | nil => exact .inl (h.elim (fun h => (List.cons.inj h).2) fun h => (List.cons.inj h).2)
    | cons c init =>
        exact .inr ⟨init, h.imp (fun h => (List.cons.inj h).2) fun h => (List.cons.inj h).2⟩

theorem EndsLine.of_append_LF (init : Bytes) : EndsLine (init ++ [LF]) := .inr ⟨init, .inl rfl⟩

theorem consLine_append {b : UInt8} {lines lines' : List Bytes} (h : lines ≠ []) :
    consLine b (lines ++ lines') = consLine b lines ++ lines' := by
  cases lines with
  | nil => exact absurd rfl h
  | cons line lines => rfl

/-- **Lines after a terminated line are lines of their own**, unless they complete a
`\r\n`. -/
theorem textLines_append {file more : Bytes} (h : EndsLine file)
    (hmore : ∀ t, more ≠ LF :: t) : textLines (file ++ more) = textLines file ++ textLines more := by
  induction file using textLines.induct with
  | case1 => rfl
  | case2 bs ih =>
      rw [List.cons_append, textLines_LF, ih h.tail, textLines_LF, List.cons_append]
  | case3 hne =>
      cases more with
      | nil => rfl
      | cons c more =>
          have hc : c ≠ LF := fun hc => hmore more (hc ▸ rfl)
          simp only [List.cons_append, List.nil_append, textLines, if_neg hne, if_true, if_neg hc]
  | case4 bs hne ih =>
      simp only [List.cons_append, textLines, if_neg hne, if_true, ih h.tail.tail]
  | case5 c bs hne hc ih =>
      have := ih h.tail
      rw [List.cons_append] at this
      simp only [List.cons_append, textLines, if_neg hne, if_true, if_neg hc, this]
  | case6 b bs hLF hCR ih =>
      have hbs : bs ≠ [] := by
        rintro rfl
        rcases h with h | ⟨init, h⟩
        · cases h
        · cases init with
          | nil => exact h.elim (fun h => hLF (List.cons.inj h).1) fun h => hCR (List.cons.inj h).1
          | cons d init => simp at h
      rw [List.cons_append, textLines_cons hLF hCR, ih h.tail, textLines_cons hLF hCR,
        consLine_append (textLines_ne_nil hbs)]

theorem Unbroken.tail {b : UInt8} {l : Bytes} (h : Unbroken (b :: l)) : Unbroken l :=
  fun c hc => h c (List.mem_cons_of_mem b hc)

theorem textLines_unbroken {l : Bytes} (h : Unbroken l) (hne : l ≠ []) : textLines l = [l] := by
  induction l with
  | nil => exact absurd rfl hne
  | cons b l ih =>
      obtain ⟨hLF, hCR⟩ := h b List.mem_cons_self
      rw [textLines_cons hLF hCR]
      by_cases hl : l = []
      · rw [hl]
        rfl
      · rw [ih h.tail hl]
        rfl

theorem textLines_line {l : Bytes} (h : Unbroken l) : textLines (l ++ [LF]) = [l ++ [LF]] := by
  induction l with
  | nil => rfl
  | cons b l ih =>
      obtain ⟨hLF, hCR⟩ := h b List.mem_cons_self
      rw [List.cons_append, textLines_cons hLF hCR, ih h.tail]
      rfl

/-- A line of a binary file with its line end. -/
def IsRawLine (raw : Bytes) : Prop := ∃ l, LF ∉ l ∧ raw = l ++ [LF]

theorem IsRawLine.getLast? {raw : Bytes} (h : IsRawLine raw) : raw.getLast? = some LF := by
  obtain ⟨l, -, rfl⟩ := h
  exact List.getLast?_concat

theorem rawLines_LF_append {l : Bytes} (h : LF ∉ l) (more : Bytes) :
    rawLines (l ++ LF :: more) = (l ++ [LF]) :: rawLines more := by
  induction l with
  | nil => rfl
  | cons b l ih =>
      rw [List.mem_cons, not_or] at h
      rw [List.cons_append, rawLines, if_neg (Ne.symm h.1), ih h.2]
      rfl

/-- Whole lines are cut off before anything that follows them. -/
theorem rawLines_flatten_append {lines : List Bytes} (h : ∀ raw ∈ lines, IsRawLine raw)
    (more : Bytes) : rawLines (lines.flatten ++ more) = lines ++ rawLines more := by
  induction lines with
  | nil => rfl
  | cons raw lines ih =>
      rw [List.forall_mem_cons] at h
      obtain ⟨⟨l, hl, rfl⟩, h⟩ := h
      rw [List.flatten_cons, List.append_assoc, List.append_assoc, List.singleton_append,
        rawLines_LF_append hl, ih h, List.cons_append]

theorem rawLines_LF_free {l : Bytes} (h : LF ∉ l) (hne : l ≠ []) : rawLines l = [l] := by
  induction l with
  | nil => exact absurd rfl hne
  | cons b l ih =>
      rw [List.mem_cons, not_or] at h
      rw [rawLines, if_neg (Ne.symm h.1)]
      by_cases hl : l = []
      · rw [hl]
        rfl
      · rw [ih h.2 hl]
        rfl

/-- A file is its whole lines and what follows the last of them. -/
theorem exists_rawLines (file : Bytes) :
    ∃ (lines : List Bytes) (rest : Bytes),
      (∀ raw ∈ lines, IsRawLine raw) ∧ LF ∉ rest ∧ file = lines.flatten ++ rest := by
  induction file with
  | nil => exact ⟨[], [], nofun, List.not_mem_nil, rfl⟩
  | cons b file ih =>
      obtain ⟨lines, rest, hlines, hrest, rfl⟩ := ih
      by_cases hb : b = LF
      · refine ⟨[b] :: lines, rest, ?_, hrest, rfl⟩
        rw [List.forall_mem_cons]
        exact ⟨⟨[], List.not_mem_nil, hb ▸ rfl⟩, hlines⟩
      · cases lines with
        | nil => exact ⟨[], b :: rest, hlines, by simp [Ne.symm hb, hrest], rfl⟩
        | cons raw lines =>
            rw [List.forall_mem_cons] at hlines
            obtain ⟨⟨l, hl, rfl⟩, hlines⟩ := hlines
            refine ⟨(b :: l ++ [LF]) :: lines, rest, ?_, hrest, rfl⟩
            rw [List.forall_mem_cons]
            exact ⟨⟨b :: l, by simp [Ne.symm hb, hl], rfl⟩, hlines⟩

theorem rawLines_line_append {l : Bytes} (h : Unbroken l) (more : Bytes) :
    rawLines (l ++ LF :: more) = (l ++ [LF]) :: rawLines more :=
  rawLines_LF_append (fun hl => (h LF hl).1 rfl) more

theorem rawLines_unbroken {l : Bytes} (h : Unbroken l) (hne : l ≠ []) : rawLines l = [l] :=
  rawLines_LF_free (fun hl => (h LF hl).1 rfl) hne

/-! ## The last line -/

/-- `b"\r\n"`, the bytes the tail reader strips. -/
def isBreak (b : UInt8) : Bool := b == LF || b == CR

/-- The last line that is not empty, without its line end. -/
def lastLine (file : Bytes) : Option Bytes :=
  let trimmed := file.rdropWhile isBreak
  if trimmed = [] then none else some (trimmed.rtakeWhile (· ≠ LF))

/-- The bytes a tail reader has to see: whatever precedes them, the last line is theirs if
they hold a line break before it, and if nothing precedes them. -/
theorem lastLine_append {init chunk : Bytes} (h : LF ∈ chunk.rdropWhile isBreak) :
    lastLine (init ++ chunk) = lastLine chunk := by
  have hne : chunk.rdropWhile isBreak ≠ [] := List.ne_nil_of_mem h
  have htrim : (init ++ chunk).rdropWhile isBreak = init ++ chunk.rdropWhile isBreak := by
    have hdrop : chunk.reverse.dropWhile isBreak ≠ [] := fun hnil => hne (by
      rw [List.rdropWhile, hnil, List.reverse_nil])
    rw [List.rdropWhile, List.reverse_append, List.dropWhile_append, if_neg (by simpa using hdrop),
      List.reverse_append, List.reverse_reverse, List.rdropWhile]
  have htake : (init ++ chunk.rdropWhile isBreak).rtakeWhile (· ≠ LF)
      = (chunk.rdropWhile isBreak).rtakeWhile (· ≠ LF) := by
    rw [List.rtakeWhile, List.reverse_append, List.takeWhile_append, if_neg, List.rtakeWhile]
    intro hlen
    have hall := List.takeWhile_eq_self_iff.mp
      ((List.takeWhile_prefix _).eq_of_length hlen) LF (List.mem_reverse.mpr h)
    simp at hall
  rw [lastLine, lastLine, htrim, if_neg hne, htake, if_neg (by simp [hne])]

theorem rdropWhile_isBreak {l : Bytes} (h : Unbroken l) : l.rdropWhile isBreak = l := by
  rw [List.rdropWhile_eq_self_iff]
  intro hne
  obtain ⟨hLF, hCR⟩ := h _ (List.getLast_mem hne)
  simp [isBreak, hLF, hCR]

theorem rdropWhile_isBreak_append {l : Bytes} (h : Unbroken l) (hne : l ≠ []) (init : Bytes) :
    (init ++ l).rdropWhile isBreak = init ++ l := by
  rw [List.rdropWhile_eq_self_iff]
  intro hne'
  rw [List.getLast_append_of_right_ne_nil _ _ hne]
  obtain ⟨hLF, hCR⟩ := h _ (List.getLast_mem hne)
  simp [isBreak, hLF, hCR]

theorem rtakeWhile_unbroken {l : Bytes} (h : Unbroken l) {init : Bytes}
    (hinit : init = [] ∨ ∃ rest, init = rest ++ [LF]) :
    (init ++ l).rtakeWhile (· ≠ LF) = l := by
  have hl : ∀ b ∈ l.reverse, (decide (b ≠ LF)) = true := fun b hb =>
    decide_eq_true (h b (List.mem_reverse.mp hb)).1
  rw [List.rtakeWhile, List.reverse_append, List.takeWhile_append_of_pos hl]
  rcases hinit with rfl | ⟨rest, rfl⟩ <;> simp

/-- The last line of a file whose lines are all terminated by `\n`. -/
theorem lastLine_line {l : Bytes} (h : Unbroken l) (hne : l ≠ []) {init : Bytes}
    (hinit : init = [] ∨ ∃ rest, init = rest ++ [LF]) :
    lastLine (init ++ (l ++ [LF])) = some l := by
  have htrim : (init ++ (l ++ [LF])).rdropWhile isBreak = init ++ l := by
    rw [← List.append_assoc, List.rdropWhile_concat_pos _ _ _ rfl, rdropWhile_isBreak_append h hne]
  rw [lastLine, htrim, rtakeWhile_unbroken h hinit, if_neg (by simp [hne])]

/-- The last line of such a file with something unterminated after it. -/
theorem lastLine_unterminated {l : Bytes} (h : Unbroken l) (hne : l ≠ []) {init : Bytes}
    (hinit : init = [] ∨ ∃ rest, init = rest ++ [LF]) : lastLine (init ++ l) = some l := by
  rw [lastLine, rdropWhile_isBreak_append h hne, rtakeWhile_unbroken h hinit,
    if_neg (by simp [hne])]

/-! ## Reading the values -/

section Read

variable [Interpreter] {α : Type} (f : Json → Except PyErr α)

/-- One line of a reader: nothing for a blank line, else `f(json.loads(line))`. -/
def readLine (line : Bytes) : Except PyErr (Option α) :=
  match decodeUtf8 line with
  | none => .error .unicodeDecodeError
  | some s => if isBlank s then .ok none else (Json.loads s >>= f).map some

/-- The loop of a reader over the lines of a file. -/
def readLinesLoop : List Bytes → Except PyErr (List α)
  | [] => .ok []
  | line :: lines => do
      let x ← readLine f line
      let xs ← readLinesLoop lines
      return x.toList ++ xs

/-- `[f(json.loads(line)) for line in file if line.strip()]`. -/
def readLines (file : Bytes) : Except PyErr (List α) := readLinesLoop f (textLines file)

/-- The values of the lines a reader would accept, each taken on its own. -/
def readableLines (file : Bytes) : List α :=
  (textLines file).flatMap fun line =>
    match readLine f line with
    | .ok (some x) => [x]
    | _ => []

theorem readLinesLoop_append (lines lines' : List Bytes) :
    readLinesLoop f (lines ++ lines') = do
      let xs ← readLinesLoop f lines
      let ys ← readLinesLoop f lines'
      return xs ++ ys := by
  induction lines with
  | nil =>
      rw [List.nil_append]
      cases readLinesLoop f lines' <;> rfl
  | cons line lines ih =>
      simp only [List.cons_append, readLinesLoop, ih, bind, Except.bind]
      cases readLine f line with
      | error e => rfl
      | ok x =>
          cases readLinesLoop f lines with
          | error e => rfl
          | ok xs =>
              cases readLinesLoop f lines' with
              | error e => rfl
              | ok ys => simp [pure, Except.pure]

/-- Where the reader gets through, it returns the values of all lines. -/
theorem readableLines_eq {file : Bytes} {xs : List α} (h : readLines f file = .ok xs) :
    readableLines f file = xs := by
  unfold readLines at h
  unfold readableLines
  generalize textLines file = lines at h ⊢
  induction lines generalizing xs with
  | nil => exact Except.ok.inj h
  | cons line lines ih =>
      rw [readLinesLoop] at h
      cases hline : readLine f line with
      | error e =>
          rw [hline] at h
          cases h
      | ok x =>
          cases hlines : readLinesLoop f lines with
          | error e =>
              rw [hline, hlines] at h
              cases h
          | ok ys =>
              rw [hline, hlines] at h
              rw [← Except.ok.inj h, List.flatMap_cons, ih hlines, hline]
              cases x <;> rfl

/-- What one line adds to the values a lenient reader sees. -/
theorem readableLines_append {file more : Bytes} (h : EndsLine file)
    (hmore : ∀ t, more ≠ LF :: t) :
    readableLines f (file ++ more) = readableLines f file ++ readableLines f more := by
  rw [readableLines, textLines_append h hmore, List.flatMap_append]
  rfl

theorem readLines_append {file more : Bytes} (h : EndsLine file)
    (hmore : ∀ t, more ≠ LF :: t) :
    readLines f (file ++ more) = do
      let xs ← readLines f file
      let ys ← readLines f more
      return xs ++ ys := by
  rw [readLines, textLines_append h hmore, readLinesLoop_append]
  rfl

end Read

/-! ## Written lines -/

section Written

open Json

theorem isAscii_of_printable {s : PyStr} (h : ∀ c ∈ s, IsPrintable c) : isAscii s = true := by
  refine List.all_eq_true.mpr fun c hc => decide_eq_true ?_
  have := (h c hc).2
  omega

theorem unbroken_asciiBytes {s : PyStr} (h : ∀ c ∈ s, IsPrintable c) : Unbroken (asciiBytes s) := by
  intro b hb
  obtain ⟨c, hc, rfl⟩ := List.mem_map.mp hb
  obtain ⟨hlo, hhi⟩ := h c hc
  have hval : c.toByte.toNat = c.val := Nat.mod_eq_of_lt (by omega)
  refine ⟨fun heq => ?_, fun heq => ?_⟩
  · rw [heq, show LF.toNat = 0x0A from rfl] at hval
    omega
  · rw [heq, show CR.toNat = 0x0D from rfl] at hval
    omega

theorem isBlank_opensObject {s : PyStr} (h : OpensObject s) : isBlank s = false := by
  obtain ⟨t, rfl⟩ := h
  rfl

theorem asciiBytes_ne_LF {s : PyStr} (h : OpensObject s) (t : Bytes) :
    asciiBytes s ≠ LF :: t := by
  obtain ⟨l, rfl⟩ := h
  intro heq
  exact absurd (List.cons.inj heq).1 (by decide)

variable [Interpreter] {sep : Separators} {members : List (PyStr × Json)}

/-- **A written object is one line.** -/
theorem unbroken_dumps (h : Writable recursionLimit (.obj members)) :
    Unbroken (asciiBytes (dumps sep (.obj members))) :=
  unbroken_asciiBytes (isPrintable_dumps h)

/-- Reading a line of ASCII text that opens an object. -/
theorem readLine_ascii {α : Type} (f : Json → Except PyErr α) {s : PyStr}
    (hascii : isAscii s = true) (hopen : OpensObject s) :
    readLine f (asciiBytes s) = (decode s >>= f).map some := by
  rw [readLine, decodeUtf8_encode (encodeUtf8_ascii hascii)]
  simp only [isBlank_opensObject hopen, Bool.false_eq_true, if_false, loads_eq_decode (.inr hopen)]

/-- **Reading back a written line**, terminated or not. -/
theorem readLine_dumps {α : Type} (f : Json → Except PyErr α)
    (h : Writable recursionLimit (.obj members)) {t : PyStr} (ht : t = [] ∨ t = [0x0A]) :
    readLine f (asciiBytes (dumps sep (.obj members) ++ t)) = (f (.obj members)).map some := by
  have hascii : isAscii (dumps sep (.obj members) ++ t) = true := by
    rw [isAscii, List.all_append, Bool.and_eq_true]
    refine ⟨isAscii_of_printable (isPrintable_dumps h), ?_⟩
    rcases ht with rfl | rfl <;> rfl
  have hskip : skipWs t = [] := by rcases ht with rfl | rfl <;> rfl
  rw [readLine_ascii f hascii ((opensObject_dumps members).append t), decode_dumps_append h,
    if_pos hskip]
  rfl

/-- **A torn line is refused.** -/
theorem readLine_torn {α : Type} (f : Json → Except PyErr α)
    (h : Writable recursionLimit (.obj members)) {p q : PyStr}
    (hpq : p ++ q = dumps sep (.obj members)) (hp : p ≠ []) (hq : q ≠ []) (x : Option α) :
    readLine f (asciiBytes p) ≠ .ok x := by
  have hprint : ∀ c ∈ p, IsPrintable c := fun c hc =>
    isPrintable_dumps h c (hpq ▸ List.mem_append_left q hc)
  have hopen := (opensObject_of_start ⟨q, hpq⟩).resolve_left hp
  rw [readLine_ascii f (isAscii_of_printable hprint) hopen]
  intro hread
  cases hdecode : decode p with
  | error e =>
      rw [hdecode] at hread
      cases hread
  | ok v => exact decode_torn h hpq hq v hdecode

/-- **Two objects on a line are refused.** -/
theorem readLine_glued {α : Type} (f : Json → Except PyErr α) {members' : List (PyStr × Json)}
    (h : Writable recursionLimit (.obj members)) (h' : Writable recursionLimit (.obj members'))
    {t : PyStr} (ht : isAscii t = true) (x : Option α) :
    readLine f (asciiBytes (dumps sep (.obj members) ++ (dumps sep (.obj members') ++ t)))
      ≠ .ok x := by
  have hascii : isAscii (dumps sep (.obj members) ++ (dumps sep (.obj members') ++ t)) = true := by
    rw [isAscii, List.all_append, List.all_append, Bool.and_eq_true, Bool.and_eq_true]
    exact ⟨isAscii_of_printable (isPrintable_dumps h),
      isAscii_of_printable (isPrintable_dumps h'), ht⟩
  rw [readLine_ascii f hascii ((opensObject_dumps members).append _), decode_glued h]
  intro hok
  cases hok

end Written

end Waxseal
