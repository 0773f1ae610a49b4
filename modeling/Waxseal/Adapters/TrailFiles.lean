import Waxseal.Adapters.Trail

/-!
# What appends can make of a trail file

A file the backend has appended to, with writes that may stop at any byte, holds its
entries, the last of them perhaps without its newline (`Holds`), or it ends in a line no
reader gets past (`Stuck`), and then no later append writes to it.  `holds_extend` is the
step: whatever part of a line reaches the file, one of the two is true again.
-/

namespace Waxseal

open Json

variable [Interpreter]

/-- The file holds these entries; the newline of the last one may be missing. -/
inductive Holds : Bytes → List Entry → Prop where
  | complete (es : List Entry) : Holds (trailBytes es) es
  | unterminated (es : List Entry) (e : Entry) : Holds (trailBytes es ++ storedBytes e) (es ++ [e])

/-- Neither the tail nor the entries of the file can be read. -/
structure Stuck (file : Bytes) : Prop where
  tail : ∃ err, tailLocked file = .error err
  entries : ∀ es, entries file ≠ .ok es

theorem Holds.tailLocked {file : Bytes} {es : List Entry} (h : Holds file es)
    (hes : ∀ e ∈ es, Storable e) : tailLocked file = .ok (nextLink es) := by
  cases h with
  | complete => exact tailLocked_trailBytes hes
  | unterminated es e =>
      rw [List.forall_mem_append, List.forall_mem_singleton] at hes
      rw [tailLocked_unterminated hes.2, nextLink_append_singleton]

theorem Holds.entries {file : Bytes} {es : List Entry} (h : Holds file es)
    (hes : ∀ e ∈ es, Storable e) : entries file = .ok es := by
  cases h with
  | complete => exact entries_trailBytes hes
  | unterminated es e =>
      rw [List.forall_mem_append, List.forall_mem_singleton] at hes
      have hinit := entries_trailBytes hes.1
      have hline := readLine_storedBytes hes.2 (.inl rfl)
      rw [show asciiBytes ([] : PyStr) = [] from rfl, List.append_nil] at hline
      rw [Waxseal.entries] at hinit ⊢
      rw [readLines_append fromObj (endsLine_trailBytes es) (storedBytes_ne_LF e), hinit]
      simp only [readLines, textLines_unbroken (unbroken_storedBytes hes.2) (storedBytes_ne_nil e),
        readLinesLoop, hline]
      rfl

/-- A file of nothing holds nothing. -/
theorem Holds.eq_nil {es : List Entry} (h : Holds [] es) : es = [] := by
  generalize hfile : ([] : Bytes) = file at h
  cases h with
  | complete =>
      cases es with
      | nil => rfl
      | cons e es => simp [trailBytes] at hfile
  | unterminated es e => exact absurd (List.append_eq_nil_iff.mp hfile.symm).2 (storedBytes_ne_nil e)

theorem Holds.storedBytes_ne_nil_of_ne_nil {file : Bytes} {es : List Entry} (h : Holds file es)
    (hne : file ≠ []) : es ≠ [] := by
  rintro rfl
  generalize hes : ([] : List Entry) = es at h
  cases h with
  | complete =>
      subst hes
      exact hne rfl
  | unterminated es e => simp at hes

/-- **A last line that opens an object and is none.** -/
theorem stuck_of_line {s t : PyStr} (es : List Entry) (hprint : ∀ c ∈ s, IsPrintable c)
    (hopen : OpensObject s) (ht : t = [] ∨ t = [0x0A]) (hdecode : ∀ v, decode s ≠ .ok v)
    (hdecode' : ∀ v, decode (s ++ t) ≠ .ok v) :
    Stuck (trailBytes es ++ (asciiBytes s ++ asciiBytes t)) := by
  have hunbroken : Unbroken (asciiBytes s) := unbroken_asciiBytes hprint
  have hne : asciiBytes s ≠ [] := by
    obtain ⟨l, rfl⟩ := hopen
    exact List.cons_ne_nil _ _
  have hlast : lastLine (trailBytes es ++ (asciiBytes s ++ asciiBytes t)) = some (asciiBytes s) := by
    rcases ht with rfl | rfl
    · rw [show asciiBytes ([] : PyStr) = [] from rfl, List.append_nil]
      exact lastLine_unterminated hunbroken hne (trailBytes_eq es)
    · exact lastLine_line hunbroken hne (trailBytes_eq es)
  have hlines : textLines (asciiBytes s ++ asciiBytes t) = [asciiBytes s ++ asciiBytes t] := by
    rcases ht with rfl | rfl
    · rw [show asciiBytes ([] : PyStr) = [] from rfl, List.append_nil]
      exact textLines_unbroken hunbroken hne
    · exact textLines_line hunbroken
  constructor
  · cases hread : decode s with
    | error err =>
        refine ⟨err, ?_⟩
        rw [tailLocked, readLastLine_eq, hlast]
        simp only [loadsBytes_printable hprint, hread]
        rfl
    | ok v => exact absurd hread (hdecode v)
  · intro xs hread
    have hstart : ∀ l, asciiBytes s ++ asciiBytes t ≠ LF :: l := by
      intro l
      rw [← asciiBytes_append]
      exact asciiBytes_ne_LF (hopen.append t) l
    rw [Waxseal.entries, readLines_append fromObj (endsLine_trailBytes es) hstart] at hread
    obtain ⟨ys, -, hread⟩ := bind_eq_ok_iff.mp hread
    obtain ⟨zs, hread, -⟩ := bind_eq_ok_iff.mp hread
    rw [readLines, hlines] at hread
    obtain ⟨x, hline, -⟩ := bind_eq_ok_iff.mp hread
    have hascii : isAscii (s ++ t) = true := by
      rw [isAscii, List.all_append, Bool.and_eq_true]
      refine ⟨isAscii_of_printable hprint, ?_⟩
      rcases ht with rfl | rfl <;> rfl
    rw [← asciiBytes_append, readLine_ascii fromObj hascii (hopen.append t)] at hline
    cases hobj : decode (s ++ t) with
    | error err =>
        rw [hobj] at hline
        cases hline
    | ok v => exact hdecode' v hobj

section Storable

variable {e : Entry} (he : Storable e)

include he

omit he in
/-- What is left of the text of an entry opens an object. -/
theorem opensObject_take_storedText {n : ℕ} (hpos : 0 < n) :
    OpensObject ((storedText e).take n) := by
  obtain ⟨l, hl⟩ := opensObject_storedText e
  obtain ⟨m, rfl⟩ := Nat.exists_eq_succ_of_ne_zero hpos.ne'
  exact ⟨l.take m, by rw [hl, List.take_succ_cons]⟩

theorem isPrintable_take_storedText (n : ℕ) : ∀ c ∈ (storedText e).take n, IsPrintable c :=
  fun c hc => isPrintable_storedText he c (List.mem_of_mem_take hc)

/-- A line that breaks off inside its object. -/
theorem stuck_torn (es : List Entry) {n : ℕ} (hpos : 0 < n) (hn : n < (storedText e).length) :
    Stuck (trailBytes es ++ asciiBytes ((storedText e).take n)) := by
  have hdecode : ∀ v, decode ((storedText e).take n) ≠ .ok v := by
    refine decode_torn (writable_storedMembers he) (List.take_append_drop n (storedText e)) ?_
    intro hnil
    have := congrArg List.length hnil
    rw [List.length_drop, List.length_nil] at this
    omega
  have hstuck := @stuck_of_line _ _ [] es (isPrintable_take_storedText he n)
    (opensObject_take_storedText hpos) (.inl rfl) hdecode (by rwa [List.append_nil])
  rwa [show asciiBytes ([] : PyStr) = [] from rfl, List.append_nil] at hstuck

/-- A line with a second object, or a part of it, behind its own. -/
theorem stuck_glued (es : List Entry) {s t : PyStr} (hprint : ∀ c ∈ s, IsPrintable c)
    (hopen : OpensObject s) (ht : t = [] ∨ t = [0x0A]) :
    Stuck (trailBytes es ++ (storedBytes e ++ (asciiBytes s ++ asciiBytes t))) := by
  have hdecode : ∀ r v, decode (storedText e ++ (s ++ r)) ≠ .ok v := by
    intro r v
    obtain ⟨l, rfl⟩ := hopen
    rw [storedText, decode_dumps_append (writable_storedMembers he), if_neg]
    · intro hok
      cases hok
    · rw [List.cons_append, skipWs_cons (show isWs lbrace = false from rfl)]
      exact List.cons_ne_nil _ _
  have hstuck := @stuck_of_line _ (storedText e ++ s) t es
    (List.forall_mem_append.mpr ⟨isPrintable_storedText he, hprint⟩)
    ((opensObject_storedText e).append s) ht
    (fun v => by have := hdecode [] v; rwa [List.append_nil] at this)
    (fun v => by rw [List.append_assoc]; exact hdecode t v)
  rwa [asciiBytes_append, List.append_assoc] at hstuck

/-- **Whatever part of a line reaches the file**, the file holds what it held, or one entry
more, or it is stuck. -/
theorem holds_extend {file : Bytes} {es : List Entry} (h : Holds file es)
    (hes : ∀ e ∈ es, Storable e) (n : ℕ) :
    file ++ (storedBytes e ++ [LF]).take n = file ∨
      Holds (file ++ (storedBytes e ++ [LF]).take n) (es ++ [e]) ∨
      Stuck (file ++ (storedBytes e ++ [LF]).take n) := by
  have hlen : (storedBytes e).length = (storedText e).length := length_asciiBytes _
  rcases Nat.eq_zero_or_pos n with rfl | hpos
  · exact .inl (by rw [List.take_zero, List.append_nil])
  refine .inr ?_
  -- the part of the line that was written, as text
  obtain ⟨s, t, hline, hs, ht, hfull⟩ : ∃ s t : PyStr,
      (storedBytes e ++ [LF]).take n = asciiBytes s ++ asciiBytes t ∧
      s = (storedText e).take n ∧ (t = [] ∨ t = [0x0A]) ∧
      (t = [0x0A] → (storedText e).length < n) := by
    rcases Nat.lt_or_ge (storedText e).length n with hlt | hle
    · refine ⟨_, [0x0A], ?_, rfl, .inr rfl, fun _ => hlt⟩
      rw [List.take_of_length_le hlt.le, List.take_of_length_le (by simp; omega)]
      rfl
    · refine ⟨_, [], ?_, rfl, .inl rfl, fun h => by simp at h⟩
      rw [List.take_append_of_le_length (by omega), storedBytes, asciiBytes, ← List.map_take]
      exact (List.append_nil _).symm
  rw [hline]
  cases h with
  | complete =>
      rcases Nat.lt_or_ge n (storedText e).length with hlt | hge
      · refine .inr ?_
        have hnil : t = [] := ht.resolve_right fun h => by have := hfull h; omega
        rw [hnil, hs, show asciiBytes ([] : PyStr) = [] from rfl, List.append_nil]
        exact stuck_torn he es hpos hlt
      · refine .inl ?_
        rw [hs, List.take_of_length_le hge]
        rcases ht with rfl | rfl
        · rw [show asciiBytes ([] : PyStr) = [] from rfl, List.append_nil]
          exact .unterminated es e
        · have hbytes : trailBytes es ++ (asciiBytes (storedText e) ++ asciiBytes [0x0A])
              = trailBytes (es ++ [e]) := by
            rw [trailBytes_append, trailBytes_singleton]
            rfl
          rw [hbytes]
          exact .complete (es ++ [e])
  | unterminated es e₀ =>
      rw [List.forall_mem_append, List.forall_mem_singleton] at hes
      rw [List.append_assoc, hs]
      exact .inr (stuck_glued hes.2 es (isPrintable_take_storedText he n)
        (opensObject_take_storedText hpos) ht)

end Storable

end Waxseal
