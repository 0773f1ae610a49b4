import Waxseal.Base.JsonDigits
import Waxseal.Base.JsonIndent

/-!
# Writing integers that are too long

`json.dumps` cannot write an integer with more digits than Python converts, and `json.loads`
cannot read one.  A value whose integers all fit is written as before, and read back by the
decoder with the limit (`loadsTextDigits_dumps`, `loadsTextDigits_dumpsIndent`).
-/

namespace Waxseal

namespace Json

variable [Interpreter]

/-! ## `json.dumps` with the limit -/

/-- `str(n)` can be formed. -/
def intFits (n : ℤ) : Bool := !tooLong (strNat n.natAbs).length

mutual

/-- `str` of every integer of the value can be formed. -/
def intsFit : Json → Bool
  | .int n => intFits n
  | .arr items => intsFitItems items
  | .obj members => intsFitMembers members
  | .null | .bool _ | .float _ | .str _ => true

def intsFitItems : List Json → Bool
  | [] => true
  | item :: items => intsFit item && intsFitItems items

def intsFitMembers : List (PyStr × Json) → Bool
  | [] => true
  | (_, value) :: members => intsFit value && intsFitMembers members

end

/-- `json.dumps(value, separators=sep)`. -/
def dumpsDigits (sep : Separators) (value : Json) : Except PyErr PyStr :=
  if intsFit value then .ok (dumps sep value) else .error .valueError

/-- `json.dumps(value, indent=indent)`. -/
def dumpsIndentDigits (indent : ℕ) (value : Json) : Except PyErr PyStr :=
  if intsFit value then .ok (dumpsIndent indent 0 value) else .error .valueError

theorem intsFitItems_iff {items : List Json} :
    intsFitItems items = true ↔ ∀ item ∈ items, intsFit item = true := by
  induction items with
  | nil => simp [intsFitItems]
  | cons item items ih => rw [intsFitItems, Bool.and_eq_true, ih, List.forall_mem_cons]

theorem intsFitMembers_iff {members : List (PyStr × Json)} :
    intsFitMembers members = true ↔ ∀ m ∈ members, intsFit m.2 = true := by
  induction members with
  | nil => simp [intsFitMembers]
  | cons m members ih => rw [intsFitMembers, Bool.and_eq_true, ih, List.forall_mem_cons]

@[simp] theorem intsFit_arr {items : List Json} :
    intsFit (.arr items) = true ↔ ∀ item ∈ items, intsFit item = true := by
  rw [intsFit, intsFitItems_iff]

@[simp] theorem intsFit_obj {members : List (PyStr × Json)} :
    intsFit (.obj members) = true ↔ ∀ m ∈ members, intsFit m.2 = true := by
  rw [intsFit, intsFitMembers_iff]

/-- One digit is never too long. -/
theorem intFits_small {n : ℤ} (h : n.natAbs < 10) : intFits n = true := by
  have hlength : (strNat n.natAbs).length = 1 := by
    rw [strNat_of_lt h]
    rfl
  rw [intFits, hlength, tooLong]
  by_cases hzero : maxStrDigits = 0
  · simp [hzero]
  · simp [Nat.not_lt.mpr (Nat.one_le_iff_ne_zero.mpr hzero)]

/-! ## Reading it back -/

theorem opensTooLong_cons {c : CodePoint} (hdigit : isDigit c = false) (hminus : c.val ≠ 0x2D)
    (t : PyStr) : opensTooLong (c :: t) = false := by
  have hzero : c.val ≠ 0x30 := by
    intro h
    rw [isDigit, h] at hdigit
    exact absurd hdigit (by decide)
  rw [opensTooLong, scanSign, if_neg hminus, scanNat, if_neg hzero, if_neg (by simp [hdigit])]

/-- An integer that was written is not too long to be read. -/
theorem opensTooLong_strInt {n : ℤ} (h : intFits n = true) {t : PyStr} (ht : Stops t) :
    opensTooLong (strInt n ++ t) = false := by
  have hshort : tooLong (strNat n.natAbs).length = false := by
    rw [intFits, Bool.not_eq_true'] at h
    exact h
  have hscan : scanNat (scanSign (strInt n ++ t)).2 = some (strNat n.natAbs, t) := by
    cases n with
    | negSucc m => exact scanNat_strNat (m + 1) ht
    | ofNat m =>
        obtain ⟨c, l, heq⟩ := List.exists_cons_of_ne_nil (strNat_ne_nil m)
        have hc := (isDigit_of_mem_strNat (n := m) (heq ▸ List.mem_cons_self : c ∈ strNat m)).1
        have hsign : scanSign (strNat m ++ t) = ([], strNat m ++ t) := by
          rw [heq, List.cons_append, scanSign, if_neg (by omega)]
        have hstr : strInt (.ofNat m) = strNat m := rfl
        rw [hstr, hsign]
        exact scanNat_strNat m ht
  rw [opensTooLong, hscan]
  simp [hshort]

theorem opensTooLong_dumps {sep : Separators} {depth : ℕ} {v : Json} {t : PyStr}
    (h : Writable depth v) (hfit : intsFit v = true) (ht : Stops t ∨ ∃ members, v = .obj members) :
    opensTooLong (dumps sep v ++ t) = false := by
  cases v with
  | null => exact opensTooLong_cons (by decide) (by decide) _
  | bool b => cases b <;> exact opensTooLong_cons (by decide) (by decide) _
  | int n => exact opensTooLong_strInt hfit (ht.resolve_right (by rintro ⟨_, hobj⟩; cases hobj))
  | float l => cases depth <;> exact h.elim
  | str s => exact opensTooLong_cons (by decide) (by decide) _
  | arr items => cases items <;> exact opensTooLong_cons (by decide) (by decide) _
  | obj members => cases members <;> exact opensTooLong_cons (by decide) (by decide) _

theorem scanOnceDigits_of_short {value : Option Scan} {s : PyStr} (h : opensTooLong s = false) :
    scanOnceDigits value s = scanOnce value s := if_neg (by simp [h])

/-- **The decoder with the limit inverts the writer.** -/
theorem scanDigits_dumps {sep : Separators} {depth : ℕ} {v : Json} {t : PyStr}
    (h : Writable depth v) (hfit : intsFit v = true) (ht : Stops t ∨ ∃ members, v = .obj members) :
    scanDigits depth (dumps sep v ++ t) = .ok (v, t) := by
  induction depth generalizing v t with
  | zero =>
      rw [scanDigits, scanOnceDigits_of_short (opensTooLong_dumps h hfit ht)]
      cases v with
      | obj members => exact h.elim
      | _ => exact scanOnce_leaf h (ht.resolve_right (by rintro ⟨_, hobj⟩; cases hobj))
  | succ depth ih =>
      rw [scanDigits, scanOnceDigits_of_short (opensTooLong_dumps h hfit ht)]
      cases v with
      | arr items =>
          rw [intsFit_arr] at hfit
          exact scanOnce_arr h (fun item hitem t ht => ih (h item hitem) (hfit item hitem) (.inl ht)) t
      | obj members =>
          rw [intsFit_obj] at hfit
          exact scanOnce_obj h.1 h.2 (fun m hm t ht => ih (h.2 m hm).2 (hfit m hm) (.inl ht)) t
      | _ => exact scanOnce_leaf h (ht.resolve_right (by rintro ⟨_, hobj⟩; cases hobj))

variable {indent level : ℕ}

theorem opensTooLong_dumpsIndent {depth : ℕ} {v : Json} {t : PyStr} (h : Writable depth v)
    (hfit : intsFit v = true) (ht : Stops t ∨ ∃ members, v = .obj members) :
    opensTooLong (dumpsIndent indent level v ++ t) = false := by
  cases v with
  | arr items =>
      cases items with
      | nil => exact opensTooLong_dumps h hfit ht
      | cons item items => exact opensTooLong_cons (by decide) (by decide) _
  | obj members =>
      cases members with
      | nil => exact opensTooLong_dumps h hfit ht
      | cons m members => exact opensTooLong_cons (by decide) (by decide) _
  | _ => exact opensTooLong_dumps h hfit ht

theorem scanDigits_dumpsIndent {depth : ℕ} {v : Json} {t : PyStr} (h : Writable depth v)
    (hfit : intsFit v = true) (ht : Stops t ∨ ∃ members, v = .obj members) :
    scanDigits depth (dumpsIndent indent level v ++ t) = .ok (v, t) := by
  induction depth generalizing v t level with
  | zero =>
      cases v with
      | arr items => exact h.elim
      | obj members => exact h.elim
      | _ => exact scanDigits_dumps h hfit ht
  | succ depth ih =>
      have hshort := @opensTooLong_dumpsIndent _ indent level _ _ _ h hfit ht
      cases v with
      | arr items =>
          cases items with
          | nil => exact scanDigits_dumps h hfit ht
          | cons item items =>
              rw [intsFit_arr] at hfit
              rw [scanDigits, scanOnceDigits_of_short hshort]
              exact scanOnce_arr_indent h
                (fun x hx t ht => ih (h x hx) (hfit x hx) (.inl ht)) t
      | obj members =>
          cases members with
          | nil => exact scanDigits_dumps h hfit ht
          | cons m members =>
              rw [intsFit_obj] at hfit
              rw [scanDigits, scanOnceDigits_of_short hshort]
              exact scanOnce_obj_indent h.1 h.2
                (fun x hx t ht => ih (h.2 x hx).2 (hfit x hx) (.inl ht)) t
      | _ => exact scanDigits_dumps h hfit ht

/-- A text that the scanner reads as an object, with whitespace after it. -/
theorem loadsTextDigits_eq_ok {s t rest : PyStr} {v : Json} (hopen : s = lbrace :: t)
    (hscan : scanDigits recursionLimit s = .ok (v, rest)) (hrest : skipWs rest = []) :
    loadsTextDigits s = .ok v := by
  have hhead : s.head? ≠ some 0xFEFF := by
    rw [hopen]
    exact fun h => absurd (Option.some.inj h) (by decide)
  have hskip : skipWs s = s := by
    rw [hopen]
    exact skipWs_cons rfl t
  rw [loadsTextDigits, if_neg hhead, decodeDigits, hskip, hscan]
  exact if_pos hrest

/-- **An object is read back**, and whitespace after it is of no effect. -/
theorem loadsTextDigits_dumps {sep : Separators} {members : List (PyStr × Json)} {rest : PyStr}
    (h : Writable recursionLimit (.obj members)) (hfit : intsFit (.obj members) = true)
    (hrest : skipWs rest = []) :
    loadsTextDigits (dumps sep (.obj members) ++ rest) = .ok (.obj members) := by
  obtain ⟨t, hopen⟩ : OpensObject (dumps sep (.obj members) ++ rest) :=
    (opensObject_dumps members).append rest
  have hscan : scanDigits recursionLimit (dumps sep (.obj members) ++ rest) =
      .ok (.obj members, rest) := scanDigits_dumps h hfit (.inr ⟨members, rfl⟩)
  exact loadsTextDigits_eq_ok hopen hscan hrest

/-- **An indented object is read back.** -/
theorem loadsTextDigits_dumpsIndent {members : List (PyStr × Json)}
    (h : Writable recursionLimit (.obj members)) (hfit : intsFit (.obj members) = true) :
    loadsTextDigits (dumpsIndent indent level (.obj members)) = .ok (.obj members) := by
  have hopen : ∃ t, dumpsIndent indent level (.obj members) = lbrace :: t := by
    cases members with
    | nil => exact ⟨_, rfl⟩
    | cons m members => exact ⟨_, rfl⟩
  obtain ⟨t, hopen⟩ := hopen
  have hscan := @scanDigits_dumpsIndent _ indent level _ _ [] h hfit (.inr ⟨members, rfl⟩)
  rw [List.append_nil] at hscan
  exact loadsTextDigits_eq_ok hopen hscan rfl

/-! ## The limit only refuses -/

/-- Where one scanner returns, the other returns the same. -/
def ScanWithin (value value' : Scan) : Prop := ∀ s out, value s = .ok out → value' s = .ok out

section ScanWithin

omit [Interpreter]

variable {value value' : Scan}

theorem scanMember_within (h : ScanWithin value value') {s : PyStr} {out : PyStr × Json × PyStr}
    (hscan : scanMember value s = .ok out) : scanMember value' s = .ok out := by
  unfold scanMember at hscan ⊢
  split at hscan
  · cases hscan
  split_ifs at hscan ⊢
  split at hscan
  · cases hscan
  split at hscan
  · cases hscan
  split_ifs at hscan ⊢
  rename_i rest _ _
  cases hvalue : value (skipWs rest) with
  | error e =>
      rw [hvalue] at hscan
      cases hscan
  | ok found =>
      rw [hvalue] at hscan
      rw [h _ _ hvalue]
      exact hscan

theorem scanMembers_within (h : ScanWithin value value') {n : ℕ} {members : List (PyStr × Json)}
    {s : PyStr} {out : Json × PyStr} (hscan : scanMembers value n members s = .ok out) :
    scanMembers value' n members s = .ok out := by
  induction n generalizing members s with
  | zero => exact hscan
  | succ n ih =>
      rw [scanMembers] at hscan ⊢
      cases hmember : scanMember value s with
      | error e =>
          simp only [hmember] at hscan
          cases hscan
      | ok found =>
          obtain ⟨key, v, rest⟩ := found
          simp only [hmember] at hscan
          simp only [scanMember_within h hmember]
          split at hscan
          · cases hscan
          · split_ifs at hscan ⊢
            · exact hscan
            · exact ih hscan

theorem scanItems_within (h : ScanWithin value value') {n : ℕ} {items : List Json}
    {s : PyStr} {out : Json × PyStr} (hscan : scanItems value n items s = .ok out) :
    scanItems value' n items s = .ok out := by
  induction n generalizing items s with
  | zero => exact hscan
  | succ n ih =>
      rw [scanItems] at hscan ⊢
      cases hitem : value s with
      | error e =>
          simp only [hitem] at hscan
          cases hscan
      | ok found =>
          simp only [hitem] at hscan
          simp only [h _ _ hitem]
          split at hscan
          · cases hscan
          · split_ifs at hscan ⊢
            · exact hscan
            · exact ih hscan

theorem scanOnce_within (h : ScanWithin value value') :
    ScanWithin (scanOnce (some value)) (scanOnce (some value')) := by
  intro s out hscan
  cases s with
  | nil => exact hscan
  | cons c rest =>
      simp only [scanOnce] at hscan ⊢
      split_ifs at hscan ⊢
      · exact hscan
      · split at hscan
        · cases hscan
        · split_ifs at hscan ⊢
          · exact hscan
          · exact scanMembers_within h hscan
      · split at hscan
        · cases hscan
        · split_ifs at hscan ⊢
          · exact hscan
          · exact scanItems_within h hscan
      · exact hscan

end ScanWithin

theorem scanDigits_within (depth : ℕ) : ScanWithin (scanDigits depth) (scan depth) := by
  induction depth with
  | zero =>
      intro s out h
      rw [scanDigits, scanOnceDigits] at h
      split_ifs at h
      exact h
  | succ depth ih =>
      intro s out h
      rw [scanDigits, scanOnceDigits] at h
      split_ifs at h
      exact scanOnce_within ih s out h

/-- **Where the decoder with the limit returns**, the one without returns the same. -/
theorem loads_of_loadsTextDigits {s : PyStr} {v : Json} (h : loadsTextDigits s = .ok v) :
    loads s = .ok v := by
  rw [loadsTextDigits, decodeDigits] at h
  rw [loads, decode]
  split_ifs at h ⊢
  cases hscan : scanDigits recursionLimit (skipWs s) with
  | error e =>
      simp only [hscan] at h
      cases h
  | ok out =>
      simp only [hscan] at h
      simp only [scanDigits_within _ _ _ hscan]
      exact h

/-- **A torn object cannot be read**, whatever the limit. -/
theorem loadsTextDigits_torn {sep : Separators} {members : List (PyStr × Json)}
    (h : Writable recursionLimit (.obj members)) {p q : PyStr}
    (hpq : p ++ q = dumps sep (.obj members)) (hq : q ≠ []) (v : Json) :
    loadsTextDigits p ≠ .ok v := by
  intro hok
  have hload := loads_of_loadsTextDigits hok
  rw [loads_eq_decode (opensObject_of_start ⟨q, hpq⟩)] at hload
  exact decode_torn h hpq hq v hload

/-- **Something behind an object cannot be read**, but for whitespace. -/
theorem loadsTextDigits_glued {sep : Separators} {members : List (PyStr × Json)}
    (h : Writable recursionLimit (.obj members)) {t : PyStr} (ht : skipWs t ≠ []) (v : Json) :
    loadsTextDigits (dumps sep (.obj members) ++ t) ≠ .ok v := by
  intro hok
  have hload := loads_of_loadsTextDigits hok
  have hopen : OpensObject (dumps sep (.obj members) ++ t) := (opensObject_dumps members).append t
  rw [loads_eq_decode (.inr hopen), decode_dumps_append h, if_neg ht] at hload
  cases hload

/-! ## Texts that nest too deep -/

/-- One bracket more than the scanner has room for. -/
theorem scanDigits_brackets (depth : ℕ) (t : PyStr) :
    scanDigits depth (List.replicate (depth + 1) lbracket ++ t) = .error .recursionError := by
  have hne : lbracket ≠ quote ∧ lbracket ≠ lbrace ∧ lbracket ≠ rbracket := by decide
  have hshort : ∀ t, opensTooLong (lbracket :: t) = false :=
    opensTooLong_cons (by decide) (by decide)
  induction depth with
  | zero =>
      rw [scanDigits, List.replicate_succ, List.cons_append, scanOnceDigits_of_short (hshort _)]
      simp only [scanOnce, if_neg hne.1, if_neg hne.2.1, if_true]
  | succ depth ih =>
      rw [List.replicate_succ, List.cons_append] at ih
      rw [scanDigits, List.replicate_succ, List.replicate_succ, List.cons_append, List.cons_append,
        scanOnceDigits_of_short (hshort _)]
      simp only [scanOnce, if_neg hne.1, if_neg hne.2.1, if_neg hne.2.2, if_true,
        skipWs_cons (show isWs lbracket = false from rfl), List.length_cons, scanItems, ih]

/-- Brackets beyond the recursion limit. -/
theorem loadsTextDigits_brackets :
    loadsTextDigits (List.replicate (recursionLimit + 1) lbracket) = .error .recursionError := by
  have hscan := scanDigits_brackets recursionLimit []
  rw [List.append_nil] at hscan
  have hskip : skipWs (List.replicate (recursionLimit + 1) lbracket) =
      List.replicate (recursionLimit + 1) lbracket := by
    rw [List.replicate_succ]
    exact skipWs_cons rfl _
  have hhead : (List.replicate (recursionLimit + 1) lbracket).head? ≠ some 0xFEFF := by
    rw [List.replicate_succ]
    exact fun h => absurd (Option.some.inj h) (by decide)
  rw [loadsTextDigits, if_neg hhead, decodeDigits, hskip, hscan]

end Json

end Waxseal
