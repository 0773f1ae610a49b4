import Waxseal.Base.JsonLoads

/-!
# Integers that are too long

Python converts no more than `sys.get_int_max_str_digits()` decimal digits to an integer or back:
`json.loads` of a text with a longer one raises `ValueError`, and a plain one, no
`JSONDecodeError`.  `Json.loads` reads integers of any length; `loadsDigits` is the decoder with
the limit, and the two agree where the limit is off (`loadsDigits_unlimited`).
-/

namespace Waxseal

variable [Interpreter]

/-- Too many digits to convert. -/
def tooLong (digits : ℕ) : Bool := maxStrDigits != 0 && decide (maxStrDigits < digits)

/-- `str(n)`. -/
def strNatDigits (n : ℕ) : Except PyErr PyStr :=
  if tooLong (strNat n).length then .error .valueError else .ok (strNat n)

namespace Json

/-- There is an integer at the front of the text, and it is too long. -/
def opensTooLong (s : PyStr) : Bool :=
  match scanNat (scanSign s).2 with
  | none => false
  | some (digits, s) =>
      let frac := scanFrac s
      decide (frac.1 = [] ∧ (scanExp frac.2).1 = []) && tooLong digits.length

/-- `scan_once`, where an integer that is too long is not converted. -/
def scanOnceDigits (value : Option Scan) : Scan := fun s =>
  if opensTooLong s then .error .valueError else scanOnce value s

/-- The scanner with room for `depth` nested containers. -/
def scanDigits : ℕ → Scan
  | 0 => scanOnceDigits none
  | depth + 1 => scanOnceDigits (some (scanDigits depth))

/-- `JSONDecoder.decode`. -/
def decodeDigits (s : PyStr) : Except PyErr Json :=
  match scanDigits recursionLimit (skipWs s) with
  | .error e => .error e
  | .ok (v, s) => if skipWs s = [] then .ok v else .error .jsonDecodeError

/-- `json.loads(s)` for a string. -/
def loadsTextDigits (s : PyStr) : Except PyErr Json :=
  if s.head? = some 0xFEFF then .error .jsonDecodeError else decodeDigits s

/-- `json.loads(b)` for a byte string. -/
def loadsDigits (b : Bytes) : Except PyErr Json :=
  match decodeBytes b with
  | none => .error .unicodeDecodeError
  | some s => decodeDigits s

/-! ## Without the limit -/

theorem opensTooLong_unlimited (h : maxStrDigits = 0) (s : PyStr) : opensTooLong s = false := by
  have hshort : ∀ n, tooLong n = false := by
    intro n
    rw [tooLong, h]
    rfl
  rw [opensTooLong]
  split
  · rfl
  · simp [hshort]

theorem scanDigits_unlimited (h : maxStrDigits = 0) (depth : ℕ) : scanDigits depth = scan depth := by
  induction depth with
  | zero =>
      funext s
      rw [scanDigits, scanOnceDigits, opensTooLong_unlimited h, scan]
      rfl
  | succ depth ih =>
      funext s
      rw [scanDigits, scanOnceDigits, opensTooLong_unlimited h, scan, ih]
      rfl

theorem decodeDigits_unlimited (h : maxStrDigits = 0) : decodeDigits = decode := by
  funext s
  rw [decodeDigits, scanDigits_unlimited h]
  rfl

/-- **Without the limit the decoder reads integers of any length.** -/
theorem loadsDigits_unlimited (h : maxStrDigits = 0) : loadsDigits = loadsBytes := by
  funext b
  rw [loadsDigits, decodeDigits_unlimited h]
  rfl

/-! ## What it raises -/

/-- An exception of `json.loads` on a text. -/
def IsLoadsError (e : PyErr) : Prop := e = .jsonDecodeError ∨ e = .valueError ∨ e = .recursionError

/-- A scanner that raises nothing else. -/
def RaisesLoadsError (value : Scan) : Prop := ∀ s e, value s = .error e → IsLoadsError e

section

variable {value : Scan}

omit [Interpreter] in
theorem isLoadsError_of_decodeError {α : Type} {e : PyErr}
    (h : (.error .jsonDecodeError : Except PyErr α) = .error e) : IsLoadsError e :=
  .inl (Except.error.inj h).symm

omit [Interpreter] in
theorem scanMember_raises (hvalue : RaisesLoadsError value) {s : PyStr} {e : PyErr}
    (h : scanMember value s = .error e) : IsLoadsError e := by
  unfold scanMember at h
  split at h
  · exact isLoadsError_of_decodeError h
  split at h
  swap
  · exact isLoadsError_of_decodeError h
  split at h
  · exact isLoadsError_of_decodeError h
  split at h
  · exact isLoadsError_of_decodeError h
  split at h
  swap
  · exact isLoadsError_of_decodeError h
  -- Only the member's value is left.
  rename_i rest _ _
  cases hv : value (skipWs rest) with
  | error e' =>
      rw [hv] at h
      exact Except.error.inj h ▸ hvalue _ e' hv
  | ok out =>
      rw [hv] at h
      cases h

omit [Interpreter] in
theorem scanMembers_raises (hvalue : RaisesLoadsError value) {n : ℕ} {members : List (PyStr × Json)}
    {s : PyStr} {e : PyErr} (h : scanMembers value n members s = .error e) : IsLoadsError e := by
  induction n generalizing members s with
  | zero => exact isLoadsError_of_decodeError h
  | succ n ih =>
      rw [scanMembers] at h
      split at h
      · rename_i e' hmember
        exact Except.error.inj h ▸ scanMember_raises hvalue hmember
      split at h
      · exact isLoadsError_of_decodeError h
      split_ifs at h
      · exact ih h
      · exact isLoadsError_of_decodeError h

omit [Interpreter] in
theorem scanItems_raises (hvalue : RaisesLoadsError value) {n : ℕ} {items : List Json}
    {s : PyStr} {e : PyErr} (h : scanItems value n items s = .error e) : IsLoadsError e := by
  induction n generalizing items s with
  | zero => exact isLoadsError_of_decodeError h
  | succ n ih =>
      rw [scanItems] at h
      split at h
      · rename_i e' hitem
        exact Except.error.inj h ▸ hvalue _ e' hitem
      split at h
      · exact isLoadsError_of_decodeError h
      split_ifs at h
      · exact ih h
      · exact isLoadsError_of_decodeError h

end

omit [Interpreter] in
theorem scanAtom_raises {s : PyStr} {e : PyErr} (h : scanAtom s = .error e) : IsLoadsError e := by
  unfold scanAtom at h
  split at h
  · cases h
  split at h
  · cases h
  · exact isLoadsError_of_decodeError h

omit [Interpreter] in
theorem scanOnce_raises {value : Option Scan} (hvalue : ∀ scan ∈ value, RaisesLoadsError scan) :
    RaisesLoadsError (scanOnce value) := by
  intro s e h
  unfold scanOnce at h
  split at h
  · exact isLoadsError_of_decodeError h
  split_ifs at h
  · split at h
    · cases h
    · exact isLoadsError_of_decodeError h
  · split at h
    · exact .inr (.inr (Except.error.inj h).symm)
    split at h
    · exact isLoadsError_of_decodeError h
    split_ifs at h
    exact scanMembers_raises (hvalue _ rfl) h
  · split at h
    · exact .inr (.inr (Except.error.inj h).symm)
    split at h
    · exact isLoadsError_of_decodeError h
    split_ifs at h
    exact scanItems_raises (hvalue _ rfl) h
  · exact scanAtom_raises h

theorem scanOnceDigits_raises {value : Option Scan} (hvalue : ∀ scan ∈ value, RaisesLoadsError scan) :
    RaisesLoadsError (scanOnceDigits value) := by
  intro s e h
  rw [scanOnceDigits] at h
  split_ifs at h
  · exact .inr (.inl (Except.error.inj h).symm)
  · exact scanOnce_raises hvalue s e h

theorem scanDigits_raises (depth : ℕ) : RaisesLoadsError (scanDigits depth) := by
  induction depth with
  | zero => exact scanOnceDigits_raises (by intro scan hscan; cases hscan)
  | succ depth ih =>
      apply scanOnceDigits_raises
      intro scan hscan
      cases hscan
      exact ih

theorem decodeDigits_raises {s : PyStr} {e : PyErr} (h : decodeDigits s = .error e) :
    IsLoadsError e := by
  rw [decodeDigits] at h
  split at h
  · rename_i e' hscan
    exact Except.error.inj h ▸ scanDigits_raises recursionLimit _ e' hscan
  split_ifs at h
  exact isLoadsError_of_decodeError h

/-- **What `json.loads` of a text raises.** -/
theorem loadsTextDigits_raises {s : PyStr} {e : PyErr} (h : loadsTextDigits s = .error e) :
    IsLoadsError e := by
  rw [loadsTextDigits] at h
  split_ifs at h
  · exact isLoadsError_of_decodeError h
  · exact decodeDigits_raises h

/-- **What `json.loads` of bytes raises**: a `ValueError` of some kind, or the recursion limit. -/
theorem loadsDigits_raises {body : Bytes} {e : PyErr} (h : loadsDigits body = .error e) :
    e.isValueError = true ∨ e = .recursionError := by
  rw [loadsDigits] at h
  split at h
  · exact .inl (Except.error.inj h ▸ rfl)
  · rcases decodeDigits_raises h with rfl | rfl | rfl
    · exact .inl rfl
    · exact .inl rfl
    · exact .inr rfl

theorem loadsTextDigits_unlimited (h : maxStrDigits = 0) : loadsTextDigits = loads := by
  funext s
  rw [loadsTextDigits, decodeDigits_unlimited h]
  rfl

end Json

/-- A text whose containers nest beyond the recursion limit. -/
def NestsTooDeep (text : PyStr) : Prop := Json.loadsTextDigits text = .error .recursionError

end Waxseal
