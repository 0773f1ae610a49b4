import Waxseal.Base.JsonRoundTrip

/-!
# JSON from bytes

`json.loads` of a byte string guesses the encoding from the first bytes; a file read as text
(`Path.read_text`) is UTF-8 with its line ends normalised.  Then the
conversions Python makes of a parsed value: `obj[key]`, `int(x)` and `str(x)`.

What the log writes is ASCII, and on ASCII the guess is right (`loadsBytes_printable`).
-/

namespace Waxseal

/-! ## `json.loads` of bytes -/

/-- What `detect_encoding` can answer. -/
inductive Encoding where
  | utf8
  | utf8Sig
  | utf16 (bigEndian : Bool)
  | utf32 (bigEndian : Bool)
  /-- `utf-16` with a byte order mark. -/
  | utf16Bom (bigEndian : Bool)
  /-- `utf-32` with a byte order mark. -/
  | utf32Bom (bigEndian : Bool)

/-- `json.detect_encoding`. -/
def detectEncoding (b : Bytes) : Encoding :=
  if [0x00, 0x00, 0xFE, 0xFF] <+: b then .utf32Bom true
  else if [0xFF, 0xFE, 0x00, 0x00] <+: b then .utf32Bom false
  else if [0xFE, 0xFF] <+: b then .utf16Bom true
  else if [0xFF, 0xFE] <+: b then .utf16Bom false
  else if [0xEF, 0xBB, 0xBF] <+: b then .utf8Sig
  else
    match b with
    | b₀ :: b₁ :: b₂ :: b₃ :: _ =>
        if b₀ = 0 then if b₁ = 0 then .utf32 true else .utf16 true
        else if b₁ = 0 then if b₂ = 0 ∧ b₃ = 0 then .utf32 false else .utf16 false
        else .utf8
    | [b₀, b₁] => if b₀ = 0 then .utf16 true else if b₁ = 0 then .utf16 false else .utf8
    | _ => .utf8

namespace Json

/-- The unit two bytes spell. -/
def unit16 (bigEndian : Bool) (a b : UInt8) : ℕ :=
  if bigEndian then 0x100 * a.toNat + b.toNat else a.toNat + 0x100 * b.toNat

/-- `b.decode("utf-16", "surrogatepass")`, of a given byte order. -/
def decodeUtf16 (bigEndian : Bool) : Bytes → Option PyStr
  | [] => some []
  | [_] => none
  | a :: b :: rest =>
      let n := unit16 bigEndian a b
      match rest with
      | c :: d :: rest' =>
          let n' := unit16 bigEndian c d
          if isHigh n && isLow n' then (decodeUtf16 bigEndian rest').map (joinSurrogates n n' :: ·)
          else (decodeUtf16 bigEndian (c :: d :: rest')).map (ofUnit n :: ·)
      | rest => (decodeUtf16 bigEndian rest).map (ofUnit n :: ·)

/-- `b.decode("utf-32", "surrogatepass")`, of a given byte order. -/
def decodeUtf32 (bigEndian : Bool) : Bytes → Option PyStr
  | [] => some []
  | a :: b :: c :: d :: rest =>
      let n := if bigEndian then 0x10000 * unit16 true a b + unit16 true c d
        else unit16 false a b + 0x10000 * unit16 false c d
      match codePoint? n, decodeUtf32 bigEndian rest with
      | some x, some s => some (x :: s)
      | _, _ => none
  | _ => none

/-- `b.decode("utf-8", "surrogatepass")`. -/
def decodeUtf8Pass (b : Bytes) : Option PyStr := decodeUtf8Aux true b.length b

/-- `b.decode(detect_encoding(b), "surrogatepass")`. -/
def decodeBytes (b : Bytes) : Option PyStr :=
  match detectEncoding b with
  | .utf8 => decodeUtf8Pass b
  | .utf8Sig => decodeUtf8Pass (b.drop 3)
  | .utf16 bigEndian => decodeUtf16 bigEndian b
  | .utf32 bigEndian => decodeUtf32 bigEndian b
  | .utf16Bom bigEndian => decodeUtf16 bigEndian (b.drop 2)
  | .utf32Bom bigEndian => decodeUtf32 bigEndian (b.drop 4)

variable [Interpreter]

/-- `json.loads(b)` for a byte string. -/
def loadsBytes (b : Bytes) : Except PyErr Json :=
  match decodeBytes b with
  | none => .error .unicodeDecodeError
  | some s => decode s

omit [Interpreter] in
/-- Printable bytes are taken for UTF-8. -/
theorem detectEncoding_printable {bs : Bytes} (h : ∀ b ∈ bs, 0x20 ≤ b.toNat ∧ b.toNat ≤ 0x7E) :
    detectEncoding bs = .utf8 := by
  have zero : ∀ b ∈ bs, b ≠ 0 := by
    rintro b hb rfl
    have hzero : 0x20 ≤ 0 := (h 0 hb).1
    omega
  -- No byte order mark opens with a printable byte.
  have mark : ∀ b (rest : Bytes), b.toNat < 0x20 ∨ 0x7E < b.toNat → ¬ b :: rest <+: bs := by
    intro b rest hb hstart
    have := h b (hstart.subset List.mem_cons_self)
    omega
  unfold detectEncoding
  rw [if_neg (mark _ _ (.inl (by decide))), if_neg (mark _ _ (.inr (by decide))),
    if_neg (mark _ _ (.inr (by decide))), if_neg (mark _ _ (.inr (by decide))),
    if_neg (mark _ _ (.inr (by decide)))]
  split
  · rw [if_neg (zero _ (by simp)), if_neg (zero _ (by simp))]
  · rw [if_neg (zero _ (by simp)), if_neg (zero _ (by simp))]
  · rfl

/-- `json.loads` of printable ASCII bytes is `json.loads` of the text. -/
theorem loadsBytes_printable {s : PyStr} (h : ∀ c ∈ s, IsPrintable c) :
    loadsBytes (asciiBytes s) = decode s := by
  have hascii : isAscii s = true := by
    refine List.all_eq_true.mpr fun c hc => decide_eq_true ?_
    have := (h c hc).2
    omega
  have hprint : ∀ b ∈ asciiBytes s, 0x20 ≤ b.toNat ∧ b.toNat ≤ 0x7E := by
    intro b hb
    obtain ⟨c, hc, rfl⟩ := List.mem_map.mp hb
    obtain ⟨hlo, hhi⟩ := h c hc
    have hval : c.toByte.toNat = c.val := Nat.mod_eq_of_lt (by omega)
    omega
  have hdecode : decodeUtf8Pass (asciiBytes s) = some s :=
    decodeUtf8Aux_encode (encodeUtf8_ascii hascii) le_rfl
  rw [loadsBytes, decodeBytes, detectEncoding_printable hprint]
  simp only [hdecode]

/-! ## `json.loads` of a text file -/

omit [Interpreter] in
/-- Text read with `newline=None`: each `\r\n` and `\r` becomes `\n`. -/
def universalNewlines : PyStr → PyStr
  | [] => []
  | [c] => if c.val = 0x0D then [0x0A] else [c]
  | c :: d :: s =>
      if c.val = 0x0D then
        if d.val = 0x0A then 0x0A :: universalNewlines s else 0x0A :: universalNewlines (d :: s)
      else c :: universalNewlines (d :: s)

/-- `json.loads(path.read_text(encoding="utf-8"))`. -/
def loadsText (file : Bytes) : Except PyErr Json :=
  match decodeUtf8 file with
  | none => .error .unicodeDecodeError
  | some s => loads (universalNewlines s)

omit [Interpreter] in
/-- Text without carriage returns stays as it is. -/
theorem universalNewlines_eq_self {s : PyStr} (h : ∀ c ∈ s, c.val ≠ 0x0D) :
    universalNewlines s = s := by
  induction s with
  | nil => rfl
  | cons c s ih =>
      have hc := h c List.mem_cons_self
      have hs := ih fun d hd => h d (List.mem_cons_of_mem c hd)
      cases s with
      | nil => exact if_neg hc
      | cons d s => rw [universalNewlines, if_neg hc, hs]

/-- `json.loads` of a text file of printable ASCII that opens an object. -/
theorem loadsText_printable {s : PyStr} (h : ∀ c ∈ s, IsPrintable c) (hopen : s = [] ∨ OpensObject s) :
    loadsText (asciiBytes s) = decode s := by
  have hascii : isAscii s = true := by
    refine List.all_eq_true.mpr fun c hc => decide_eq_true ?_
    have := (h c hc).2
    omega
  have hreturn : ∀ c ∈ s, c.val ≠ 0x0D := fun c hc => by
    have := (h c hc).1
    omega
  rw [loadsText, decodeUtf8_encode (encodeUtf8_ascii hascii)]
  simp only [universalNewlines_eq_self hreturn, loads_eq_decode hopen]

/-- **Reading back a written object** from a text file. -/
theorem loadsText_dumps {sep : Separators} {members : List (PyStr × Json)}
    (h : Writable recursionLimit (.obj members)) :
    loadsText (asciiBytes (dumps sep (.obj members))) = .ok (.obj members) := by
  have hread : decode (dumps sep (.obj members) ++ []) = _ := decode_dumps_append h []
  rw [List.append_nil] at hread
  rw [loadsText_printable (isPrintable_dumps h) (.inr (opensObject_dumps members)), hread]
  rfl

/-- **A torn object cannot be read** from a text file. -/
theorem loadsText_torn {sep : Separators} {members : List (PyStr × Json)}
    (h : Writable recursionLimit (.obj members)) {n : ℕ}
    (hn : n < (asciiBytes (dumps sep (.obj members))).length) (v : Json) :
    loadsText ((asciiBytes (dumps sep (.obj members))).take n) ≠ .ok v := by
  have htake : (asciiBytes (dumps sep (.obj members))).take n =
      asciiBytes ((dumps sep (.obj members)).take n) := List.map_take.symm
  have hprefix := List.take_prefix n (dumps sep (.obj members))
  have hprint : ∀ c ∈ (dumps sep (.obj members)).take n, IsPrintable c := fun c hc =>
    isPrintable_dumps h c (List.mem_of_mem_take hc)
  rw [length_asciiBytes] at hn
  rw [htake, loadsText_printable hprint (opensObject_of_start hprefix)]
  refine decode_torn h (List.take_append_drop n _) (List.ne_nil_of_length_pos ?_) v
  rw [List.length_drop]
  omega

/-! ## Conversions -/

/-- `obj[key]`. -/
def getItem (obj : Json) (key : PyStr) : Except PyErr Json :=
  match obj with
  | .obj members =>
      match members.find? (·.1 = key) with
      | some m => .ok m.2
      | none => .error .keyError
  | _ => .error .typeError

omit [Interpreter] in
theorem getItem_raises {obj : Json} {key : PyStr} {e : PyErr} (h : getItem obj key = .error e) :
    e = .keyError ∨ e = .typeError := by
  unfold getItem at h
  split at h
  · split at h
    · cases h
    · exact .inl (Except.error.inj h).symm
  · exact .inr (Except.error.inj h).symm

/-- `obj.get(key)`. -/
def get? (obj : Json) (key : PyStr) : Except PyErr Json :=
  match obj with
  | .obj members =>
      match members.find? (·.1 = key) with
      | some m => .ok m.2
      | none => .ok .null
  | _ => .error .attributeError

/-- `int(x)`. -/
def pyInt : Json → Except PyErr ℤ
  | .int n => .ok n
  | .bool b => .ok (if b then 1 else 0)
  | .float lexeme => floatToInt lexeme
  | .str s => strToInt s
  | .null | .arr _ | .obj _ => .error .typeError

/-- `str(x)`. -/
def pyStr : Json → PyStr
  | .str s => s
  | .int n => strInt n
  | .bool true => Waxseal.str "True"
  | .bool false => Waxseal.str "False"
  | .null => Waxseal.str "None"
  | .float lexeme => floatRepr lexeme
  | value => containerStr value

/-- `x == n`, for a small positive `n`. -/
def eqNat (n : ℕ) : Json → Bool
  | .int m => decide (m = n)
  | .bool b => decide ((if b then 1 else 0) = n)
  | .float lexeme => decide (floatRepr lexeme = strNat n ++ Waxseal.str ".0")
  | _ => false

end Json

end Waxseal
