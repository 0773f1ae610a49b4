import Waxseal.Base.Hex

/-!
# JSON

Python's `json.dumps`, as the log calls it (sorted keys, no blanks, ASCII only), and
`json.loads`, on text and on bytes.

`scanOnce` follows the scanner of the standard library: one function for each kind of
value, a loop for the members of an object and one for the items of an array, and
`JSONDecodeError` wherever the scanner raises it.  Containers nest as deep as the
interpreter's recursion limit allows.

What a Python build decides for itself is collected in `Interpreter`: the recursion
limit, the arithmetic and spelling of floats, and the conversions that consult the
Unicode tables.  A float is kept as the text it was read from.
-/

namespace Waxseal

/-- A JSON value as `json.loads` returns it.  The members of an object are in insertion
order, one for each key. -/
inductive Json where
  | null
  | bool (b : Bool)
  | int (n : ℤ)
  | float (lexeme : PyStr)
  | str (s : PyStr)
  | arr (items : List Json)
  | obj (members : List (PyStr × Json))

/-- What the model leaves to the Python interpreter it runs on. -/
class Interpreter where
  /-- How deep `json.loads` may nest. -/
  recursionLimit : ℕ
  recursionLimit_large : 8 ≤ recursionLimit
  /-- `repr(float(lexeme))`. -/
  floatRepr : PyStr → PyStr
  /-- `int(float(lexeme))`. -/
  floatToInt : PyStr → Except PyErr ℤ
  /-- `int(s)` for a string. -/
  strToInt : PyStr → Except PyErr ℤ
  /-- `str(x)` for a list or a dict. -/
  containerStr : Json → PyStr
  /-- `sys.get_int_max_str_digits()`; zero is no limit. -/
  maxStrDigits : ℕ

export Interpreter (recursionLimit floatRepr floatToInt strToInt containerStr maxStrDigits)

/-- An interpreter with the default limits; it is asked for no float, no number in a string and
no container's `str`. -/
@[reducible] def Interpreter.plain : Interpreter where
  recursionLimit := 1000
  recursionLimit_large := by decide
  floatRepr := id
  floatToInt := fun _ => .error .valueError
  strToInt := fun _ => .error .valueError
  containerStr := fun _ => []
  maxStrDigits := 4300

namespace Json

/-! ## Characters -/

/-- `"`. -/
def quote : CodePoint := 0x22
/-- The backslash. -/
def backslash : CodePoint := 0x5C
/-- `,`. -/
def comma : CodePoint := 0x2C
/-- `:`. -/
def colon : CodePoint := 0x3A
/-- The opening brace. -/
def lbrace : CodePoint := 0x7B
/-- The closing brace. -/
def rbrace : CodePoint := 0x7D
/-- `[`. -/
def lbracket : CodePoint := 0x5B
/-- `]`. -/
def rbracket : CodePoint := 0x5D

/-- The whitespace of JSON. -/
def isWs (c : CodePoint) : Bool :=
  c.val == 0x20 || c.val == 0x09 || c.val == 0x0A || c.val == 0x0D

/-- An ASCII digit. -/
def isDigit (c : CodePoint) : Bool := 0x30 ≤ c.val && c.val ≤ 0x39

/-- The text after leading whitespace. -/
def skipWs (s : PyStr) : PyStr := s.dropWhile isWs

/-! ## `json.dumps` -/

/-- The four lowercase hex digits of a 16-bit unit. -/
def hex4 (n : ℕ) : PyStr :=
  [hexDigit (n / 0x1000 % 16), hexDigit (n / 0x100 % 16), hexDigit (n / 0x10 % 16),
    hexDigit (n % 16)]

/-- `\uXXXX`. -/
def escapeUnit (n : ℕ) : PyStr := backslash :: 0x75 :: hex4 n

/-- How one character is written inside a string. -/
def escapeChar (c : CodePoint) : PyStr :=
  if c = quote then [backslash, quote]
  else if c = backslash then [backslash, backslash]
  else if c.val = 0x0A then [backslash, 0x6E]
  else if c.val = 0x0D then [backslash, 0x72]
  else if c.val = 0x09 then [backslash, 0x74]
  else if c.val = 0x0C then [backslash, 0x66]
  else if c.val = 0x08 then [backslash, 0x62]
  else if 0x20 ≤ c.val ∧ c.val ≤ 0x7E then [c]
  else if c.val < 0x10000 then escapeUnit c.val
  else escapeUnit (0xD800 + (c.val - 0x10000) / 0x400)
    ++ escapeUnit (0xDC00 + (c.val - 0x10000) % 0x400)

/-- A string in its quotes. -/
def dumpsStr (s : PyStr) : PyStr := quote :: (s.flatMap escapeChar ++ [quote])

/-- The `separators` argument of `json.dumps`. -/
inductive Separators where
  /-- `(",", ":")`. -/
  | compact
  /-- The default, `(", ", ": ")`. -/
  | spaced

/-- The blank after a separator. -/
def Separators.gap : Separators → PyStr
  | .compact => []
  | .spaced => [0x20]

/-- What stands between two items. -/
def Separators.item (sep : Separators) : PyStr := comma :: sep.gap

/-- What stands between a key and its value. -/
def Separators.key (sep : Separators) : PyStr := colon :: sep.gap

section Dumps

variable [Interpreter] (sep : Separators)

mutual

/-- `json.dumps(value, separators=sep)`, with the members in the order they have. -/
def dumps : Json → PyStr
  | .null => Waxseal.str "null"
  | .bool true => Waxseal.str "true"
  | .bool false => Waxseal.str "false"
  | .int n => strInt n
  | .float lexeme => floatRepr lexeme
  | .str s => dumpsStr s
  | .arr [] => [lbracket, rbracket]
  | .arr (item :: items) => lbracket :: (dumps item ++ dumpsItems items)
  | .obj [] => [lbrace, rbrace]
  | .obj ((key, value) :: members) =>
      lbrace :: (dumpsStr key ++ (sep.key ++ (dumps value ++ dumpsMembers members)))

/-- The items after the first, and the closing bracket. -/
def dumpsItems : List Json → PyStr
  | [] => [rbracket]
  | item :: items => sep.item ++ (dumps item ++ dumpsItems items)

/-- The members after the first, and the closing brace. -/
def dumpsMembers : List (PyStr × Json) → PyStr
  | [] => [rbrace]
  | (key, value) :: members =>
      sep.item ++ (dumpsStr key ++ (sep.key ++ (dumps value ++ dumpsMembers members)))

end

end Dumps

/-- Insert a member by its key, in code point order. -/
def insertMember (m : PyStr × Json) : List (PyStr × Json) → List (PyStr × Json)
  | [] => [m]
  | m' :: members => if m.1 < m'.1 then m :: m' :: members else m' :: insertMember m members

mutual

/-- `sort_keys=True`: the members of every object in the order of their keys. -/
def sortKeys : Json → Json
  | .arr items => .arr (sortItems items)
  | .obj members => .obj (sortMembers members)
  | value => value

/-- `sortKeys` of every item. -/
def sortItems : List Json → List Json
  | [] => []
  | item :: items => sortKeys item :: sortItems items

/-- `sortKeys` of every value, and the members sorted. -/
def sortMembers : List (PyStr × Json) → List (PyStr × Json)
  | [] => []
  | (key, value) :: members => insertMember (key, sortKeys value) (sortMembers members)

end

/-! ## Strings and numbers -/

/-- The value of four hex digits. -/
def unhex4 (a b c d : CodePoint) : Option ℕ :=
  match hexVal a, hexVal b, hexVal c, hexVal d with
  | some a, some b, some c, some d => some (0x1000 * a + 0x100 * b + 0x10 * c + d)
  | _, _, _, _ => none

/-- What a one-letter escape stands for. -/
def unescape (c : CodePoint) : Option CodePoint :=
  if c = quote then some quote
  else if c = backslash then some backslash
  else if c.val = 0x2F then some 0x2F
  else if c.val = 0x62 then some 0x08
  else if c.val = 0x66 then some 0x0C
  else if c.val = 0x6E then some 0x0A
  else if c.val = 0x72 then some 0x0D
  else if c.val = 0x74 then some 0x09
  else none

/-- The code point of a number below `0x110000`. -/
def ofUnit (n : ℕ) : CodePoint := Fin.ofNat 0x110000 n

/-- A high surrogate. -/
def isHigh (n : ℕ) : Bool := 0xD800 ≤ n && n ≤ 0xDBFF

/-- A low surrogate. -/
def isLow (n : ℕ) : Bool := 0xDC00 ≤ n && n ≤ 0xDFFF

/-- Two surrogates as one code point. -/
def joinSurrogates (high low : ℕ) : CodePoint :=
  ofUnit (0x10000 + (high - 0xD800) * 0x400 + (low - 0xDC00))

/-- A `\uXXXX` escape at the front of the text. -/
def scanUnit : PyStr → Option (ℕ × PyStr)
  | b :: u :: x₃ :: x₂ :: x₁ :: x₀ :: s =>
      if b = backslash ∧ u.val = 0x75 then (unhex4 x₃ x₂ x₁ x₀).map (·, s) else none
  | _ => none

/-- One character of a string, escaped or not, at the front of the text.  A high
surrogate takes the low surrogate that follows it. -/
def scanChar (s : PyStr) : Option (CodePoint × PyStr) :=
  match s with
  | [] => none
  | c :: rest =>
      if c = backslash then
        match scanUnit s with
        | some (n, s') =>
            match scanUnit s' with
            | some (n', s'') =>
                if isHigh n && isLow n' then some (joinSurrogates n n', s'')
                else some (ofUnit n, s')
            | none => some (ofUnit n, s')
        | none =>
            match rest with
            | [] => none
            | e :: rest => (unescape e).map (·, rest)
      else if c.val < 0x20 then none
      else some (c, rest)

/-- The rest of a string after its opening quote; the bound is on the number of
characters. -/
def scanString : ℕ → PyStr → Option (PyStr × PyStr)
  | 0, _ => none
  | _ + 1, [] => none
  | n + 1, c :: s =>
      if c = quote then some ([], s)
      else
        match scanChar (c :: s) with
        | none => none
        | some (x, s) => (scanString n s).map fun out => (x :: out.1, out.2)

/-- The number a string of digits spells. -/
def ofDigits (s : PyStr) : ℕ := s.foldl (fun n c => 10 * n + (c.val - 0x30)) 0

/-- The fraction of a number, if there is one. -/
def scanFrac : PyStr → PyStr × PyStr
  | p :: c :: s =>
      if p.val = 0x2E ∧ isDigit c = true then (p :: c :: s.takeWhile isDigit, s.dropWhile isDigit)
      else ([], p :: c :: s)
  | s => ([], s)

/-- The exponent of a number, if there is one. -/
def scanExp : PyStr → PyStr × PyStr
  | e :: c :: s =>
      if e.val = 0x65 ∨ e.val = 0x45 then
        if isDigit c then (e :: c :: s.takeWhile isDigit, s.dropWhile isDigit)
        else
          match s with
          | d :: s' =>
              if (c.val = 0x2B ∨ c.val = 0x2D) ∧ isDigit d = true then
                (e :: c :: d :: s'.takeWhile isDigit, s'.dropWhile isDigit)
              else ([], e :: c :: d :: s')
          | [] => ([], [e, c])
      else ([], e :: c :: s)
  | s => ([], s)

/-- The integer part of a number without its sign: `0`, or digits that do not start
with `0`. -/
def scanNat : PyStr → Option (PyStr × PyStr)
  | [] => none
  | c :: s =>
      if c.val = 0x30 then some ([c], s)
      else if isDigit c then some (c :: s.takeWhile isDigit, s.dropWhile isDigit)
      else none

/-- The sign of a number, if there is one. -/
def scanSign : PyStr → PyStr × PyStr
  | [] => ([], [])
  | c :: s => if c.val = 0x2D then ([c], s) else ([], c :: s)

/-- `_match_number`. -/
def scanNumber (s : PyStr) : Option (Json × PyStr) :=
  let sign := scanSign s
  match scanNat sign.2 with
  | none => none
  | some (digits, s) =>
      let frac := scanFrac s
      let exp := scanExp frac.2
      if frac.1 = [] ∧ exp.1 = [] then
        some (.int (if sign.1 = [] then (ofDigits digits : ℤ) else -ofDigits digits), exp.2)
      else some (.float (sign.1 ++ digits ++ frac.1 ++ exp.1), exp.2)

/-! ## The scanner -/

/-- A scanner for one value at the front of the text. -/
abbrev Scan := PyStr → Except PyErr (Json × PyStr)

/-- A dict after `d[key] = value`: a known key keeps its place. -/
def setItem (key : PyStr) (value : Json) : List (PyStr × Json) → List (PyStr × Json)
  | [] => [(key, value)]
  | (key', value') :: members =>
      if key' = key then (key, value) :: members else (key', value') :: setItem key value members

/-- One member of an object: its key, the colon and its value. -/
def scanMember (value : Scan) : PyStr → Except PyErr (PyStr × Json × PyStr)
  | [] => .error .jsonDecodeError
  | c :: s =>
      if c = quote then
        match scanString s.length s with
        | none => .error .jsonDecodeError
        | some (key, s) =>
            match skipWs s with
            | [] => .error .jsonDecodeError
            | c :: s =>
                if c = colon then (value (skipWs s)).map (key, ·)
                else .error .jsonDecodeError
      else .error .jsonDecodeError

/-- `_parse_object`, from a member on, with the members so far; the bound is on the
number of members. -/
def scanMembers (value : Scan) :
    ℕ → List (PyStr × Json) → PyStr → Except PyErr (Json × PyStr)
  | 0, _, _ => .error .jsonDecodeError
  | n + 1, members, s =>
      match scanMember value s with
      | .error e => .error e
      | .ok (key, v, s) =>
          match skipWs s with
          | [] => .error .jsonDecodeError
          | c :: s =>
              if c = rbrace then .ok (.obj (setItem key v members), s)
              else if c = comma then scanMembers value n (setItem key v members) (skipWs s)
              else .error .jsonDecodeError

/-- `_parse_array`, from an item on, with the items so far in reverse; the bound is on the
number of items. -/
def scanItems (value : Scan) : ℕ → List Json → PyStr → Except PyErr (Json × PyStr)
  | 0, _, _ => .error .jsonDecodeError
  | n + 1, items, s =>
      match value s with
      | .error e => .error e
      | .ok (v, s) =>
          match skipWs s with
          | [] => .error .jsonDecodeError
          | c :: s =>
              if c = rbracket then .ok (.arr (v :: items).reverse, s)
              else if c = comma then scanItems value n (v :: items) (skipWs s)
              else .error .jsonDecodeError

/-- The literal a first character announces, and its value. -/
def literalOf (c : CodePoint) : Option (PyStr × Json) :=
  if c.val = 0x6E then some (Waxseal.str "null", .null)
  else if c.val = 0x74 then some (Waxseal.str "true", .bool true)
  else if c.val = 0x66 then some (Waxseal.str "false", .bool false)
  else if c.val = 0x4E then some (Waxseal.str "NaN", .float (Waxseal.str "NaN"))
  else if c.val = 0x49 then some (Waxseal.str "Infinity", .float (Waxseal.str "Infinity"))
  else if c.val = 0x2D then some (Waxseal.str "-Infinity", .float (Waxseal.str "-Infinity"))
  else none

/-- `s` after a literal it starts with. -/
def stripLiteral (literal : PyStr) (s : PyStr) : Option PyStr :=
  if literal.isPrefixOf s then some (s.drop literal.length) else none

/-- A literal at the front of the text. -/
def scanLiteral : PyStr → Option (Json × PyStr)
  | [] => none
  | c :: s =>
      match literalOf c with
      | none => none
      | some (literal, value) => (stripLiteral literal (c :: s)).map (value, ·)

/-- The values that are neither strings nor containers. -/
def scanAtom (s : PyStr) : Except PyErr (Json × PyStr) :=
  match scanLiteral s with
  | some out => .ok out
  | none =>
      match scanNumber s with
      | some out => .ok out
      | none => .error .jsonDecodeError

/-- `scan_once`.  `value` scans what a container holds; `none` is the recursion limit. -/
def scanOnce (value : Option Scan) (s : PyStr) : Except PyErr (Json × PyStr) :=
  match s with
  | [] => .error .jsonDecodeError
  | c :: rest =>
      if c = quote then
        match scanString rest.length rest with
        | some (out, s) => .ok (.str out, s)
        | none => .error .jsonDecodeError
      else if c = lbrace then
        match value with
        | none => .error .recursionError
        | some value =>
            match skipWs rest with
            | [] => .error .jsonDecodeError
            | c :: s =>
                if c = rbrace then .ok (.obj [], s)
                else scanMembers value (c :: s).length [] (c :: s)
      else if c = lbracket then
        match value with
        | none => .error .recursionError
        | some value =>
            match skipWs rest with
            | [] => .error .jsonDecodeError
            | c :: s =>
                if c = rbracket then .ok (.arr [], s)
                else scanItems value (c :: s).length [] (c :: s)
      else scanAtom (c :: rest)

/-- The scanner with room for `depth` nested containers. -/
def scan : ℕ → Scan
  | 0 => scanOnce none
  | depth + 1 => scanOnce (some (scan depth))

variable [Interpreter]

/-- `JSONDecoder.decode`: one value, with nothing but whitespace around it. -/
def decode (s : PyStr) : Except PyErr Json :=
  match scan recursionLimit (skipWs s) with
  | .error e => .error e
  | .ok (v, s) => if skipWs s = [] then .ok v else .error .jsonDecodeError

/-- `json.loads(s)` for a string. -/
def loads (s : PyStr) : Except PyErr Json :=
  if s.head? = some 0xFEFF then .error .jsonDecodeError else decode s

end Json

end Waxseal
