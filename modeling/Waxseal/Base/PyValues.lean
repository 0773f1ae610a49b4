import Mathlib.Data.List.Lex
import Mathlib.Data.List.Sort
import Waxseal.Base.JsonWriting

/-!
# Python values

The values of the built-in types, and what the interpreter makes of them: their truth, `repr`,
`str`, and `json.dumps` with sorted keys.  A container may hold itself; what leads back to it is
`up`.  `repr` and `json.dumps` go as deep as the interpreter lets them, so each takes the depth
it has left.
-/

namespace Waxseal

open Json

/-- A value of a built-in type. -/
inductive PyValue where
  | none
  | bool (b : Bool)
  | int (n : ℤ)
  /-- A float, as `repr` shows it. -/
  | float (lexeme : PyStr)
  | str (s : PyStr)
  | bytes (b : Bytes)
  | list (items : List PyValue)
  | tuple (items : List PyValue)
  | set (frozen : Bool) (items : List PyValue)
  | dict (members : List (PyValue × PyValue))
  /-- The container this is in, or one around it, as `repr` marks it. -/
  | up (marker : PyStr)

/-- What the values leave to the interpreter. -/
structure PyRuntime where
  /-- `repr` of a string. -/
  reprStr : PyStr → PyStr
  /-- `repr` of bytes. -/
  reprBytes : Bytes → PyStr
  /-- The order `sorted` gives members whose keys are numbers. -/
  sortNumbers : List (PyValue × PyValue) → List (PyValue × PyValue)
  /-- How deep `repr` may go. -/
  reprDepth : ℕ
  /-- How deep `json.dumps` may go. -/
  dumpsDepth : ℕ
  /-- How deep a function may call itself. -/
  callDepth : ℕ

namespace PyValue

/-- `bool(value)`. -/
def truthy : PyValue → Bool
  | none => false
  | bool b => b
  | int n => n ≠ 0
  | float lexeme => lexeme ∉ [Waxseal.str "0.0", Waxseal.str "-0.0"]
  | str s => s ≠ []
  | bytes b => b ≠ []
  | list items | tuple items | set _ items => !items.isEmpty
  | dict members => !members.isEmpty
  | up _ => true

/-- `dict[key]`, of a dict with this string for a key. -/
def find (members : List (PyValue × PyValue)) (key : PyStr) : Option PyValue :=
  match members with
  | [] => Option.none
  | (str k, value) :: members => if k = key then some value else find members key
  | _ :: members => find members key

/-- `dict[key] = value`. -/
def setItem (members : List (PyStr × PyValue)) (key : PyStr) (value : PyValue) :
    List (PyStr × PyValue) :=
  match members with
  | [] => [(key, value)]
  | (k, v) :: members =>
      if k = key then (k, value) :: members else (k, v) :: setItem members key value

/-- The members of a dict whose keys are strings. -/
def ofMembers (members : List (PyStr × PyValue)) : PyValue :=
  dict (members.map fun m => (str m.1, m.2))

mutual

/-- A JSON value. -/
def ofJson : Json → PyValue
  | .null => none
  | .bool b => bool b
  | .int n => int n
  | .float lexeme => float lexeme
  | .str s => str s
  | .arr items => list (ofItems items)
  | .obj members => dict (ofObject members)

def ofItems : List Json → List PyValue
  | [] => []
  | item :: items => ofJson item :: ofItems items

def ofObject : List (PyStr × Json) → List (PyValue × PyValue)
  | [] => []
  | (key, value) :: members => (str key, ofJson value) :: ofObject members

end

/-- Items with commas between them. -/
def commaJoined (items : List PyStr) : PyStr := (items.intersperse (Waxseal.str ", ")).flatten

section

variable [Interpreter] (py : PyRuntime)

/-! ## `repr` and `str` -/

/-- `repr(value)`, that deep. -/
def repr : ℕ → PyValue → Except PyErr PyStr
  | 0, _ => .error .recursionError
  | _ + 1, none => .ok (Waxseal.str "None")
  | _ + 1, bool b => .ok (Waxseal.str (if b then "True" else "False"))
  | _ + 1, int n => if intFits n then .ok (strInt n) else .error .valueError
  | _ + 1, float lexeme => .ok lexeme
  | _ + 1, str s => .ok (py.reprStr s)
  | _ + 1, bytes b => .ok (py.reprBytes b)
  | depth + 1, list items => do
      return lbracket :: commaJoined (← items.mapM (repr depth)) ++ [rbracket]
  | depth + 1, tuple items => do
      let texts ← items.mapM (repr depth)
      let comma := if texts.length = 1 then Waxseal.str "," else []
      return Waxseal.str "(" ++ commaJoined texts ++ comma ++ Waxseal.str ")"
  | depth + 1, set frozen items => do
      let texts ← items.mapM (repr depth)
      let shown := lbrace :: commaJoined texts ++ [rbrace]
      if frozen then
        return Waxseal.str "frozenset(" ++ (if texts = [] then [] else shown) ++ Waxseal.str ")"
      else return if texts = [] then Waxseal.str "set()" else shown
  | depth + 1, dict members => do
      let texts ← members.mapM fun m => do
        let key ← repr depth m.1
        let value ← repr depth m.2
        return key ++ Waxseal.str ": " ++ value
      return lbrace :: commaJoined texts ++ [rbrace]
  | _ + 1, up marker => .ok marker

/-- `str(value)`. -/
def text : PyValue → Except PyErr PyStr
  | str s => .ok s
  | value => repr py py.reprDepth value

/-! ## `json.dumps` -/

/-- `float.__repr__`, as JSON has it. -/
def jsonFloat (lexeme : PyStr) : PyStr :=
  if lexeme = Waxseal.str "nan" then Waxseal.str "NaN"
  else if lexeme = Waxseal.str "inf" then Waxseal.str "Infinity"
  else if lexeme = Waxseal.str "-inf" then Waxseal.str "-Infinity"
  else lexeme

/-- A key of a dict. -/
def dumpsKey : PyValue → Except PyErr PyStr
  | str s => .ok s
  | none => .ok (Waxseal.str "null")
  | bool b => .ok (Waxseal.str (if b then "true" else "false"))
  | int n => if intFits n then .ok (strInt n) else .error .valueError
  | float lexeme => .ok (jsonFloat lexeme)
  | _ => .error .typeError

/-- The string a key is, if it is one. -/
def asStr : PyValue → Option PyStr
  | str s => some s
  | _ => Option.none

/-- The key is a number. -/
def isNumber : PyValue → Bool
  | bool _ | int _ | float _ => true
  | _ => false

/-- `sorted(members)`: keys that are not all strings, and not all numbers, either do not compare
or are no keys of JSON. -/
def sortedMembers (members : List (PyValue × PyValue)) :
    Except PyErr (List (PyValue × PyValue)) :=
  if members.all fun m => m.1.asStr.isSome then
    .ok (members.insertionSort fun m n => m.1.asStr.getD [] ≤ n.1.asStr.getD [])
  else if members.length ≤ 1 then .ok members
  else if members.all fun m => m.1.isNumber then .ok (py.sortNumbers members)
  else .error .typeError

/-- `json.dumps(value, sort_keys=True, separators=sep, default=default)`, that deep. -/
def dumps (sep : Separators) (default : Option (PyValue → Except PyErr PyStr)) :
    ℕ → PyValue → Except PyErr PyStr
  | _, none => .ok (Waxseal.str "null")
  | _, bool b => .ok (Waxseal.str (if b then "true" else "false"))
  | _, int n => if intFits n then .ok (strInt n) else .error .valueError
  | _, float lexeme => .ok (jsonFloat lexeme)
  | _, str s => .ok (dumpsStr s)
  | 0, _ => .error .recursionError
  | depth + 1, list items | depth + 1, tuple items => do
      let texts ← items.mapM (dumps sep default depth)
      return lbracket :: (texts.intersperse sep.item).flatten ++ [rbracket]
  | depth + 1, dict members => do
      let texts ← (← sortedMembers py members).mapM fun m => do
        let key ← dumpsKey m.1
        let value ← dumps sep default depth m.2
        return dumpsStr key ++ sep.key ++ value
      return lbrace :: (texts.intersperse sep.item).flatten ++ [rbrace]
  -- A value that leads back to a container that is being written.
  | _ + 1, up _ => .error .valueError
  | _ + 1, bytes b => match default with
      | some default => dumpsStr <$> default (bytes b)
      | Option.none => .error .typeError
  | _ + 1, set frozen items => match default with
      | some default => dumpsStr <$> default (set frozen items)
      | Option.none => .error .typeError

end

end PyValue

end Waxseal
