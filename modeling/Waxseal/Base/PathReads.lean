import Waxseal.Base.MovingReads
import Waxseal.Base.Text

/-!
# Paths and what they lead to

`PurePosixPath`, and a file system without links: what is at a place has a stamp and a content.
The calls of `pathlib` that look are `Reads` of it.
-/

namespace Waxseal

/-! ## Paths -/

/-- `PurePosixPath`. -/
structure PurePath where
  root : PyStr
  parts : List PyStr
  deriving DecidableEq

/-- Where a path leads, from the root on. -/
abbrev Location := List PyStr

namespace PurePath

/-- The root a path begins with: two slashes are a root of their own, three are one. -/
def rootOf (s : PyStr) : PyStr :=
  if str "///" <+: s then str "/"
  else if str "//" <+: s then str "//"
  else if str "/" <+: s then str "/"
  else []

/-- `Path(s)`. -/
def ofStr (s : PyStr) : PurePath where
  root := rootOf s
  parts := (s.splitOn (.ofChar '/')).filter fun part => part ≠ [] ∧ part ≠ str "."

/-- `str(path)`. -/
def text (p : PurePath) : PyStr :=
  if p.root = [] ∧ p.parts = [] then str "."
  else p.root ++ (p.parts.intersperse (str "/")).flatten

/-- `path.name`. -/
def name (p : PurePath) : PyStr := p.parts.getLast?.getD []

/-- `path.parent`. -/
def parent (p : PurePath) : PurePath := { p with parts := p.parts.dropLast }

/-- `path / child`. -/
def child (p : PurePath) (name : PyStr) : PurePath := { p with parts := p.parts ++ [name] }

/-- `path.with_name(name)`, of a path that has a name. -/
def withName (p : PurePath) (name : PyStr) : PurePath := p.parent.child name

/-- `path.resolve()`, from a working directory. -/
def resolve (cwd : Location) (p : PurePath) : Location :=
  p.parts.foldl (fun loc part => if part = str ".." then loc.dropLast else loc ++ [part])
    (if p.root = [] then cwd else [])

end PurePath

/-! ## What is there -/

/-- What `stat` tells of a file or a directory. -/
structure Stat where
  mtimeNs : ℤ
  size : ℤ
  ctimeNs : ℤ
  ino : ℤ
  deriving DecidableEq

/-- The bytes of a file, or the names in a directory in the order it lists them. -/
inductive Content where
  | file (data : Bytes)
  | dir (names : List PyStr)
  deriving DecidableEq

/-- A file or a directory. -/
structure Node where
  stat : Stat
  content : Content
  deriving DecidableEq

/-- What is where. -/
abbrev Files := Location → Option Node

/-- A program that reads files. -/
abbrev FileReads := Reads Location (Option Node)

namespace FileReads

/-- `path.stat()`; `OSError` is `none`. -/
def stat (loc : Location) : FileReads (Option Stat) := .look loc fun node => .done (node.map (·.stat))

/-- `path.exists()`. -/
def exists_ (loc : Location) : FileReads Bool := .look loc fun node => .done node.isSome

/-- `path.is_file()`. -/
def isFile (loc : Location) : FileReads Bool :=
  .look loc fun
    | some ⟨_, .file _⟩ => .done true
    | _ => .done false

/-- `path.is_dir()`. -/
def isDir (loc : Location) : FileReads Bool :=
  .look loc fun
    | some ⟨_, .dir _⟩ => .done true
    | _ => .done false

/-- `path.iterdir()`, in full. -/
def iterdir (loc : Location) : FileReads (Except PyErr (List PyStr)) :=
  .look loc fun
    | some ⟨_, .dir names⟩ => .done (.ok names)
    | _ => .done (.error .osError)

theorem eval_isDir {files : Files} {loc : Location} {node : Node} {names : List PyStr}
    (h : files loc = some node) (hdir : node.content = .dir names) :
    (isDir loc).eval files = true := by
  obtain ⟨stat, content⟩ := node
  obtain rfl : content = .dir names := hdir
  rw [isDir, Reads.eval_look, h]
  rfl

theorem eval_iterdir {files : Files} {loc : Location} {node : Node} {names : List PyStr}
    (h : files loc = some node) (hdir : node.content = .dir names) :
    (iterdir loc).eval files = .ok names := by
  obtain ⟨stat, content⟩ := node
  obtain rfl : content = .dir names := hdir
  rw [iterdir, Reads.eval_look, h]
  rfl

/-- `open(path)`, read to the end. -/
def readBytes (loc : Location) : FileReads (Except PyErr Bytes) :=
  .look loc fun
    | some ⟨_, .file data⟩ => .done (.ok data)
    | _ => .done (.error .osError)

/-- What a reader that first asks whether the file exists gets of it. -/
def readIfExists (loc : Location) : FileReads (Except PyErr (Option Bytes)) := do
  if ← exists_ loc then return (← readBytes loc).map some
  else return .ok none

end FileReads

end Waxseal
