import Mathlib.Data.List.Forall2
import Mathlib.Data.List.ReduceOption
import Waxseal.Adapters.EvmReader
import Waxseal.Base.JsonIndent
import Waxseal.Base.PathReads
import Waxseal.Server.EnvelopeParsing

/-!
# Imported trails

`ImportStore` of `storage/imports.py`: an upload gets a directory of its own, with the trail and a
`meta.json` about it.  Every step of `create` may fail, and a write may have got to any byte.

What was returned stays what it was, and is listed, the latest first.  A `meta.json` that was not
finished is different from one that was not begun: `records()` reads them all and raises
(`importStore_lists`).
-/

namespace Waxseal

open Json

/-! ## Names -/

/-- `PurePath(name).suffix`, of the last component of a path. -/
def pathSuffix (name : PyStr) : PyStr :=
  let extension := name.rtakeWhile fun c => c ≠ .ofChar '.'
  if extension ≠ [] ∧ extension.length + 1 < name.length then .ofChar '.' :: extension else []

/-- `SUPPORTED_SUFFIXES`. -/
def supportedSuffixes : List PyStr := [str ".jsonl", str ".db", str ".sqlite", str ".sqlite3"]

/-- `Path(filename.replace("\\", "/")).name`. -/
def uploadName (filename : PyStr) : PyStr :=
  (PurePath.ofStr (filename.map fun c =>
    if c = .ofChar '\\' then .ofChar '/' else c)).name

/-- The suffix of an upload is one there is a backend for. -/
def hasBackend (name : PyStr) : Bool := lowerAscii (pathSuffix name) ∈ supportedSuffixes

/-- `_META_NAME`. -/
def metaName : PyStr := str "meta.json"

/-- `IMPORT_ID_RE.match(value)`, also with a last newline. -/
def isImportId (s : PyStr) : Bool :=
  match if s.getLast? = some 0x0A then s.dropLast else s with
  | id => id.length = 32 && isLowerHex id

/-- What is about a trail is beside it, not in its place. -/
theorem ne_metaName {name : PyStr} (h : hasBackend name = true) : name ≠ metaName := by
  rintro rfl
  exact absurd h (by decide +kernel)

/-! ## Records -/

/-- `ImportRecord`. -/
structure ImportRecord where
  importId : PyStr
  filename : PyStr
  size : ℕ
  sha256 : PyStr
  importedAt : PyStr
  ordinal : ℕ
  deriving DecidableEq

namespace ImportRecord

/-- `to_json()`, with `sort_keys`. -/
def members (r : ImportRecord) : List (PyStr × Json) :=
  [(str "filename", .str r.filename), (str "import_id", .str r.importId),
    (str "imported_at", .str r.importedAt), (str "ordinal", .int r.ordinal),
    (str "sha256", .str r.sha256), (str "size", .int r.size)]

/-- `ImportRecord(**obj)`, of an object that was written for one. -/
def ofMembers (members : List (PyStr × Json)) : Except PyErr ImportRecord :=
  match members with
  | [(_, .str filename), (_, .str importId), (_, .str importedAt), (_, .int ordinal),
      (_, .str sha256), (_, .int size)] =>
      if members.map Prod.fst = [str "filename", str "import_id", str "imported_at", str "ordinal",
          str "sha256", str "size"] then
        .ok ⟨importId, filename, size.toNat, sha256, importedAt, ordinal.toNat⟩
      else .error .typeError
  | _ => .error .typeError

/-- The same of any JSON value. -/
def ofJson : Json → Except PyErr ImportRecord
  | .obj members => ofMembers members
  | _ => .error .typeError

/-- A record whose texts JSON gives back. -/
structure Readable (r : ImportRecord) : Prop where
  importId : NoSurrogatePair r.importId
  filename : NoSurrogatePair r.filename
  importedAt : NoSurrogatePair r.importedAt
  sha256 : NoSurrogatePair r.sha256

theorem ofJson_members (r : ImportRecord) : ofJson (.obj r.members) = .ok r := rfl

section

variable [Interpreter]

/-- The bytes of `meta.json`. -/
def metaBytes (r : ImportRecord) : Bytes := asciiBytes (dumpsIndent 2 0 (.obj r.members))

theorem writable_members {r : ImportRecord} (h : r.Readable) :
    Writable recursionLimit (.obj r.members) := by
  have hone : Writable 1 (.obj r.members) := by
    have hkeys : (r.members.map Prod.fst).Nodup := by
      show [str "filename", str "import_id", str "imported_at", str "ordinal", str "sha256",
        str "size"].Nodup
      decide +kernel
    refine ⟨hkeys, ?_⟩
    simp only [members, List.forall_mem_cons, List.not_mem_nil, false_imp_iff, implies_true,
      and_true]
    exact ⟨⟨noSurrogatePair_str rfl, h.filename⟩, ⟨noSurrogatePair_str rfl, h.importId⟩,
      ⟨noSurrogatePair_str rfl, h.importedAt⟩, ⟨noSurrogatePair_str rfl, trivial⟩,
      ⟨noSurrogatePair_str rfl, h.sha256⟩, noSurrogatePair_str rfl, trivial⟩
  exact hone.mono (le_trans (by decide) Interpreter.recursionLimit_large)

/-- **A record is read back.** -/
theorem loadsText_metaBytes {r : ImportRecord} (h : r.Readable) :
    loadsText r.metaBytes >>= ofJson = .ok r := by
  have hread := @readText_dumpsIndent _ 2 0 _ _ (writable_members h)
  have hload : loadsText r.metaBytes = .ok (.obj r.members) := by
    rw [loadsText, metaBytes]
    cases htext : decodeUtf8 (asciiBytes (dumpsIndent 2 0 (.obj r.members))) with
    | none =>
        rw [htext] at hread
        cases hread
    | some s =>
        rw [htext] at hread
        dsimp only
        rw [Option.some.inj hread, loads_dumpsIndent (writable_members h)]
  rw [hload]
  exact ofJson_members r

/-- **A record that was not finished** is not. -/
theorem loadsText_torn {r : ImportRecord} (h : r.Readable) {n : ℕ} (hn : n < r.metaBytes.length) :
    ∃ e, loadsText (r.metaBytes.take n) >>= ofJson = .error e := by
  obtain ⟨text, htext⟩ : ∃ text, text = dumpsIndent 2 0 (.obj r.members) := ⟨_, rfl⟩
  have hlined : ∀ c ∈ text.take n, IsLined c := by
    intro c hc
    exact isLined_dumpsIndent (writable_members h) c (htext ▸ List.mem_of_mem_take hc)
  have hascii : isAscii (text.take n) = true := by
    refine List.all_eq_true.mpr fun c hc => decide_eq_true ?_
    rcases hlined c hc with hprint | hline
    · have := hprint.2
      omega
    · omega
  -- the file is ASCII without carriage returns, so reading it as text changes nothing
  have hlines : universalNewlines (text.take n) = text.take n := by
    apply universalNewlines_eq_self
    intro c hc
    rcases hlined c hc with hprint | hline
    · have := hprint.1
      omega
    · omega
  have hbytes : r.metaBytes.take n = asciiBytes (text.take n) := by
    rw [metaBytes, ← htext, asciiBytes, asciiBytes, List.map_take]
  have hrest : text.drop n ≠ [] := by
    rw [metaBytes, ← htext, length_asciiBytes] at hn
    exact List.drop_eq_nil_iff.not.mpr (by omega)
  have hsplit : text.take n ++ text.drop n = dumpsIndent 2 0 (.obj r.members) :=
    (List.take_append_drop n text).trans htext
  rw [hbytes, loadsText, decodeUtf8_encode (encodeUtf8_ascii hascii)]
  dsimp only
  rw [hlines]
  cases hload : loads (text.take n) with
  | error e => exact ⟨e, rfl⟩
  | ok v => exact absurd hload (loads_torn_dumpsIndent (writable_members h) hsplit hrest v)

end

end ImportRecord

/-! ## The directories -/

/-- A directory below the root: its name, and its files. -/
structure ImportDir where
  importId : PyStr
  files : PyStr → Option Bytes

/-- The directories, in the order they were made. -/
abbrev ImportRoot := List ImportDir

/-- Where a `create` fails.  A write has got to this byte; `none` when the file was not opened. -/
inductive ImportFault where
  | mkdir
  | writeTrail (written : Option ℕ)
  /-- Behind the write of the trail: `chmod`, or a look at the directories. -/
  | chmod
  | writeMeta (written : Option ℕ)
  deriving DecidableEq

/-- An upload, with what the identifier and the clock give it. -/
structure Upload where
  filename : PyStr
  data : Bytes
  importId : PyStr
  now : PyStr
  fault : Option ImportFault

/-- What `create` raises. -/
inductive ImportError where
  /-- `waxseal has no backend for`. -/
  | noBackend
  /-- `an empty upload is not a trail`. -/
  | empty
  | invalidIdentifier
  | osError
  deriving DecidableEq

/-- A file that was written to this byte. -/
def writtenFile (name : PyStr) (data : Bytes) (written : Option ℕ) (files : PyStr → Option Bytes) :
    PyStr → Option Bytes :=
  match written with
  | none => files
  | some n => Function.update files name (some (data.take n))

@[simp] theorem writtenFile_self (name : PyStr) (data : Bytes) (n : ℕ)
    (files : PyStr → Option Bytes) :
    writtenFile name data (some n) files name = some (data.take n) := by
  rw [writtenFile, Function.update_self]

theorem writtenFile_of_ne {name other : PyStr} (h : other ≠ name) (data : Bytes)
    (written : Option ℕ) (files : PyStr → Option Bytes) :
    writtenFile name data written files other = files other := by
  cases written with
  | none => rfl
  | some n => rw [writtenFile, Function.update_of_ne h]

namespace ImportStore

/-- `_next_ordinal()`. -/
def nextOrdinal (root : ImportRoot) : ℕ := root.countP fun dir => (dir.files metaName).isSome

section

variable [Hashlib]

/-- The record of an upload. -/
def recordOf (u : Upload) (root : ImportRoot) : ImportRecord where
  importId := u.importId
  filename := uploadName u.filename
  size := u.data.length
  sha256 := hexdigest u.data
  importedAt := u.now
  ordinal := nextOrdinal root

variable [Interpreter]

/-- `create(filename, data)`, behind its checks. -/
def store (u : Upload) (root : ImportRoot) : Except ImportError ImportRecord × ImportRoot :=
  let name := uploadName u.filename
  let record := recordOf u root
  let trail := writtenFile name u.data (some u.data.length) fun _ => none
  match u.fault with
  | some .mkdir => (.error .osError, root)
  | some (.writeTrail written) =>
      (.error .osError, root ++ [⟨u.importId, writtenFile name u.data written fun _ => none⟩])
  | some .chmod => (.error .osError, root ++ [⟨u.importId, trail⟩])
  | some (.writeMeta written) =>
      (.error .osError, root ++ [⟨u.importId, writtenFile metaName record.metaBytes written trail⟩])
  | none =>
      (.ok record, root ++ [⟨u.importId,
        writtenFile metaName record.metaBytes (some record.metaBytes.length) trail⟩])

/-- `create(filename, data)`. -/
def create (u : Upload) (root : ImportRoot) : Except ImportError ImportRecord × ImportRoot :=
  if !hasBackend (uploadName u.filename) then (.error .noBackend, root)
  else if u.data = [] then (.error .empty, root)
  else if !isImportId u.importId then (.error .invalidIdentifier, root)
  else if root.any fun dir => dir.importId = u.importId then (.error .osError, root)
  else store u root

end

section

variable [Interpreter]

/-- `get(import_id)`. -/
def get (root : ImportRoot) (importId : PyStr) : Except PyErr (Option ImportRecord) :=
  if !isImportId importId then .ok none
  else
    match root.find? fun dir => dir.importId = importId with
    | none => .ok none
    | some dir =>
        match dir.files metaName with
        | none => .ok none
        | some file => (loadsText file >>= ImportRecord.ofJson).map some

/-- The records of the directories that are listed. -/
def found (root : ImportRoot) : List PyStr → Except PyErr (List ImportRecord)
  | [] => .ok []
  | importId :: listing => do
      let record ← get root importId
      return record.toList ++ (← found root listing)

/-- `records()`, the directories being listed in this order. -/
def records (root : ImportRoot) (listing : List PyStr) : Except PyErr (List ImportRecord) := do
  return (← found root listing).mergeSort fun a b => b.ordinal ≤ a.ordinal

end

end ImportStore

/-! ## What is kept -/

/-- What the server gives an upload: an identifier that is `uuid4().hex`, a clock that writes ASCII,
a file name that was decoded from bytes. -/
structure Upload.Proper (u : Upload) : Prop where
  importId : u.importId.length = 32 ∧ isLowerHex u.importId = true
  filename : ∀ c ∈ u.filename, c.isSurrogate = false
  now : ∀ c ∈ u.now, c.val < 0x80

theorem mem_of_mem_splitOn {s part : PyStr} {sep c : CodePoint} (hpart : part ∈ s.splitOn sep)
    (hc : c ∈ part) : c ∈ s := by
  have hintersperse : ∀ parts : List PyStr, part ∈ parts → part ∈ parts.intersperse [sep] := by
    intro parts
    induction parts with
    | nil => exact id
    | cons first parts ih =>
        intro hmem
        cases parts with
        | nil => exact hmem
        | cons next parts =>
            rcases List.mem_cons.mp hmem with rfl | hmem
            · exact List.mem_cons_self
            · exact List.mem_cons_of_mem _ (List.mem_cons_of_mem _ (ih hmem))
  have hjoined : [sep].intercalate (s.splitOn sep) = s := List.intercalate_splitOn sep
  rw [← hjoined]
  exact List.mem_flatten.mpr ⟨part, hintersperse _ hpart, hc⟩

/-- The name of an upload is made of its characters. -/
theorem isSurrogate_uploadName {filename : PyStr} (h : ∀ c ∈ filename, c.isSurrogate = false) :
    ∀ c ∈ uploadName filename, c.isSurrogate = false := by
  intro c hc
  rw [uploadName, PurePath.name] at hc
  cases hlast : (PurePath.ofStr (filename.map fun c =>
      if c = .ofChar '\\' then .ofChar '/' else c)).parts.getLast? with
  | none =>
      rw [hlast] at hc
      exact absurd hc List.not_mem_nil
  | some part =>
      rw [hlast] at hc
      have hpart := List.mem_of_mem_filter (List.mem_of_getLast? hlast)
      obtain ⟨d, hd, rfl⟩ := List.mem_map.mp (mem_of_mem_splitOn hpart hc)
      split_ifs
      · rfl
      · exact h d hd

theorem isImportId_of_proper {u : Upload} (h : u.Proper) : isImportId u.importId = true := by
  have hlast : ¬ u.importId.getLast? = some 0x0A := by
    intro hlast
    exact absurd (isPrintable_of_isLowerHex h.importId.2 _ (List.mem_of_getLast? hlast)) (by decide)
  rw [isImportId, if_neg hlast]
  exact Bool.and_eq_true_iff.mpr ⟨decide_eq_true h.importId.1, h.importId.2⟩

section

variable [Hashlib] [Interpreter]

/-- A `meta.json` that cannot be read. -/
def ImportDir.Torn (dir : ImportDir) : Prop :=
  ∃ file, dir.files metaName = some file ∧ ∃ e, loadsText file >>= ImportRecord.ofJson = .error e

/-- A directory keeps a trail, and at least the beginning of its record. -/
structure ImportDir.Keeps (dir : ImportDir) (r : ImportRecord) (data : Bytes) : Prop where
  importId : r.importId = dir.importId
  trail : dir.files r.filename = some data
  size : r.size = data.length
  sha256 : r.sha256 = hexdigest data
  readable : r.Readable
  begun : ∃ n, dir.files metaName = some (r.metaBytes.take n)

/-- What a directory keeps: nothing without a `meta.json`. -/
def ImportDir.Fits (dir : ImportDir) : Option (ImportRecord × Bytes) → Prop
  | none => dir.files metaName = none
  | some kept => dir.Keeps kept.1 kept.2

/-- What holds of the directories, `slots` being what each of them keeps. -/
structure ImportRoot.Sound (root : ImportRoot) (slots : List (Option (ImportRecord × Bytes))) :
    Prop where
  ids : (root.map ImportDir.importId).Nodup
  shapes : ∀ dir ∈ root, isImportId dir.importId = true
  fits : List.Forall₂ ImportDir.Fits root slots
  ordinals : slots.reduceOption.map (fun kept => kept.1.ordinal) =
    List.range slots.reduceOption.length

/-- The next ordinal is the number of records. -/
theorem nextOrdinal_eq {root : ImportRoot} {slots : List (Option (ImportRecord × Bytes))}
    (h : List.Forall₂ ImportDir.Fits root slots) :
    ImportStore.nextOrdinal root = slots.reduceOption.length := by
  induction h with
  | nil => rfl
  | @cons dir slot root slots hfits _ ih =>
      rw [ImportStore.nextOrdinal, List.countP_cons] at *
      cases slot with
      | none =>
          have hnone : dir.files metaName = none := hfits
          rw [hnone, ih]
          rfl
      | some kept =>
          obtain ⟨n, hn⟩ := hfits.begun
          rw [hn, ih]
          rfl

theorem soundImports_nil : ImportRoot.Sound [] [] where
  ids := .nil
  shapes := nofun
  fits := .nil
  ordinals := rfl

/-- Another directory. -/
theorem ImportRoot.Sound.append {root : ImportRoot} {slots : List (Option (ImportRecord × Bytes))}
    (h : root.Sound slots) {dir : ImportDir} {slot : Option (ImportRecord × Bytes)}
    (hnew : ∀ other ∈ root, other.importId ≠ dir.importId) (hshape : isImportId dir.importId = true)
    (hfits : dir.Fits slot) (hordinal : ∀ kept, slot = some kept →
      kept.1.ordinal = ImportStore.nextOrdinal root) :
    ImportRoot.Sound (root ++ [dir]) (slots ++ [slot]) where
  ids := by
    rw [List.map_append, List.nodup_append]
    refine ⟨h.ids, List.nodup_singleton _, ?_⟩
    intro id hid id' hid'
    obtain ⟨other, hother, rfl⟩ := List.mem_map.mp hid
    rw [List.map_singleton, List.mem_singleton] at hid'
    rw [hid']
    exact hnew other hother
  shapes := by
    rw [List.forall_mem_append, List.forall_mem_singleton]
    exact ⟨h.shapes, hshape⟩
  fits := List.rel_append h.fits (.cons hfits .nil)
  ordinals := by
    rw [List.reduceOption_append]
    cases slot with
    | none => simpa using h.ordinals
    | some kept =>
        have hkept : [some kept].reduceOption = [kept] := rfl
        rw [hkept, List.map_append, h.ordinals, List.map_singleton, hordinal kept rfl,
          nextOrdinal_eq h.fits, List.length_append, List.length_singleton, List.range_succ]

omit [Interpreter] in
/-- The record of an upload can be read back. -/
theorem readable_recordOf {u : Upload} (hu : u.Proper) (root : ImportRoot) :
    (ImportStore.recordOf u root).Readable where
  importId := noSurrogatePair_of_isLowerHex hu.importId.2
  filename := noSurrogatePair_of_isSurrogate (isSurrogate_uploadName hu.filename)
  importedAt := noSurrogatePair_of_ascii hu.now
  sha256 := noSurrogatePair_of_isLowerHex (isLowerHex_hex _)

/-- What `create` has stored: all of it, or what a fault has left. -/
theorem store_fits {u : Upload} (hu : u.Proper) (hname : hasBackend (uploadName u.filename) = true)
    (root : ImportRoot) :
    let out := ImportStore.store u root
    let record := ImportStore.recordOf u root
    (out.2 = root ∧ ∃ e, out.1 = .error e) ∨
      ∃ dir, out.2 = root ++ [dir] ∧ dir.importId = u.importId ∧
        ((dir.Fits none ∧ ∃ e, out.1 = .error e) ∨
          dir.Fits (some (record, u.data)) ∧
            (out.1 = .ok record ∧ dir.files metaName = some record.metaBytes ∨
              (∃ e, out.1 = .error e) ∧ ∃ n, u.fault = some (.writeMeta (some n)))) := by
  intro out record
  have hne : uploadName u.filename ≠ metaName := ne_metaName hname
  have hreadable : record.Readable := readable_recordOf hu root
  -- the trail, and the record as far as it was written
  have keeps : ∀ n, ImportDir.Keeps ⟨u.importId, writtenFile metaName record.metaBytes (some n)
      (writtenFile (uploadName u.filename) u.data (some u.data.length) fun _ => none)⟩ record
      u.data := by
    intro n
    refine ⟨rfl, ?_, rfl, rfl, hreadable, n, ?_⟩
    · have hname : record.filename = uploadName u.filename := rfl
      dsimp only
      rw [hname, writtenFile_of_ne hne, writtenFile_self, List.take_length]
    · dsimp only
      rw [writtenFile_self]
  have bare : ∀ written, ImportDir.Fits ⟨u.importId,
      writtenFile (uploadName u.filename) u.data written fun _ => none⟩ none := by
    intro written
    exact writtenFile_of_ne hne.symm ..
  have hout : out = ImportStore.store u root := rfl
  rw [ImportStore.store] at hout
  cases hfault : u.fault with
  | none =>
      rw [hfault] at hout
      rw [hout]
      refine .inr ⟨_, rfl, rfl, .inr ⟨keeps _, .inl ⟨rfl, ?_⟩⟩⟩
      dsimp only
      rw [writtenFile_self, List.take_length]
  | some fault =>
      rw [hfault] at hout
      cases fault with
      | mkdir =>
          rw [hout]
          exact .inl ⟨rfl, _, rfl⟩
      | writeTrail written =>
          rw [hout]
          exact .inr ⟨_, rfl, rfl, .inl ⟨bare written, _, rfl⟩⟩
      | chmod =>
          rw [hout]
          exact .inr ⟨_, rfl, rfl, .inl ⟨bare _, _, rfl⟩⟩
      | writeMeta written =>
          rw [hout]
          cases written with
          | none => exact .inr ⟨_, rfl, rfl, .inl ⟨bare (some u.data.length), _, rfl⟩⟩
          | some n => exact .inr ⟨_, rfl, rfl, .inr ⟨keeps n, .inr ⟨⟨_, rfl⟩, n, rfl⟩⟩⟩

/-- A directory without a record, or with a whole one, is not torn. -/
theorem not_torn_of_fits {dir : ImportDir} {slot : Option (ImportRecord × Bytes)}
    (hfits : dir.Fits slot)
    (hwhole : ∀ kept, slot = some kept → dir.files metaName = some kept.1.metaBytes) :
    ¬ dir.Torn := by
  rintro ⟨file, hfile, e, he⟩
  cases slot with
  | none =>
      have hnone : dir.files metaName = none := hfits
      cases hnone.symm.trans hfile
  | some kept =>
      obtain rfl := Option.some.inj ((hwhole kept rfl).symm.trans hfile)
      rw [ImportRecord.loadsText_metaBytes hfits.readable] at he
      cases he

/-- What an upload leaves: directories behind those there were, and what they keep. -/
structure Leaves (u : Upload) (root : ImportRoot) (slots : List (Option (ImportRecord × Bytes)))
    (out : Except ImportError ImportRecord × ImportRoot) (dirs : List ImportDir)
    (more : List (Option (ImportRecord × Bytes))) : Prop where
  after : out.2 = root ++ dirs
  sound : ImportRoot.Sound (root ++ dirs) (slots ++ more)
  returned : ∀ r, out.1 = .ok r → more = [some (r, u.data)] ∧
    ∃ dir, dirs = [dir] ∧ dir.Keeps r u.data ∧ dir.files metaName = some r.metaBytes
  torn : ∀ dir ∈ dirs, dir.Torn → ∃ n, u.fault = some (.writeMeta (some n))

/-- **An upload**, whatever it comes to. -/
theorem create_leaves {root : ImportRoot} {slots : List (Option (ImportRecord × Bytes))}
    (h : root.Sound slots) {u : Upload} (hu : u.Proper) :
    ∃ dirs more, Leaves u root slots (ImportStore.create u root) dirs more := by
  obtain ⟨out, hout⟩ : ∃ out, out = ImportStore.create u root := ⟨_, rfl⟩
  rw [← hout]
  -- a call that leaves the store as it was
  have refused : ∀ e, out = (.error e, root) → ∃ dirs more, Leaves u root slots out dirs more := by
    intro e he
    refine ⟨[], [], ?_, ?_, ?_, nofun⟩
    · rw [he, List.append_nil]
    · rwa [List.append_nil, List.append_nil]
    · intro r hr
      rw [he] at hr
      cases hr
  rw [ImportStore.create] at hout
  split_ifs at hout with hbackend hempty hid hexists
  · exact refused _ hout
  · exact refused _ hout
  · exact refused _ hout
  · exact refused _ hout
  rw [Bool.not_eq_true', Bool.not_eq_false] at hbackend
  have hnew : ∀ other ∈ root, other.importId ≠ u.importId := by
    intro other hother hsame
    exact hexists (List.any_eq_true.mpr ⟨other, hother, decide_eq_true hsame⟩)
  have hfits := store_fits hu hbackend root
  rw [← hout] at hfits
  rcases hfits with ⟨hsame, e, he⟩ | ⟨dir, hdir, hdirId, hslot⟩
  · exact refused e (Prod.ext he hsame)
  rw [← hdirId] at hnew
  have hshape : isImportId dir.importId = true := hdirId ▸ isImportId_of_proper hu
  -- a directory is there: it is without a record, or it keeps the one of the upload
  rcases hslot with ⟨hbare, e, he⟩ | ⟨hkeeps, hanswer⟩
  · refine ⟨[dir], [none], hdir, h.append hnew hshape hbare nofun, ?_, ?_⟩
    · intro r hr
      rw [he] at hr
      cases hr
    · rw [List.forall_mem_singleton]
      exact fun htorn => absurd htorn (not_torn_of_fits hbare nofun)
  · refine ⟨[dir], [some (ImportStore.recordOf u root, u.data)], hdir,
      h.append hnew hshape hkeeps ?_, ?_, ?_⟩
    · intro kept hkept
      obtain rfl := (Option.some.inj hkept).symm
      rfl
    · intro r hr
      rcases hanswer with ⟨hok, hwhole⟩ | ⟨⟨e, he⟩, -⟩
      · rw [hok] at hr
        obtain rfl := Except.ok.inj hr
        exact ⟨rfl, dir, rfl, hkeeps, hwhole⟩
      · rw [he] at hr
        cases hr
    · rw [List.forall_mem_singleton]
      intro htorn
      rcases hanswer with ⟨-, hwhole⟩ | ⟨-, hfault⟩
      · refine absurd htorn (not_torn_of_fits hkeeps ?_)
        intro kept hkept
        obtain rfl := (Option.some.inj hkept).symm
        exact hwhole
      · exact hfault

/-- What returns is the record of the upload, which was one to store. -/
theorem create_ok {u : Upload} {root root' : ImportRoot} {r : ImportRecord}
    (h : ImportStore.create u root = (.ok r, root')) :
    hasBackend (uploadName u.filename) = true ∧ u.data ≠ [] ∧ r = ImportStore.recordOf u root := by
  rw [ImportStore.create] at h
  split_ifs at h with hbackend hempty hid hexists
  · cases h
  · cases h
  · cases h
  · cases h
  · rw [Bool.not_eq_true', Bool.not_eq_false] at hbackend
    refine ⟨hbackend, hempty, ?_⟩
    rw [ImportStore.store] at h
    split at h
    · cases h
    · cases h
    · cases h
    · cases h
    · exact (Except.ok.inj (Prod.mk.inj h).1).symm

/-- An upload under a new identifier, where nothing fails. -/
theorem create_undisturbed {u : Upload} (hu : u.Proper) (hfault : u.fault = none)
    {root : ImportRoot} (hnew : ∀ dir ∈ root, dir.importId ≠ u.importId) :
    (∃ r, (ImportStore.create u root).1 = .ok r) ↔
      hasBackend (uploadName u.filename) = true ∧ u.data ≠ [] := by
  constructor
  · rintro ⟨r, hr⟩
    obtain ⟨hbackend, hdata, -⟩ := create_ok (Prod.ext hr rfl)
    exact ⟨hbackend, hdata⟩
  · rintro ⟨hbackend, hdata⟩
    have hfree : ¬ (root.any fun dir => dir.importId = u.importId) = true := by
      rw [List.any_eq_true]
      rintro ⟨dir, hdir, hsame⟩
      exact hnew dir hdir (of_decide_eq_true hsame)
    refine ⟨ImportStore.recordOf u root, ?_⟩
    rw [ImportStore.create, hbackend, isImportId_of_proper hu, if_neg (by decide), if_neg hdata,
      if_neg (by decide), if_neg hfree, ImportStore.store, hfault]

/-! ## Reading back -/

section Reading

variable {root : ImportRoot} {slots : List (Option (ImportRecord × Bytes))}

/-- An identifier leads to its directory. -/
theorem ImportRoot.Sound.find_eq (h : root.Sound slots) {dir : ImportDir} (hdir : dir ∈ root) :
    root.find? (fun other => other.importId = dir.importId) = some dir := by
  cases hfound : root.find? fun other => other.importId = dir.importId with
  | none =>
      have hnone := List.find?_eq_none.mp hfound dir hdir
      exact absurd (decide_eq_true rfl) hnone
  | some other =>
      have hsame := List.find?_some hfound
      rw [decide_eq_true_iff] at hsame
      exact congrArg some
        (List.inj_on_of_nodup_map h.ids (List.mem_of_find?_eq_some hfound) hdir hsame)

theorem ImportRoot.Sound.get_eq (h : root.Sound slots) {dir : ImportDir} (hdir : dir ∈ root) :
    ImportStore.get root dir.importId =
      match dir.files metaName with
      | none => .ok none
      | some file => (loadsText file >>= ImportRecord.ofJson).map some := by
  rw [ImportStore.get, h.shapes dir hdir, h.find_eq hdir]
  rfl

/-- What a directory without damage gives. -/
theorem get_of_fits (h : root.Sound slots) {dir : ImportDir} (hdir : dir ∈ root)
    {slot : Option (ImportRecord × Bytes)} (hfits : dir.Fits slot) (hwhole : ¬ dir.Torn) :
    ImportStore.get root dir.importId = .ok (slot.map Prod.fst) := by
  rw [h.get_eq hdir]
  cases slot with
  | none =>
      have hnone : dir.files metaName = none := hfits
      rw [hnone]
      rfl
  | some kept =>
      obtain ⟨n, hn⟩ := hfits.begun
      rw [hn]
      rcases Nat.lt_or_ge n kept.1.metaBytes.length with hlt | hge
      · exact absurd ⟨_, hn, ImportRecord.loadsText_torn hfits.readable hlt⟩ hwhole
      · dsimp only
        rw [List.take_of_length_le hge, ImportRecord.loadsText_metaBytes hfits.readable]
        rfl

omit [Hashlib] in
theorem found_eq {listing : List PyStr} {f : PyStr → Option ImportRecord}
    (h : ∀ importId ∈ listing, ImportStore.get root importId = .ok (f importId)) :
    ImportStore.found root listing = .ok (listing.filterMap f) := by
  induction listing with
  | nil => rfl
  | cons importId listing ih =>
      rw [List.forall_mem_cons] at h
      rw [ImportStore.found, h.1, ih h.2]
      cases hf : f importId with
      | none =>
          rw [List.filterMap_cons_none hf]
          rfl
      | some r =>
          rw [List.filterMap_cons_some hf]
          rfl

omit [Hashlib] in
/-- One record that cannot be read, and none is listed. -/
theorem found_error {listing : List PyStr} {importId : PyStr} (hmem : importId ∈ listing)
    (h : ∃ e, ImportStore.get root importId = .error e) :
    ∃ e, ImportStore.found root listing = .error e := by
  induction listing with
  | nil => cases hmem
  | cons first listing ih =>
      rw [ImportStore.found]
      rcases hfirst : ImportStore.get root first with e | record
      · exact ⟨e, rfl⟩
      · rcases List.mem_cons.mp hmem with rfl | hmem
        · obtain ⟨e, he⟩ := h
          cases he.symm.trans hfirst
        · obtain ⟨e, he⟩ := ih hmem
          rw [he]
          exact ⟨e, rfl⟩

/-- The records of undamaged directories, in the order they were made. -/
theorem filterMap_slots {dirs : List ImportDir} {slots : List (Option (ImportRecord × Bytes))}
    (hfits : List.Forall₂ ImportDir.Fits dirs slots) {f : PyStr → Option ImportRecord}
    (hf : ∀ dir ∈ dirs, ∀ slot, dir.Fits slot → f dir.importId = slot.map Prod.fst) :
    (dirs.map ImportDir.importId).filterMap f = slots.reduceOption.map Prod.fst := by
  induction hfits with
  | nil => rfl
  | @cons dir slot dirs slots hfirst _ ih =>
      rw [List.forall_mem_cons] at hf
      have hslot := hf.1 slot hfirst
      rw [List.map_cons]
      cases slot with
      | none => rw [List.filterMap_cons_none hslot, ih hf.2, List.reduceOption_cons_of_none]
      | some kept =>
          rw [List.filterMap_cons_some hslot, ih hf.2, List.reduceOption_cons_of_some,
            List.map_cons]

theorem ids_of_fits {dirs : List ImportDir} {slots : List (Option (ImportRecord × Bytes))}
    (hfits : List.Forall₂ ImportDir.Fits dirs slots) :
    (slots.reduceOption.map fun kept => kept.1.importId).Sublist
      (dirs.map ImportDir.importId) := by
  induction hfits with
  | nil => exact .slnil
  | @cons dir slot dirs slots hfirst _ ih =>
      cases slot with
      | none =>
          rw [List.reduceOption_cons_of_none]
          exact ih.cons _
      | some kept =>
          rw [List.reduceOption_cons_of_some, List.map_cons, List.map_cons, hfirst.importId]
          exact ih.cons_cons _

theorem exists_slot {dirs : List ImportDir} {slots : List (Option (ImportRecord × Bytes))}
    (hfits : List.Forall₂ ImportDir.Fits dirs slots) {dir : ImportDir} (hdir : dir ∈ dirs) :
    ∃ slot, dir.Fits slot := by
  induction hfits with
  | nil => cases hdir
  | cons hfirst _ ih =>
      rcases List.mem_cons.mp hdir with rfl | hdir
      · exact ⟨_, hfirst⟩
      · exact ih hdir

/-- **The listing of undamaged directories**: the latest first, in whatever order the file system
names them. -/
theorem records_eq (h : root.Sound slots) (hwhole : ∀ dir ∈ root, ¬ dir.Torn)
    {listing : List PyStr} (hlisting : listing.Perm (root.map ImportDir.importId)) :
    ImportStore.records root listing = .ok (slots.reduceOption.map Prod.fst).reverse := by
  obtain ⟨f, hf⟩ : ∃ f : PyStr → Option ImportRecord, ∀ dir ∈ root, ∀ slot, dir.Fits slot →
      ImportStore.get root dir.importId = .ok (f dir.importId) ∧
        f dir.importId = slot.map Prod.fst := by
    refine ⟨fun importId => (ImportStore.get root importId).toOption.join, ?_⟩
    intro dir hdir slot hfits
    have hget := get_of_fits h hdir hfits (hwhole dir hdir)
    simp only [hget]
    exact ⟨rfl, rfl⟩
  have hget : ∀ importId ∈ listing, ImportStore.get root importId = .ok (f importId) := by
    intro importId hmem
    obtain ⟨dir, hdir, rfl⟩ := List.mem_map.mp (hlisting.subset hmem)
    obtain ⟨slot, hfits⟩ := exists_slot h.fits hdir
    exact (hf dir hdir slot hfits).1
  have hrecords : (listing.filterMap f).Perm (slots.reduceOption.map Prod.fst) := by
    have hperm := hlisting.filterMap f
    rwa [filterMap_slots h.fits fun dir hdir slot hfits => (hf dir hdir slot hfits).2] at hperm
  have hordinals : ((slots.reduceOption.map Prod.fst).map ImportRecord.ordinal) =
      List.range slots.reduceOption.length := by
    rw [List.map_map]
    exact h.ordinals
  -- the ordinals are `0, 1, 2, …`, so sorting by them does not depend on the listing
  generalize slots.reduceOption.map Prod.fst = kept at hrecords hordinals ⊢
  have hsorted : kept.reverse.Pairwise fun a b => decide (b.ordinal ≤ a.ordinal) = true := by
    rw [List.pairwise_reverse]
    have hrange := List.pairwise_lt_range (n := slots.reduceOption.length)
    rw [← hordinals, List.pairwise_map] at hrange
    exact hrange.imp fun hlt => decide_eq_true hlt.le
  have hsort : ((listing.filterMap f).mergeSort fun a b => b.ordinal ≤ a.ordinal) =
      kept.reverse := by
    refine List.Perm.eq_of_pairwise ?_ (List.pairwise_mergeSort ?_ ?_ _) hsorted ?_
    · intro a b ha hb hab hba
      have ha : a ∈ kept := hrecords.subset ((List.mergeSort_perm _ _).subset ha)
      have hnodup : (kept.map ImportRecord.ordinal).Nodup := hordinals ▸ List.nodup_range
      refine List.inj_on_of_nodup_map hnodup ha (List.mem_reverse.mp hb) ?_
      exact le_antisymm (of_decide_eq_true hba) (of_decide_eq_true hab)
    · intro a b c hab hbc
      exact decide_eq_true (le_trans (of_decide_eq_true hbc) (of_decide_eq_true hab))
    · intro a b
      rw [Bool.or_eq_true, decide_eq_true_iff, decide_eq_true_iff]
      exact le_total _ _
    · exact ((List.mergeSort_perm _ _).trans hrecords).trans (List.reverse_perm kept).symm
  rw [ImportStore.records, found_eq hget]
  exact congrArg Except.ok hsort

/-- **The listing with damage**: none. -/
theorem records_error (h : root.Sound slots) (htorn : ∃ dir ∈ root, dir.Torn)
    {listing : List PyStr} (hlisting : listing.Perm (root.map ImportDir.importId)) :
    ∃ e, ImportStore.records root listing = .error e := by
  obtain ⟨dir, hdir, file, hfile, e, he⟩ := htorn
  have hget : ImportStore.get root dir.importId = .error e := by
    rw [h.get_eq hdir, hfile]
    dsimp only
    rw [he]
    rfl
  obtain ⟨e, he⟩ := found_error (hlisting.symm.subset (List.mem_map_of_mem hdir)) ⟨e, hget⟩
  rw [ImportStore.records, he]
  exact ⟨e, rfl⟩

end Reading

/-! ## Runs -/

/-- The directories, and what the uploads came to, each with its bytes. -/
structure ImportWorld where
  root : ImportRoot
  answers : List (Except ImportError ImportRecord × Bytes)

/-- The uploads that returned. -/
def ImportWorld.returned (w : ImportWorld) : List (ImportRecord × Bytes) :=
  w.answers.filterMap fun answer => answer.1.toOption.map fun r => (r, answer.2)

/-- One upload. -/
def ImportStore.step (w : ImportWorld) (u : Upload) : ImportWorld :=
  let out := ImportStore.create u w.root
  ⟨out.2, w.answers ++ [(out.1, u.data)]⟩

/-- The uploads to an empty store. -/
def ImportStore.run (uploads : List Upload) : ImportWorld :=
  uploads.foldl ImportStore.step ⟨[], []⟩

/-- What holds of a store behind these uploads. -/
structure ImportWorld.Sound (w : ImportWorld) (slots : List (Option (ImportRecord × Bytes)))
    (uploads : List Upload) : Prop where
  root : w.root.Sound slots
  returned : w.returned.Sublist slots.reduceOption
  whole : ∀ kept ∈ w.returned, ∃ dir ∈ w.root, dir.Keeps kept.1 kept.2 ∧
    dir.files metaName = some kept.1.metaBytes
  torn : ∀ dir ∈ w.root, dir.Torn → ∃ u ∈ uploads, ∃ n, u.fault = some (.writeMeta (some n))

section Runs

variable {w : ImportWorld} {slots : List (Option (ImportRecord × Bytes))} {before : List Upload}

theorem returned_step (w : ImportWorld) (u : Upload) :
    (ImportStore.step w u).returned = w.returned ++
      ((ImportStore.create u w.root).1.toOption.map fun r => (r, u.data)).toList := by
  rw [ImportStore.step, ImportWorld.returned, List.filterMap_append]
  cases (ImportStore.create u w.root).1 with
  | error e => rfl
  | ok r => rfl

theorem ImportWorld.Sound.step (h : w.Sound slots before) {u : Upload} (hu : u.Proper) :
    ∃ more, (ImportStore.step w u).Sound (slots ++ more) (before ++ [u]) := by
  obtain ⟨dirs, more, hleaves⟩ := create_leaves h.root hu
  have hroot : (ImportStore.step w u).root = w.root ++ dirs := hleaves.after
  have hreturned := returned_step w u
  have hold : ∀ kept ∈ w.returned, ∃ dir ∈ w.root ++ dirs,
      dir.Keeps kept.1 kept.2 ∧ dir.files metaName = some kept.1.metaBytes := by
    intro kept hkept
    obtain ⟨dir, hdir, hwhole⟩ := h.whole kept hkept
    exact ⟨dir, List.mem_append_left dirs hdir, hwhole⟩
  have htorn : ∀ dir ∈ w.root ++ dirs, dir.Torn →
      ∃ v ∈ before ++ [u], ∃ n, v.fault = some (.writeMeta (some n)) := by
    intro dir hdir hdamage
    rcases List.mem_append.mp hdir with hdir | hdir
    · obtain ⟨v, hv, hfault⟩ := h.torn dir hdir hdamage
      exact ⟨v, List.mem_append_left _ hv, hfault⟩
    · exact ⟨u, List.mem_append_right _ List.mem_cons_self, hleaves.torn dir hdir hdamage⟩
  rw [← hroot] at hold htorn
  rcases hcreate : (ImportStore.create u w.root).1 with e | r
  · have hsame : (ImportStore.step w u).returned = w.returned := by
      rw [hreturned, hcreate]
      exact List.append_nil _
    refine ⟨more, hroot ▸ hleaves.sound, ?_, hsame ▸ hold, htorn⟩
    rw [hsame, List.reduceOption_append]
    exact h.returned.trans (List.sublist_append_left _ _)
  · obtain ⟨rfl, dir, rfl, hwhole⟩ := hleaves.returned r hcreate
    have hnew : (ImportStore.step w u).returned = w.returned ++ [(r, u.data)] := by
      rw [hreturned, hcreate]
      rfl
    refine ⟨_, hroot ▸ hleaves.sound, ?_, ?_, htorn⟩
    · rw [hnew, List.reduceOption_append]
      exact h.returned.append_right [(r, u.data)]
    · rw [hnew, List.forall_mem_append, List.forall_mem_singleton]
      exact ⟨hold, dir, hroot ▸ List.mem_append_right _ List.mem_cons_self, hwhole⟩

/-- **A run.** -/
theorem ImportWorld.Sound.run (h : w.Sound slots before) {uploads : List Upload}
    (hproper : ∀ u ∈ uploads, u.Proper) :
    ∃ slots', (uploads.foldl ImportStore.step w).Sound slots' (before ++ uploads) := by
  induction uploads generalizing w slots before with
  | nil => exact ⟨slots, by rwa [List.append_nil]⟩
  | cons u uploads ih =>
      rw [List.forall_mem_cons] at hproper
      obtain ⟨more, hnext⟩ := h.step hproper.1
      have hrest := ih hnext hproper.2
      rwa [List.append_assoc] at hrest

/-- Every store is sound. -/
theorem soundImports_run {uploads : List Upload} (hproper : ∀ u ∈ uploads, u.Proper) :
    ∃ slots, (ImportStore.run uploads).Sound slots uploads := by
  have hstart : ImportWorld.Sound ⟨[], []⟩ [] [] := ⟨soundImports_nil, .slnil, nofun, nofun⟩
  exact hstart.run hproper

end Runs

/-- `trail_path(import_id)`, and what is there. -/
def ImportStore.trail (root : ImportRoot) (importId : PyStr) : Option Bytes :=
  match ImportStore.get root importId with
  | .ok (some r) =>
      (root.find? fun dir => dir.importId = importId).bind fun dir => dir.files r.filename
  | .ok none | .error _ => none

/-- A record that was returned is found again. -/
theorem ImportWorld.Sound.found {w : ImportWorld} {slots : List (Option (ImportRecord × Bytes))}
    {uploads : List Upload} (h : w.Sound slots uploads) {r : ImportRecord} {data : Bytes}
    (hkept : (r, data) ∈ w.returned) :
    ImportStore.get w.root r.importId = .ok (some r) ∧
      ImportStore.trail w.root r.importId = some data ∧
      r.size = data.length ∧ r.sha256 = hexdigest data := by
  obtain ⟨dir, hdir, hkeeps, hwhole⟩ := h.whole (r, data) hkept
  have hget : ImportStore.get w.root r.importId = .ok (some r) := by
    rw [hkeeps.importId, h.root.get_eq hdir, hwhole]
    dsimp only
    rw [ImportRecord.loadsText_metaBytes hkeeps.readable]
    rfl
  refine ⟨hget, ?_, hkeeps.size, hkeeps.sha256⟩
  rw [ImportStore.trail, hget]
  dsimp only
  rw [hkeeps.importId, h.root.find_eq hdir]
  exact hkeeps.trail

/-- No two records that were returned have the same identifier. -/
theorem ImportWorld.Sound.nodup_ids {w : ImportWorld}
    {slots : List (Option (ImportRecord × Bytes))} {uploads : List Upload}
    (h : w.Sound slots uploads) : (w.returned.map fun kept => kept.1.importId).Nodup := by
  exact ((h.returned.map _).trans (ids_of_fits h.root.fits)).nodup h.root.ids

end

/-- An upload, and one whose `meta.json` breaks off at the first byte. -/
def tornUploads : List Upload :=
  [⟨str "C:\\logs\\trail.JSONL", [0x7B], List.replicate 32 (.ofChar '0'), str "now", none⟩,
    ⟨str "trail.db", [0x7B], List.replicate 32 (.ofChar '1'), str "now",
      some (.writeMeta (some 1))⟩]

end Waxseal
