import Waxseal.Base.Base64
import Waxseal.Base.JsonLines
import Waxseal.Domain.Registry

/-!
# The entry envelope on disk

`adapters/_envelope.py`, and the header's JSON shape from `domain/header.py`.  An entry is
stored as one JSON object: its header, its entry hash, and its payload in base64.

`fromObj_storedMembers` is the round trip.  It holds for the entries the log can have
hashed: their strings have a UTF-8 form, so no two of their characters are a surrogate
pair that JSON would join.
-/

namespace Waxseal

open Json

/-! ## Headers -/

/-- `header_to_obj(header)`. -/
def headerToObj (header : EntryHeader) : Json :=
  .obj [(str "seq", .int header.seq), (str "ts", .str header.ts),
    (str "hash_version", .str header.hashVersion), (str "payload_type", .str header.payloadType),
    (str "payload_hash", .str header.payloadHash), (str "prev_hash", .str header.prevHash)]

section

variable [Interpreter]

/-- `header_from_obj(obj)`. -/
def headerFromObj (obj : Json) : Except PyErr EntryHeader :=
  match obj with
  | .obj members =>
      if headerFields.all fun field => members.any (·.1 = field) then do
        let seq ← match pyInt (← getItem obj (str "seq")) with
          | .ok n => .ok n
          | .error e => .error (if e = .typeError ∨ e.isValueError = true then .valueError else e)
        return {
          seq := seq
          ts := pyStr (← getItem obj (str "ts"))
          hashVersion := pyStr (← getItem obj (str "hash_version"))
          payloadType := pyStr (← getItem obj (str "payload_type"))
          payloadHash := pyStr (← getItem obj (str "payload_hash"))
          prevHash := pyStr (← getItem obj (str "prev_hash")) }
      else .error .valueError
  | _ => .error .valueError

end

/-! ## Entries -/

/-- `to_obj(entry)`; an entry without its payload bytes cannot be stored. -/
def toObj (entry : Entry) : Except PyErr Json :=
  match entry.payload with
  | none => .error .valueError
  | some payload =>
      .ok (.obj [(str "header", headerToObj entry.header), (str "entry_hash", .str entry.entryHash),
        (str "payload_b64", .str (b64encode payload))])

section

variable [Interpreter]

/-- `from_obj(obj)`. -/
def fromObj (obj : Json) : Except PyErr Entry := do
  let header ← headerFromObj (← getItem obj (str "header"))
  let entryHash := pyStr (← getItem obj (str "entry_hash"))
  let payload ← b64decode (pyStr (← getItem obj (str "payload_b64")))
  return { header := header, entryHash := entryHash, payload := some payload }

/-- `tail_fields(obj)`: the position and the hash of a stored entry. -/
def tailFields (obj : Json) : Except PyErr (ℤ × PyStr) := do
  let seq ← pyInt (← getItem (← getItem obj (str "header")) (str "seq"))
  return (seq, pyStr (← getItem obj (str "entry_hash")))

/-- `str(obj["entry_hash"])`. -/
def entryHashField (obj : Json) : Except PyErr PyStr := do
  return pyStr (← getItem obj (str "entry_hash"))

/-- `json.dumps(to_obj(entry), sort_keys=True, separators=(",", ":"))`. -/
def entryLine (entry : Entry) : Except PyErr PyStr := do
  return dumps .compact (sortKeys (← toObj entry))

end

/-! ## Round trip -/

/-- The members of a stored entry, in the order they are written. -/
def storedMembers (entry : Entry) : List (PyStr × Json) :=
  [(str "entry_hash", .str entry.entryHash),
    (str "header", .obj [(str "hash_version", .str entry.header.hashVersion),
      (str "payload_hash", .str entry.header.payloadHash),
      (str "payload_type", .str entry.header.payloadType),
      (str "prev_hash", .str entry.header.prevHash), (str "seq", .int entry.header.seq),
      (str "ts", .str entry.header.ts)]),
    (str "payload_b64", .str (b64encode (entry.payload.getD [])))]

/-- An entry whose JSON form can be read back: it has its payload, and no string of it
holds a surrogate pair. -/
structure Storable (entry : Entry) : Prop where
  payload : entry.payload.isSome = true
  ts : NoSurrogatePair entry.header.ts
  hashVersion : NoSurrogatePair entry.header.hashVersion
  payloadType : NoSurrogatePair entry.header.payloadType
  payloadHash : NoSurrogatePair entry.header.payloadHash
  prevHash : NoSurrogatePair entry.header.prevHash
  entryHash : NoSurrogatePair entry.entryHash

variable [Interpreter]

/-- The text of a stored entry. -/
def storedText (entry : Entry) : PyStr := dumps .compact (.obj (storedMembers entry))

theorem entryLine_eq {entry : Entry} (h : entry.payload.isSome = true) :
    entryLine entry = .ok (storedText entry) := by
  obtain ⟨header, entryHash, payload⟩ := entry
  obtain ⟨payload, rfl⟩ := Option.isSome_iff_exists.mp h
  rfl

theorem entryLine_ok {entry : Entry} {line : PyStr} (h : entryLine entry = .ok line) :
    entry.payload.isSome = true ∧ line = storedText entry := by
  cases hpayload : entry.payload with
  | none =>
      rw [entryLine, toObj, hpayload] at h
      cases h
  | some payload =>
      have hsome : entry.payload.isSome = true := by rw [hpayload]; rfl
      rw [entryLine_eq hsome] at h
      exact ⟨rfl, (Except.ok.inj h).symm⟩

omit [Interpreter] in
/-- A stored entry is two objects deep. -/
theorem writable_two_storedMembers {entry : Entry} (h : Storable entry) :
    Writable 2 (.obj (storedMembers entry)) := by
  have key : ∀ {s : PyStr}, s.all (fun c => IsPrintable c) = true → NoSurrogatePair s :=
    noSurrogatePair_str
  have hkeys : [str "entry_hash", str "header", str "payload_b64"].Nodup := by decide
  have hheader : [str "hash_version", str "payload_hash", str "payload_type", str "prev_hash",
      str "seq", str "ts"].Nodup := by decide
  refine ⟨hkeys, ?_⟩
  simp only [storedMembers, List.forall_mem_cons, List.not_mem_nil, false_imp_iff, implies_true,
    and_true]
  refine ⟨⟨key rfl, h.entryHash⟩, ⟨key rfl, hheader, ?_⟩, key rfl,
    noSurrogatePair_of_printable (b64encode_val _)⟩
  simp only [List.forall_mem_cons, List.not_mem_nil, false_imp_iff, implies_true, and_true]
  exact ⟨⟨key rfl, h.hashVersion⟩, ⟨key rfl, h.payloadHash⟩, ⟨key rfl, h.payloadType⟩,
    ⟨key rfl, h.prevHash⟩, ⟨key rfl, trivial⟩, key rfl, h.ts⟩

theorem writable_storedMembers {entry : Entry} (h : Storable entry) :
    Writable recursionLimit (.obj (storedMembers entry)) :=
  (writable_two_storedMembers h).mono (le_trans (by decide) Interpreter.recursionLimit_large)

/-- **Reading back a stored entry.** -/
theorem fromObj_storedMembers {entry : Entry} (h : entry.payload.isSome = true) :
    fromObj (.obj (storedMembers entry)) = .ok entry := by
  obtain ⟨⟨seq, ts, hashVersion, payloadType, payloadHash, prevHash⟩, entryHash, payload⟩ := entry
  obtain ⟨payload, rfl⟩ := Option.isSome_iff_exists.mp h
  have hdecode : fromObj (.obj (storedMembers ⟨⟨seq, ts, hashVersion, payloadType, payloadHash,
      prevHash⟩, entryHash, some payload⟩)) = b64decode (b64encode payload) >>= fun payload => .ok
        { header := ⟨seq, ts, hashVersion, payloadType, payloadHash, prevHash⟩
          entryHash := entryHash
          payload := some payload } := rfl
  rw [hdecode, b64decode_b64encode]
  rfl

theorem tailFields_storedMembers (entry : Entry) :
    tailFields (.obj (storedMembers entry)) = .ok (entry.header.seq, entry.entryHash) :=
  rfl

theorem entryHashField_storedMembers (entry : Entry) :
    entryHashField (.obj (storedMembers entry)) = .ok entry.entryHash :=
  rfl

end Waxseal
