import Waxseal.Adapters.Envelope
import Waxseal.Base.JsonDigits
import Waxseal.Base.JsonFloats
import Waxseal.Domain.Evidence

/-!
# Reading what comes from outside

`bundle_from_json` of `domain/export.py`: a proof bundle is one entry and the hashes that tie
it to the root of a batch.  It arrives as a text somebody else wrote, and a reader of it, of a
header or of a decision is promised a `ValueError` for whatever is wrong.

Each of the three keeps the promise but for one kind of number, and a text may nest too deep
besides (`decoders_raise_valueError_iff`).
-/

namespace Waxseal

open Json

/-! ## Proof bundles -/

/-- `BUNDLE_VERSION`. -/
def bundleVersion : PyStr := str "waxseal-proof-bundle-v1"

/-- The fields a bundle must have. -/
def bundleFields : List PyStr :=
  [str "header", str "entry_hash", str "batch_size", str "proof", str "root"]

/-- `ProofBundle`. -/
structure ProofBundle where
  header : EntryHeader
  entryHash : PyStr
  payload : Option Bytes
  batchSize : ℤ
  proof : List PyStr
  root : PyStr
  deriving DecidableEq

/-- `obj.get("bundle_version") != BUNDLE_VERSION` is refused. -/
def requireVersion : Json → Except PyErr Unit
  | .str version => if version = bundleVersion then .ok () else .error .valueError
  | _ => .error .valueError

/-- All of the fields are there. -/
def requireFields (members : List (PyStr × Json)) : Except PyErr Unit :=
  if bundleFields.all fun field => members.any (·.1 = field) then .ok () else .error .valueError

/-- One hash of the proof: a string. -/
def requireProofHash : Json → Except PyErr PyStr
  | .str s => .ok s
  | _ => .error .valueError

/-- The `proof` of a bundle: a list of strings. -/
def requireProof : Json → Except PyErr (List PyStr)
  | .arr items => items.mapM requireProofHash
  | _ => .error .valueError

/-- The `batch_size` of a bundle: an integer, and no bool. -/
def requireBatchSize : Json → Except PyErr ℤ
  | .int n => .ok n
  | _ => .error .valueError

/-- `_decode_payload(value)`. -/
def ProofBundle.decodePayload : Json → Except PyErr (Option Bytes)
  | .null => .ok none
  | .str s =>
      match b64decodeValidate s with
      | .ok payload => .ok (some payload)
      | .error e => .error (if e.isValueError then .valueError else e)
  | _ => .error .valueError

section

variable [Interpreter]

/-- `json.loads(text)`, with `JSONDecodeError` as a `ValueError` of the reader's own. -/
def loadsBundle (text : PyStr) : Except PyErr Json :=
  match loadsTextDigits text with
  | .ok value => .ok value
  | .error e => .error (if e = .jsonDecodeError then .valueError else e)

/-- `ProofBundle(...)` of the parsed object. -/
def ProofBundle.ofMembers (members : List (PyStr × Json)) : Except PyErr ProofBundle := do
  requireVersion (fieldOf members (str "bundle_version"))
  requireFields members
  let proof ← requireProof (fieldOf members (str "proof"))
  let batchSize ← requireBatchSize (fieldOf members (str "batch_size"))
  let header ← headerFromObj (fieldOf members (str "header"))
  let payload ← ProofBundle.decodePayload (fieldOf members (str "payload_b64"))
  return {
    header, payload, batchSize, proof
    entryHash := pyStr (fieldOf members (str "entry_hash"))
    root := pyStr (fieldOf members (str "root")) }

/-- `bundle_from_json(text)`. -/
def bundleFromJson (text : PyStr) : Except PyErr ProofBundle := do
  let members ← requireMembers (← loadsBundle text)
  ProofBundle.ofMembers members

end

/-! ## What the checks raise -/

theorem requireVersion_raises (value : Json) : OnlyValueError (requireVersion value) := by
  unfold requireVersion
  split
  · split_ifs
    · exact .ok ()
    · exact .valueError
  · exact .valueError

theorem requireVersion_isOk {value : Json} :
    requireVersion value = .ok () ↔ value = .str bundleVersion := by
  unfold requireVersion
  split
  · rename_i version
    split_ifs with h
    · exact ⟨fun _ => congrArg _ h, fun _ => rfl⟩
    · exact ⟨nofun, fun hversion => absurd (Json.str.inj hversion) h⟩
  · rename_i hstr
    exact ⟨nofun, fun hversion => absurd hversion (hstr _)⟩

theorem requireFields_raises (members : List (PyStr × Json)) :
    OnlyValueError (requireFields members) := by
  unfold requireFields
  split_ifs
  · exact .ok ()
  · exact .valueError

theorem all_any_iff {fields : List PyStr} {members : List (PyStr × Json)} :
    (fields.all fun field => members.any (·.1 = field)) = true ↔
      ∀ field ∈ fields, ∃ m ∈ members, m.1 = field := by
  simp only [List.all_eq_true, List.any_eq_true, decide_eq_true_eq]

theorem requireFields_isOk {members : List (PyStr × Json)} :
    requireFields members = .ok () ↔ ∀ field ∈ bundleFields, ∃ m ∈ members, m.1 = field := by
  rw [requireFields, ← all_any_iff]
  split_ifs with h
  · exact ⟨fun _ => h, fun _ => rfl⟩
  · exact ⟨nofun, fun hall => absurd hall h⟩

theorem requireProofHash_raises (value : Json) : OnlyValueError (requireProofHash value) := by
  cases value <;> first | exact .ok _ | exact .valueError

theorem requireProofHash_isOk {value : Json} :
    (∃ s, requireProofHash value = .ok s) ↔ ∃ s, value = .str s := by
  cases value with
  | str s => exact ⟨fun _ => ⟨s, rfl⟩, fun _ => ⟨s, rfl⟩⟩
  | null | bool b | int n | float lexeme | arr items | obj members => exact ⟨nofun, nofun⟩

theorem requireProof_raises (value : Json) : OnlyValueError (requireProof value) := by
  cases value with
  | arr items => exact .mapM requireProofHash_raises items
  | null | bool b | int n | float lexeme | str s | obj members => exact .valueError

theorem requireProof_isOk {value : Json} :
    (∃ proof, requireProof value = .ok proof) ↔
      ∃ items, value = .arr items ∧ ∀ item ∈ items, ∃ s, item = .str s := by
  cases value with
  | arr items =>
      have hitems : (∃ proof, requireProof (.arr items) = .ok proof) ↔
          ∀ item ∈ items, ∃ s, item = .str s :=
        isOk_mapM.trans (forall₂_congr fun _ _ => requireProofHash_isOk)
      rw [hitems]
      constructor
      · intro h
        exact ⟨items, rfl, h⟩
      · rintro ⟨items', h, hstr⟩
        exact Json.arr.inj h ▸ hstr
  | null | bool b | int n | float lexeme | str s | obj members =>
      refine ⟨nofun, ?_⟩
      rintro ⟨items, h, -⟩
      cases h

theorem requireBatchSize_raises (value : Json) : OnlyValueError (requireBatchSize value) := by
  cases value <;> first | exact .ok _ | exact .valueError

theorem requireBatchSize_isOk {value : Json} :
    (∃ n, requireBatchSize value = .ok n) ↔ ∃ n, value = .int n := by
  cases value with
  | int n => exact ⟨fun _ => ⟨n, rfl⟩, fun _ => ⟨n, rfl⟩⟩
  | null | bool b | float lexeme | str s | arr items | obj members => exact ⟨nofun, nofun⟩

theorem b64decodeValidate_raises (s : PyStr) : OnlyValueError (b64decodeValidate s) := by
  unfold b64decodeValidate
  split_ifs
  · split
    · exact .ok _
    · exact .valueError
  · exact .valueError

theorem ProofBundle.decodePayload_raises (value : Json) :
    OnlyValueError (ProofBundle.decodePayload value) := by
  cases value with
  | null => exact .ok none
  | str s =>
      intro e h
      rw [ProofBundle.decodePayload] at h
      split at h
      · cases h
      · rename_i e' hdecode
        rw [b64decodeValidate_raises s e' hdecode] at h
        exact (Except.error.inj h).symm
  | bool b | int n | float lexeme | arr items | obj members => exact .valueError

/-! ## What a decoder raises -/

/-- A call that returns, or raises a `ValueError` of some kind. -/
def RaisesValueError {α : Type} (x : Except PyErr α) : Prop :=
  ∀ e, x = .error e → e.isValueError = true

theorem OnlyValueError.raisesValueError {α : Type} {x : Except PyErr α} (h : OnlyValueError x) :
    RaisesValueError x := by
  intro e he
  rw [h e he]
  rfl

theorem not_raisesValueError {α : Type} {x : Except PyErr α} {e : PyErr} (h : x = .error e)
    (he : e.isValueError = false) : ¬ RaisesValueError x := by
  intro hraises
  rw [hraises e h] at he
  cases he

section

variable [Interpreter]

/-- A header with all of its fields, and an infinite `seq`. -/
def InfiniteSeq (header : Json) : Prop :=
  ∃ members, header = .obj members ∧ (∀ field ∈ headerFields, ∃ m ∈ members, m.1 = field) ∧
    ∃ lexeme, getItem header (str "seq") = .ok (.float lexeme) ∧ isInf lexeme = true

/-- The checks a bundle passes before its header is read. -/
structure OpensBundle (members : List (PyStr × Json)) : Prop where
  version : fieldOf members (str "bundle_version") = .str bundleVersion
  fields : ∀ field ∈ bundleFields, ∃ m ∈ members, m.1 = field
  proof : ∃ items, fieldOf members (str "proof") = .arr items ∧ ∀ item ∈ items, ∃ s, item = .str s
  batchSize : ∃ n, fieldOf members (str "batch_size") = .int n

/-- The text of a bundle that is let through to its header, and the `seq` of the header is
infinite. -/
def InfiniteBundle (text : PyStr) : Prop :=
  ∃ members, loadsTextDigits text = .ok (.obj members) ∧ OpensBundle members ∧
    InfiniteSeq (fieldOf members (str "header"))

omit [Interpreter] in
/-- A field that is there can be read. -/
theorem exists_getItem {members : List (PyStr × Json)} {field : PyStr}
    (h : ∃ m ∈ members, m.1 = field) : ∃ value, getItem (.obj members) field = .ok value := by
  obtain ⟨m, hm, hfield⟩ := h
  cases hfind : members.find? (·.1 = field) with
  | none =>
      have := List.find?_eq_none.mp hfind m hm
      exact absurd (decide_eq_true hfield) this
  | some found => exact ⟨found.2, by rw [getItem, hfind]⟩

/-- What is left of a header once its `seq` is read. -/
theorem headerFromObj_of_seq {members : List (PyStr × Json)}
    (hfields : ∀ field ∈ headerFields, ∃ m ∈ members, m.1 = field) {value : Json}
    (hvalue : getItem (.obj members) (str "seq") = .ok value) :
    (∀ n, pyInt value = .ok n → ∃ header, headerFromObj (.obj members) = .ok header) ∧
      ∀ e, pyInt value = .error e → headerFromObj (.obj members) =
        .error (if e = .typeError ∨ e.isValueError = true then .valueError else e) := by
  have field : ∀ name ∈ headerFields, ∃ value, getItem (.obj members) name = .ok value :=
    fun name hname => exists_getItem (hfields name hname)
  obtain ⟨ts, hts⟩ := field (str "ts") (by decide)
  obtain ⟨hashVersion, hhashVersion⟩ := field (str "hash_version") (by decide)
  obtain ⟨payloadType, hpayloadType⟩ := field (str "payload_type") (by decide)
  obtain ⟨payloadHash, hpayloadHash⟩ := field (str "payload_hash") (by decide)
  obtain ⟨prevHash, hprevHash⟩ := field (str "prev_hash") (by decide)
  have hall := all_any_iff.mpr hfields
  constructor
  · intro n hn
    exact ⟨⟨n, pyStr ts, pyStr hashVersion, pyStr payloadType, pyStr payloadHash, pyStr prevHash⟩, by
      simp only [headerFromObj, hall, if_true, hvalue, hn, hts, hhashVersion, hpayloadType,
        hpayloadHash, hprevHash, bind, Except.bind, pure, Except.pure]⟩
  · intro e he
    simp only [headerFromObj, hall, if_true, hvalue, he, bind, Except.bind]

end

section

variable [Interpreter] [Interpreter.StandardNumbers]

/-- **A header is malformed by a `ValueError`, but for an infinite `seq`.** -/
theorem headerFromObj_raises (obj : Json) :
    (InfiniteSeq obj ∧ headerFromObj obj = .error .overflowError) ∨
      (¬ InfiniteSeq obj ∧ OnlyValueError (headerFromObj obj)) := by
  cases obj with
  | obj members =>
      by_cases hfields : ∀ field ∈ headerFields, ∃ m ∈ members, m.1 = field
      · obtain ⟨value, hvalue⟩ := exists_getItem (hfields (str "seq") (by decide))
        obtain ⟨hreads, hraises⟩ := headerFromObj_of_seq hfields hvalue
        rcases pyInt_raises value with ⟨lexeme, rfl, hinf, hover⟩ | ⟨hfinite, hint⟩
        · exact .inl ⟨⟨members, rfl, hfields, lexeme, hvalue, hinf⟩, hraises _ hover⟩
        · refine .inr ⟨?_, ?_⟩
          · rintro ⟨-, -, -, lexeme, hseq, hinf⟩
            rw [hfinite lexeme (Except.ok.inj (hvalue.symm.trans hseq))] at hinf
            cases hinf
          · intro e he
            cases hn : pyInt value with
            | ok n =>
                obtain ⟨header, hok⟩ := hreads n hn
                rw [hok] at he
                cases he
            | error e' =>
                have hcaught : e' = .typeError ∨ e'.isValueError = true :=
                  (hint e' hn).imp_right (congrArg PyErr.isValueError)
                rw [hraises e' hn, if_pos hcaught] at he
                exact (Except.error.inj he).symm
      · refine .inr ⟨?_, ?_⟩
        · rintro ⟨members', hobj, hfields', -⟩
          exact hfields (Json.obj.inj hobj ▸ hfields')
        · rw [headerFromObj, if_neg (fun hall => hfields (all_any_iff.mp hall))]
          exact .valueError
  | null | bool b | int n | float lexeme | str s | arr items =>
      refine .inr ⟨?_, .valueError⟩
      rintro ⟨members, h, -⟩
      cases h

/-- **The object of a bundle is malformed by a `ValueError`, but for an infinite `seq`.** -/
theorem ProofBundle.ofMembers_raises (members : List (PyStr × Json)) :
    ((OpensBundle members ∧ InfiniteSeq (fieldOf members (str "header"))) ∧
        ProofBundle.ofMembers members = .error .overflowError) ∨
      (¬ (OpensBundle members ∧ InfiniteSeq (fieldOf members (str "header"))) ∧
        OnlyValueError (ProofBundle.ofMembers members)) := by
  by_cases h : OpensBundle members ∧ InfiniteSeq (fieldOf members (str "header"))
  · refine .inl ⟨h, ?_⟩
    obtain ⟨hopens, hinf⟩ := h
    obtain ⟨proof, hproof⟩ := requireProof_isOk.mpr hopens.proof
    obtain ⟨n, hn⟩ := requireBatchSize_isOk.mpr hopens.batchSize
    have hversion := requireVersion_isOk.mpr hopens.version
    have hfields := requireFields_isOk.mpr hopens.fields
    have hheader : headerFromObj (fieldOf members (str "header")) = .error .overflowError :=
      (headerFromObj_raises _).elim And.right fun hnot => absurd hinf hnot.1
    simp only [ProofBundle.ofMembers, hversion, hfields, hproof, hn, hheader, bind, Except.bind]
  · refine .inr ⟨h, ?_⟩
    intro e herr
    rcases bind_eq_error_iff.mp herr with herr | ⟨⟨⟩, hversion, herr⟩
    · exact requireVersion_raises _ e herr
    rcases bind_eq_error_iff.mp herr with herr | ⟨⟨⟩, hfields, herr⟩
    · exact requireFields_raises _ e herr
    rcases bind_eq_error_iff.mp herr with herr | ⟨proof, hproof, herr⟩
    · exact requireProof_raises _ e herr
    rcases bind_eq_error_iff.mp herr with herr | ⟨n, hn, herr⟩
    · exact requireBatchSize_raises _ e herr
    rcases bind_eq_error_iff.mp herr with herr | ⟨header, -, herr⟩
    · -- The header raises what it may: the bundle has been let through this far.
      have hopens : OpensBundle members :=
        { version := requireVersion_isOk.mp hversion
          fields := requireFields_isOk.mp hfields
          proof := requireProof_isOk.mp ⟨proof, hproof⟩
          batchSize := requireBatchSize_isOk.mp ⟨n, hn⟩ }
      rcases headerFromObj_raises (fieldOf members (str "header")) with ⟨hinf, -⟩ | ⟨-, hraises⟩
      · exact absurd ⟨hopens, hinf⟩ h
      · exact hraises e herr
    rcases bind_eq_error_iff.mp herr with herr | ⟨payload, -, herr⟩
    · exact ProofBundle.decodePayload_raises _ e herr
    · cases herr

omit [Interpreter.StandardNumbers] in
/-- What parsing the text of a bundle raises. -/
theorem loadsBundle_raises (text : PyStr) :
    (NestsTooDeep text ∧ loadsBundle text = .error .recursionError) ∨
      (¬ NestsTooDeep text ∧ OnlyValueError (loadsBundle text)) := by
  unfold NestsTooDeep loadsBundle
  cases hloads : loadsTextDigits text with
  | ok value => exact .inr ⟨nofun, .ok value⟩
  | error e =>
      rcases loadsTextDigits_raises hloads with rfl | rfl | rfl
      · exact .inr ⟨nofun, .valueError⟩
      · exact .inr ⟨nofun, .valueError⟩
      · exact .inl ⟨rfl, rfl⟩

omit [Interpreter.StandardNumbers] in
theorem loadsBundle_eq_ok {text : PyStr} {value : Json} :
    loadsBundle text = .ok value ↔ loadsTextDigits text = .ok value := by
  unfold loadsBundle
  cases loadsTextDigits text with
  | ok value' => exact Iff.rfl
  | error e => exact ⟨nofun, nofun⟩

/-- **A bundle is malformed by a `ValueError`**, but for a text that nests too deep and for an
infinite `seq`. -/
theorem bundleFromJson_raises (text : PyStr) :
    RaisesValueError (bundleFromJson text) ↔ ¬ NestsTooDeep text ∧ ¬ InfiniteBundle text := by
  rcases loadsBundle_raises text with ⟨hdeep, hraised⟩ | ⟨hflat, hraises⟩
  · -- The text is not parsed.
    have hbundle : bundleFromJson text = .error .recursionError := by
      simp only [bundleFromJson, hraised, bind, Except.bind]
    exact ⟨fun h => absurd h (not_raisesValueError hbundle rfl), fun h => absurd hdeep h.1⟩
  by_cases hinf : InfiniteBundle text
  · refine ⟨fun h => absurd h ?_, fun h => absurd hinf h.2⟩
    obtain ⟨members, hloads, hopens, hseq⟩ := hinf
    have hmembers : ProofBundle.ofMembers members = .error .overflowError :=
      (ProofBundle.ofMembers_raises members).elim And.right fun hnot => absurd ⟨hopens, hseq⟩ hnot.1
    have hbundle : bundleFromJson text = .error .overflowError := by
      simp only [bundleFromJson, loadsBundle_eq_ok.mpr hloads, requireMembers, hmembers, bind,
        Except.bind]
    exact not_raisesValueError hbundle rfl
  · refine ⟨fun _ => ⟨hflat, hinf⟩, fun _ => OnlyValueError.raisesValueError ?_⟩
    intro e herr
    rcases bind_eq_error_iff.mp herr with herr | ⟨value, hvalue, herr⟩
    · exact hraises e herr
    rcases bind_eq_error_iff.mp herr with herr | ⟨members, hmembers, herr⟩
    · exact requireMembers_raises value e herr
    rcases ProofBundle.ofMembers_raises members with ⟨⟨hopens, hseq⟩, -⟩ | ⟨-, hraises⟩
    · rw [requireMembers_eq_ok.mp hmembers] at hvalue
      exact absurd ⟨members, loadsBundle_eq_ok.mp hvalue, hopens, hseq⟩ hinf
    · exact hraises e herr

/-- **The decoders of what comes from outside raise nothing but a `ValueError`**, exactly but for
an infinite `seq`, a text that nests too deep, and a confidence no float holds. -/
theorem decoders_raise_valueError_iff (py : PayloadReader) :
    (∀ obj, RaisesValueError (headerFromObj obj) ↔ ¬ InfiniteSeq obj) ∧
      (∀ text, RaisesValueError (bundleFromJson text) ↔
        ¬ NestsTooDeep text ∧ ¬ InfiniteBundle text) ∧
      ∀ payload, RaisesValueError (DecisionRecord.fromPayload py payload) ↔ ¬ Oversized payload := by
  refine ⟨?_, bundleFromJson_raises, ?_⟩
  · intro obj
    rcases headerFromObj_raises obj with ⟨hinf, hraised⟩ | ⟨hfinite, hraises⟩
    · exact ⟨fun h => absurd h (not_raisesValueError hraised rfl), fun h => absurd hinf h⟩
    · exact ⟨fun _ => hfinite, fun _ => hraises.raisesValueError⟩
  · intro payload
    rcases DecisionRecord.fromPayload_raises py payload with ⟨hover, hraised⟩ | ⟨hfits, hraises⟩
    · exact ⟨fun h => absurd h (not_raisesValueError hraised rfl), fun h => absurd hover h⟩
    · exact ⟨fun _ => hfits, fun _ => hraises.raisesValueError⟩

/-- A header whose `seq` is a float, and the rest of it empty. -/
def floatHeader (lexeme : PyStr) : Json :=
  .obj ((str "seq", .float lexeme) :: headerFields.tail.map fun field => (field, .str []))

/-- A reader that no confidence is asked of. -/
def silentReader : PayloadReader where
  loads := fun _ => .error .jsonDecodeError
  inUnit := fun _ => false

omit [Interpreter] [Interpreter.StandardNumbers] in
/-- Half a seq is no seq, and `int` rounds it to one. -/
theorem decoders_raise_valueError_half :
    letI := Interpreter.doubles
    RaisesValueError (headerFromObj (floatHeader (str "2.5"))) := by
  let _ := Interpreter.doubles
  have := Interpreter.doubles_standardNumbers
  apply ((decoders_raise_valueError_iff silentReader).1 _).mpr
  rintro ⟨-, -, -, lexeme, hseq, hinf⟩
  have hlexeme : str "2.5" = lexeme := Json.float.inj (Except.ok.inj hseq)
  have hfinite : isInf (str "2.5") = false := by decide +kernel
  rw [← hlexeme, hfinite] at hinf
  cases hinf

end

/-- The text of a bundle whose header has `Infinity` for its `seq`. -/
def infiniteBundleText [Interpreter] : PyStr :=
  dumps .compact (.obj [(str "bundle_version", .str bundleVersion),
    (str "header", floatHeader (str "Infinity")), (str "entry_hash", .null), (str "batch_size", .int 1),
    (str "proof", .arr []), (str "root", .null)])

/-- **The three decoders overflow**: on a header and a bundle with an infinite `seq`, as
`json.loads` reads it, and on a decision with a confidence of `10 ** 400`. -/
theorem decoders_overflow :
    letI := Interpreter.doubles
    ¬ RaisesValueError
        (loadsTextDigits (dumps .compact (floatHeader (str "1e999"))) >>= headerFromObj) ∧
      ¬ RaisesValueError (bundleFromJson infiniteBundleText) ∧
      ¬ RaisesValueError (DecisionRecord.fromPayload silentReader
        (.obj [(str "model", .obj []), (str "confidence", .int (10 ^ 400))])) := by
  let _ := Interpreter.doubles
  refine ⟨?_, ?_, ?_⟩
  · have h : loadsTextDigits (dumps .compact (floatHeader (str "1e999"))) >>= headerFromObj =
        .error .overflowError := by decide +kernel
    exact not_raisesValueError h rfl
  · have h : bundleFromJson infiniteBundleText = .error .overflowError := by decide +kernel
    exact not_raisesValueError h rfl
  · rcases DecisionRecord.fromPayload_raises silentReader
      (.obj [(str "model", .obj []), (str "confidence", .int (10 ^ 400))]) with ⟨-, h⟩ | ⟨hfits, -⟩
    · exact not_raisesValueError h rfl
    · refine absurd ⟨_, rfl, ⟨[], rfl⟩, .inl rfl, 10 ^ 400, rfl, ?_⟩ hfits
      decide +kernel

end Waxseal
