import Waxseal.Base.JsonFloats
import Waxseal.Base.JsonWriting
import Waxseal.Domain.Export
import Waxseal.Server.Paging

/-!
# A client of a hostile server

`RemoteBackend` of `adapters/remote.py`, against any sequence of responses: any status, and any
bytes for a body.  A response is read at four levels (the page, its cursor, its rows, the header
and the payload of a row), each by a function with exceptions of its own, and what the caller is
promised is a `RemoteError`.

The promise is kept just by the sequences in which the client never gets to a response of a few
kinds (`remoteError_only_iff`).
-/

namespace Waxseal.RemoteBackend

open Json

/-! ## What goes over the wire -/

/-- The method of a request. -/
inductive Method where
  | get
  | post
  deriving DecidableEq

/-- `RemoteRequest`, below the URL of the chain. -/
structure RemoteRequest where
  method : Method
  path : PyStr
  body : Option PyStr
  deriving DecidableEq

/-- `RemoteResponse`. -/
structure RemoteResponse where
  status : ℕ
  body : Bytes
  deriving DecidableEq

/-- Why a `RemoteError` is raised. -/
inductive RemoteFailure where
  /-- `POST /entries failed`. -/
  | postFailed
  /-- `append lost the server-side race`. -/
  | lostRaces
  /-- `GET /entries failed`. -/
  | getFailed
  /-- `GET /entries returned an unparsable body`. -/
  | unparsablePage
  /-- `GET /entries returned the same cursor twice`. -/
  | sameCursor
  /-- `GET /entries did not terminate`. -/
  | tooManyPages
  /-- `GET /head failed`. -/
  | headFailed
  /-- `GET /head returned an unparsable body`. -/
  | unparsableHead
  deriving DecidableEq

/-- What a call of the client raises. -/
inductive Raised where
  | remoteError (why : RemoteFailure)
  /-- An exception of the caller's own `build`. -/
  | build (e : PyErr)
  | other (e : PyErr)
  deriving DecidableEq

/-- A hex digit of `%XX`. -/
def upperHexDigit (n : ℕ) : CodePoint :=
  if n < 10 then Fin.ofNat 0x110000 (0x30 + n) else Fin.ofNat 0x110000 (0x37 + n)

/-- One byte of `urllib.parse.quote_from_bytes(bs, safe="")`. -/
def quoteByte (b : UInt8) : PyStr :=
  let c : CodePoint := Fin.ofNat 0x110000 b.toNat
  if isUnreserved c then [c]
  else [.ofChar '%', upperHexDigit (b.toNat / 16), upperHexDigit (b.toNat % 16)]

/-- `urllib.parse.quote(x, safe="")`: a string needs a UTF-8 form. -/
def quote : Json → Except PyErr PyStr
  | .str s =>
      match encodeUtf8 s with
      | some b => .ok (b.flatMap quoteByte)
      | none => .error .unicodeEncodeError
  | _ => .error .typeError

/-- The path of the next page. -/
def entriesPath : Option Json → Except PyErr PyStr
  | none => .ok (str "/entries")
  | some cursor => do return str "/entries?cursor=" ++ (← quote cursor)

/-- `next_cursor == cursor`; a cursor that is no string has not come this far. -/
def sameCursor : Option Json → Json → Bool
  | some (.str cursor), .str nextCursor => decide (nextCursor = cursor)
  | _, _ => false

/-! ## `entries()` -/

section Entries

variable [Interpreter]

/-- `_parse_entries_page(body)`. -/
def parsePage (body : Bytes) : Except Raised (List (PyStr × Json)) :=
  match loadsDigits body with
  | .error e => .error (if e.isValueError then .remoteError .unparsablePage else .other e)
  | .ok (.obj members) =>
      if members.any (·.1 = str "entries") then .ok members
      else .error (.remoteError .unparsablePage)
  | .ok _ => .error (.remoteError .unparsablePage)

/-- Why the client gives up, as an exception. -/
def GivesUp.asRaised : GivesUp → Raised
  | .unanswered => .remoteError .getFailed
  | .tooManyPages => .remoteError .tooManyPages
  | .unparsable => .remoteError .unparsablePage
  | .sameCursor => .remoteError .sameCursor
  | .raised e => .other e

/-- Without the limit on digits the parser is `parseEntriesPage`. -/
theorem parsePage_unlimited (h : maxStrDigits = 0) (body : Bytes) :
    parsePage body = (parseEntriesPage body).mapError GivesUp.asRaised := by
  rw [parsePage, parseEntriesPage, loadsDigits_unlimited h]
  cases loadsBytes body with
  | error e => cases hvalue : e.isValueError <;> simp [hvalue, Except.mapError, GivesUp.asRaised]
  | ok value =>
      cases value with
      | obj members =>
          cases hentries : members.any (·.1 = str "entries") <;>
            simp [hentries, Except.mapError, GivesUp.asRaised]
      | null | bool | int | float | str | arr => rfl

/-- How one turn of the loop of `entries()` ends. -/
inductive PageTurn where
  | ended
  | turned (nextCursor : Json)
  | raised (e : Raised)

/-- What the loop makes of the `next_cursor` of a page. -/
def nextTurn (cursor : Option Json) : Json → PageTurn
  | .null => .ended
  | nextCursor =>
      if sameCursor cursor nextCursor then .raised (.remoteError .sameCursor)
      else .turned nextCursor

/-- What the loop makes of a page: what is yielded by then, and how the turn ends. -/
def takePage (cursor : Option Json) (yielded : List Entry) (body : Bytes) : List Entry × PageTurn :=
  match parsePage body with
  | .error e => (yielded, .raised e)
  | .ok members =>
      match iterate (fieldOf members (str "entries")) with
      | .error e => (yielded, .raised (.other e))
      | .ok rows =>
          match yieldAll yielded rows with
          | (.error e, yielded) => (yielded, .raised (.other e))
          | (.ok _, yielded) => (yielded, nextTurn cursor (fieldOf members (str "next_cursor")))

/-- What the loop makes of a response. -/
def takeResponse (cursor : Option Json) (yielded : List Entry) (resp : RemoteResponse) :
    List Entry × PageTurn :=
  if resp.status = 404 then (yielded, .ended)
  else if resp.status ≠ 200 then (yielded, .raised (.remoteError .getFailed))
  else takePage cursor yielded resp.body

/-- What has come of `entries()`. -/
structure RemoteRead where
  requests : List RemoteRequest
  yielded : List Entry
  result : Except Raised Unit

/-- The loop of `entries()`, with `left` pages to go; response `n` answers request `n`. -/
def entriesLoop (responses : ℕ → RemoteResponse) :
    ℕ → Option Json → List RemoteRequest → List Entry → RemoteRead
  | 0, _, requests, yielded => ⟨requests, yielded, .error (.remoteError .tooManyPages)⟩
  | left + 1, cursor, requests, yielded =>
      match entriesPath cursor with
      | .error e => ⟨requests, yielded, .error (.other e)⟩
      | .ok path =>
          let asked := requests ++ [⟨.get, path, none⟩]
          match takeResponse cursor yielded (responses requests.length) with
          | (yielded, .ended) => ⟨asked, yielded, .ok ()⟩
          | (yielded, .raised e) => ⟨asked, yielded, .error e⟩
          | (yielded, .turned nextCursor) =>
              entriesLoop responses left (some nextCursor) asked yielded

/-- `RemoteBackend.entries`, read to the end. -/
def remoteEntries (responses : ℕ → RemoteResponse) : RemoteRead :=
  entriesLoop responses maxPages none [] []

end Entries

/-! ## `append()` -/

section Append

/-- `_MAX_RACE_RETRIES`. -/
def maxRaceRetries : ℕ := 32

/-- What comes of the acknowledgment in a 201. -/
inductive ReceiptFiling where
  /-- There is nothing to file. -/
  | silent
  | recorded (receiptSeq : ℤ) (receiptHead : PyStr)
  /-- `_warn_receipt`. -/
  | warned
  deriving DecidableEq

/-- What `_receipt_fields` returns: nothing, the two fields, or a complaint. -/
inductive ReceiptFields where
  | absent
  | present (receiptSeq : ℤ) (receiptHead : PyStr)
  | complaint
  deriving DecidableEq

/-- The checks on the two fields of an acknowledgment. -/
def checkReceiptFields : Json → Json → ReceiptFields
  | .int receiptSeq, .str receiptHead =>
      if 0 ≤ receiptSeq ∧ isSha256Hex receiptHead = true then .present receiptSeq receiptHead
      else .complaint
  | _, _ => .complaint

/-- The caller of the client: the callback that builds an entry, and the sidecar that
acknowledgments are filed in, if it has named one. -/
structure RemoteCaller where
  build : ℤ → PyStr → Except PyErr Entry
  appendReceipt : Option (Entry → ℤ → PyStr → Except PyErr Unit)

/-- `json.dumps(to_obj(entry), sort_keys=True, separators=(",", ":"))`. -/
def entryBody [Interpreter] (entry : Entry) : Except PyErr PyStr := do
  dumpsDigits .compact (sortKeys (← toObj entry))

variable [Interpreter]

/-- `_receipt_fields(body)`. -/
def receiptFieldsOf (body : Bytes) : Except PyErr ReceiptFields :=
  if body.all fun b => isHexSpace (CodePoint.ofByte b) then .ok .absent
  else
    match loadsDigits body with
    | .error e => if e.isValueError then .ok .complaint else .error e
    | .ok (.obj members) =>
        let hasSeq := members.any (·.1 = str "receipt_seq")
        let hasHead := members.any (·.1 = str "receipt_head")
        if !hasSeq && !hasHead then .ok .absent
        else if !hasSeq || !hasHead then .ok .complaint
        else
          .ok (checkReceiptFields (fieldOf members (str "receipt_seq"))
            (fieldOf members (str "receipt_head")))
    | .ok _ => .ok .complaint

/-- `_record_receipt(entry, body)`: whatever goes wrong is a warning. -/
def RemoteCaller.recordReceipt (caller : RemoteCaller) (entry : Entry) (body : Bytes) :
    ReceiptFiling :=
  match caller.appendReceipt with
  | none => .silent
  | some file =>
      match receiptFieldsOf body with
      | .error _ => .warned
      | .ok .complaint => .warned
      | .ok .absent => .silent
      | .ok (.present receiptSeq receiptHead) =>
          match file entry receiptSeq receiptHead with
          | .error _ => .warned
          | .ok _ => .recorded receiptSeq receiptHead

/-- `int(obj["seq"]) + 1, str(obj["entry_hash"])`. -/
def headFields (obj : Json) : Except PyErr (ℤ × PyStr) := do
  let seq ← pyInt (← getItem obj (str "seq"))
  return (seq + 1, pyStr (← getItem obj (str "entry_hash")))

/-- `_head`. -/
def remoteHead (resp : RemoteResponse) : Except Raised (ℤ × PyStr) :=
  if resp.status = 404 then .ok (0, genesisPrevHash)
  else if resp.status ≠ 200 then .error (.remoteError .headFailed)
  else
    match loadsDigits resp.body >>= headFields with
    | .ok head => .ok head
    | .error e =>
        if e.isValueError ∨ e = .keyError ∨ e = .typeError then .error (.remoteError .unparsableHead)
        else .error (.other e)

/-- What has come of `append(build)`. -/
structure RemoteAppend where
  requests : List RemoteRequest
  result : Except Raised (Entry × ReceiptFiling)

/-- How one attempt of `append` ends. -/
inductive AttemptTurn where
  | won (entry : Entry) (filing : ReceiptFiling)
  | lost
  | raised (e : Raised)

/-- The body of the loop of `append`, with the requests made by then. -/
def remoteAttempt (caller : RemoteCaller) (responses : ℕ → RemoteResponse)
    (requests : List RemoteRequest) : List RemoteRequest × AttemptTurn :=
  let asked := requests ++ [⟨.get, str "/head", none⟩]
  match remoteHead (responses requests.length) with
  | .error e => (asked, .raised e)
  | .ok (nextSeq, prevHash) =>
      match caller.build nextSeq prevHash with
      | .error e => (asked, .raised (.build e))
      | .ok entry =>
          match entryBody entry with
          | .error e => (asked, .raised (.other e))
          | .ok body =>
              let posted := asked ++ [⟨.post, str "/entries", some body⟩]
              let resp := responses asked.length
              if resp.status = 201 then (posted, .won entry (caller.recordReceipt entry resp.body))
              else if resp.status = 409 then (posted, .lost)
              else (posted, .raised (.remoteError .postFailed))

/-- The loop of `append`, with `left` attempts to go. -/
def appendLoop (caller : RemoteCaller) (responses : ℕ → RemoteResponse) :
    ℕ → List RemoteRequest → RemoteAppend
  | 0, requests => ⟨requests, .error (.remoteError .lostRaces)⟩
  | left + 1, requests =>
      match remoteAttempt caller responses requests with
      | (requests, .won entry filing) => ⟨requests, .ok (entry, filing)⟩
      | (requests, .raised e) => ⟨requests, .error e⟩
      | (requests, .lost) => appendLoop caller responses left requests

/-- `RemoteBackend.append(build)`. -/
def remoteAppend (caller : RemoteCaller) (responses : ℕ → RemoteResponse) : RemoteAppend :=
  appendLoop caller responses maxRaceRetries []

end Append

/-! ## What the client can read -/

section Readable

variable [Interpreter]

/-- A header that is read: a dict with all of the fields, whose `seq` is an integer or converts
to one. -/
def ReadableHeader (header : Json) : Prop :=
  ∃ members, header = .obj members ∧ (∀ field ∈ headerFields, ∃ m ∈ members, m.1 = field) ∧
    ∃ seq n, getItem header (str "seq") = .ok seq ∧ pyInt seq = .ok n

/-- A row that is read: a dict with a header, an entry hash and a payload in base64. -/
structure ReadableRow (row : Json) : Prop where
  header : ∃ header, getItem row (str "header") = .ok header ∧ ReadableHeader header
  entryHash : ∃ entryHash, getItem row (str "entry_hash") = .ok entryHash
  payload : ∃ text payload, getItem row (str "payload_b64") = .ok text ∧
    b64decode (pyStr text) = .ok payload

/-- The rows of a page can be iterated over, and each of them is read. -/
def ReadablePage (members : List (PyStr × Json)) : Prop :=
  ∃ rows, iterate (fieldOf members (str "entries")) = .ok rows ∧ ∀ row ∈ rows, ReadableRow row

theorem headerFromObj_isOk {obj : Json} :
    (∃ header, headerFromObj obj = .ok header) ↔ ReadableHeader obj := by
  cases obj with
  | obj members =>
      by_cases hfields : ∀ field ∈ headerFields, ∃ m ∈ members, m.1 = field
      · obtain ⟨value, hvalue⟩ := exists_getItem (hfields (str "seq") (by decide))
        obtain ⟨hreads, hraises⟩ := headerFromObj_of_seq hfields hvalue
        constructor
        · rintro ⟨header, h⟩
          cases hint : pyInt value with
          | ok n => exact ⟨members, rfl, hfields, value, n, hvalue, hint⟩
          | error e =>
              rw [hraises e hint] at h
              cases h
        · rintro ⟨-, -, -, value', n, hvalue', hint⟩
          obtain rfl := Except.ok.inj (hvalue.symm.trans hvalue')
          exact hreads n hint
      · constructor
        · rintro ⟨header, h⟩
          rw [headerFromObj, if_neg (fun hall => hfields (all_any_iff.mp hall))] at h
          cases h
        · rintro ⟨members', hobj, hfields', -⟩
          exact absurd (Json.obj.inj hobj ▸ hfields') hfields
  | null | bool b | int n | float lexeme | str s | arr items =>
      constructor
      · rintro ⟨header, h⟩
        cases h
      · rintro ⟨members, h, -⟩
        cases h

/-- **Which rows `from_obj` takes.** -/
theorem fromObj_isOk {row : Json} : (∃ entry, fromObj row = .ok entry) ↔ ReadableRow row := by
  constructor
  · rintro ⟨entry, h⟩
    obtain ⟨obj, hobj, h⟩ := bind_eq_ok_iff.mp h
    obtain ⟨header, hheader, h⟩ := bind_eq_ok_iff.mp h
    obtain ⟨entryHash, hhash, h⟩ := bind_eq_ok_iff.mp h
    obtain ⟨text, htext, h⟩ := bind_eq_ok_iff.mp h
    obtain ⟨payload, hpayload, -⟩ := bind_eq_ok_iff.mp h
    exact ⟨⟨obj, hobj, headerFromObj_isOk.mp ⟨header, hheader⟩⟩, ⟨entryHash, hhash⟩,
      ⟨text, payload, htext, hpayload⟩⟩
  · rintro ⟨⟨obj, hobj, hheader⟩, ⟨entryHash, hhash⟩, ⟨text, payload, htext, hpayload⟩⟩
    obtain ⟨header, hheader⟩ := headerFromObj_isOk.mpr hheader
    refine ⟨⟨header, pyStr entryHash, some payload⟩, ?_⟩
    simp only [fromObj, hobj, hheader, hhash, htext, hpayload, bind, Except.bind, pure, Except.pure]

/-- The loop over the rows of a page. -/
theorem yieldAll_isOk {yielded : List Entry} {rows : List Json} :
    (yieldAll yielded rows).1 = .ok () ↔ ∀ row ∈ rows, ReadableRow row := by
  induction rows generalizing yielded with
  | nil => simp [yieldAll]
  | cons row rows ih =>
      rw [yieldAll, List.forall_mem_cons, ← fromObj_isOk]
      cases fromObj row with
      | error e => simp
      | ok entry => simp [ih]

end Readable

/-! ## Loops that stop early -/

/-- Of the `left` turns from turn `n` on, each that is reached is safe; a turn is reached if all of
the turns before it go on. -/
def SafeWhile (goesOn safe : ℕ → Prop) (n left : ℕ) : Prop :=
  ∀ k < left, (∀ j < k, goesOn (n + j)) → safe (n + k)

/-- The first turn, and the others if it goes on. -/
theorem safeWhile_succ {goesOn safe : ℕ → Prop} {n left : ℕ} :
    SafeWhile goesOn safe n (left + 1) ↔
      safe n ∧ (goesOn n → SafeWhile goesOn safe (n + 1) left) := by
  have hshift : ∀ k, n + 1 + k = n + (k + 1) := fun k => by omega
  constructor
  · intro h
    refine ⟨h 0 (Nat.succ_pos left) nofun, fun hgoes k hk hreached => ?_⟩
    rw [hshift]
    refine h (k + 1) (by omega) fun j hj => ?_
    cases j with
    | zero => exact hgoes
    | succ j => exact hshift j ▸ hreached j (by omega)
  · rintro ⟨hfirst, hrest⟩ k hk hreached
    cases k with
    | zero => exact hfirst
    | succ k =>
        rw [← hshift]
        refine hrest (hreached 0 (Nat.succ_pos k)) k (by omega) fun j hj => ?_
        rw [hshift]
        exact hreached (j + 1) (by omega)

/-! ## The sequences that are read safely -/

/-- A call that raises nothing but `RemoteError`, and what the caller's own callback raises. -/
def OnlyRemoteError {α : Type} (result : Except Raised α) : Prop :=
  ∀ e, result ≠ .error (.other e)

section Reading

variable [Interpreter]

/-- A body whose containers nest beyond the recursion limit. -/
def DeepBody (body : Bytes) : Prop := loadsDigits body = .error .recursionError

/-- A body that is a page: an object with `entries`. -/
def IsPage (body : Bytes) (members : List (PyStr × Json)) : Prop :=
  loadsDigits body = .ok (.obj members) ∧ ∃ m ∈ members, m.1 = str "entries"

/-- A 200 the client does not survive: its body nests too deep, or it is a page whose rows are
no entries. -/
def CrashesReading (resp : RemoteResponse) : Prop :=
  resp.status = 200 ∧ (DeepBody resp.body ∨
    ∃ members, IsPage resp.body members ∧ ¬ ReadablePage members)

/-- The `next_cursor` of a response that is a page. -/
def nextCursorOf (resp : RemoteResponse) : Json :=
  match loadsDigits resp.body with
  | .ok (.obj members) => fieldOf members (str "next_cursor")
  | _ => .null

/-- After this page the client asks for another one. -/
structure GoesOn (cursor : Option Json) (resp : RemoteResponse) : Prop where
  status : resp.status = 200
  page : ∃ members, IsPage resp.body members ∧ ReadablePage members
  next : nextCursorOf resp ≠ .null
  advances : sameCursor cursor (nextCursorOf resp) = false

/-- A cursor that fits into a URL: a string with a UTF-8 form, or none at all. -/
def Quotable (cursor : Option Json) : Prop :=
  ∀ value ∈ cursor, ∃ s b, value = .str s ∧ encodeUtf8 s = some b

/-- The cursor the client asks for page `n` with. -/
def cursorAt (responses : ℕ → RemoteResponse) : ℕ → Option Json
  | 0 => none
  | n + 1 => some (nextCursorOf (responses n))

omit [Interpreter] in
theorem nextTurn_cases (cursor : Option Json) (nextCursor : Json) :
    (nextCursor ≠ .null ∧ sameCursor cursor nextCursor = false ∧
        nextTurn cursor nextCursor = .turned nextCursor) ∨
      (¬ (nextCursor ≠ .null ∧ sameCursor cursor nextCursor = false) ∧
        (nextTurn cursor nextCursor = .ended ∨
          nextTurn cursor nextCursor = .raised (.remoteError .sameCursor))) := by
  by_cases hnull : nextCursor = .null
  · subst hnull
    exact .inr ⟨fun h => h.1 rfl, .inl rfl⟩
  · have hturn : nextTurn cursor nextCursor = if sameCursor cursor nextCursor then
        .raised (.remoteError .sameCursor) else .turned nextCursor := by
      cases nextCursor with
      | null => exact absurd rfl hnull
      | bool | int | float | str | arr | obj => rfl
    rw [hturn]
    cases hsame : sameCursor cursor nextCursor with
    | true => exact .inr ⟨fun h => absurd h.2 Bool.true_eq_false.mp, .inr rfl⟩
    | false => exact .inl ⟨hnull, rfl, rfl⟩

/-- What `_parse_entries_page` makes of a body. -/
theorem parsePage_cases (body : Bytes) :
    (DeepBody body ∧ parsePage body = .error (.other .recursionError)) ∨
    (¬ DeepBody body ∧ (∀ members, ¬ IsPage body members) ∧
      parsePage body = .error (.remoteError .unparsablePage)) ∨
    ∃ members, IsPage body members ∧ parsePage body = .ok members := by
  unfold DeepBody IsPage parsePage
  cases hloads : loadsDigits body with
  | error e =>
      rcases loadsDigits_raises hloads with hvalue | rfl
      · refine .inr (.inl ⟨?_, nofun, by simp [hvalue]⟩)
        intro h
        rw [Except.error.inj h] at hvalue
        cases hvalue
      · exact .inl ⟨rfl, rfl⟩
  | ok value =>
      cases value with
      | obj members =>
          by_cases hentries : ∃ m ∈ members, m.1 = str "entries"
          · refine .inr (.inr ⟨members, ⟨rfl, hentries⟩, if_pos ?_⟩)
            simpa using hentries
          · refine .inr (.inl ⟨nofun, ?_, if_neg ?_⟩)
            · rintro members' ⟨h, hentries'⟩
              exact hentries (Json.obj.inj (Except.ok.inj h) ▸ hentries')
            · simpa using hentries
      | null | bool | int | float | str | arr =>
          refine .inr (.inl ⟨nofun, ?_, rfl⟩)
          rintro members ⟨h, -⟩
          cases h

theorem IsPage.unique {body : Bytes} {members members' : List (PyStr × Json)}
    (h : IsPage body members) (h' : IsPage body members') : members = members' :=
  Json.obj.inj (Except.ok.inj (h.1.symm.trans h'.1))

/-- What the loop makes of a page that is one. -/
theorem takePage_of_isPage {cursor : Option Json} {yielded : List Entry} {body : Bytes}
    {members : List (PyStr × Json)} (hpage : IsPage body members) :
    (ReadablePage members ∧
      (takePage cursor yielded body).2 = nextTurn cursor (fieldOf members (str "next_cursor"))) ∨
    (¬ ReadablePage members ∧ ∃ e, (takePage cursor yielded body).2 = .raised (.other e)) := by
  have hparse : parsePage body = .ok members := by
    rcases parsePage_cases body with ⟨hdeep, -⟩ | ⟨-, hno, -⟩ | ⟨members', hpage', hparse⟩
    · rw [DeepBody, hpage.1] at hdeep
      cases hdeep
    · exact absurd hpage (hno members)
    · exact hpage.unique hpage' ▸ hparse
  rw [takePage, hparse]
  dsimp only
  cases hrows : iterate (fieldOf members (str "entries")) with
  | error e =>
      refine .inr ⟨?_, e, rfl⟩
      rintro ⟨rows, h, -⟩
      cases hrows.symm.trans h
  | ok rows =>
      dsimp only
      have hreadable : ReadablePage members ↔ (yieldAll yielded rows).1 = .ok () := by
        rw [yieldAll_isOk]
        constructor
        · rintro ⟨rows', h, hall⟩
          exact Except.ok.inj (hrows.symm.trans h) ▸ hall
        · exact fun hall => ⟨rows, hrows, hall⟩
      rw [hreadable]
      rcases yieldAll yielded rows with ⟨e | ⟨⟩, all⟩
      · exact .inr ⟨nofun, e, rfl⟩
      · exact .inl ⟨rfl, rfl⟩

/-- **How a turn of the loop ends**, by what the response is. -/
theorem takeResponse_cases (cursor : Option Json) (yielded : List Entry) (resp : RemoteResponse) :
    (CrashesReading resp ∧ ∃ e, (takeResponse cursor yielded resp).2 = .raised (.other e)) ∨
    (¬ CrashesReading resp ∧ GoesOn cursor resp ∧
      (takeResponse cursor yielded resp).2 = .turned (nextCursorOf resp)) ∨
    (¬ CrashesReading resp ∧ ¬ GoesOn cursor resp ∧
      ((takeResponse cursor yielded resp).2 = .ended ∨
        ∃ why, (takeResponse cursor yielded resp).2 = .raised (.remoteError why))) := by
  by_cases hok : resp.status = 200
  swap
  · -- Another status is the end of the chain, or a failure.
    refine .inr (.inr ⟨fun h => hok h.1, fun h => hok h.status, ?_⟩)
    rw [takeResponse]
    split_ifs
    · exact .inl rfl
    · exact .inr ⟨_, rfl⟩
  have htake : takeResponse cursor yielded resp = takePage cursor yielded resp.body := by
    rw [takeResponse, if_neg (by omega), if_neg (by omega)]
  rw [htake]
  rcases parsePage_cases resp.body with ⟨hdeep, hparse⟩ | ⟨hflat, hno, hparse⟩ | ⟨members, hpage, -⟩
  · refine .inl ⟨⟨hok, .inl hdeep⟩, .recursionError, ?_⟩
    rw [takePage, hparse]
  · refine .inr (.inr ⟨?_, ?_, .inr ⟨.unparsablePage, ?_⟩⟩)
    · rintro ⟨-, hdeep | ⟨members, hpage, -⟩⟩
      · exact hflat hdeep
      · exact hno members hpage
    · rintro ⟨-, ⟨members, hpage, -⟩, -, -⟩
      exact hno members hpage
    · rw [takePage, hparse]
  · have hflat : ¬ DeepBody resp.body := by
      rw [DeepBody, hpage.1]
      exact nofun
    have hnext : nextCursorOf resp = fieldOf members (str "next_cursor") := by
      rw [nextCursorOf, hpage.1]
    rcases @takePage_of_isPage _ cursor yielded _ _ hpage with ⟨hread, hturn⟩ | ⟨hunread, hraised⟩
    · have hsurvives : ¬ CrashesReading resp := by
        rintro ⟨-, hdeep | ⟨members', hpage', hunread⟩⟩
        · exact hflat hdeep
        · exact hunread (hpage.unique hpage' ▸ hread)
      rw [hturn, ← hnext]
      rcases nextTurn_cases cursor (nextCursorOf resp) with
        ⟨hnonnull, hsame, hturned⟩ | ⟨hends, hturned⟩
      · exact .inr (.inl ⟨hsurvives, ⟨hok, ⟨members, hpage, hread⟩, hnonnull, hsame⟩, hturned⟩)
      · refine .inr (.inr ⟨hsurvives, fun h => hends ⟨h.next, h.advances⟩, ?_⟩)
        exact hturned.imp_right fun h => ⟨_, h⟩
    · exact .inl ⟨⟨hok, .inr ⟨members, hpage, hunread⟩⟩, hraised⟩

/-! ### The run -/

omit [Interpreter] in
theorem entriesPath_isOk {cursor : Option Json} :
    (∃ path, entriesPath cursor = .ok path) ↔ Quotable cursor := by
  cases cursor with
  | none => exact ⟨fun _ => nofun, fun _ => ⟨_, rfl⟩⟩
  | some value =>
      have hquote : (∃ path, entriesPath (some value) = .ok path) ↔ ∃ text, quote value = .ok text := by
        constructor
        · rintro ⟨path, h⟩
          obtain ⟨text, htext, -⟩ := bind_eq_ok_iff.mp h
          exact ⟨text, htext⟩
        · rintro ⟨text, htext⟩
          exact ⟨_, bind_eq_ok_iff.mpr ⟨text, htext, rfl⟩⟩
      rw [hquote]
      cases value with
      | str s =>
          rw [quote]
          cases hencode : encodeUtf8 s with
          | some b =>
              refine ⟨fun _ value hvalue => ?_, fun _ => ⟨_, rfl⟩⟩
              exact ⟨s, b, (Option.some.inj hvalue).symm, hencode⟩
          | none =>
              refine ⟨nofun, fun h => ?_⟩
              obtain ⟨s', b, hs, hb⟩ := h _ rfl
              rw [← Json.str.inj hs, hencode] at hb
              cases hb
      | null | bool | int | float | arr | obj =>
          refine ⟨nofun, fun h => ?_⟩
          obtain ⟨s, b, hs, -⟩ := h _ rfl
          cases hs

/-- The `left` responses from response `n` on are safe to read, as far as the client gets. -/
def SafeToRead (responses : ℕ → RemoteResponse) : ℕ → ℕ → Prop :=
  SafeWhile (fun n => GoesOn (cursorAt responses n) (responses n)) fun n =>
    Quotable (cursorAt responses n) ∧ ¬ CrashesReading (responses n)

/-- **The run of `entries()`** raises nothing but `RemoteError` just where the responses are safe. -/
theorem entriesLoop_onlyRemoteError {responses : ℕ → RemoteResponse} {left : ℕ}
    {requests : List RemoteRequest} {yielded : List Entry} :
    OnlyRemoteError (entriesLoop responses left (cursorAt responses requests.length) requests
      yielded).result ↔ SafeToRead responses requests.length left := by
  induction left generalizing requests yielded with
  | zero =>
      refine ⟨fun _ => nofun, fun _ e h => ?_⟩
      cases h
  | succ left ih =>
      rw [SafeToRead, safeWhile_succ, ← entriesPath_isOk, entriesLoop]
      cases hpath : entriesPath (cursorAt responses requests.length) with
      | error e => exact ⟨fun h => absurd rfl (h e), fun h => absurd h.1.1 nofun⟩
      | ok path =>
          dsimp only
          -- The three ways the turn can end are the three kinds of response.
          have hcases := takeResponse_cases (cursorAt responses requests.length) yielded
            (responses requests.length)
          generalize takeResponse (cursorAt responses requests.length) yielded
            (responses requests.length) = out at hcases ⊢
          obtain ⟨all, turn⟩ := out
          dsimp only at hcases
          rcases hcases with ⟨hcrash, e, rfl⟩ | ⟨hsafe, hgoes, rfl⟩ | ⟨hsafe, hstops, hturn⟩
          · exact ⟨fun h => absurd rfl (h e), fun h => absurd hcrash h.1.2⟩
          · have hlength : (requests ++ [(⟨.get, path, none⟩ : RemoteRequest)]).length =
                requests.length + 1 := List.length_append
            have hrun := @ih (requests ++ [⟨.get, path, none⟩]) all
            rw [hlength] at hrun
            exact hrun.trans ⟨fun h => ⟨⟨⟨path, rfl⟩, hsafe⟩, fun _ => h⟩, fun h => h.2 hgoes⟩
          · refine ⟨fun _ => ⟨⟨⟨path, rfl⟩, hsafe⟩, fun hgoes => absurd hgoes hstops⟩, fun _ e => ?_⟩
            rcases hturn with rfl | ⟨why, rfl⟩
            · exact nofun
            · exact nofun

/-- **The run ends**: a request for each page at most. -/
theorem length_requests_entriesLoop {responses : ℕ → RemoteResponse} {left : ℕ} {cursor : Option Json}
    {requests : List RemoteRequest} {yielded : List Entry} :
    (entriesLoop responses left cursor requests yielded).requests.length ≤ requests.length + left := by
  induction left generalizing cursor requests yielded with
  | zero => exact le_rfl
  | succ left ih =>
      rw [entriesLoop]
      cases entriesPath cursor with
      | error e => exact Nat.le_add_right _ _
      | ok path =>
          have hlength : (requests ++ [(⟨.get, path, none⟩ : RemoteRequest)]).length =
              requests.length + 1 := List.length_append
          rcases takeResponse cursor yielded (responses requests.length) with ⟨all, - | next | e⟩
          · exact hlength ▸ by omega
          · refine le_trans ih ?_
            omega
          · exact hlength ▸ by omega

end Reading

/-! ## The sequences that are appended to safely -/

section Appending

variable [Interpreter]

/-- A 200 to `GET /head` the client does not survive: its body nests too deep, or its `seq` is
infinite. -/
def CrashesHead (resp : RemoteResponse) : Prop :=
  resp.status = 200 ∧ (DeepBody resp.body ∨ ∃ members lexeme,
    loadsDigits resp.body = .ok (.obj members) ∧
      getItem (.obj members) (str "seq") = .ok (.float lexeme) ∧ isInf lexeme = true)

/-- What a response to `GET /head` says: there is no chain, or where it ends. -/
def ReadsHead (resp : RemoteResponse) (nextSeq : ℤ) (prevHash : PyStr) : Prop :=
  (resp.status = 404 ∧ nextSeq = 0 ∧ prevHash = genesisPrevHash) ∨
    (resp.status = 200 ∧ ∃ obj seq n entryHash, loadsDigits resp.body = .ok obj ∧
      getItem obj (str "seq") = .ok seq ∧ pyInt seq = .ok n ∧
      getItem obj (str "entry_hash") = .ok entryHash ∧ nextSeq = n + 1 ∧ prevHash = pyStr entryHash)

/-- An entry that can be sent: it has its payload, and its `seq` is not too long to write. -/
def Sendable (entry : Entry) : Prop :=
  entry.payload.isSome = true ∧ intFits entry.header.seq = true

/-- Attempt `k` loses the race: the head is read, the entry is sent, and the server answers 409. -/
def LosesRace (caller : RemoteCaller) (responses : ℕ → RemoteResponse) (k : ℕ) : Prop :=
  (∃ nextSeq prevHash entry, ReadsHead (responses (2 * k)) nextSeq prevHash ∧
    caller.build nextSeq prevHash = .ok entry ∧ Sendable entry) ∧
  (responses (2 * k + 1)).status = 409

/-- Attempt `k` is safe: the head does not crash the client, and the entry that is built on it can
be sent. -/
def SafeAttempt (caller : RemoteCaller) (responses : ℕ → RemoteResponse) (k : ℕ) : Prop :=
  ¬ CrashesHead (responses (2 * k)) ∧
    ∀ nextSeq prevHash entry, ReadsHead (responses (2 * k)) nextSeq prevHash →
      caller.build nextSeq prevHash = .ok entry → Sendable entry

theorem entryBody_isOk {entry : Entry} : (∃ body, entryBody entry = .ok body) ↔ Sendable entry := by
  obtain ⟨header, entryHash, - | payload⟩ := entry
  · constructor
    · rintro ⟨body, h⟩
      cases h
    · rintro ⟨h, -⟩
      cases h
  · have hbody : entryBody ⟨header, entryHash, some payload⟩ =
        dumpsDigits .compact (.obj (storedMembers ⟨header, entryHash, some payload⟩)) := rfl
    have hfits : intsFit (.obj (storedMembers ⟨header, entryHash, some payload⟩)) =
        intFits header.seq := by
      simp [storedMembers, intsFit, intsFitMembers]
    rw [hbody, dumpsDigits, hfits, Sendable]
    split_ifs with h
    · exact ⟨fun _ => ⟨rfl, h⟩, fun _ => ⟨_, rfl⟩⟩
    · constructor
      · rintro ⟨body, hbody⟩
        cases hbody
      · intro hsend
        exact absurd hsend.2 h

theorem headFields_eq_ok {obj : Json} {nextSeq : ℤ} {prevHash : PyStr} :
    headFields obj = .ok (nextSeq, prevHash) ↔ ∃ seq n entryHash,
      getItem obj (str "seq") = .ok seq ∧ pyInt seq = .ok n ∧
      getItem obj (str "entry_hash") = .ok entryHash ∧ nextSeq = n + 1 ∧ prevHash = pyStr entryHash := by
  constructor
  · intro h
    obtain ⟨seq, hseq, h⟩ := bind_eq_ok_iff.mp h
    obtain ⟨n, hn, h⟩ := bind_eq_ok_iff.mp h
    obtain ⟨entryHash, hhash, h⟩ := bind_eq_ok_iff.mp h
    cases h
    exact ⟨seq, n, entryHash, hseq, hn, hhash, rfl, rfl⟩
  · rintro ⟨seq, n, entryHash, hseq, hn, hhash, rfl, rfl⟩
    simp only [headFields, hseq, hn, hhash, bind, Except.bind, pure, Except.pure]

theorem remoteHead_eq_ok {resp : RemoteResponse} {nextSeq : ℤ} {prevHash : PyStr} :
    remoteHead resp = .ok (nextSeq, prevHash) ↔ ReadsHead resp nextSeq prevHash := by
  rw [remoteHead, ReadsHead]
  by_cases habsent : resp.status = 404
  · rw [if_pos habsent, Except.ok.injEq, Prod.mk.injEq]
    constructor
    · rintro ⟨hseq, hhash⟩
      exact .inl ⟨habsent, hseq.symm, hhash.symm⟩
    · rintro (⟨-, hseq, hhash⟩ | ⟨hok, -⟩)
      · exact ⟨hseq.symm, hhash.symm⟩
      · omega
  · rw [if_neg habsent]
    by_cases hok : resp.status = 200
    · rw [if_neg (not_not.mpr hok)]
      have hread : loadsDigits resp.body >>= headFields = .ok (nextSeq, prevHash) ↔
          ∃ obj, loadsDigits resp.body = .ok obj ∧ headFields obj = .ok (nextSeq, prevHash) :=
        bind_eq_ok_iff
      constructor
      · intro h
        split at h
        · rename_i head hhead
          obtain rfl := Except.ok.inj h
          obtain ⟨obj, hobj, hfields⟩ := hread.mp hhead
          obtain ⟨seq, n, entryHash, hrest⟩ := headFields_eq_ok.mp hfields
          exact .inr ⟨hok, obj, seq, n, entryHash, hobj, hrest⟩
        · split_ifs at h
      · rintro (⟨hstatus, -⟩ | ⟨-, obj, seq, n, entryHash, hobj, hrest⟩)
        · exact absurd hstatus habsent
        · have hhead := hread.mpr ⟨obj, hobj, headFields_eq_ok.mpr ⟨seq, n, entryHash, hrest⟩⟩
          rw [hhead]
    · rw [if_pos hok]
      refine ⟨nofun, ?_⟩
      rintro (⟨hstatus, -⟩ | ⟨hstatus, -⟩)
      · exact absurd hstatus habsent
      · exact absurd hstatus hok

variable [Interpreter.StandardNumbers]

/-- The head that is read raises what `_head` catches, but for an infinite `seq`. -/
theorem headFields_raises (obj : Json) :
    (∃ lexeme, getItem obj (str "seq") = .ok (.float lexeme) ∧ isInf lexeme = true ∧
        headFields obj = .error .overflowError) ∨
      ((∀ lexeme, getItem obj (str "seq") = .ok (.float lexeme) → isInf lexeme = false) ∧
        ∀ e, headFields obj = .error e → e.isValueError = true ∨ e = .keyError ∨ e = .typeError) := by
  cases hseq : getItem obj (str "seq") with
  | error e =>
      refine .inr ⟨nofun, fun e' h => .inr ?_⟩
      rw [headFields, hseq] at h
      exact getItem_raises (hseq.trans (congrArg _ (Except.error.inj h)))
  | ok seq =>
      rcases pyInt_raises seq with ⟨lexeme, rfl, hinf, hover⟩ | ⟨hfinite, hraises⟩
      · refine .inl ⟨lexeme, rfl, hinf, ?_⟩
        simp only [headFields, hseq, hover, bind, Except.bind]
      · refine .inr ⟨fun lexeme h => hfinite lexeme (Except.ok.inj h), fun e h => ?_⟩
        rcases bind_eq_error_iff.mp h with h | ⟨seq', hseq', h⟩
        · cases hseq.symm.trans h
        obtain rfl := Except.ok.inj (hseq.symm.trans hseq')
        rcases bind_eq_error_iff.mp h with h | ⟨n, -, h⟩
        · rcases hraises e h with rfl | rfl
          · exact .inr (.inr rfl)
          · exact .inl rfl
        rcases bind_eq_error_iff.mp h with h | ⟨entryHash, -, h⟩
        · exact .inr (getItem_raises h)
        · cases h

/-- **What reading the head raises.** -/
theorem remoteHead_raises (resp : RemoteResponse) :
    (CrashesHead resp ∧ ∃ e, remoteHead resp = .error (.other e)) ∨
      (¬ CrashesHead resp ∧ ∀ e, remoteHead resp ≠ .error (.other e)) := by
  by_cases hok : resp.status = 200
  swap
  · refine .inr ⟨fun h => hok h.1, fun e h => ?_⟩
    rw [remoteHead] at h
    split_ifs at h
    cases h
  have hhead : ∀ e, loadsDigits resp.body >>= headFields = .error e → remoteHead resp =
      if e.isValueError ∨ e = .keyError ∨ e = .typeError then .error (.remoteError .unparsableHead)
      else .error (.other e) := by
    intro e h
    rw [remoteHead, if_neg (by omega), if_neg (not_not.mpr hok), h]
  cases hloads : loadsDigits resp.body with
  | error e =>
      have hraised : loadsDigits resp.body >>= headFields = .error e := by rw [hloads]; rfl
      rcases loadsDigits_raises hloads with hvalue | rfl
      · refine .inr ⟨?_, fun e' h => ?_⟩
        · rintro ⟨-, hdeep | ⟨members, lexeme, hobj, -⟩⟩
          · rw [Except.error.inj (hloads.symm.trans hdeep)] at hvalue
            cases hvalue
          · cases hloads.symm.trans hobj
        · rw [hhead e hraised, if_pos (.inl hvalue)] at h
          cases h
      · refine .inl ⟨⟨hok, .inl hloads⟩, .recursionError, ?_⟩
        rw [hhead _ hraised]
        rfl
  | ok obj =>
      have hbind : loadsDigits resp.body >>= headFields = headFields obj := by rw [hloads]; rfl
      rcases headFields_raises obj with ⟨lexeme, hseq, hinf, hover⟩ | ⟨hfinite, hraises⟩
      · refine .inl ⟨⟨hok, .inr ?_⟩, .overflowError, ?_⟩
        · cases obj with
          | obj members => exact ⟨members, lexeme, hloads, hseq, hinf⟩
          | null | bool | int | float | str | arr => cases hseq
        · rw [hhead _ (hbind.trans hover)]
          rfl
      · refine .inr ⟨?_, fun e h => ?_⟩
        · rintro ⟨-, hdeep | ⟨members, lexeme, hobj, hseq, hinf⟩⟩
          · cases hloads.symm.trans hdeep
          · obtain rfl := Except.ok.inj (hloads.symm.trans hobj)
            rw [hfinite lexeme hseq] at hinf
            cases hinf
        · cases hfields : headFields obj with
          | ok head =>
              rw [remoteHead, if_neg (by omega), if_neg (not_not.mpr hok), hbind, hfields] at h
              cases h
          | error e' =>
              rw [hhead e' (hbind.trans hfields), if_pos (hraises e' hfields)] at h
              cases h

omit [Interpreter.StandardNumbers] in
/-- What an attempt makes of a head it has read. -/
theorem remoteAttempt_of_head {caller : RemoteCaller} {responses : ℕ → RemoteResponse}
    {requests : List RemoteRequest} {nextSeq : ℤ} {prevHash : PyStr}
    (hhead : remoteHead (responses requests.length) = .ok (nextSeq, prevHash)) :
    (∃ entry, caller.build nextSeq prevHash = .ok entry ∧ ¬ Sendable entry ∧
      ∃ e, (remoteAttempt caller responses requests).2 = .raised (.other e)) ∨
    ((∀ entry, caller.build nextSeq prevHash = .ok entry → Sendable entry) ∧
      (∃ entry, caller.build nextSeq prevHash = .ok entry) ∧
      (responses (requests.length + 1)).status = 409 ∧
      (remoteAttempt caller responses requests).2 = .lost) ∨
    ((∀ entry, caller.build nextSeq prevHash = .ok entry → Sendable entry) ∧
      ¬ ((∃ entry, caller.build nextSeq prevHash = .ok entry) ∧
        (responses (requests.length + 1)).status = 409) ∧
      (remoteAttempt caller responses requests).2 ≠ .lost ∧
      ∀ e, (remoteAttempt caller responses requests).2 ≠ .raised (.other e)) := by
  rw [remoteAttempt, hhead]
  dsimp only
  cases hbuild : caller.build nextSeq prevHash with
  | error e => exact .inr (.inr ⟨nofun, fun h => absurd h.1 nofun, nofun, nofun⟩)
  | ok entry =>
      dsimp only
      have hsend := @entryBody_isOk _ entry
      cases hbody : entryBody entry with
      | error e =>
          refine .inl ⟨entry, rfl, fun h => ?_, e, rfl⟩
          obtain ⟨body, hok⟩ := hsend.mpr h
          cases hbody.symm.trans hok
      | ok body =>
          have hsendable : ∀ entry', (Except.ok entry : Except PyErr Entry) = .ok entry' →
              Sendable entry' := by
            intro entry' h
            exact Except.ok.inj h ▸ hsend.mp ⟨body, hbody⟩
          have hnext : (requests ++ [(⟨.get, str "/head", none⟩ : RemoteRequest)]).length =
              requests.length + 1 := List.length_append
          rw [hnext]
          dsimp only
          split_ifs with hwon hlost
          · exact .inr (.inr ⟨hsendable, fun h => by omega, nofun, nofun⟩)
          · exact .inr (.inl ⟨hsendable, ⟨entry, rfl⟩, hlost, rfl⟩)
          · exact .inr (.inr ⟨hsendable, fun h => hlost h.2, nofun, nofun⟩)

/-- **How an attempt ends**, by what it is answered. -/
theorem remoteAttempt_cases {caller : RemoteCaller} {responses : ℕ → RemoteResponse}
    {requests : List RemoteRequest} {k : ℕ} (hlength : requests.length = 2 * k) :
    (¬ SafeAttempt caller responses k ∧
      ∃ e, (remoteAttempt caller responses requests).2 = .raised (.other e)) ∨
    (SafeAttempt caller responses k ∧ LosesRace caller responses k ∧
      (remoteAttempt caller responses requests).2 = .lost) ∨
    (SafeAttempt caller responses k ∧ ¬ LosesRace caller responses k ∧
      (remoteAttempt caller responses requests).2 ≠ .lost ∧
      ∀ e, (remoteAttempt caller responses requests).2 ≠ .raised (.other e)) := by
  rcases remoteHead_raises (responses (2 * k)) with ⟨hcrash, e, hhead⟩ | ⟨hsurvives, hraises⟩
  · refine .inl ⟨fun h => h.1 hcrash, e, ?_⟩
    rw [remoteAttempt, hlength, hhead]
  cases hhead : remoteHead (responses (2 * k)) with
  | error e =>
      -- Nothing is built on a head that was not read.
      have hunread : ∀ nextSeq prevHash, ¬ ReadsHead (responses (2 * k)) nextSeq prevHash := by
        intro nextSeq prevHash hread
        cases (remoteHead_eq_ok.mpr hread).symm.trans hhead
      have hattempt : (remoteAttempt caller responses requests).2 = .raised e := by
        rw [remoteAttempt, hlength, hhead]
      refine .inr (.inr ⟨⟨hsurvives, fun _ _ _ hread => absurd hread (hunread _ _)⟩, ?_, ?_, ?_⟩)
      · rintro ⟨⟨nextSeq, prevHash, -, hread, -⟩, -⟩
        exact hunread nextSeq prevHash hread
      · rw [hattempt]
        exact nofun
      · intro e' h
        rw [hattempt] at h
        exact hraises e' (hhead.trans (congrArg _ (AttemptTurn.raised.inj h)))
  | ok head =>
      obtain ⟨nextSeq, prevHash⟩ := head
      have hread := remoteHead_eq_ok.mp hhead
      have hunique : ∀ {seq hash}, ReadsHead (responses (2 * k)) seq hash →
          seq = nextSeq ∧ hash = prevHash := by
        intro seq hash h
        have hsame := (remoteHead_eq_ok.mpr h).symm.trans hhead
        exact Prod.mk.inj (Except.ok.inj hsame)
      have hsafe : (∀ entry, caller.build nextSeq prevHash = .ok entry → Sendable entry) →
          SafeAttempt caller responses k := by
        refine fun h => ⟨hsurvives, fun seq hash entry hread' hbuild => ?_⟩
        obtain ⟨rfl, rfl⟩ := hunique hread'
        exact h entry hbuild
      rw [← hlength] at hhead
      rcases @remoteAttempt_of_head _ caller _ _ _ _ hhead with
        ⟨entry, hbuild, hunsent, hraised⟩ | ⟨hsend, ⟨entry, hbuild⟩, hstatus, hlost⟩ |
        ⟨hsend, hstops, hnotLost, hraised⟩
      · exact .inl ⟨fun h => hunsent (h.2 _ _ _ hread hbuild), hraised⟩
      · rw [hlength] at hstatus
        exact .inr (.inl ⟨hsafe hsend, ⟨⟨_, _, entry, hread, hbuild, hsend _ hbuild⟩, hstatus⟩, hlost⟩)
      · refine .inr (.inr ⟨hsafe hsend, ?_, hnotLost, hraised⟩)
        rintro ⟨⟨seq, hash, entry, hread', hbuild, -⟩, hstatus⟩
        obtain ⟨rfl, rfl⟩ := hunique hread'
        rw [hlength] at hstops
        exact hstops ⟨⟨entry, hbuild⟩, hstatus⟩

omit [Interpreter.StandardNumbers] in
/-- An attempt makes two requests at most, and two if it loses the race. -/
theorem length_remoteAttempt (caller : RemoteCaller) (responses : ℕ → RemoteResponse)
    (requests : List RemoteRequest) :
    (remoteAttempt caller responses requests).1.length ≤ requests.length + 2 ∧
      ((remoteAttempt caller responses requests).2 = .lost →
        (remoteAttempt caller responses requests).1.length = requests.length + 2) := by
  rw [remoteAttempt]
  dsimp only
  split
  · exact ⟨by simp, nofun⟩
  split
  · exact ⟨by simp, nofun⟩
  split
  · exact ⟨by simp, nofun⟩
  split_ifs
  · exact ⟨by simp, nofun⟩
  · exact ⟨by simp, fun _ => by simp⟩
  · exact ⟨by simp, nofun⟩

/-- The `left` attempts from attempt `k` on are safe, as far as the client gets. -/
def SafeToAppend (caller : RemoteCaller) (responses : ℕ → RemoteResponse) : ℕ → ℕ → Prop :=
  SafeWhile (LosesRace caller responses) (SafeAttempt caller responses)

/-- **The run of `append()`** raises nothing but `RemoteError`, and what the callback raises, just
where the attempts are safe. -/
theorem appendLoop_onlyRemoteError {caller : RemoteCaller} {responses : ℕ → RemoteResponse}
    {k left : ℕ} {requests : List RemoteRequest} (hlength : requests.length = 2 * k) :
    OnlyRemoteError (appendLoop caller responses left requests).result ↔
      SafeToAppend caller responses k left := by
  induction left generalizing k requests with
  | zero =>
      refine ⟨fun _ => nofun, fun _ e h => ?_⟩
      cases h
  | succ left ih =>
      rw [SafeToAppend, safeWhile_succ, appendLoop]
      have hcases := @remoteAttempt_cases _ _ caller responses _ _ hlength
      have hlost := (length_remoteAttempt caller responses requests).2
      generalize remoteAttempt caller responses requests = out at hcases hlost ⊢
      obtain ⟨posted, turn⟩ := out
      dsimp only at hcases hlost
      rcases hcases with ⟨hslips, e, rfl⟩ | ⟨hsafe, hloses, rfl⟩ | ⟨hsafe, hstops, hturn, hraised⟩
      · exact ⟨fun h => absurd rfl (h e), fun h => absurd h.1 hslips⟩
      · have hrun := ih (show posted.length = 2 * (k + 1) by rw [hlost rfl, hlength]; omega)
        exact hrun.trans ⟨fun h => ⟨hsafe, fun _ => h⟩, fun h => h.2 hloses⟩
      · refine ⟨fun _ => ⟨hsafe, fun h => absurd h hstops⟩, fun _ e => ?_⟩
        cases turn with
        | won entry filing => exact nofun
        | lost => exact absurd rfl hturn
        | raised e' =>
            intro h
            exact hraised e (congrArg _ (Except.error.inj h))

omit [Interpreter.StandardNumbers] in
/-- **The run ends**: two requests for each attempt at most. -/
theorem length_requests_appendLoop {caller : RemoteCaller} {responses : ℕ → RemoteResponse}
    {left : ℕ} {requests : List RemoteRequest} :
    (appendLoop caller responses left requests).requests.length ≤ requests.length + 2 * left := by
  induction left generalizing requests with
  | zero => exact le_rfl
  | succ left ih =>
      rw [appendLoop]
      have hlength := (length_remoteAttempt caller responses requests).1
      generalize remoteAttempt caller responses requests = out at hlength ⊢
      obtain ⟨posted, turn⟩ := out
      have hposted : posted.length ≤ requests.length + 2 := hlength
      cases turn with
      | won entry filing => exact le_trans hposted (by omega)
      | raised e => exact le_trans hposted (by omega)
      | lost =>
          have hrest := @ih posted
          exact le_trans hrest (by omega)

end Appending

section

variable [Interpreter] [Interpreter.StandardNumbers]

/-- **A client of any server ends**, after a bounded number of requests, and raises nothing but
`RemoteError`, exactly where the responses it gets to are of none of these kinds: a 200 that nests
too deep, a page whose rows are no entries, a cursor that fits into no URL, a head with an infinite
`seq`, or one that an entry cannot be sent after. -/
theorem remoteError_only_iff (responses : ℕ → RemoteResponse) (caller : RemoteCaller) :
    ((remoteEntries responses).requests.length ≤ maxPages ∧
      (OnlyRemoteError (remoteEntries responses).result ↔ SafeToRead responses 0 maxPages)) ∧
    (remoteAppend caller responses).requests.length ≤ 2 * maxRaceRetries ∧
      (OnlyRemoteError (remoteAppend caller responses).result ↔
        SafeToAppend caller responses 0 maxRaceRetries) := by
  refine ⟨⟨?_, @entriesLoop_onlyRemoteError _ responses maxPages [] []⟩, ?_,
    appendLoop_onlyRemoteError rfl⟩
  · exact (Nat.zero_add maxPages) ▸ length_requests_entriesLoop
  · exact (Nat.zero_add (2 * maxRaceRetries)) ▸ length_requests_appendLoop

end

/-- A caller that builds nothing. -/
def idleCaller : RemoteCaller where
  build := fun _ _ => .error .valueError
  appendReceipt := none

/-- A server without a chain: nothing is raised but by the callback. -/
theorem remoteError_only_absent :
    letI := Interpreter.doubles
    OnlyRemoteError (remoteEntries fun _ => ⟨404, []⟩).result ∧
      OnlyRemoteError (remoteAppend idleCaller fun _ => ⟨404, []⟩).result := by
  let _ := Interpreter.doubles
  have := Interpreter.doubles_standardNumbers
  obtain ⟨⟨-, hread⟩, -, happend⟩ := remoteError_only_iff (fun _ => ⟨404, []⟩) idleCaller
  have hstatus : ∀ {body : Bytes}, (⟨404, body⟩ : RemoteResponse).status ≠ 200 := by
    intro body
    exact (by decide : 404 ≠ 200)
  constructor
  · refine hread.mpr fun k _ hreached => ⟨?_, fun h => hstatus h.1⟩
    cases k with
    | zero => exact nofun
    | succ k => exact absurd (hreached 0 (Nat.succ_pos k)).status hstatus
  · refine happend.mpr fun k _ _ => ⟨fun h => hstatus h.1, fun _ _ entry _ hbuild => ?_⟩
    cases hbuild

/-- A page of one row that is a number, and a head with an infinite `seq`. -/
def hostileResponse [Interpreter] : RemoteResponse where
  status := 200
  body := asciiBytes (dumps .compact (.obj [(str "entries", .arr [.int 0]),
    (str "seq", .float (str "Infinity"))]))

/-- **One response crashes both**: a `TypeError` from the row, and an `OverflowError` from the
head. -/
theorem remoteError_only_hostile :
    letI := Interpreter.doubles
    ¬ OnlyRemoteError (remoteEntries fun _ => hostileResponse).result ∧
      ¬ OnlyRemoteError (remoteAppend idleCaller fun _ => hostileResponse).result := by
  let _ := Interpreter.doubles
  constructor
  · have h : (remoteEntries fun _ => hostileResponse).result = .error (.other .typeError) := by
      decide +kernel
    exact fun honly => honly _ h
  · have h : (remoteAppend idleCaller fun _ => hostileResponse).result =
        .error (.other .overflowError) := by decide +kernel
    exact fun honly => honly _ h

end Waxseal.RemoteBackend
