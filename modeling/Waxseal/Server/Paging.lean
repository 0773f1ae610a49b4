import Waxseal.Server.ChainStoreSound

/-!
# Reading a chain page by page

`ChainStore.page` and its cursors on the server, `RemoteBackend.entries` on the client, and
between them whatever the server does with the chain in the meantime.

A page is resolved to a segment first and read from it later (`resolve`, `serve`): an append or
a rotation can fall between the two, as between two pages.  A request can also be answered
by anything else at all (`fault`).  What is written while a page is read becomes visible a
whole line at a time, so a page is a page of the segment as it is when the last line is read.
-/

namespace Waxseal

open Json

/-! ## Cursors -/

/-- `s.partition(sep)`: what is before the first `sep`, and what is after it. -/
def partition (sep : CodePoint) (s : PyStr) : PyStr × PyStr :=
  (s.takeWhile (· ≠ sep), (s.dropWhile (· ≠ sep)).tail)

/-- `encode_cursor(index, identity)`. -/
def encodeCursor (index : ℤ) (identity : PyStr) : PyStr :=
  str "e" ++ strInt index ++ str "~" ++ identity

/-- `s.isdigit()`; `unicodeDigit` tells which characters beyond ASCII are digits. -/
def isDigitStr (unicodeDigit : CodePoint → Bool) (s : PyStr) : Bool :=
  !s.isEmpty && s.all fun c => if c.isAscii then isDigit c else unicodeDigit c

section

variable [Interpreter]

/-- `int(s)` of a string of digits. -/
def intOfDigits (s : PyStr) : Except PyErr ℤ :=
  if s.all isDigit then .ok (ofDigits s) else strToInt s

/-- `decode_cursor(cursor)`. -/
def decodeCursor (unicodeDigit : CodePoint → Bool) (cursor : Option PyStr) :
    Except PyErr (ℤ × Option PyStr) :=
  match cursor with
  | none => .ok (0, none)
  | some cursor =>
      if ¬ str "e" <+: cursor then .error .valueError
      else
        match partition (.ofChar '~') (cursor.drop 1) with
        | (offset, identity) =>
            if !isDigitStr unicodeDigit offset || identity.isEmpty then .error .valueError
            else do return (← intOfDigits offset, some identity)

/-- **A cursor is read back.** -/
theorem decodeCursor_encodeCursor (unicodeDigit : CodePoint → Bool) (i : ℕ) {identity : PyStr}
    (h : identity ≠ []) :
    decodeCursor unicodeDigit (some (encodeCursor i identity)) = .ok ((i : ℤ), some identity) := by
  have hdigits : ∀ c ∈ strNat i, isDigit c = true := fun c hc => isDigit_strNat hc
  have hsep : ∀ c ∈ strNat i, decide (c ≠ CodePoint.ofChar '~') = true := by
    rintro c hc
    refine decide_eq_true ?_
    rintro rfl
    exact absurd (isDigit_of_mem_strNat hc).2 (by decide)
  have hcursor : encodeCursor i identity =
      str "e" ++ (strNat i ++ (CodePoint.ofChar '~' :: identity)) := by
    rw [encodeCursor, List.append_assoc, List.append_assoc]
    rfl
  have hparts : partition (.ofChar '~') (strNat i ++ (CodePoint.ofChar '~' :: identity)) =
      (strNat i, identity) := by
    rw [partition, List.takeWhile_append_of_pos hsep, List.dropWhile_append_of_pos hsep]
    simp
  have hisdigit : isDigitStr unicodeDigit (strNat i) = true := by
    rw [isDigitStr, Bool.and_eq_true]
    refine ⟨by simpa using strNat_ne_nil i, List.all_eq_true.mpr fun c hc => ?_⟩
    have hascii : c.isAscii = true := by
      have := (isDigit_of_mem_strNat hc).2
      simp only [CodePoint.isAscii, decide_eq_true_eq]
      omega
    rw [if_pos hascii, hdigits c hc]
  have hdrop : (str "e" ++ (strNat i ++ (CodePoint.ofChar '~' :: identity))).drop 1 =
      strNat i ++ (CodePoint.ofChar '~' :: identity) := rfl
  have hint : intOfDigits (strNat i) = .ok (i : ℤ) := by
    rw [intOfDigits, if_pos (List.all_eq_true.mpr hdigits), ofDigits_strNat]
  have hnonempty : identity.isEmpty = false := by simpa using h
  rw [decodeCursor, hcursor, if_neg (not_not.mpr (List.prefix_append _ _)), hdrop, hparts]
  simp only [hisdigit, hnonempty, Bool.not_true, Bool.or_self, Bool.false_eq_true, if_false, hint]
  rfl

end

/-! ## Pages -/

/-- `segments_in(directory)`. -/
def segmentsIn (dir : Directory) : List PyStr :=
  let found := (discoverSegments dir).filter fun name =>
    (partition (.ofChar '.') (segmentIdentity name)).1 = trailStem
  if found ≠ [] then found else if trailName ∈ dir then [trailName] else []

/-- How many entries a page has, at least one. -/
structure PageSize where
  val : ℕ
  pos : 0 < val

/-- `DEFAULT_PAGE_SIZE`. -/
def defaultPageSize : PageSize := ⟨500, by decide⟩

section Pages

variable [Interpreter]

/-- The segment a page is about, and where in it the page starts. -/
def resolvePage (unicodeDigit : CodePoint → Bool) (dir : Directory) (cursor : Option PyStr) :
    Except PyErr (ℤ × PyStr) := do
  match ← decodeCursor unicodeDigit cursor with
  | (start, none) => return (start, ← activeSegment dir trailName)
  | (start, some identity) =>
      match (segmentsIn dir).find? (· = identity ++ segmentSuffix) with
      | none => .error .valueError
      | some name => return (start, name)

/-- The loop of `page` over the lines of a segment: the page, and whether there is more. -/
def pageLoop (limit : ℕ) (start : ℤ) : ℕ → List Json → List Bytes → Except PyErr (List Json × Bool)
  | _, page, [] => .ok (page, false)
  | index, page, line :: lines =>
      match decodeUtf8 line with
      | none => .error .unicodeDecodeError
      | some text =>
          if isBlank text then pageLoop limit start index page lines
          else if start ≤ index then
            if page.length = limit then .ok (page, true)
            else do
              let obj ← loads text
              pageLoop limit start (index + 1) (page ++ [obj]) lines
          else pageLoop limit start (index + 1) page lines

/-- What `page` answers from its segment. -/
def pageOf (size : PageSize) (dir : Directory) (start : ℤ) (name : PyStr) :
    Except PyErr (List Json × Option PyStr) :=
  if name ∉ dir then .ok ([], none)
  else do
    let (page, more) ← pageLoop size.val start 0 [] (textLines (fileOf dir name))
    if ¬ more then return (page, none)
    return (page, some (encodeCursor (start + page.length) (segmentIdentity name)))

end Pages

/-! ## The wire -/

/-- A character `urllib.parse.quote` leaves alone. -/
def isUnreserved (c : CodePoint) : Bool :=
  (0x30 ≤ c.val && c.val ≤ 0x39) || (0x41 ≤ c.val && c.val ≤ 0x5A) ||
    (0x61 ≤ c.val && c.val ≤ 0x7A) || c = .ofChar '_' || c = .ofChar '.' || c = .ofChar '-' ||
    c = .ofChar '~'

/-- What is between the two programs and belongs to neither: a query value that is quoted and
read back, and the body of a `JSONResponse`. -/
structure Wire [Interpreter] where
  deliver : PyStr → PyStr
  render : Json → Except PyErr Bytes
  deliver_unreserved : ∀ s : PyStr, s.all isUnreserved = true → deliver s = s
  loads_render : ∀ members body, Writable recursionLimit (.obj members) →
    render (.obj members) = .ok body → loadsBytes body = .ok (.obj members)

/-- A wire that writes everything in ASCII. -/
def Wire.ascii [Interpreter] : Wire where
  deliver := id
  render := fun content => .ok (asciiBytes (dumps .compact content))
  deliver_unreserved := fun _ _ => rfl
  loads_render := by
    intro members body h hbody
    obtain rfl := Except.ok.inj hbody
    have := @decode_dumps_append _ .compact _ h []
    rw [List.append_nil, if_pos (show skipWs [] = [] from rfl)] at this
    rw [loadsBytes_printable (isPrintable_dumps h), this]

/-- The response to a request for entries, as far as the client tells responses apart. -/
inductive Response where
  | ok (body : Bytes)
  /-- 404. -/
  | notFound
  /-- Any other status. -/
  | failed

variable [Interpreter]

/-- The body of a page. -/
def pageBody (page : List Json) (nextCursor : Option PyStr) : Json :=
  .obj [(str "entries", .arr page), (str "next_cursor", (nextCursor.map Json.str).getD .null)]

/-- `entries_body`, from a segment that is resolved. -/
def entriesBody (wire : Wire) (size : PageSize) (dir : Directory) (cursor : Option PyStr)
    (start : ℤ) (name : PyStr) : Response :=
  match pageOf size dir start name with
  | .error _ => .failed
  | .ok (page, nextCursor) =>
      if page = [] ∧ cursor = none then .notFound
      else
        match wire.render (pageBody page nextCursor) with
        | .error _ => .failed
        | .ok body => .ok body

/-! ## The client -/

/-- `_MAX_PAGES`. -/
def maxPages : ℕ := 1000000

/-- Why the client gives up. -/
inductive GivesUp where
  /-- `GET /entries failed`, or nothing came back. -/
  | unanswered
  /-- `GET /entries did not terminate`. -/
  | tooManyPages
  /-- `GET /entries returned an unparsable body`. -/
  | unparsable
  /-- `GET /entries returned the same cursor twice`. -/
  | sameCursor
  | raised (e : PyErr)
  deriving DecidableEq

/-- Where the page loop of `entries()` is, with what it has yielded. -/
inductive PageState where
  | asking (cursor : Option PyStr) (pages : ℕ) (yielded : List Entry)
  /-- The server has resolved the page. -/
  | waiting (cursor : Option PyStr) (pages : ℕ) (yielded : List Entry) (start : ℤ) (name : PyStr)
  | done (yielded : List Entry)
  | gaveUp (why : GivesUp) (yielded : List Entry)

/-- What has been yielded. -/
def PageState.yielded : PageState → List Entry
  | asking _ _ yielded | waiting _ _ yielded _ _ | done yielded | gaveUp _ yielded => yielded

/-- `for obj in x`. -/
def iterate : Json → Except PyErr (List Json)
  | .arr items => .ok items
  | .obj members => .ok (members.map fun m => .str m.1)
  | .str s => .ok (s.map fun c => .str [c])
  | _ => .error .typeError

/-- `_parse_entries_page(body)`. -/
def parseEntriesPage (body : Bytes) : Except GivesUp (List (PyStr × Json)) :=
  match loadsBytes body with
  | .error e => .error (if e.isValueError then .unparsable else .raised e)
  | .ok (.obj members) =>
      if members.any (·.1 = str "entries") then .ok members else .error .unparsable
  | .ok _ => .error .unparsable

/-- `for obj in page["entries"]: yield from_obj(obj)`. -/
def yieldAll : List Entry → List Json → Except PyErr Unit × List Entry
  | yielded, [] => (.ok (), yielded)
  | yielded, item :: items =>
      match fromObj item with
      | .error e => (.error e, yielded)
      | .ok entry => yieldAll (yielded ++ [entry]) items

/-- What the loop does next with the `next_cursor` of a page. -/
def turnPage (cursor : Option PyStr) (pages : ℕ) (yielded : List Entry) (members : List (PyStr × Json)) :
    PageState :=
  match get? (.obj members) (str "next_cursor") with
  | .error e => .gaveUp (.raised e) yielded
  | .ok .null => .done yielded
  | .ok (.str nextCursor) =>
      if some nextCursor = cursor then .gaveUp .sameCursor yielded
      else .asking (some nextCursor) (pages + 1) yielded
  | .ok _ => .gaveUp (.raised .typeError) yielded

/-- The loop takes a response. -/
def receivePage (cursor : Option PyStr) (pages : ℕ) (yielded : List Entry) : Response → PageState
  | .notFound => .done yielded
  | .failed => .gaveUp .unanswered yielded
  | .ok body =>
      match parseEntriesPage body with
      | .error why => .gaveUp why yielded
      | .ok members =>
          match getItem (.obj members) (str "entries") >>= iterate with
          | .error e => .gaveUp (.raised e) yielded
          | .ok objs =>
              match yieldAll yielded objs with
              | (.error e, yielded) => .gaveUp (.raised e) yielded
              | (.ok _, yielded) => turnPage cursor pages yielded members

/-! ## The two together -/

/-- A chain that is being read. -/
structure Reading where
  chain : ChainDir
  reader : PageState

/-- What can happen next. -/
inductive ReadStep where
  | server (step : ServerStep)
  | resolve
  | serve
  | fault

namespace Reading

variable [Hashlib]

/-- One step; a step that is not possible changes nothing. -/
def step (store : ChainStore) (wire : Wire) (unicodeDigit : CodePoint → Bool) (size : PageSize)
    (w : Reading) : ReadStep → Reading
  | .server s => { w with chain := w.chain.step store s }
  | .resolve =>
      match w.reader with
      | .asking cursor pages yielded =>
          if maxPages ≤ pages then { w with reader := .gaveUp .tooManyPages yielded }
          else
            match resolvePage unicodeDigit w.chain.dir (cursor.map wire.deliver) with
            | .error _ => { w with reader := .gaveUp .unanswered yielded }
            | .ok (start, name) => { w with reader := .waiting cursor pages yielded start name }
      | _ => w
  | .serve =>
      match w.reader with
      | .waiting cursor pages yielded start name =>
          let response := entriesBody wire size w.chain.dir cursor start name
          { w with reader := receivePage cursor pages yielded response }
      | _ => w
  | .fault =>
      match w.reader with
      | .asking _ _ yielded | .waiting _ _ yielded _ _ =>
          { w with reader := .gaveUp .unanswered yielded }
      | _ => w

/-- A run. -/
def run (store : ChainStore) (wire : Wire) (unicodeDigit : CodePoint → Bool) (size : PageSize)
    (w : Reading) (steps : List ReadStep) : Reading :=
  steps.foldl (step store wire unicodeDigit size) w

omit [Interpreter] [Hashlib] in
/-- A new chain, and a client that has yet to ask for its first page. -/
def fresh : Reading := ⟨ChainDir.fresh ∅, .asking none 0 []⟩

end Reading

end Waxseal
