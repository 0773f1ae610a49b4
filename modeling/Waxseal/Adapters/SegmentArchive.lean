import Waxseal.Adapters.SegmentForm
import Waxseal.Server.Authorizing
import Waxseal.Server.BodyLimit
import Waxseal.Server.ImportStore
import Waxseal.Server.Paging
import Waxseal.Server.ReceiptChecks
import Waxseal.Sources.SegmentOpening

/-!
# Archiving a segment on the server

`server_import_destination` of `adapters/segment_archive.py` posts a sealed segment to
`POST /v1/imports`, as the one part of a form.  On its way are the limit on bodies, the form reader
of the web framework and the store of imports.

Whatever the network loses and wherever the store fails, a segment that is reported as stored is
there, byte for byte (`archive_stored`).  When it is stored is decided by what is sent, and a
segment of the default size is too long (`archive_iff`).
-/

namespace Waxseal

open Json

/-! ## The client -/

/-- What a report is about. -/
inductive ArchiveDetail where
  /-- The exception. -/
  | why (e : PyErr)
  /-- `HTTP ...`, and the first bytes of the body. -/
  | http (status : ℕ) (body : Bytes)
  /-- The size that was sent, and the `import_id` of the answer. -/
  | accepted (size : ℕ) (importId : Option PyStr)
  deriving DecidableEq

/-- `ArchiveReport`. -/
structure ArchiveReport where
  state : ArchiveState
  destination : PyStr
  detail : ArchiveDetail
  deriving DecidableEq

/-- The `POST` to the imports, but for what is the same in each. -/
structure ImportRequest where
  authorization : Option PyStr
  body : Bytes

/-- Its response. -/
structure ImportResponse where
  status : ℕ
  body : Bytes

section Client

variable [Interpreter]

/-- `_import_id(body)`: the identifier, if there is one to read. -/
def importIdOf (body : Bytes) : Except PyErr (Option PyStr) :=
  match loadsBytes body >>= fun parsed => getItem parsed (str "import_id") with
  | .ok importId => .ok (some (pyStr importId))
  | .error e => if isFieldError e then .ok none else .error e

/-- The `Authorization` of a key. -/
def authorizationOf (apiKey : Option PyStr) : Option PyStr := apiKey.map fun key => str "Bearer " ++ key

/-- The report on a response. -/
def responseReport (destination : PyStr) (size : ℕ) (response : ImportResponse) :
    Except PyErr ArchiveReport :=
  if response.status ≠ 201 then
    .ok ⟨.failed, destination, .http response.status (response.body.take 512)⟩
  else do
    return ⟨.stored, destination, .accepted size (← importIdOf response.body)⟩

/-- `destination`: the URL of the imports. -/
def importsUrl (base : PyStr) : PyStr := base.rdropWhile (· = .ofChar '/') ++ str "/v1/imports"

/-- `server_import_destination(base_url, ...)`. -/
def serverImport (base : PyStr) (apiKey : Option PyStr)
    (send : ImportRequest → Except PyErr ImportResponse) (name : PyStr) (body : Bytes) :
    Except PyErr ArchiveReport :=
  match multipart name body with
  | .error e => .ok ⟨.failed, importsUrl base, .why e⟩
  | .ok encoded =>
      match send ⟨authorizationOf apiKey, encoded⟩ with
      | .error e => .ok ⟨.failed, importsUrl base, .why e⟩
      | .ok response => responseReport (importsUrl base) body.length response

end Client

/-! ## The server -/

/-- The status of a refusal. -/
def Refusal.status : Refusal → ℕ
  | .unauthorized => 401
  | .forbidden _ => 403

/-- The status of a form that is not read. -/
def FormError.status : FormError → ℕ
  | .malformed => 400
  | .missing => 422

/-- What belongs to neither program: the framework's reader of forms, the wire, and the body of a
response that is no `201`. -/
structure ImportServer [Interpreter] where
  reader : Bytes → Except FormError (PyStr × Bytes)
  wire : Wire
  refusal : ℕ → Bytes

/-- A member whose texts are in UTF-8. -/
def Encodes (m : PyStr × Json) : Prop :=
  (∀ c ∈ m.1, c.isSurrogate = false) ∧
    ((∃ n, m.2 = .int n) ∨ ∃ s, m.2 = .str s ∧ ∀ c ∈ s, c.isSurrogate = false)

/-- A `JSONResponse` that writes what UTF-8 has. -/
def Wire.RendersText [Interpreter] (wire : Wire) : Prop :=
  ∀ members : List (PyStr × Json), (∀ m ∈ members, Encodes m) →
    ∃ body, wire.render (.obj members) = .ok body

/-- How a request gets to the application. -/
structure Transmission [Interpreter] (raw : Bytes) where
  contentLength : Option Bytes
  connection : Connection
  whole : connection.read = ⟨raw, .complete⟩
  length : LengthHolds contentLength connection

theorem Refusal.status_ne (refusal : Refusal) : refusal.status ≠ 201 := by
  cases refusal with
  | unauthorized => decide
  | forbidden scope => exact (by decide : (403 : ℕ) ≠ 201)

/-- What `post_import` makes of what `create` raises: it catches `UnsupportedTrailFormat`. -/
def ImportError.status : ImportError → ℕ
  | .noBackend | .empty => 400
  | .invalidIdentifier | .osError => 500

theorem ImportError.status_ne (e : ImportError) : e.status ≠ 201 := by
  cases e <;> decide

/-- What an upload meets on the server: the operators of that time, an identifier, the clock, and
perhaps a fault. -/
structure ImportEvent [Hashlib] (S : OperatorStore) where
  authorizer : Authorizer S
  askedAt : PyStr
  importId : PyStr
  now : PyStr
  fault : Option ImportFault

/-- The members of the `201`. -/
def ImportRecord.responseMembers (r : ImportRecord) : List (PyStr × Json) :=
  [(str "import_id", .str r.importId), (str "filename", .str r.filename), (str "size", .int r.size),
    (str "sha256", .str r.sha256), (str "imported_at", .str r.importedAt),
    (str "ordinal", .int r.ordinal)]

section Server

variable [Hashlib] [Interpreter] {S : OperatorStore}

/-- The status of a call that `authz.require` does not let through. -/
def ImportEvent.refusal (event : ImportEvent S) (authorization : Option PyStr) : Option ℕ :=
  match event.authorizer.require authorization scopeImportWrite event.askedAt with
  | .error _ => some 500
  | .ok (some refusal, _) => some refusal.status
  | .ok (none, _) => none

/-- The upload a form comes to. -/
def uploadOf (event : ImportEvent S) (file : PyStr × Bytes) : Upload :=
  ⟨if file.1 = [] then str "upload" else file.1, file.2, event.importId, event.now, event.fault⟩

namespace ImportServer

/-- `post_import(file, authorization)`. -/
def postImport (server : ImportServer) (authorization : Option PyStr) (raw : Bytes)
    (event : ImportEvent S) (root : ImportRoot) : ImportResponse × ImportRoot :=
  let refuse := fun status => (⟨status, server.refusal status⟩ : ImportResponse)
  match server.reader raw with
  | .error e => (refuse e.status, root)
  | .ok file =>
      match event.refusal authorization with
      | some status => (refuse status, root)
      | none =>
          match ImportStore.create (uploadOf event file) root with
          | (.error e, root) => (refuse e.status, root)
          | (.ok record, root) =>
              match server.wire.render (.obj record.responseMembers) with
              | .ok body => (⟨201, body⟩, root)
              | .error _ => (refuse 500, root)

/-- `POST /v1/imports`, behind the limit on bodies.  Nobody hears the response to a client that has
gone, or to a request that has not come in. -/
def serve (server : ImportServer) (request : ImportRequest) (path : Transmission request.body)
    (event : ImportEvent S) (root : ImportRoot) : ImportResponse × ImportRoot :=
  match (bodySizeLimit (str "POST") path.contentLength path.connection).seen with
  | .refused => (⟨413, server.refusal 413⟩, root)
  | .raised _ | .waiting => (⟨500, server.refusal 500⟩, root)
  | .read body =>
      match body.ending with
      | .complete => server.postImport request.authorization body.bytes event root
      | .disconnected | .waiting => (⟨500, server.refusal 500⟩, root)

end ImportServer

end Server

/-! ## The two together -/

/-- What the network does to a request: lose it, lose its response, or neither. -/
inductive Fate where
  | unsent (e : PyErr)
  | unanswered (e : PyErr)
  | answered

/-- A segment that is archived, and what happens on the way. -/
structure ArchiveCall [Hashlib] [Interpreter] (S : OperatorStore) where
  name : PyStr
  body : Bytes
  apiKey : Option PyStr
  event : ImportEvent S
  path : ∀ raw, Transmission raw
  fate : Fate

/-- What the client gets of the server. -/
def Fate.response (fate : Fate) (response : ImportResponse) : Except PyErr ImportResponse :=
  match fate with
  | .unsent e | .unanswered e => .error e
  | .answered => .ok response

/-- What an upload gets. -/
structure ImportEvent.Proper [Hashlib] {S : OperatorStore} (event : ImportEvent S) : Prop where
  importId : event.importId.length = 32 ∧ isLowerHex event.importId = true
  now : ∀ c ∈ event.now, c.val < 0x80

section System

variable [Hashlib] [Interpreter] {S : OperatorStore}

/-- The server behind a call, when the request gets there. -/
def ArchiveCall.served (server : ImportServer) (call : ArchiveCall S) (request : ImportRequest)
    (root : ImportRoot) : ImportResponse × ImportRoot :=
  server.serve request (call.path request.body) call.event root

/-- A call: its report, and what it leaves on the server. -/
def ArchiveCall.run (server : ImportServer) (base : PyStr) (call : ArchiveCall S)
    (root : ImportRoot) : Except PyErr ArchiveReport × ImportRoot :=
  let send := fun request => call.fate.response (call.served server request root).1
  let report := serverImport base call.apiKey send call.name call.body
  match multipart call.name call.body, call.fate with
  | .error _, _ | .ok _, .unsent _ => (report, root)
  | .ok encoded, .unanswered _ | .ok encoded, .answered =>
      (report, (call.served server ⟨authorizationOf call.apiKey, encoded⟩ root).2)

/-! ## One call -/

omit [Hashlib] in
/-- The `import_id` of a `201` is read. -/
theorem importIdOf_response {wire : Wire} {r : ImportRecord} (h : r.Readable) {body : Bytes}
    (hbody : wire.render (.obj r.responseMembers) = .ok body) :
    importIdOf body = .ok (some r.importId) := by
  have hone : Writable 1 (.obj r.responseMembers) := by
    have hkeys : (r.responseMembers.map Prod.fst).Nodup := by
      show [str "import_id", str "filename", str "size", str "sha256", str "imported_at",
        str "ordinal"].Nodup
      decide +kernel
    refine ⟨hkeys, ?_⟩
    simp only [ImportRecord.responseMembers, List.forall_mem_cons, List.not_mem_nil,
      false_imp_iff, implies_true, and_true]
    exact ⟨⟨noSurrogatePair_str rfl, h.importId⟩, ⟨noSurrogatePair_str rfl, h.filename⟩,
      ⟨noSurrogatePair_str rfl, trivial⟩, ⟨noSurrogatePair_str rfl, h.sha256⟩,
      ⟨noSurrogatePair_str rfl, h.importedAt⟩, noSurrogatePair_str rfl, trivial⟩
  have hwritable : Writable recursionLimit (.obj r.responseMembers) :=
    hone.mono (le_trans (by decide) Interpreter.recursionLimit_large)
  rw [importIdOf, wire.loads_render _ _ hwritable hbody]
  rfl

/-- What a request comes to: the limit, then the route. -/
theorem serve_eq (server : ImportServer) (request : ImportRequest)
    (path : Transmission request.body) (event : ImportEvent S) (root : ImportRoot) :
    server.serve request path event root =
      if maxBodyBytes < request.body.length then (⟨413, server.refusal 413⟩, root)
      else server.postImport request.authorization request.body event root := by
  rw [ImportServer.serve, seen_bodySizeLimit path.length, path.whole, BodyRead.within]
  split_ifs with hlong
  · rfl
  · rfl

omit [Hashlib] [Interpreter] in
theorem isSurrogate_of_lt {c : CodePoint} (h : c.val < 0x80) : c.isSurrogate = false := by
  simp only [CodePoint.isSurrogate, Bool.and_eq_false_imp, decide_eq_true_eq]
  intro hle
  omega

omit [Hashlib] [Interpreter] in
theorem isSurrogate_of_printable {s : PyStr} (h : ∀ c ∈ s, IsPrintable c) :
    ∀ c ∈ s, c.isSurrogate = false := by
  intro c hc
  have := (h c hc).2
  exact isSurrogate_of_lt (by omega)

omit [Interpreter] in
/-- The upload of a segment is one the store can do something with. -/
theorem uploadOf_proper {event : ImportEvent S} (hevent : event.Proper) {name : PyStr}
    (hname : ∀ c ∈ name, IsPrintable c) (body : Bytes) : (uploadOf event (name, body)).Proper where
  importId := hevent.importId
  now := hevent.now
  filename := by
    rw [uploadOf]
    split_ifs with hempty
    · exact isSurrogate_of_printable (isPrintable_of_all rfl)
    · exact isSurrogate_of_printable hname

omit [Interpreter] in
/-- The name of a trail that is stored is that of the segment. -/
theorem filename_uploadOf {event : ImportEvent S} {name : PyStr} {body : Bytes}
    (h : hasBackend (uploadName (uploadOf event (name, body)).filename) = true) :
    (uploadOf event (name, body)).filename = name := by
  rw [uploadOf] at h ⊢
  by_cases hempty : name = []
  · dsimp only at h
    rw [if_pos hempty] at h
    exact absurd h (by decide +kernel)
  · exact if_neg hempty

omit [Interpreter] in
/-- What the store keeps about an upload, a response can say. -/
theorem encodes_responseMembers {u : Upload} (hu : u.Proper) (root : ImportRoot) :
    ∀ m ∈ (ImportStore.recordOf u root).responseMembers, Encodes m := by
  have key : ∀ s : String, ((str s).all fun c => !c.isSurrogate) = true →
      ∀ c ∈ str s, c.isSurrogate = false := by
    intro s hs c hc
    exact (Bool.not_eq_true' _).mp (List.all_eq_true.mp hs c hc)
  have text : ∀ {s : PyStr}, isLowerHex s = true → ∀ c ∈ s, c.isSurrogate = false :=
    fun hs => isSurrogate_of_printable (isPrintable_of_isLowerHex hs)
  simp only [ImportRecord.responseMembers, List.forall_mem_cons, List.not_mem_nil, false_imp_iff,
    implies_true, and_true]
  exact ⟨⟨key _ rfl, .inr ⟨_, rfl, text hu.importId.2⟩⟩,
    ⟨key _ rfl, .inr ⟨_, rfl, isSurrogate_uploadName hu.filename⟩⟩,
    ⟨key _ rfl, .inl ⟨_, rfl⟩⟩, ⟨key _ rfl, .inr ⟨_, rfl, text (isLowerHex_hex _)⟩⟩,
    ⟨key _ rfl, .inr ⟨_, rfl, fun c hc => isSurrogate_of_lt (hu.now c hc)⟩⟩,
    ⟨key _ rfl, .inl ⟨_, rfl⟩⟩⟩

/-- Where a segment can go to: what decides it is known before it is sent. -/
structure Archivable (name : PyStr) (body : Bytes) : Prop where
  safe : name.any unsafeInFilename = false
  backend : hasBackend (uploadName name) = true
  nonempty : body ≠ []
  unmarked : ¬ boundaryMarker <:+: body
  short : framingLength + name.length + body.length ≤ maxBodyBytes

omit [Hashlib] in
/-- When a response is reported as that of a stored segment. -/
theorem responseReport_stored_iff (destination : PyStr) (size : ℕ) (response : ImportResponse) :
    (∃ report, responseReport destination size response = .ok report ∧ report.state = .stored) ↔
      response.status = 201 ∧ ∃ importId, importIdOf response.body = .ok importId := by
  rw [responseReport]
  by_cases hstatus : response.status = 201
  · rw [if_neg (not_not.mpr hstatus)]
    cases himport : importIdOf response.body with
    | error e => simp [bind, Except.bind]
    | ok importId => simp [bind, Except.bind, pure, Except.pure, hstatus]
  · rw [if_pos hstatus]
    simp [hstatus]

omit [Interpreter] in
theorem ImportEvent.refusal_ne (event : ImportEvent S) {authorization : Option PyStr} {status : ℕ}
    (h : event.refusal authorization = some status) : status ≠ 201 := by
  rw [ImportEvent.refusal] at h
  split at h
  · rw [← Option.some.inj h]
    decide
  · rw [← Option.some.inj h]
    exact Refusal.status_ne _
  · cases h

/-- **The route**, of a form that is read: there is a record behind a `201`, and only there. -/
theorem postImport_cases {server : ImportServer} {raw : Bytes} {file : PyStr × Bytes}
    (hread : server.reader raw = .ok file) {event : ImportEvent S}
    (hu : (uploadOf event file).Proper) (authorization : Option PyStr) (root : ImportRoot) :
    let out := server.postImport authorization raw event root
    let created := ImportStore.create (uploadOf event file) root
    (out.1.status ≠ 201 ∧ (out.2 = root ∨ out.2 = created.2)) ∨
      (out.1.status = 201 ∧ out.2 = created.2 ∧ ∃ r, created.1 = .ok r ∧
        importIdOf out.1.body = .ok (some r.importId)) := by
  intro out created
  have hout : out = server.postImport authorization raw event root := rfl
  rw [ImportServer.postImport, hread] at hout
  dsimp only at hout
  cases hrefusal : event.refusal authorization with
  | some status =>
      rw [hrefusal] at hout
      rw [hout]
      exact .inl ⟨event.refusal_ne hrefusal, .inl rfl⟩
  | none =>
      rw [hrefusal] at hout
      dsimp only at hout
      rcases hcreate : ImportStore.create (uploadOf event file) root with ⟨e | r, after⟩
      · rw [hcreate] at hout
        rw [hout]
        exact .inl ⟨e.status_ne, .inr (congrArg Prod.snd hcreate).symm⟩
      · rw [hcreate] at hout
        dsimp only at hout
        have hr := (create_ok hcreate).2.2
        cases hrender : server.wire.render (.obj r.responseMembers) with
        | error e =>
            rw [hrender] at hout
            rw [hout]
            exact .inl ⟨(by decide : (500 : ℕ) ≠ 201), .inr (congrArg Prod.snd hcreate).symm⟩
        | ok body =>
            rw [hrender] at hout
            rw [hout]
            refine .inr ⟨rfl, (congrArg Prod.snd hcreate).symm, r, congrArg Prod.fst hcreate, ?_⟩
            exact importIdOf_response (hr ▸ readable_recordOf hu root) hrender

/-- A `201` names the import. -/
theorem importIdOf_of_created {server : ImportServer} {raw : Bytes} {file : PyStr × Bytes}
    (hread : server.reader raw = .ok file) {event : ImportEvent S}
    (hu : (uploadOf event file).Proper) {authorization : Option PyStr} {root : ImportRoot}
    (h : (server.postImport authorization raw event root).1.status = 201) :
    ∃ importId, importIdOf (server.postImport authorization raw event root).1.body =
      .ok importId := by
  rcases postImport_cases hread hu authorization root with ⟨hother, -⟩ | ⟨-, -, r, -, himport⟩
  · exact absurd h hother
  · exact ⟨_, himport⟩

/-- When the route answers `201`. -/
theorem postImport_created_iff {server : ImportServer} (hrender : server.wire.RendersText)
    {raw : Bytes} {file : PyStr × Bytes} (hread : server.reader raw = .ok file)
    {event : ImportEvent S} (hu : (uploadOf event file).Proper) (authorization : Option PyStr)
    (root : ImportRoot) :
    (server.postImport authorization raw event root).1.status = 201 ↔
      event.refusal authorization = none ∧
        ∃ r, (ImportStore.create (uploadOf event file) root).1 = .ok r := by
  rw [ImportServer.postImport, hread]
  dsimp only
  cases hrefusal : event.refusal authorization with
  | some status =>
      refine iff_of_false (event.refusal_ne hrefusal) ?_
      rintro ⟨hnone, -⟩
      cases hnone
  | none =>
      dsimp only
      rcases hcreate : ImportStore.create (uploadOf event file) root with ⟨e | r, after⟩
      · refine iff_of_false e.status_ne ?_
        rintro ⟨-, r, hr⟩
        cases hr
      · have hr := (create_ok hcreate).2.2
        obtain ⟨body, hbody⟩ := hrender r.responseMembers (hr ▸ encodes_responseMembers hu root)
        dsimp only
        rw [hbody]
        exact iff_of_true rfl ⟨rfl, r, rfl⟩

omit [Hashlib] [Interpreter] in
/-- When a segment can be framed. -/
theorem multipart_ok_iff {name : PyStr} (hname : ∀ c ∈ name, IsPrintable c) (body : Bytes) :
    (∃ raw, multipart name body = .ok raw) ↔
      name.any unsafeInFilename = false ∧ ¬ boundaryMarker <:+: body := by
  rw [multipart]
  split_ifs with hunsafe hmarker hascii
  · refine iff_of_false (by simp) ?_
    rintro ⟨hsafe, -⟩
    rw [hsafe] at hunsafe
    cases hunsafe
  · exact iff_of_false (by simp) fun h => h.2 hmarker
  · exact iff_of_true ⟨_, rfl⟩ ⟨(Bool.not_eq_true _).mp hunsafe, hmarker⟩
  · exact absurd (isAscii_of_printable hname) hascii

/-- A call whose request comes back. -/
theorem run_answered {server : ImportServer} {base : PyStr} {call : ArchiveCall S}
    (hfate : call.fate = .answered) {raw : Bytes} (hraw : multipart call.name call.body = .ok raw)
    (root : ImportRoot) :
    let served := call.served server ⟨authorizationOf call.apiKey, raw⟩ root
    call.run server base root =
      (responseReport (importsUrl base) call.body.length served.1, served.2) := by
  intro served
  rw [ArchiveCall.run, serverImport, hraw, hfate]
  rfl

/-- A call whose request is lost. -/
theorem run_unsent {server : ImportServer} {base : PyStr} {call : ArchiveCall S} {e : PyErr}
    (hfate : call.fate = .unsent e) {raw : Bytes} (hraw : multipart call.name call.body = .ok raw)
    (root : ImportRoot) :
    call.run server base root = (.ok ⟨.failed, importsUrl base, .why e⟩, root) := by
  rw [ArchiveCall.run, serverImport, hraw, hfate]
  rfl

/-- A call whose response is lost. -/
theorem run_unanswered {server : ImportServer} {base : PyStr} {call : ArchiveCall S} {e : PyErr}
    (hfate : call.fate = .unanswered e) {raw : Bytes}
    (hraw : multipart call.name call.body = .ok raw) (root : ImportRoot) :
    call.run server base root = (.ok ⟨.failed, importsUrl base, .why e⟩,
      (call.served server ⟨authorizationOf call.apiKey, raw⟩ root).2) := by
  rw [ArchiveCall.run, serverImport, hraw, hfate]
  rfl

/-- A call that is not framed. -/
theorem run_unframed {server : ImportServer} {base : PyStr} {call : ArchiveCall S} {e : PyErr}
    (hraw : multipart call.name call.body = .error e) (root : ImportRoot) :
    call.run server base root = (.ok ⟨.failed, importsUrl base, .why e⟩, root) := by
  rw [ArchiveCall.run, serverImport, hraw]

/-- What reaches the store: the segments of a client, and the uploads of others. -/
inductive ArchiveStep (S : OperatorStore) where
  | archive (call : ArchiveCall S)
  | upload (u : Upload)

/-- The store, and the reports of the client, each with its call. -/
structure ArchiveWorld (S : OperatorStore) where
  root : ImportRoot
  reports : List (ArchiveCall S × Except PyErr ArchiveReport)

/-- One of these. -/
def ArchiveWorld.step (server : ImportServer) (base : PyStr) (w : ArchiveWorld S) :
    ArchiveStep S → ArchiveWorld S
  | .archive call =>
      let out := call.run server base w.root
      ⟨out.2, w.reports ++ [(call, out.1)]⟩
  | .upload u => ⟨(ImportStore.create u w.root).2, w.reports⟩

/-- A run, from an empty store. -/
def archiveRun (server : ImportServer) (base : PyStr) (steps : List (ArchiveStep S)) :
    ArchiveWorld S :=
  steps.foldl (ArchiveWorld.step server base) ⟨[], []⟩

/-- The name of a segment is printable, and an upload is what the server makes of one. -/
def ArchiveStep.Proper : ArchiveStep S → Prop
  | .archive call => (∀ c ∈ call.name, IsPrintable c) ∧ call.event.Proper
  | .upload u => u.Proper

/-- The identifier in a report that the segment is stored. -/
def ArchiveReport.importId (report : ArchiveReport) : Option PyStr :=
  match report.state, report.detail with
  | .stored, .accepted _ importId => importId
  | _, _ => none

/-- The identifier a call was answered with. -/
def reportedId (report : Except PyErr ArchiveReport) : Option PyStr :=
  report.toOption.bind ArchiveReport.importId

/-- What a report promises: an identifier, the name of a trail, and its bytes. -/
def promiseOf (out : ArchiveCall S × Except PyErr ArchiveReport) : Option (PyStr × PyStr × Bytes) :=
  (reportedId out.2).map fun importId => (importId, uploadName out.1.name, out.1.body)

/-- A record that was returned, the same way. -/
def keptOf (kept : ImportRecord × Bytes) : PyStr × PyStr × Bytes :=
  (kept.1.importId, kept.1.filename, kept.2)

omit [Hashlib] [Interpreter] in
theorem reportedId_eq_none {report : Except PyErr ArchiveReport}
    (h : ∀ r, report = .ok r → r.state ≠ .stored) : reportedId report = none := by
  cases report with
  | error e => rfl
  | ok r =>
      have hstate := h r rfl
      obtain ⟨state, destination, detail⟩ := r
      cases state with
      | stored => exact absurd rfl hstate
      | failed => rfl
      | notAttempted => rfl

/-- What a framed segment does behind the limit. -/
theorem served_cases {server : ImportServer} (hreader : ReadsForms server.reader)
    {call : ArchiveCall S} (hname : ∀ c ∈ call.name, IsPrintable c) (hevent : call.event.Proper)
    {raw : Bytes} (hraw : multipart call.name call.body = .ok raw) (root : ImportRoot) :
    let out := call.served server ⟨authorizationOf call.apiKey, raw⟩ root
    let created := ImportStore.create (uploadOf call.event (call.name, call.body)) root
    (out.1.status ≠ 201 ∧ (out.2 = root ∨ out.2 = created.2)) ∨
      (out.1.status = 201 ∧ out.2 = created.2 ∧ ∃ r, created.1 = .ok r ∧
        importIdOf out.1.body = .ok (some r.importId)) := by
  intro out created
  have hsafe := ((multipart_ok_iff hname call.body).mp ⟨raw, hraw⟩).1
  have hread : server.reader raw = .ok (call.name, call.body) :=
    hreader _ _ (formFile_multipart ⟨hname, hsafe⟩ hraw)
  have hout : out = server.serve ⟨authorizationOf call.apiKey, raw⟩ (call.path raw) call.event root :=
    rfl
  rw [serve_eq] at hout
  dsimp only at hout
  split_ifs at hout with hlong
  · rw [hout]
    exact .inl ⟨(by decide : (413 : ℕ) ≠ 201), .inl rfl⟩
  · rw [hout]
    exact postImport_cases hread (uploadOf_proper hevent hname call.body) _ root

/-- **A call does nothing to the store, or what an upload of its segment does**; a report that it is
stored is behind an upload that returned a record. -/
theorem run_cases {server : ImportServer} (hreader : ReadsForms server.reader) {call : ArchiveCall S}
    (hname : ∀ c ∈ call.name, IsPrintable c) (hevent : call.event.Proper) (base : PyStr)
    (root : ImportRoot) :
    let out := call.run server base root
    let u := uploadOf call.event (call.name, call.body)
    ((∀ r, out.1 = .ok r → r.state ≠ .stored) ∧
        (out.2 = root ∨ out.2 = (ImportStore.create u root).2)) ∨
      ∃ record destination, ImportStore.create u root = (.ok record, out.2) ∧
        record.filename = uploadName call.name ∧
        out.1 = .ok ⟨.stored, destination, .accepted call.body.length (some record.importId)⟩ := by
  intro out u
  have failed : ∀ destination detail, ∀ r,
      (Except.ok ⟨.failed, destination, detail⟩ : Except PyErr ArchiveReport) = .ok r →
        r.state ≠ .stored := by
    intro destination detail r hr
    rw [← Except.ok.inj hr]
    exact ArchiveState.noConfusion
  cases hraw : multipart call.name call.body with
  | error e =>
      have hout : out = _ := run_unframed hraw root
      rw [hout]
      exact .inl ⟨failed _ _, .inl rfl⟩
  | ok raw =>
      have hserved := served_cases hreader hname hevent hraw root
      cases hfate : call.fate with
      | unsent e =>
          have hout : out = _ := run_unsent hfate hraw root
          rw [hout]
          exact .inl ⟨failed _ _, .inl rfl⟩
      | unanswered e =>
          have hout : out = _ := run_unanswered hfate hraw root
          rw [hout]
          -- the server has it, and the client does not know
          refine .inl ⟨failed _ _, ?_⟩
          rcases hserved with ⟨-, hroot⟩ | ⟨-, hroot, -⟩
          · exact hroot
          · exact .inr hroot
      | answered =>
          have hout : out = _ := run_answered hfate hraw root
          rw [hout]
          rcases hserved with ⟨hstatus, hroot⟩ | ⟨hstatus, hroot, record, hrecord, himport⟩
          · refine .inl ⟨?_, hroot⟩
            rw [responseReport, if_pos hstatus]
            exact failed _ _
          · refine .inr ⟨record, importsUrl base, Prod.ext hrecord hroot.symm, ?_, ?_⟩
            · have hok := create_ok (Prod.ext hrecord rfl)
              rw [hok.2.2]
              exact congrArg uploadName (filename_uploadOf hok.1)
            · rw [responseReport, if_neg (not_not.mpr hstatus), himport]
              rfl

/-- A report that a segment is stored says how long it is, and names an identifier. -/
def Shaped (out : ArchiveCall S × Except PyErr ArchiveReport) : Prop :=
  ∀ r, out.2 = .ok r → r.state = .stored →
    ∃ importId, r.detail = .accepted out.1.body.length (some importId)

/-- What holds of a run: the store is that of uploads, and they returned what was promised. -/
structure ArchiveWorld.Sound (w : ArchiveWorld S) (uploads : List Upload) : Prop where
  shaped : ∀ out ∈ w.reports, Shaped out
  proper : ∀ u ∈ uploads, u.Proper
  root : w.root = (ImportStore.run uploads).root
  promised : (w.reports.filterMap promiseOf).Sublist
    ((ImportStore.run uploads).returned.map keptOf)

/-- Another upload. -/
theorem run_append (uploads : List Upload) (u : Upload) :
    ImportStore.run (uploads ++ [u]) = ImportStore.step (ImportStore.run uploads) u := by
  rw [ImportStore.run, List.foldl_append]
  rfl

/-- What was returned stays returned. -/
theorem ArchiveWorld.Sound.upload {w : ArchiveWorld S} {uploads : List Upload} (h : w.Sound uploads)
    {u : Upload} (hu : u.Proper) :
    ArchiveWorld.Sound ⟨(ImportStore.create u w.root).2, w.reports⟩ (uploads ++ [u]) where
  shaped := h.shaped
  proper := by
    rw [List.forall_mem_append, List.forall_mem_singleton]
    exact ⟨h.proper, hu⟩
  root := by
    rw [run_append, h.root]
    rfl
  promised := by
    rw [run_append, returned_step, List.map_append]
    exact h.promised.trans (List.sublist_append_left _ _)

/-- **One step.** -/
theorem ArchiveWorld.Sound.step {w : ArchiveWorld S} {uploads : List Upload} (h : w.Sound uploads)
    {server : ImportServer} (hreader : ReadsForms server.reader) (base : PyStr)
    {s : ArchiveStep S} (hs : s.Proper) :
    ∃ uploads', (w.step server base s).Sound uploads' := by
  cases s with
  | upload u => exact ⟨_, h.upload hs⟩
  | archive call =>
      obtain ⟨hname, hevent⟩ := hs
      have hu := uploadOf_proper hevent hname call.body
      have hreports : (w.step server base (.archive call)).reports =
          w.reports ++ [(call, (call.run server base w.root).1)] := rfl
      have hroot : (w.step server base (.archive call)).root =
          (call.run server base w.root).2 := rfl
      have hshaped : Shaped (call, (call.run server base w.root).1) →
          ∀ out ∈ (w.step server base (.archive call)).reports, Shaped out := by
        intro hnew
        rw [hreports, List.forall_mem_append, List.forall_mem_singleton]
        exact ⟨h.shaped, hnew⟩
      rcases run_cases hreader hname hevent base w.root with
        ⟨hfailed, hafter⟩ | ⟨record, destination, hcreate, hfilename, hreport⟩
      · have hnone : promiseOf (call, (call.run server base w.root).1) = none := by
          rw [promiseOf, reportedId_eq_none hfailed]
          rfl
        have hpromises : (w.step server base (.archive call)).reports.filterMap promiseOf =
            w.reports.filterMap promiseOf := by
          rw [hreports, List.filterMap_append, List.filterMap_cons_none hnone, List.filterMap_nil,
            List.append_nil]
        have hquiet := hshaped fun r hr hstored => absurd hstored (hfailed r hr)
        -- a failed call promises nothing, but the store may have kept the segment
        rcases hafter with hsame | hafter
        · refine ⟨uploads, hquiet, h.proper, ?_, ?_⟩
          · rw [hroot, hsame, h.root]
          · rw [hpromises]
            exact h.promised
        · have hmore := h.upload hu
          refine ⟨_, hquiet, hmore.proper, ?_, ?_⟩
          · rw [hroot, hafter]
            exact hmore.root
          · rw [hpromises]
            exact hmore.promised
      · have hmore := h.upload hu
        -- the call succeeds, and what it promises is what the store returned last
        have hpromise : promiseOf (call, (call.run server base w.root).1) =
            some (keptOf (record, call.body)) := by
          rw [promiseOf, hreport, keptOf, hfilename]
          rfl
        refine ⟨_, hshaped ?_, hmore.proper, ?_, ?_⟩
        · intro r hr _
          rw [hreport] at hr
          rw [← Except.ok.inj hr]
          exact ⟨_, rfl⟩
        · rw [hroot, ← congrArg Prod.snd hcreate]
          exact hmore.root
        · have hreturned : (ImportStore.create (uploadOf call.event (call.name, call.body))
              (ImportStore.run uploads).root).1 = .ok record := by
            rw [← h.root, hcreate]
          rw [hreports, List.filterMap_append, List.filterMap_cons_some hpromise, List.filterMap_nil,
            run_append, returned_step, hreturned, List.map_append]
          exact h.promised.append (List.Sublist.refl _)

/-- **A run.** -/
theorem sound_archiveRun {server : ImportServer} (hreader : ReadsForms server.reader) (base : PyStr)
    {steps : List (ArchiveStep S)} (hsteps : ∀ s ∈ steps, s.Proper) :
    ∃ uploads, (archiveRun server base steps).Sound uploads := by
  suffices key : ∀ (w : ArchiveWorld S) (uploads : List Upload), w.Sound uploads →
      ∃ uploads', (steps.foldl (ArchiveWorld.step server base) w).Sound uploads' by
    have hstart : ArchiveWorld.Sound (⟨[], []⟩ : ArchiveWorld S) [] := {
      shaped := fun out hout => absurd hout List.not_mem_nil
      proper := fun u hu => absurd hu List.not_mem_nil
      root := rfl
      promised := .slnil }
    rw [archiveRun]
    exact key _ [] hstart
  induction steps with
  | nil => exact fun w uploads h => ⟨uploads, h⟩
  | cons s steps ih =>
      intro w uploads h
      rw [List.forall_mem_cons] at hsteps
      obtain ⟨next, hnext⟩ := h.step hreader base hsteps.1
      exact ih hsteps.2 _ next hnext

/-- **A segment that is reported as stored is there**, whatever the network lost, wherever the store
failed, and whatever others upload: under the identifier of the report is a record of the segment,
and the trail has its bytes.  No two reports have the same identifier. -/
theorem archive_stored {server : ImportServer} (hreader : ReadsForms server.reader) (base : PyStr)
    {steps : List (ArchiveStep S)} (hsteps : ∀ s ∈ steps, s.Proper) :
    let w := archiveRun server base steps
    (∀ call report, (call, .ok report) ∈ w.reports → report.state = .stored →
      ∃ record, report.detail = .accepted call.body.length (some record.importId) ∧
        ImportStore.get w.root record.importId = .ok (some record) ∧
        ImportStore.trail w.root record.importId = some call.body ∧
        record.filename = uploadName call.name ∧ record.size = call.body.length ∧
        record.sha256 = hexdigest call.body) ∧
      (w.reports.filterMap fun out => reportedId out.2).Nodup := by
  intro w
  obtain ⟨uploads, hw⟩ := sound_archiveRun hreader base hsteps
  obtain ⟨slots, hstore⟩ := soundImports_run hw.proper
  have hroot : w.root = (ImportStore.run uploads).root := hw.root
  constructor
  · intro call report hreport hstored
    obtain ⟨importId, hdetail⟩ := hw.shaped _ hreport report rfl hstored
    have hpromise : promiseOf (call, .ok report) = some (importId, uploadName call.name, call.body) := by
      obtain ⟨state, destination, detail⟩ := report
      dsimp only at hstored hdetail
      rw [hstored, hdetail]
      rfl
    -- what is promised is among what the store returned, and that is what it holds
    have hmem := hw.promised.subset (List.mem_filterMap.mpr ⟨_, hreport, hpromise⟩)
    obtain ⟨⟨record, data⟩, hkept, heq⟩ := List.mem_map.mp hmem
    obtain ⟨rfl, hrest⟩ := Prod.mk.inj heq
    obtain ⟨hfilename, rfl⟩ := Prod.mk.inj hrest
    obtain ⟨hget, htrail, hsize, hsha⟩ := hstore.found hkept
    rw [hroot]
    exact ⟨record, hdetail, hget, htrail, hfilename, hsize, hsha⟩
  · -- the identifiers are those of the promises, a sublist of those of the store
    have hids : (w.reports.filterMap fun out => reportedId out.2) =
        (w.reports.filterMap promiseOf).map Prod.fst := by
      rw [List.map_filterMap]
      refine List.filterMap_congr fun out _ => ?_
      rw [promiseOf]
      cases reportedId out.2 with
      | none => rfl
      | some importId => rfl
    have hnodup := hstore.nodup_ids
    have hkept : ((ImportStore.run uploads).returned.map keptOf).map Prod.fst =
        (ImportStore.run uploads).returned.map fun kept => kept.1.importId := by
      rw [List.map_map]
      rfl
    rw [← hkept] at hnodup
    rw [hids]
    exact (hw.promised.map Prod.fst).nodup hnodup

/-! ## At the threshold of a rotation -/

/-- A segment over the limit gets nowhere. -/
theorem run_oversized (server : ImportServer) (base : PyStr) {call : ArchiveCall S}
    (hlong : maxBodyBytes ≤ call.body.length) (root : ImportRoot) :
    let out := call.run server base root
    out.1.map ArchiveReport.state = .ok .failed ∧ out.2 = root := by
  intro out
  cases hraw : multipart call.name call.body with
  | error e =>
      have hout : out = _ := run_unframed hraw root
      rw [hout]
      exact ⟨rfl, rfl⟩
  | ok raw =>
      have hlength := length_multipart hraw
      have hframing : 0 < framingLength := by decide +kernel
      -- the framing only makes the body longer
      have hserved : call.served server ⟨authorizationOf call.apiKey, raw⟩ root =
          (⟨413, server.refusal 413⟩, root) := by
        rw [ArchiveCall.served, serve_eq]
        exact if_pos (show maxBodyBytes < raw.length by omega)
      cases hfate : call.fate with
      | unsent e =>
          have hout : out = _ := run_unsent hfate hraw root
          rw [hout]
          exact ⟨rfl, rfl⟩
      | unanswered e =>
          have hout : out = _ := run_unanswered hfate hraw root
          rw [hout, hserved]
          exact ⟨rfl, rfl⟩
      | answered =>
          have hout : out = _ := run_answered hfate hraw root
          rw [hout, hserved]
          exact ⟨rfl, rfl⟩

/-- The last thing a rotation tells is what became of the archive. -/
theorem notices_rotate {trail : SegmentedTrail} {io : OpeningIo}
    {dir : Directory} {active hash : PyStr} {seq : ℤ} {opened : SegmentLog}
    (h : trail.rotate io dir active seq hash = .ok opened) :
    opened.notices.getLast? = some (.archive active (archiveReport io.archive)) := by
  rw [SegmentedTrail.rotate] at h
  split at h
  · cases h
  · split at h
    · cases h
    · split at h
      · cases h
      · rw [← Except.ok.inj h]
        dsimp only
        rw [List.getLast?_append]
        rfl

/-- **A segment that is closed by its size is not archived on the server**, if it is not closed
before the limit on bodies: its successor is opened, the archive has failed, and nothing is stored.
The threshold the hooks have is sixteen times the limit. -/
theorem rotation_not_archived {trail : SegmentedTrail} {io : OpeningIo} {before dir : Directory}
    {active : PyStr} {tail : Bytes} (hio : io.Unhindered trail.config)
    (h : trail.ClosesOn before dir active tail) {seq : ℤ} {hash : PyStr}
    (hfields : loadsDigits tail >>= tailFields = .ok (seq, hash)) (hseq : 0 ≤ seq)
    (hhash : isSha256Hex hash = true) (hlimit : (maxBodyBytes : ℤ) ≤ trail.maxSegmentBytes)
    (server : ImportServer) (base : PyStr) {call : ArchiveCall S} {root : ImportRoot}
    (hbody : fileOf dir active <+: call.body)
    (harchive : io.archive = some ((call.run server base root).1.map ArchiveReport.state)) :
    ∃ opened, trail.openSegmented io before dir = .ok opened ∧
      opened.notices.getLast? = some (.archive active .failed) ∧
      (call.run server base root).2 = root := by
  have hlong : maxBodyBytes ≤ call.body.length := by
    have hfull : trail.maxSegmentBytes ≤ ((fileOf dir active).length : ℤ) := h.full
    have := hbody.length_le
    omega
  obtain ⟨hfailed, hroot⟩ := run_oversized server base hlong root
  obtain ⟨opened, hopened, -⟩ := SegmentedTrail.rotate_ok hio h hseq hhash
  refine ⟨opened, ?_, ?_, hroot⟩
  · rw [SegmentedTrail.openSegmented_closing h, hfields]
    exact hopened
  · rw [notices_rotate hopened, harchive, hfailed]
    rfl

end System

/-! ## A segment that is stored, and one that is not -/

/-- A server that reads the format and nothing else. -/
def plainImports [Interpreter] : ImportServer where
  reader := fun raw => (formFile raw).elim (.error .malformed) .ok
  wire := .ascii
  refusal := fun _ => []

theorem readsForms_plainImports [Interpreter] : ReadsForms plainImports.reader := by
  intro raw file hfile
  show (formFile raw).elim _ _ = _
  rw [hfile]
  rfl

theorem rendersText_plainImports [Interpreter] : plainImports.wire.RendersText :=
  fun _ _ => ⟨_, rfl⟩

/-- A request in one message. -/
def directPath [Interpreter] (raw : Bytes) : Transmission raw where
  contentLength := none
  connection := ⟨[(raw, false)], true⟩
  whole := rfl
  length := nofun

/-- The archive of a segment, where nobody has a key. -/
def segmentCall [Hashlib] [Interpreter] (body : Bytes) (digit : Char) (fate : Fate) :
    ArchiveCall postgresOperatorStore where
  name := str "trail.00000.jsonl"
  body := body
  apiKey := none
  event := ⟨⟨none, .empty⟩, str "now", List.replicate 32 (.ofChar digit), str "now", none⟩
  path := directPath
  fate := fate

theorem printable_segmentName : ∀ c ∈ str "trail.00000.jsonl", IsPrintable c :=
  isPrintable_of_all rfl

theorem proper_segmentCall [Hashlib] [Interpreter] (body : Bytes) {digit : Char} (fate : Fate)
    (hdigit : isLowerHex (List.replicate 32 (.ofChar digit)) = true) :
    (segmentCall body digit fate).event.Proper where
  importId := ⟨List.length_replicate, hdigit⟩
  now := by
    intro c hc
    exact of_decide_eq_true (List.all_eq_true.mp
      (show ((str "now").all fun c => decide (c.val < 0x80)) = true from rfl) c hc)

/-- A segment whose response is lost, and another one. -/
theorem archive_stored_unanswered :
    letI := Sha256.hashlib
    letI := Interpreter.plain
    let w := archiveRun plainImports (str "http://s/")
      [.archive (segmentCall (ascii "\x7b\x7d\n") '0' (.unanswered .osError)),
        .archive (segmentCall (ascii "\x7b\x7d\n") '1' .answered)]
    (w.reports.filterMap fun out => reportedId out.2).Nodup := by
  let _ := Sha256.hashlib
  let _ := Interpreter.plain
  refine (archive_stored readsForms_plainImports (str "http://s/") ?_).2
  simp only [List.forall_mem_cons, List.not_mem_nil, false_imp_iff, implies_true, and_true]
  exact ⟨⟨printable_segmentName, proper_segmentCall _ _ rfl⟩,
    ⟨printable_segmentName, proper_segmentCall _ _ rfl⟩⟩

/-- A segment of this length, of empty lines and one entry. -/
def longSegment [Hashlib] [Interpreter] : Bytes :=
  List.replicate maxBodyBytes LF ++ (SegmentedTrail.tailLine (.int 0) genesisPrevHash ++ [LF])

/-- The trail `trail.jsonl`, closed at the limit. -/
def wideTrail : SegmentedTrail := ⟨str "project", str "trail.jsonl", maxBodyBytes, bareConfig⟩

theorem rotation_not_archived_long :
    letI := Sha256.hashlib
    letI := Interpreter.plain
    let dir := AList.singleton (str "trail.jsonl") longSegment
    let archived := (segmentCall longSegment '0' .answered).run plainImports (str "http://s/") []
    ∃ opened, wideTrail.openSegmented
        ⟨none, plainCall, some (archived.1.map ArchiveReport.state)⟩ dir dir = .ok opened ∧
      opened.notices.getLast? = some (.archive (str "trail.jsonl") .failed) ∧ archived.2 = [] := by
  let _ := Sha256.hashlib
  let _ := Interpreter.plain
  obtain ⟨segment, hsegment⟩ : ∃ segment, segment = longSegment := ⟨_, rfl⟩
  rw [← hsegment]
  intro dir archived
  have hactive : activeSegment dir (str "trail.jsonl") = .ok (str "trail.jsonl") := rfl
  have hfile : fileOf dir (str "trail.jsonl") = segment := rfl
  have hsize : wideTrail.maxSegmentBytes ≤ fileSize dir (str "trail.jsonl") := by
    rw [fileSize, hfile, hsegment, longSegment, List.length_append, List.length_replicate]
    show (maxBodyBytes : ℤ) ≤ _
    omega
  have hclosing : wideTrail.ClosesOn dir dir (str "trail.jsonl")
      (SegmentedTrail.tailLine (.int 0) genesisPrevHash) :=
    { looked := ⟨_, hactive, hsize⟩
      resolved := hactive
      full := hsize
      last := by
        obtain ⟨n, hn⟩ : ∃ n, maxBodyBytes = n + 1 := ⟨1048575, rfl⟩
        rw [hfile, hsegment, readLastLine_eq, longSegment, hn]
        refine lastLine_line ?_ ?_ (.inr ⟨_, List.replicate_succ'⟩)
        · exact unbroken_asciiBytes (isPrintable_of_all (by decide +kernel))
        · decide +kernel
      room := by
        have hnext : nextOrdinal dir (baseStem wideTrail.base) = 0 := rfl
        rw [hnext]
        decide }
  have hio : OpeningIo.Unhindered wideTrail.config
      ⟨none, plainCall, some (archived.1.map ArchiveReport.state)⟩ :=
    ⟨SegmentedTrail.quietIo_unhindered.redacts, SegmentedTrail.quietIo_unhindered.clock,
      SegmentedTrail.quietIo_unhindered.backend, SegmentedTrail.quietIo_unhindered.attests⟩
  have hfields : loadsDigits (SegmentedTrail.tailLine (.int 0) genesisPrevHash) >>= tailFields =
      .ok (0, genesisPrevHash) := by
    decide +kernel
  have hbody : fileOf dir (str "trail.jsonl") <+: (segmentCall segment '0' .answered).body :=
    List.prefix_refl _
  exact rotation_not_archived hio hclosing hfields le_rfl rfl le_rfl plainImports _ hbody rfl

end Waxseal
