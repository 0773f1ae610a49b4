import Mathlib.Data.List.AList
import Waxseal.Base.Json
import Waxseal.Base.Sha256

/-!
# Operators and their keys

`domain/operators.py` of the server, and its two stores: `InMemoryOperatorStore`, over
dictionaries, and `PostgresOperatorStore`, over the rows of two tables.  What the server draws
at random and what its clock says are given with a call.

`OperatorStore` is what the two have in common: how a call changes which keys are active, and
what is found for a token.
-/

namespace Waxseal

/-! ## Roles and scopes -/

/-- `Role`. -/
inductive Role where
  | admin
  | auditor
  | writer
  | viewer
  deriving DecidableEq

/-- `Role.value`. -/
def Role.value : Role → PyStr
  | .admin => str "admin"
  | .auditor => str "auditor"
  | .writer => str "writer"
  | .viewer => str "viewer"

/-- `SCOPE_TRAILS_READ`. -/
def scopeTrailsRead : PyStr := str "trails:read"

/-- `SCOPE_HEAD_READ`. -/
def scopeHeadRead : PyStr := str "head:read"

/-- `SCOPE_ENTRIES_APPEND`. -/
def scopeEntriesAppend : PyStr := str "entries:append"

/-- `SCOPE_VERIFY_RUN`. -/
def scopeVerifyRun : PyStr := str "verify:run"

/-- `SCOPE_PROOF_EXPORT`. -/
def scopeProofExport : PyStr := str "proof:export"

/-- `SCOPE_IMPORT_WRITE`. -/
def scopeImportWrite : PyStr := str "import:write"

/-- `SCOPE_KEYS_MANAGE`. -/
def scopeKeysManage : PyStr := str "keys:manage"

/-- `SCOPE_PUBLIC_READ`. -/
def scopePublicRead : PyStr := str "public:read"

/-- `scopes_for_role`. -/
def scopesForRole : Role → List PyStr
  | .admin => [scopeTrailsRead, scopeHeadRead, scopeEntriesAppend, scopeVerifyRun,
      scopeProofExport, scopeImportWrite, scopeKeysManage, scopePublicRead]
  | .auditor => [scopeTrailsRead, scopeHeadRead, scopeVerifyRun, scopeProofExport,
      scopeImportWrite, scopePublicRead]
  | .writer => [scopeEntriesAppend, scopeHeadRead]
  | .viewer => [scopeTrailsRead, scopePublicRead]

/-! ## Records -/

/-- `Operator`. -/
structure Operator where
  username : PyStr
  displayName : PyStr
  email : Option PyStr
  role : Role
  createdAt : PyStr
  active : Bool := true
  deriving DecidableEq

/-- `Operator.scopes`. -/
def Operator.scopes (operator : Operator) : List PyStr :=
  if operator.active then scopesForRole operator.role else []

/-- `ApiKey`. -/
structure ApiKey where
  keyId : PyStr
  username : PyStr
  label : PyStr
  fingerprint : PyStr
  createdAt : PyStr
  lastUsedAt : Option PyStr := none
  revokedAt : Option PyStr := none
  deriving DecidableEq

/-- `ApiKey.active`. -/
def ApiKey.active (key : ApiKey) : Bool := key.revokedAt.isNone

/-- `Principal`. -/
structure Principal where
  operator : Operator
  keyId : Option PyStr
  scopes : List PyStr

/-- `Principal.allows`. -/
def Principal.allows (principal : Principal) (scope : PyStr) : Bool :=
  principal.scopes.contains scope

/-- What `update_operator` is told to change. -/
structure OperatorChanges where
  displayName : Option PyStr := none
  email : Option PyStr := none
  clearEmail : Bool := false
  role : Option Role := none
  active : Option Bool := none

/-- The operator `update_operator` makes of the current one. -/
def Operator.updated (current : Operator) (changes : OperatorChanges) : Operator where
  username := current.username
  displayName := changes.displayName.getD current.displayName
  email := if changes.clearEmail then none else changes.email <|> current.email
  role := changes.role.getD current.role
  createdAt := current.createdAt
  active := changes.active.getD current.active

/-! ## Keys -/

/-- `KEY_PREFIX`. -/
def keyMark : PyStr := str "wxs_live_"

/-- `_USERNAME_RE.match(username)`.  The `$` of the pattern also matches before a last
newline. -/
def isUsername (username : PyStr) : Bool :=
  match if username.getLast? = some 0x0A then username.dropLast else username with
  | [] => false
  | c :: rest =>
      let isFirst := fun c : CodePoint => Json.isDigit c || (0x61 ≤ c.val && c.val ≤ 0x7A)
      isFirst c && rest.length ≤ 63 && rest.all fun c =>
        isFirst c || c == .ofChar '.' || c == .ofChar '_' || c == .ofChar '-'

/-- `key_fingerprint`. -/
def keyFingerprint (plaintext : PyStr) : Except PyErr PyStr :=
  if plaintext.take keyMark.length ≠ keyMark then .error .valueError
  else .ok (keyMark ++ (plaintext.drop keyMark.length).take 4 ++ str "…")

section Hashing

variable [Hashlib]

/-- `hash_key`. -/
def hashKey (plaintext : PyStr) : Except PyErr PyStr :=
  match encodeUtf8 plaintext with
  | none => .error .unicodeEncodeError
  | some bytes => .ok (hexdigest bytes)

/-- `mint_key`, of what `secrets.token_urlsafe` draws. -/
def mintKey (secret : PyStr) : Except PyErr (PyStr × PyStr) := do
  let plaintext := keyMark ++ secret
  return (plaintext, ← hashKey plaintext)

/-- What `mint_key` of a store draws: the key, its hash, and what is shown of it. -/
def drawnKey (secret : PyStr) : Except PyErr (PyStr × PyStr × PyStr) := do
  let minted ← mintKey secret
  return (minted.1, minted.2, ← keyFingerprint minted.1)

theorem mintKey_of_drawnKey {secret plaintext hash fingerprint : PyStr}
    (h : drawnKey secret = .ok (plaintext, hash, fingerprint)) :
    (mintKey secret).map Prod.snd = .ok hash := by
  obtain ⟨minted, hminted, h⟩ := bind_eq_ok_iff.mp h
  obtain ⟨shown, -, h⟩ := bind_eq_ok_iff.mp h
  have hhash : minted.2 = hash := congrArg (fun drawn => drawn.2.1) (Except.ok.inj h)
  rw [hminted, ← hhash]
  rfl

end Hashing

/-! ## Calls -/

/-- A call of a store, with what it draws and the time it is made at. -/
inductive OperatorCall where
  | createOperator (username displayName : PyStr) (email : Option PyStr) (role : Role)
      (now : PyStr)
  | updateOperator (username : PyStr) (changes : OperatorChanges)
  | mintKey (username label secret keyId now : PyStr)
  | revokeKey (keyId now : PyStr)
  | authenticate (plaintext now : PyStr)

/-- What a call of a store raises. -/
inductive StoreError where
  | invalidIdentifier
  | operatorExists
  | noSuchOperator
  /-- A constraint of the database. -/
  | integrityError
  /-- A text that a `TEXT` column does not hold. -/
  | textRefused
  | raised (e : PyErr)

/-- A call that raises has changed nothing. -/
def stateAfter {State α : Type} (state : State) : Except StoreError (α × State) → State
  | .ok (_, after) => after
  | .error _ => state

/-- What a store finds for a token: the identifier it has the key under, the key, and the
operator of the key. -/
structure FoundKey where
  keyId : PyStr
  key : ApiKey
  operator : Option Operator

/-- Who a key that was found stands for.  A key that is not usable is not told from one that is
not there. -/
def FoundKey.principal (found : FoundKey) : Option Principal :=
  match found.operator with
  | none => none
  | some operator =>
      if !found.key.active || !operator.active then none
      else some ⟨operator, some found.keyId, operator.scopes⟩

/-- An active key of an active operator. -/
def FoundKey.Usable (found : FoundKey) : Prop :=
  ∃ operator, found.operator = some operator ∧ found.key.active = true ∧ operator.active = true

theorem FoundKey.usable_of_principal {found : FoundKey} {principal : Principal}
    (h : found.principal = some principal) : found.Usable := by
  obtain ⟨keyId, key, - | operator⟩ := found
  · cases h
  · rw [FoundKey.principal] at h
    dsimp only at h
    split_ifs at h with hidle
    rw [Bool.or_eq_true, Bool.not_eq_true', Bool.not_eq_true', not_or, Bool.not_eq_false,
      Bool.not_eq_false] at hidle
    exact ⟨operator, rfl, hidle⟩

/-- A call that draws this identifier, or a key with this hash. -/
def OperatorCall.Draws [Hashlib] (keyId hash : PyStr) : OperatorCall → Prop
  | .mintKey _ _ secret keyId' _ =>
      keyId' = keyId ∨ (Waxseal.mintKey secret).map Prod.snd = .ok hash
  | _ => False

/-! ## In memory -/

/-- The dictionaries of `InMemoryOperatorStore`. -/
structure InMemoryOperators where
  operators : AList fun _ : PyStr => Operator
  /-- The order the dictionary of operators iterates in. -/
  usernames : List PyStr
  keys : AList fun _ : PyStr => ApiKey
  /-- From the hash of a key to its identifier. -/
  byHash : AList fun _ : PyStr => PyStr
  order : List PyStr

namespace InMemoryOperators

/-- `InMemoryOperatorStore()`. -/
def empty : InMemoryOperators := ⟨∅, [], ∅, ∅, []⟩

/-- `create_operator`. -/
def createOperator (s : InMemoryOperators) (username displayName : PyStr) (email : Option PyStr)
    (role : Role) (now : PyStr) : Except StoreError (Operator × InMemoryOperators) :=
  if !isUsername username then .error .invalidIdentifier
  else if username ∈ s.operators then .error .operatorExists
  else
    let operator : Operator := ⟨username, displayName, email, role, now, true⟩
    .ok (operator,
      { s with
        operators := s.operators.insert username operator
        usernames := s.usernames ++ [username] })

/-- `update_operator`. -/
def updateOperator (s : InMemoryOperators) (username : PyStr) (changes : OperatorChanges) :
    Except StoreError (Operator × InMemoryOperators) :=
  match s.operators.lookup username with
  | none => .error .noSuchOperator
  | some current =>
      .ok (current.updated changes,
        { s with operators := s.operators.insert username (current.updated changes) })

/-- `get_operator`. -/
def getOperator (s : InMemoryOperators) (username : PyStr) : Option Operator :=
  s.operators.lookup username

/-- `operators()`. -/
def allOperators (s : InMemoryOperators) : List Operator := s.usernames.filterMap s.getOperator

/-- `self._keys[key_id]`. -/
def keyAt (s : InMemoryOperators) (keyId : PyStr) : Except StoreError ApiKey :=
  match s.keys.lookup keyId with
  | none => .error (.raised .keyError)
  | some key => .ok key

/-- `keys(username)`. -/
def allKeys (s : InMemoryOperators) (username : Option PyStr) : Except StoreError (List ApiKey) := do
  let newestFirst ← s.order.reverse.mapM s.keyAt
  match username with
  | none => return newestFirst
  | some username => return newestFirst.filter fun key => key.username = username

/-- `revoke_key`. -/
def revokeKey (s : InMemoryOperators) (keyId now : PyStr) : Bool × InMemoryOperators :=
  match s.keys.lookup keyId with
  | none => (false, s)
  | some record =>
      if !record.active then (false, s)
      else (true, { s with keys := s.keys.insert keyId { record with revokedAt := some now } })

/-- `has_active_key`. -/
def hasActiveKey (s : InMemoryOperators) : Bool := s.keys.entries.any fun key => key.2.active

variable [Hashlib]

/-- `mint_key`. -/
def mintKey (s : InMemoryOperators) (username label secret keyId now : PyStr) :
    Except StoreError ((PyStr × ApiKey) × InMemoryOperators) :=
  if username ∉ s.operators then .error .noSuchOperator
  else
    match drawnKey secret with
    | .error e => .error (.raised e)
    | .ok (plaintext, hash, fingerprint) =>
        let record : ApiKey := ⟨keyId, username, label, fingerprint, now, none, none⟩
        .ok ((plaintext, record),
          { s with
            keys := s.keys.insert keyId record
            byHash := s.byHash.insert hash keyId
            order := s.order ++ [keyId] })

/-- The record and the operator `authenticate` finds for a token. -/
def find (s : InMemoryOperators) (plaintext : PyStr) : Except PyErr (Option FoundKey) :=
  if plaintext = [] then .ok none
  else
    match hashKey plaintext with
    | .error e => .error e
    | .ok hash =>
        match s.byHash.lookup hash with
        | none => .ok none
        | some keyId =>
            match s.keys.lookup keyId with
            | none => .error .keyError
            | some record => .ok (some ⟨keyId, record, s.operators.lookup record.username⟩)

/-- `authenticate`. -/
def authenticate (s : InMemoryOperators) (plaintext now : PyStr) :
    Except StoreError (Option Principal × InMemoryOperators) :=
  match s.find plaintext with
  | .error e => .error (.raised e)
  | .ok none => .ok (none, s)
  | .ok (some found) =>
      match found.principal with
      | none => .ok (none, s)
      | some principal =>
          .ok (some principal,
            { s with
              keys := s.keys.insert found.keyId { found.key with lastUsedAt := some now } })

/-- One call. -/
def step (s : InMemoryOperators) : OperatorCall → InMemoryOperators
  | .createOperator username displayName email role now =>
      stateAfter s (s.createOperator username displayName email role now)
  | .updateOperator username changes => stateAfter s (s.updateOperator username changes)
  | .mintKey username label secret keyId now =>
      stateAfter s (s.mintKey username label secret keyId now)
  | .revokeKey keyId now => (s.revokeKey keyId now).2
  | .authenticate plaintext now => stateAfter s (s.authenticate plaintext now)

end InMemoryOperators

/-! ## In PostgreSQL -/

/-- A row of `waxseal_api_keys`. -/
structure KeyRow where
  key : ApiKey
  keySha256 : PyStr

/-- The tables of `PostgresOperatorStore`, each in the order of its `ordinal`. -/
structure PostgresOperators where
  operators : List Operator
  keys : List KeyRow
  /-- `REFERENCES waxseal_operators(username)`. -/
  references : ∀ row ∈ keys, ∃ operator ∈ operators, operator.username = row.key.username

namespace PostgresOperators

/-- The tables as `SCHEMA` creates them. -/
def empty : PostgresOperators := ⟨[], [], List.forall_mem_nil _⟩

/-- `SELECT ... FROM waxseal_operators WHERE username = ...`. -/
def getOperator (s : PostgresOperators) (username : PyStr) : Option Operator :=
  s.operators.find? fun operator => operator.username = username

theorem username_of_getOperator {s : PostgresOperators} {username : PyStr} {operator : Operator}
    (h : s.getOperator username = some operator) : operator.username = username :=
  of_decide_eq_true (@List.find?_some _ (fun o : Operator => decide (o.username = username)) _ _ h)

/-- An operator with a row more. -/
def withOperator (s : PostgresOperators) (operator : Operator) : PostgresOperators where
  operators := s.operators ++ [operator]
  keys := s.keys
  references row hrow := by
    obtain ⟨op, hop, hname⟩ := s.references row hrow
    exact ⟨op, List.mem_append_left _ hop, hname⟩

/-- `UPDATE waxseal_operators SET ... WHERE username = ...`. -/
def setOperator (s : PostgresOperators) (username : PyStr) (updated : Operator)
    (h : updated.username = username) : PostgresOperators where
  operators := s.operators.map fun operator =>
    if operator.username = username then updated else operator
  keys := s.keys
  references row hrow := by
    obtain ⟨op, hop, hname⟩ := s.references row hrow
    refine ⟨_, List.mem_map_of_mem hop, ?_⟩
    split_ifs with heq
    · rw [h, ← heq, hname]
    · exact hname

/-- An `UPDATE` of the keys that keeps whose they are. -/
def mapKeys (s : PostgresOperators) (f : KeyRow → KeyRow)
    (h : ∀ row, (f row).key.username = row.key.username) : PostgresOperators where
  operators := s.operators
  keys := s.keys.map f
  references row hrow := by
    obtain ⟨row, hmem, rfl⟩ := List.mem_map.mp hrow
    obtain ⟨op, hop, hname⟩ := s.references row hmem
    exact ⟨op, hop, hname.trans (h row).symm⟩

/-- `INSERT INTO waxseal_api_keys`, for an operator that is there. -/
def withKey (s : PostgresOperators) (row : KeyRow)
    (h : (s.getOperator row.key.username).isSome) : PostgresOperators where
  operators := s.operators
  keys := s.keys ++ [row]
  references row' hrow := by
    rcases List.mem_append.mp hrow with hrow | hrow
    · exact s.references row' hrow
    · obtain rfl := List.mem_singleton.mp hrow
      obtain ⟨op, hop⟩ := Option.isSome_iff_exists.mp h
      exact ⟨op, List.mem_of_find?_eq_some hop, username_of_getOperator hop⟩

/-- `create_operator`. -/
def createOperator (s : PostgresOperators) (username displayName : PyStr) (email : Option PyStr)
    (role : Role) (now : PyStr) : Except StoreError (Operator × PostgresOperators) :=
  if !isUsername username then .error .invalidIdentifier
  else
    match s.getOperator username with
    | some _ => .error .operatorExists
    | none =>
        let operator : Operator := ⟨username, displayName, email, role, now, true⟩
        .ok (operator, s.withOperator operator)

/-- `update_operator`. -/
def updateOperator (s : PostgresOperators) (username : PyStr) (changes : OperatorChanges) :
    Except StoreError (Operator × PostgresOperators) :=
  match h : s.getOperator username with
  | none => .error .noSuchOperator
  | some current =>
      .ok (current.updated changes,
        s.setOperator username (current.updated changes)
          (@username_of_getOperator s username current h))

/-- `keys(username)`. -/
def allKeys (s : PostgresOperators) (username : Option PyStr) : List ApiKey :=
  match username with
  | none => (s.keys.map KeyRow.key).reverse
  | some username => ((s.keys.map KeyRow.key).filter fun key => key.username = username).reverse

/-- The row after `UPDATE ... SET revoked_at = ...`. -/
def KeyRow.revoked (keyId now : PyStr) (row : KeyRow) : KeyRow :=
  if row.key.keyId = keyId && row.key.active then
    { row with key := { row.key with revokedAt := some now } }
  else row

theorem KeyRow.revoked_username (keyId now : PyStr) (row : KeyRow) :
    (KeyRow.revoked keyId now row).key.username = row.key.username := by
  rw [KeyRow.revoked]
  split_ifs <;> rfl

/-- `revoke_key`. -/
def revokeKey (s : PostgresOperators) (keyId now : PyStr) : Bool × PostgresOperators :=
  (s.keys.countP (fun row => row.key.keyId = keyId && row.key.active) = 1,
    s.mapKeys (KeyRow.revoked keyId now) (KeyRow.revoked_username keyId now))

/-- `has_active_key`. -/
def hasActiveKey (s : PostgresOperators) : Bool := s.keys.any fun row => row.key.active

/-- The row after `UPDATE ... SET last_used_at = ...`. -/
def KeyRow.used (keyId now : PyStr) (row : KeyRow) : KeyRow :=
  if row.key.keyId = keyId then { row with key := { row.key with lastUsedAt := some now } } else row

theorem KeyRow.used_username (keyId now : PyStr) (row : KeyRow) :
    (KeyRow.used keyId now row).key.username = row.key.username := by
  rw [KeyRow.used]
  split_ifs <;> rfl

variable [Hashlib]

/-- `mint_key`: the primary key and the unique column refuse a row that is there. -/
def mintKey (s : PostgresOperators) (username label secret keyId now : PyStr) :
    Except StoreError ((PyStr × ApiKey) × PostgresOperators) :=
  match drawnKey secret with
  | .error e => .error (.raised e)
  | .ok (plaintext, hash, fingerprint) =>
      if h : (s.getOperator username).isSome then
        if s.keys.any fun row => row.key.keyId = keyId || row.keySha256 = hash then
          .error .integrityError
        else
          let record : ApiKey := ⟨keyId, username, label, fingerprint, now, none, none⟩
          .ok ((plaintext, record), s.withKey ⟨record, hash⟩ h)
      else .error .noSuchOperator

/-- The rows of the join with a hash. -/
def joins (s : PostgresOperators) (hash : PyStr) (row : KeyRow) : Bool :=
  row.keySha256 = hash && (s.getOperator row.key.username).isSome

/-- The row of the join that `authenticate` fetches. -/
def find (s : PostgresOperators) (plaintext : PyStr) : Except PyErr (Option FoundKey) :=
  if plaintext = [] then .ok none
  else
    match hashKey plaintext with
    | .error e => .error e
    | .ok hash =>
        match s.keys.find? (s.joins hash) with
        | none => .ok none
        | some row => .ok (some ⟨row.key.keyId, row.key, s.getOperator row.key.username⟩)

/-- `authenticate`. -/
def authenticate (s : PostgresOperators) (plaintext now : PyStr) :
    Except StoreError (Option Principal × PostgresOperators) :=
  match s.find plaintext with
  | .error e => .error (.raised e)
  | .ok none => .ok (none, s)
  | .ok (some found) =>
      match found.principal with
      | none => .ok (none, s)
      | some principal =>
          .ok (some principal,
            s.mapKeys (KeyRow.used found.keyId now) (KeyRow.used_username found.keyId now))

/-- One call. -/
def step (s : PostgresOperators) : OperatorCall → PostgresOperators
  | .createOperator username displayName email role now =>
      stateAfter s (s.createOperator username displayName email role now)
  | .updateOperator username changes => stateAfter s (s.updateOperator username changes)
  | .mintKey username label secret keyId now =>
      stateAfter s (s.mintKey username label secret keyId now)
  | .revokeKey keyId now => (s.revokeKey keyId now).2
  | .authenticate plaintext now => stateAfter s (s.authenticate plaintext now)

end PostgresOperators

/-! ## What the stores have in common -/

/-- `OperatorStore`, with what a call can do to the keys: it leaves an active key active or
revokes it, `revoke_key` revokes the key it names and activates none, only a usable key
authenticates, and a revoked key that is found is found revoked until its identifier or its
hash is drawn again. -/
structure OperatorStore [Hashlib] where
  State : Type
  empty : State
  step : State → OperatorCall → State
  hasActiveKey : State → Bool
  find : State → PyStr → Except PyErr (Option FoundKey)
  authenticate : State → PyStr → PyStr → Except StoreError (Option Principal × State)
  /-- The key with an identifier is active. -/
  ActiveKey : State → PyStr → Prop
  hasActiveKey_iff : ∀ s, hasActiveKey s = true ↔ ∃ keyId, ActiveKey s keyId
  active_step : ∀ s call keyId, ActiveKey s keyId →
    ActiveKey (step s call) keyId ∨ ∃ now, call = .revokeKey keyId now
  active_revoke : ∀ s keyId now keyId', ActiveKey (step s (.revokeKey keyId now)) keyId' →
    ActiveKey s keyId' ∧ keyId' ≠ keyId
  usable_of_authenticate : ∀ s plaintext now principal after,
    authenticate s plaintext now = .ok (some principal, after) →
      ∃ found, find s plaintext = .ok (some found) ∧ found.Usable
  find_revoked : ∀ s call plaintext found hash, find s plaintext = .ok (some found) →
    found.key.active = false → hashKey plaintext = .ok hash → ¬ call.Draws found.keyId hash →
      ∃ found', find (step s call) plaintext = .ok (some found') ∧
        found'.key.active = false ∧ found'.keyId = found.keyId

end Waxseal
