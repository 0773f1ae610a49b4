import Mathlib.Data.List.Find
import Mathlib.Data.List.Infix
import Waxseal.Domain.Sealing
import Waxseal.Server.Operators

/-!
# Authorizing

`api/_auth.py` of the server: `Authorizer` over an operator store, whatever calls the store has
had.  A server without a bootstrap key is open until the first key is minted.

`step_keys` says for each store what a call does to the keys, and makes it an `OperatorStore`.
For any such store `neverWidens_iff` says when a server that has been locked stays locked and
refuses what it has to refuse.
-/

namespace Waxseal

variable [Hashlib]

/-! ## In memory -/

namespace InMemoryOperators

/-- What a call does to the keys. -/
inductive KeyEffect (s : InMemoryOperators) : OperatorCall → InMemoryOperators → Prop
  | same {call : OperatorCall} {after : InMemoryOperators} (keys : after.keys = s.keys)
      (byHash : after.byHash = s.byHash) : KeyEffect s call after
  | minted {username label secret keyId now hash : PyStr} {record : ApiKey}
      {after : InMemoryOperators} (drawn : (Waxseal.mintKey secret).map Prod.snd = .ok hash)
      (active : record.active = true) (keys : after.keys = s.keys.insert keyId record)
      (byHash : after.byHash = s.byHash.insert hash keyId) :
      KeyEffect s (.mintKey username label secret keyId now) after
  | revoked {keyId now : PyStr} {record : ApiKey} {after : InMemoryOperators}
      (found : s.keys.lookup keyId = some record) (active : record.active = true)
      (keys : after.keys = s.keys.insert keyId { record with revokedAt := some now })
      (byHash : after.byHash = s.byHash) : KeyEffect s (.revokeKey keyId now) after
  | used {plaintext now keyId : PyStr} {record : ApiKey} {after : InMemoryOperators}
      (found : s.keys.lookup keyId = some record) (active : record.active = true)
      (keys : after.keys = s.keys.insert keyId { record with lastUsedAt := some now })
      (byHash : after.byHash = s.byHash) : KeyEffect s (.authenticate plaintext now) after

/-- A key that is found is in the dictionary of keys, under the identifier its hash leads to. -/
theorem find_eq_some {s : InMemoryOperators} {plaintext : PyStr} {found : FoundKey}
    (h : s.find plaintext = .ok (some found)) :
    plaintext ≠ [] ∧ (∃ hash, hashKey plaintext = .ok hash ∧
      s.byHash.lookup hash = some found.keyId) ∧ s.keys.lookup found.keyId = some found.key := by
  rw [find] at h
  by_cases hempty : plaintext = []
  · rw [if_pos hempty] at h
    cases h
  · rw [if_neg hempty] at h
    rcases hhash : hashKey plaintext with e | hash
    · rw [hhash] at h
      cases h
    · rw [hhash] at h
      dsimp only at h
      rcases hid : s.byHash.lookup hash with - | keyId
      · rw [hid] at h
        cases h
      · rw [hid] at h
        dsimp only at h
        rcases hkey : s.keys.lookup keyId with - | key
        · rw [hkey] at h
          cases h
        · rw [hkey] at h
          obtain rfl := Option.some.inj (Except.ok.inj h)
          exact ⟨hempty, ⟨hash, rfl, hid⟩, hkey⟩

/-- **What each call does to the keys.** -/
theorem step_keys (s : InMemoryOperators) (call : OperatorCall) :
    KeyEffect s call (s.step call) := by
  cases call with
  | createOperator username displayName email role now =>
      rw [step, createOperator]
      split_ifs
      · exact .same rfl rfl
      · exact .same rfl rfl
      · exact .same rfl rfl
  | updateOperator username changes =>
      rw [step, updateOperator]
      cases s.operators.lookup username with
      | none => exact .same rfl rfl
      | some current => exact .same rfl rfl
  | mintKey username label secret keyId now =>
      rw [step, mintKey]
      by_cases hknown : username ∈ s.operators
      · rw [if_neg (not_not.mpr hknown)]
        rcases hdrawn : drawnKey secret with e | ⟨plaintext, hash, fingerprint⟩
        · exact .same rfl rfl
        · exact .minted (mintKey_of_drawnKey hdrawn) rfl rfl rfl
      · rw [if_pos hknown]
        exact .same rfl rfl
  | revokeKey keyId now =>
      rw [step, revokeKey]
      rcases hkey : s.keys.lookup keyId with - | record
      · exact .same rfl rfl
      · dsimp only
        split_ifs with hrevoked
        · exact .same rfl rfl
        · rw [Bool.not_eq_true', Bool.not_eq_false] at hrevoked
          exact .revoked hkey hrevoked rfl rfl
  | authenticate plaintext now =>
      rw [step, authenticate]
      rcases hfind : s.find plaintext with e | - | found
      · exact .same rfl rfl
      · exact .same rfl rfl
      · dsimp only
        rcases hprincipal : found.principal with - | principal
        · exact .same rfl rfl
        · obtain ⟨_, _, hactive, _⟩ := found.usable_of_principal hprincipal
          exact .used (find_eq_some hfind).2.2 hactive rfl rfl

/-- The key with an identifier is active. -/
def ActiveKey (s : InMemoryOperators) (keyId : PyStr) : Prop :=
  ∃ record, s.keys.lookup keyId = some record ∧ record.active = true

omit [Hashlib] in
theorem hasActiveKey_iff (s : InMemoryOperators) :
    s.hasActiveKey = true ↔ ∃ keyId, s.ActiveKey keyId := by
  rw [hasActiveKey, List.any_eq_true]
  constructor
  · rintro ⟨⟨keyId, record⟩, hmem, hactive⟩
    exact ⟨keyId, record, AList.mem_lookup_iff.mpr hmem, hactive⟩
  · rintro ⟨keyId, record, hlookup, hactive⟩
    exact ⟨⟨keyId, record⟩, AList.mem_lookup_iff.mp hlookup, hactive⟩

/-- An active key stays active, unless it is revoked. -/
theorem active_step (s : InMemoryOperators) (call : OperatorCall) (keyId : PyStr)
    (h : s.ActiveKey keyId) :
    (s.step call).ActiveKey keyId ∨ ∃ now, call = .revokeKey keyId now := by
  obtain ⟨record, hlookup, hactive⟩ := h
  have hinsert : ∀ keyId' record', record'.active = true →
      (s.step call).keys = s.keys.insert keyId' record' → (s.step call).ActiveKey keyId := by
    intro keyId' record' hactive' hkeys
    by_cases heq : keyId = keyId'
    · exact ⟨record', by rw [hkeys, heq, AList.lookup_insert], hactive'⟩
    · exact ⟨record, by rw [hkeys, AList.lookup_insert_ne heq, hlookup], hactive⟩
  cases s.step_keys call with
  | same hkeys _ => exact .inl ⟨record, by rw [hkeys, hlookup], hactive⟩
  | minted _ hactive' hkeys _ => exact .inl (hinsert _ _ hactive' hkeys)
  | @revoked keyId' now _ _ _ _ hkeys _ =>
      by_cases heq : keyId = keyId'
      · exact .inr ⟨now, by rw [heq]⟩
      · exact .inl ⟨record, by rw [hkeys, AList.lookup_insert_ne heq, hlookup], hactive⟩
  | used _ hactive' hkeys _ =>
      refine .inl (hinsert _ _ ?_ hkeys)
      exact hactive'

/-- `revoke_key` revokes its key and activates none. -/
theorem active_revoke (s : InMemoryOperators) (keyId now keyId' : PyStr)
    (h : (s.step (.revokeKey keyId now)).ActiveKey keyId') :
    s.ActiveKey keyId' ∧ keyId' ≠ keyId := by
  rw [step, revokeKey] at h
  rcases hkey : s.keys.lookup keyId with - | record
  · rw [hkey] at h
    refine ⟨h, ?_⟩
    rintro rfl
    obtain ⟨record, hlookup, -⟩ := h
    rw [hkey] at hlookup
    cases hlookup
  · rw [hkey] at h
    dsimp only at h
    by_cases hrevoked : (!record.active) = true
    · rw [if_pos hrevoked] at h
      refine ⟨h, ?_⟩
      rintro rfl
      obtain ⟨record', hlookup, hactive⟩ := h
      obtain rfl := Option.some.inj (hkey.symm.trans hlookup)
      rw [hactive] at hrevoked
      cases hrevoked
    · rw [if_neg hrevoked] at h
      obtain ⟨record', hlookup, hactive⟩ := h
      by_cases heq : keyId' = keyId
      · rw [heq, AList.lookup_insert] at hlookup
        obtain rfl := Option.some.inj hlookup
        cases hactive
      · rw [AList.lookup_insert_ne heq] at hlookup
        exact ⟨⟨record', hlookup, hactive⟩, heq⟩

/-- Only a usable key authenticates. -/
theorem usable_of_authenticate (s : InMemoryOperators) (plaintext now : PyStr)
    (principal : Principal) (after : InMemoryOperators)
    (h : s.authenticate plaintext now = .ok (some principal, after)) :
    ∃ found, s.find plaintext = .ok (some found) ∧ found.Usable := by
  rw [authenticate] at h
  rcases hfind : s.find plaintext with e | - | found
  · rw [hfind] at h
    cases h
  · rw [hfind] at h
    cases h
  · rw [hfind] at h
    dsimp only at h
    rcases hprincipal : found.principal with - | principal'
    · rw [hprincipal] at h
      cases h
    · exact ⟨found, rfl, found.usable_of_principal hprincipal⟩

/-- A key of the dictionaries is found. -/
theorem find_of_lookup {s : InMemoryOperators} {plaintext hash keyId : PyStr} {record : ApiKey}
    (hne : plaintext ≠ []) (hhash : hashKey plaintext = .ok hash)
    (hid : s.byHash.lookup hash = some keyId) (hkey : s.keys.lookup keyId = some record) :
    s.find plaintext
      = .ok (some ⟨keyId, record, s.operators.lookup record.username⟩) := by
  rw [find, if_neg hne, hhash]
  dsimp only
  rw [hid]
  dsimp only
  rw [hkey]

/-- A revoked key is found revoked, until its identifier or its hash is drawn again. -/
theorem find_revoked (s : InMemoryOperators) (call : OperatorCall) (plaintext : PyStr)
    (found : FoundKey) (hash : PyStr) (hfound : s.find plaintext = .ok (some found))
    (hrevoked : found.key.active = false) (hhash : hashKey plaintext = .ok hash)
    (hfresh : ¬ call.Draws found.keyId hash) :
    ∃ found', (s.step call).find plaintext = .ok (some found') ∧
      found'.key.active = false ∧ found'.keyId = found.keyId := by
  obtain ⟨hne, ⟨hash', hhash', hid⟩, hkey⟩ := find_eq_some hfound
  obtain rfl : hash = hash' := Except.ok.inj (hhash.symm.trans hhash')
  have hkept : (s.step call).byHash.lookup hash = some found.keyId →
      (s.step call).keys.lookup found.keyId = some found.key →
        ∃ found', (s.step call).find plaintext = .ok (some found') ∧
          found'.key.active = false ∧ found'.keyId = found.keyId := fun hid' hkey' =>
    ⟨_, find_of_lookup hne hhash hid' hkey', hrevoked, rfl⟩
  have hother : ∀ {keyId : PyStr} {record : ApiKey}, s.keys.lookup keyId = some record →
      record.active = true → found.keyId ≠ keyId := by
    rintro keyId record hlookup hactive rfl
    obtain rfl := Option.some.inj (hkey.symm.trans hlookup)
    rw [hrevoked] at hactive
    cases hactive
  cases s.step_keys call with
  | same hkeys hbyHash => exact hkept (by rw [hbyHash, hid]) (by rw [hkeys, hkey])
  | minted hdrawn _ hkeys hbyHash =>
      refine hkept ?_ ?_
      · rw [hbyHash, AList.lookup_insert_ne, hid]
        rintro rfl
        exact hfresh (.inr hdrawn)
      · rw [hkeys, AList.lookup_insert_ne, hkey]
        intro heq
        exact hfresh (.inl heq.symm)
  | revoked hlookup hactive hkeys hbyHash =>
      exact hkept (by rw [hbyHash, hid])
        (by rw [hkeys, AList.lookup_insert_ne (hother hlookup hactive), hkey])
  | used hlookup hactive hkeys hbyHash =>
      exact hkept (by rw [hbyHash, hid])
        (by rw [hkeys, AList.lookup_insert_ne (hother hlookup hactive), hkey])

end InMemoryOperators

/-- `InMemoryOperatorStore`. -/
def inMemoryOperatorStore : OperatorStore where
  State := InMemoryOperators
  empty := .empty
  step := InMemoryOperators.step
  hasActiveKey := InMemoryOperators.hasActiveKey
  find := InMemoryOperators.find
  authenticate := InMemoryOperators.authenticate
  ActiveKey := InMemoryOperators.ActiveKey
  hasActiveKey_iff := InMemoryOperators.hasActiveKey_iff
  active_step := InMemoryOperators.active_step
  active_revoke := InMemoryOperators.active_revoke
  usable_of_authenticate := InMemoryOperators.usable_of_authenticate
  find_revoked := InMemoryOperators.find_revoked

/-! ## In PostgreSQL -/

namespace PostgresOperators

/-- What a call does to the rows of the keys. -/
inductive KeyEffect (s : PostgresOperators) : OperatorCall → PostgresOperators → Prop
  | same {call : OperatorCall} {after : PostgresOperators} (keys : after.keys = s.keys) :
      KeyEffect s call after
  | minted {username label secret keyId now : PyStr} {row : KeyRow} {after : PostgresOperators}
      (active : row.key.active = true) (keys : after.keys = s.keys ++ [row]) :
      KeyEffect s (.mintKey username label secret keyId now) after
  | revoked {keyId now : PyStr} {after : PostgresOperators}
      (keys : after.keys = s.keys.map (KeyRow.revoked keyId now)) :
      KeyEffect s (.revokeKey keyId now) after
  | used {plaintext now keyId : PyStr} {after : PostgresOperators}
      (keys : after.keys = s.keys.map (KeyRow.used keyId now)) :
      KeyEffect s (.authenticate plaintext now) after

/-- **What each call does to the rows.** -/
theorem step_keys (s : PostgresOperators) (call : OperatorCall) :
    KeyEffect s call (s.step call) := by
  cases call with
  | createOperator username displayName email role now =>
      rw [step, createOperator]
      split_ifs
      · exact .same rfl
      · cases s.getOperator username with
        | none => exact .same rfl
        | some _ => exact .same rfl
  | updateOperator username changes =>
      rw [step, updateOperator]
      split
      · exact .same rfl
      · exact .same rfl
  | mintKey username label secret keyId now =>
      rw [step, mintKey]
      rcases drawnKey secret with e | ⟨plaintext, hash, fingerprint⟩
      · exact .same rfl
      · dsimp only
        split_ifs
        · exact .same rfl
        · exact .minted rfl rfl
        · exact .same rfl
  | revokeKey keyId now => exact .revoked rfl
  | authenticate plaintext now =>
      rw [step, authenticate]
      rcases s.find plaintext with e | - | found
      · exact .same rfl
      · exact .same rfl
      · dsimp only
        cases found.principal with
        | none => exact .same rfl
        | some principal => exact .used rfl

/-- The key with an identifier is active. -/
def ActiveKey (s : PostgresOperators) (keyId : PyStr) : Prop :=
  ∃ row ∈ s.keys, row.key.keyId = keyId ∧ row.key.active = true

omit [Hashlib] in
theorem hasActiveKey_iff (s : PostgresOperators) :
    s.hasActiveKey = true ↔ ∃ keyId, s.ActiveKey keyId := by
  rw [hasActiveKey, List.any_eq_true]
  constructor
  · rintro ⟨row, hmem, hactive⟩
    exact ⟨row.key.keyId, row, hmem, rfl, hactive⟩
  · rintro ⟨keyId, row, hmem, -, hactive⟩
    exact ⟨row, hmem, hactive⟩

omit [Hashlib] in
/-- An update that marks a key as used keeps what the key is. -/
theorem KeyRow.used_keeps (keyId now : PyStr) (row : KeyRow) :
    (KeyRow.used keyId now row).key.keyId = row.key.keyId ∧
      (KeyRow.used keyId now row).keySha256 = row.keySha256 ∧
      (KeyRow.used keyId now row).key.active = row.key.active := by
  rw [KeyRow.used]
  split_ifs
  · exact ⟨rfl, rfl, rfl⟩
  · exact ⟨rfl, rfl, rfl⟩

omit [Hashlib] in
/-- A revocation leaves every key where it is, and is of the key it names. -/
theorem KeyRow.revoked_keeps (keyId now : PyStr) (row : KeyRow) :
    (KeyRow.revoked keyId now row).key.keyId = row.key.keyId ∧
      (KeyRow.revoked keyId now row).keySha256 = row.keySha256 ∧
      (KeyRow.revoked keyId now row).key.active
        = (row.key.active && !decide (row.key.keyId = keyId)) := by
  rw [KeyRow.revoked]
  by_cases hid : row.key.keyId = keyId
  · cases hactive : row.key.active with
    | false => simp [hid, hactive]
    | true => simp [hid, ApiKey.active]
  · simp [hid]

/-- An active key stays active, unless it is revoked. -/
theorem active_step (s : PostgresOperators) (call : OperatorCall) (keyId : PyStr)
    (h : s.ActiveKey keyId) :
    (s.step call).ActiveKey keyId ∨ ∃ now, call = .revokeKey keyId now := by
  obtain ⟨row, hmem, hid, hactive⟩ := h
  cases s.step_keys call with
  | same hkeys => exact .inl ⟨row, hkeys ▸ hmem, hid, hactive⟩
  | minted _ hkeys => exact .inl ⟨row, hkeys ▸ List.mem_append_left _ hmem, hid, hactive⟩
  | @revoked keyId' now _ hkeys =>
      obtain ⟨hid', -, hactive'⟩ := KeyRow.revoked_keeps keyId' now row
      by_cases heq : keyId = keyId'
      · exact .inr ⟨now, by rw [heq]⟩
      · refine .inl ⟨_, hkeys ▸ List.mem_map_of_mem hmem, hid'.trans hid, ?_⟩
        rw [hactive', hactive, hid, decide_eq_false heq]
        rfl
  | @used _ now keyId' _ hkeys =>
      obtain ⟨hid', -, hactive'⟩ := KeyRow.used_keeps keyId' now row
      exact .inl ⟨_, hkeys ▸ List.mem_map_of_mem hmem, hid'.trans hid, hactive'.trans hactive⟩

/-- `revoke_key` revokes its key and activates none. -/
theorem active_revoke (s : PostgresOperators) (keyId now keyId' : PyStr)
    (h : (s.step (.revokeKey keyId now)).ActiveKey keyId') :
    s.ActiveKey keyId' ∧ keyId' ≠ keyId := by
  obtain ⟨row', hmem', hid, hactive⟩ := h
  obtain ⟨row, hmem, rfl⟩ := List.mem_map.mp hmem'
  obtain ⟨hid', -, hactive'⟩ := KeyRow.revoked_keeps keyId now row
  rw [hactive', Bool.and_eq_true, Bool.not_eq_true', decide_eq_false_iff_not] at hactive
  rw [hid'] at hid
  exact ⟨⟨row, hmem, hid, hactive.1⟩, hid ▸ hactive.2⟩

/-- Only a usable key authenticates. -/
theorem usable_of_authenticate (s : PostgresOperators) (plaintext now : PyStr)
    (principal : Principal) (after : PostgresOperators)
    (h : s.authenticate plaintext now = .ok (some principal, after)) :
    ∃ found, s.find plaintext = .ok (some found) ∧ found.Usable := by
  rw [authenticate] at h
  rcases hfind : s.find plaintext with e | - | found
  · rw [hfind] at h
    cases h
  · rw [hfind] at h
    cases h
  · rw [hfind] at h
    dsimp only at h
    rcases hprincipal : found.principal with - | principal'
    · rw [hprincipal] at h
      cases h
    · exact ⟨found, rfl, found.usable_of_principal hprincipal⟩

omit [Hashlib] in
/-- The operator of a row is there. -/
theorem isSome_getOperator {s : PostgresOperators} {row : KeyRow} (h : row ∈ s.keys) :
    (s.getOperator row.key.username).isSome := by
  obtain ⟨operator, hmem, hname⟩ := s.references row h
  exact List.find?_isSome.mpr ⟨operator, hmem, decide_eq_true hname⟩

/-- The row that is fetched is the first with the hash. -/
theorem find_eq {s : PostgresOperators} {plaintext hash : PyStr} (hne : plaintext ≠ [])
    (hhash : hashKey plaintext = .ok hash) :
    s.find plaintext = .ok ((s.keys.find? fun row => row.keySha256 = hash).map fun row =>
      ⟨row.key.keyId, row.key, s.getOperator row.key.username⟩) := by
  have hjoins : s.keys.find? (s.joins hash) = s.keys.find? fun row => row.keySha256 = hash := by
    refine List.find?_congr fun row hrow => ?_
    rw [joins, isSome_getOperator hrow, Bool.and_true]
  rw [find, if_neg hne, hhash]
  dsimp only
  rw [hjoins]
  cases s.keys.find? fun row => row.keySha256 = hash with
  | none => rfl
  | some row => rfl

/-- A revoked key is found revoked. -/
theorem find_revoked (s : PostgresOperators) (call : OperatorCall) (plaintext : PyStr)
    (found : FoundKey) (hash : PyStr) (hfound : s.find plaintext = .ok (some found))
    (hrevoked : found.key.active = false) (hhash : hashKey plaintext = .ok hash)
    (_ : ¬ call.Draws found.keyId hash) :
    ∃ found', (s.step call).find plaintext = .ok (some found') ∧
      found'.key.active = false ∧ found'.keyId = found.keyId := by
  have hne : plaintext ≠ [] := by
    rintro rfl
    cases hfound
  rw [find_eq hne hhash, Except.ok.injEq, Option.map_eq_some_iff] at hfound
  obtain ⟨row, hrow, rfl⟩ := hfound
  rw [find_eq hne hhash]
  have hkept : ∀ row', ((s.step call).keys.find? fun row => row.keySha256 = hash) = some row' →
      row'.key.active = false → row'.key.keyId = row.key.keyId →
        ∃ found', Except.ok (((s.step call).keys.find? fun row => row.keySha256 = hash).map fun row =>
          (⟨row.key.keyId, row.key, (s.step call).getOperator row.key.username⟩ : FoundKey))
            = (.ok (some found') : Except PyErr _) ∧
          found'.key.active = false ∧ found'.keyId = row.key.keyId := by
    intro row' hrow' hinactive hid
    rw [hrow']
    exact ⟨_, rfl, hinactive, hid⟩
  have hmapped : ∀ f : KeyRow → KeyRow, (∀ row, (f row).keySha256 = row.keySha256) →
      ((s.keys.map f).find? fun row => row.keySha256 = hash) = some (f row) := by
    intro f hf
    rw [List.find?_map, Function.comp_def]
    simp only [hf]
    rw [hrow]
    rfl
  cases s.step_keys call with
  | same hkeys => exact hkept row (by rw [hkeys, hrow]) hrevoked rfl
  | minted _ hkeys =>
      refine hkept row ?_ hrevoked rfl
      rw [hkeys, List.find?_append, hrow]
      rfl
  | @revoked keyId now _ hkeys =>
      obtain ⟨hid, -, hactive⟩ := KeyRow.revoked_keeps keyId now row
      refine hkept _ ?_ (hactive.trans ?_) hid
      · rw [hkeys]
        exact hmapped _ fun row => (KeyRow.revoked_keeps keyId now row).2.1
      · rw [show row.key.active = false from hrevoked, Bool.false_and]
  | @used _ now keyId _ hkeys =>
      obtain ⟨hid, -, hactive⟩ := KeyRow.used_keeps keyId now row
      refine hkept _ ?_ (hactive.trans hrevoked) hid
      rw [hkeys]
      exact hmapped _ fun row => (KeyRow.used_keeps keyId now row).2.1

end PostgresOperators

/-- `PostgresOperatorStore`. -/
def postgresOperatorStore : OperatorStore where
  State := PostgresOperators
  empty := .empty
  step := PostgresOperators.step
  hasActiveKey := PostgresOperators.hasActiveKey
  find := PostgresOperators.find
  authenticate := PostgresOperators.authenticate
  ActiveKey := PostgresOperators.ActiveKey
  hasActiveKey_iff := PostgresOperators.hasActiveKey_iff
  active_step := PostgresOperators.active_step
  active_revoke := PostgresOperators.active_revoke
  usable_of_authenticate := PostgresOperators.usable_of_authenticate
  find_revoked := PostgresOperators.find_revoked

/-! ## The authorizer -/

/-- `BEARER_PREFIX`. -/
def bearerMark : PyStr := str "Bearer "

/-- `bearer`. -/
def bearer : Option PyStr → Option PyStr
  | none => none
  | some authorization =>
      if authorization.take bearerMark.length ≠ bearerMark then none
      else some (authorization.drop bearerMark.length)

/-- `_synthetic`. -/
def syntheticOperator (username now : PyStr) : Operator :=
  ⟨username, username, none, .admin, now, true⟩

/-- What `require` refuses a call with. -/
inductive Refusal where
  | unauthorized
  | forbidden (scope : PyStr)

/-- `Authorizer`. -/
structure Authorizer (S : OperatorStore) where
  bootstrap : Option PyStr
  operators : S.State

namespace Authorizer

variable {S : OperatorStore} (a : Authorizer S)

/-- `locked`. -/
def locked : Bool := a.bootstrap.isSome || S.hasActiveKey a.operators

/-- Whether a token is the bootstrap key. -/
def isBootstrap (token : PyStr) : Except PyErr Bool :=
  match a.bootstrap with
  | none => .ok false
  | some key => compareDigest token key

/-- `principal`. -/
def principal (authorization : Option PyStr) (now : PyStr) :
    Except StoreError (Option Principal × S.State) :=
  if !a.locked then
    .ok (some ⟨syntheticOperator (str "unauthenticated") now, none, scopesForRole .admin⟩,
      a.operators)
  else
    match bearer authorization with
    | none => .ok (none, a.operators)
    | some token =>
        match a.isBootstrap token with
        | .error e => .error (.raised e)
        | .ok true =>
            .ok (some ⟨syntheticOperator (str "bootstrap") now, none, scopesForRole .admin⟩,
              a.operators)
        | .ok false => S.authenticate a.operators token now

/-- `require`; `none` when the call may proceed. -/
def require (authorization : Option PyStr) (scope now : PyStr) :
    Except StoreError (Option Refusal × S.State) :=
  match a.principal authorization now with
  | .error e => .error e
  | .ok (none, after) => .ok (some .unauthorized, after)
  | .ok (some principal, after) =>
      .ok (if principal.allows scope then none else some (.forbidden scope), after)

/-- The call may proceed. -/
def Admitted (authorization : Option PyStr) (scope : PyStr) : Prop :=
  ∃ now after, a.require authorization scope now = .ok (none, after)

/-- The credentials a locked server has to refuse. -/
inductive BadCredential : Option PyStr → Prop
  | missing {authorization : Option PyStr} (h : bearer authorization = none) :
      BadCredential authorization
  | unknown {authorization : Option PyStr} {token : PyStr} (h : bearer authorization = some token)
      (other : a.bootstrap ≠ some token) (absent : S.find a.operators token = .ok none) :
      BadCredential authorization
  | revoked {authorization : Option PyStr} {token : PyStr} {found : FoundKey}
      (h : bearer authorization = some token) (other : a.bootstrap ≠ some token)
      (known : S.find a.operators token = .ok (some found)) (idle : found.key.active = false) :
      BadCredential authorization
  | deactivated {authorization : Option PyStr} {token : PyStr} {found : FoundKey}
      {operator : Operator} (h : bearer authorization = some token)
      (other : a.bootstrap ≠ some token) (known : S.find a.operators token = .ok (some found))
      (owner : found.operator = some operator) (idle : operator.active = false) :
      BadCredential authorization

variable {a}

/-- A token that is not usable stands for nobody. -/
theorem principal_ne_some {authorization : Option PyStr} {token now : PyStr}
    {principal : Principal} {after : S.State} (hlocked : a.locked = true)
    (h : bearer authorization = some token) (hother : a.bootstrap ≠ some token)
    (hidle : ∀ found, S.find a.operators token = .ok (some found) → ¬ found.Usable) :
    a.principal authorization now ≠ .ok (some principal, after) := by
  intro hprincipal
  rw [Authorizer.principal, hlocked, h] at hprincipal
  have hboot : a.isBootstrap token ≠ .ok true := by
    rw [isBootstrap]
    cases hkey : a.bootstrap with
    | none => nofun
    | some key =>
        dsimp only
        rw [compareDigest]
        split_ifs
        · intro heq
          have : token = key := of_decide_eq_true (Except.ok.inj heq)
          exact hother (by rw [hkey, this])
        · nofun
  dsimp only [Bool.not_true, Bool.false_eq_true, if_false] at hprincipal
  rw [if_neg (by decide)] at hprincipal
  rcases hcheck : a.isBootstrap token with e | - | -
  · rw [hcheck] at hprincipal
    cases hprincipal
  · rw [hcheck] at hprincipal
    obtain ⟨found, hfound, husable⟩ := S.usable_of_authenticate _ _ _ _ _ hprincipal
    exact hidle found hfound husable
  · exact hboot hcheck

/-- **A locked server refuses every bad credential**, in every scope. -/
theorem not_admitted (hlocked : a.locked = true) {authorization : Option PyStr}
    (h : a.BadCredential authorization) (scope : PyStr) : ¬ a.Admitted authorization scope := by
  rintro ⟨now, after, hrequire⟩
  have hnobody : ∀ principal after, a.principal authorization now ≠ .ok (some principal, after) := by
    intro principal after
    cases h with
    | missing h =>
        rw [Authorizer.principal, hlocked, h]
        nofun
    | unknown h hother habsent =>
        refine principal_ne_some hlocked h hother fun found hfound => ?_
        rw [habsent] at hfound
        cases hfound
    | revoked h hother hknown hidle =>
        refine principal_ne_some hlocked h hother fun found hfound => ?_
        rw [hknown] at hfound
        obtain rfl := Option.some.inj (Except.ok.inj hfound)
        rintro ⟨_, _, hactive, _⟩
        rw [hidle] at hactive
        cases hactive
    | deactivated h hother hknown howner hidle =>
        refine principal_ne_some hlocked h hother fun found hfound => ?_
        rw [hknown] at hfound
        obtain rfl := Option.some.inj (Except.ok.inj hfound)
        rintro ⟨_, howner', _, hactive⟩
        obtain rfl := Option.some.inj (howner.symm.trans howner')
        rw [hidle] at hactive
        cases hactive
  rw [require] at hrequire
  rcases hprincipal : a.principal authorization now with e | ⟨- | principal, after'⟩
  · rw [hprincipal] at hrequire
    cases hrequire
  · rw [hprincipal] at hrequire
    cases hrequire
  · exact hnobody principal after' hprincipal

end Authorizer

/-! ## Runs -/

namespace OperatorStore

variable (S : OperatorStore)

/-- The store after some calls. -/
def run (calls : List OperatorCall) : S.State := calls.foldl S.step S.empty

/-- The server after some calls. -/
def server (bootstrap : Option PyStr) (calls : List OperatorCall) : Authorizer S :=
  ⟨bootstrap, S.run calls⟩

/-- The key is active, and no other is. -/
def LastActive (s : S.State) (keyId : PyStr) : Prop :=
  S.ActiveKey s keyId ∧ ∀ keyId', S.ActiveKey s keyId' → keyId' = keyId

/-- **No call of a run widens access**: at every moment after one at which the server was
locked, it is locked, it refuses every bad credential, and it refuses a key it has seen revoked
since, unless the identifier or the hash of the key was drawn again. -/
structure NeverWidens (bootstrap : Option PyStr) (calls : List OperatorCall) : Prop where
  stays_locked : ∀ early late, early <+: late → late <+: calls →
    (S.server bootstrap early).locked = true → (S.server bootstrap late).locked = true
  refuses : ∀ early late, early <+: late → late <+: calls →
    (S.server bootstrap early).locked = true →
      ∀ authorization, (S.server bootstrap late).BadCredential authorization →
        ∀ scope, ¬ (S.server bootstrap late).Admitted authorization scope
  refuses_revoked : ∀ early between, early ++ between <+: calls →
    (S.server bootstrap early).locked = true → ∀ token found hash, bootstrap ≠ some token →
      S.find (S.run early) token = .ok (some found) → found.key.active = false →
      hashKey token = .ok hash → (∀ call ∈ between, ¬ call.Draws found.keyId hash) →
        ∀ authorization, bearer authorization = some token →
          ∀ scope, ¬ (S.server bootstrap (early ++ between)).Admitted authorization scope

variable {S} {bootstrap : Option PyStr} {calls : List OperatorCall}

theorem run_append (calls more : List OperatorCall) :
    S.run (calls ++ more) = more.foldl S.step (S.run calls) := List.foldl_append

theorem locked_iff : (S.server bootstrap calls).locked = true ↔
    bootstrap.isSome = true ∨ ∃ keyId, S.ActiveKey (S.run calls) keyId := by
  rw [Authorizer.locked, Bool.or_eq_true]
  exact or_congr_right (S.hasActiveKey_iff _)

/-- **One call keeps the server locked**, unless it revokes the last active key. -/
theorem locked_step {call : OperatorCall} (h : (S.server bootstrap calls).locked = true)
    (hlast : ∀ keyId now, call = .revokeKey keyId now →
      bootstrap.isSome = true ∨ ¬ S.LastActive (S.run calls) keyId) :
    (S.server bootstrap (calls ++ [call])).locked = true := by
  rw [locked_iff] at h ⊢
  rcases h with hboot | ⟨keyId, hactive⟩
  · exact .inl hboot
  · rw [run_append]
    rcases S.active_step _ call keyId hactive with hkept | ⟨now, rfl⟩
    · exact .inr ⟨keyId, hkept⟩
    · rcases hlast keyId now rfl with hboot | hother
      · exact .inl hboot
      · -- some other key is active, and this call leaves it so
        have hsecond : ∃ keyId', S.ActiveKey (S.run calls) keyId' ∧ keyId' ≠ keyId := by
          by_contra hnone
          refine hother ⟨hactive, fun keyId' hactive' => ?_⟩
          by_contra hne
          exact hnone ⟨keyId', hactive', hne⟩
        obtain ⟨keyId', hactive', hne⟩ := hsecond
        rcases S.active_step _ (.revokeKey keyId now) keyId' hactive' with hkept | ⟨now', heq⟩
        · exact .inr ⟨keyId', hkept⟩
        · rw [OperatorCall.revokeKey.injEq] at heq
          exact absurd heq.1.symm hne

/-- No call of the run revokes the last active key of a server without a bootstrap key. -/
def KeepsOneKey (S : OperatorStore) (bootstrap : Option PyStr) (calls : List OperatorCall) :
    Prop :=
  ∀ before keyId now later, calls = before ++ .revokeKey keyId now :: later →
    bootstrap.isSome = true ∨ ¬ S.LastActive (S.run before) keyId

/-- Between two moments of such a run, a locked server stays locked. -/
theorem locked_mono (hkeeps : KeepsOneKey S bootstrap calls) {early between : List OperatorCall}
    (hwithin : early ++ between <+: calls) (h : (S.server bootstrap early).locked = true) :
    (S.server bootstrap (early ++ between)).locked = true := by
  induction between using List.reverseRecOn with
  | nil => rwa [List.append_nil]
  | append_singleton between call ih =>
      rw [← List.append_assoc] at hwithin ⊢
      have hbefore := ih ((List.prefix_append _ _).trans hwithin)
      refine locked_step hbefore fun keyId now hcall => ?_
      obtain ⟨later, hlater⟩ := hwithin
      refine hkeeps (early ++ between) keyId now later ?_
      rw [← hlater, hcall, List.append_assoc]
      rfl

/-- A revoked key is found revoked, as long as nothing of it is drawn again. -/
theorem find_revoked_run {early between : List OperatorCall} {token hash : PyStr}
    {found : FoundKey} (h : S.find (S.run early) token = .ok (some found))
    (hrevoked : found.key.active = false) (hhash : hashKey token = .ok hash)
    (hfresh : ∀ call ∈ between, ¬ call.Draws found.keyId hash) :
    ∃ found', S.find (S.run (early ++ between)) token = .ok (some found') ∧
      found'.key.active = false ∧ found'.keyId = found.keyId := by
  induction between using List.reverseRecOn with
  | nil => exact ⟨found, by rwa [List.append_nil], hrevoked, rfl⟩
  | append_singleton between call ih =>
      rw [List.forall_mem_append, List.forall_mem_singleton] at hfresh
      obtain ⟨found', hfound', hrevoked', hid⟩ := ih hfresh.1
      rw [← List.append_assoc, run_append]
      obtain ⟨found'', hfound'', hrevoked'', hid'⟩ :=
        S.find_revoked _ call token found' hash hfound' hrevoked' hhash (hid ▸ hfresh.2)
      exact ⟨found'', hfound'', hrevoked'', hid'.trans hid⟩

/-- **When no call of a run widens access**: exactly if none revokes the last active key while
there is no bootstrap key. -/
theorem neverWidens_iff (S : OperatorStore) (bootstrap : Option PyStr)
    (calls : List OperatorCall) :
    S.NeverWidens bootstrap calls ↔ KeepsOneKey S bootstrap calls := by
  constructor
  · rintro hnever before keyId now later rfl
    rcases hboot : bootstrap with - | key
    · refine .inr fun hlast => ?_
      have hlocked : (S.server bootstrap before).locked = true :=
        locked_iff.mpr (.inr ⟨keyId, hlast.1⟩)
      have hafter := hnever.stays_locked before (before ++ [.revokeKey keyId now])
        (List.prefix_append _ _) ⟨later, by rw [List.append_assoc]; rfl⟩ hlocked
      rw [locked_iff, hboot, run_append] at hafter
      rcases hafter with hsome | ⟨keyId', hactive⟩
      · cases hsome
      · obtain ⟨hactive', hne⟩ := S.active_revoke _ keyId now keyId' hactive
        exact hne (hlast.2 keyId' hactive')
    · exact .inl rfl
  · intro hkeeps
    have hlocked : ∀ early late, early <+: late → late <+: calls →
        (S.server bootstrap early).locked = true → (S.server bootstrap late).locked = true := by
      rintro early late ⟨between, rfl⟩ hwithin h
      exact locked_mono hkeeps hwithin h
    refine ⟨hlocked, ?_, ?_⟩
    · intro early late hearly hlate h authorization hbad scope
      exact Authorizer.not_admitted (hlocked early late hearly hlate h) hbad scope
    · intro early between hwithin h token found hash hother hfound hrevoked hhash hfresh
        authorization hbearer scope
      obtain ⟨found', hfound', hrevoked', -⟩ := find_revoked_run hfound hrevoked hhash hfresh
      exact Authorizer.not_admitted (locked_mono hkeeps hwithin h)
        (.revoked hbearer hother hfound' hrevoked') scope

end OperatorStore

section Example

/-- An operator is created, gets a key, and the key is revoked. -/
def lastKeyRevoked : List OperatorCall :=
  [.createOperator (str "alice") (str "Alice") none .admin (str "1"),
    .mintKey (str "alice") (str "laptop") (str "secret") (str "k1") (str "2"),
    .revokeKey (str "k1") (str "3")]

end Example

end Waxseal
