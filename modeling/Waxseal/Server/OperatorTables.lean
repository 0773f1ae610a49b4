import Waxseal.Base.SerialTables
import Waxseal.Server.Operators

/-!
# The tables of the operators

`PostgresOperatorStore` over the two tables of `SCHEMA`: rows in any order, ordinals from two
sequences, the primary keys, the unique column and the reference.  A call is one transaction; a
statement with a text that the driver does not take raises, and the transaction leaves the tables
as they were.

Read in the order of the ordinals, the tables are the lists of `PostgresOperators`, and a call whose
texts are taken does to them what it does to the lists (`answer_of_taken`).
-/

namespace Waxseal

/-! ## Calls and answers -/

/-- A call of `OperatorStore`. -/
inductive StoreCall where
  | change (call : OperatorCall)
  | getOperator (username : PyStr)
  | operators
  | keys (username : Option PyStr)
  | hasActiveKey

/-- What a call returns. -/
inductive StoreValue where
  | operator (operator : Operator)
  | found (operator : Option Operator)
  | operators (operators : List Operator)
  | minted (plaintext : PyStr) (key : ApiKey)
  | keys (keys : List ApiKey)
  | flag (b : Bool)
  | principal (principal : Option Principal)

/-- What a call returns or raises. -/
abbrev Answer := Except StoreError StoreValue

/-- The answer of a call, and the state after it. -/
def answered {State α : Type} (state : State) (value : α → StoreValue) :
    Except StoreError (α × State) → Answer × State
  | .ok (a, after) => (.ok (value a), after)
  | .error e => (.error e, state)

section Hashing

variable [Hashlib]

/-- A call of `InMemoryOperatorStore`. -/
def InMemoryOperators.answer (s : InMemoryOperators) : StoreCall → Answer × InMemoryOperators
  | .change (.createOperator username displayName email role now) =>
      answered s .operator (s.createOperator username displayName email role now)
  | .change (.updateOperator username changes) =>
      answered s .operator (s.updateOperator username changes)
  | .change (.mintKey username label secret keyId now) =>
      answered s (fun minted => .minted minted.1 minted.2) (s.mintKey username label secret keyId now)
  | .change (.revokeKey keyId now) => (.ok (.flag (s.revokeKey keyId now).1), (s.revokeKey keyId now).2)
  | .change (.authenticate plaintext now) => answered s .principal (s.authenticate plaintext now)
  | .getOperator username => (.ok (.found (s.getOperator username)), s)
  | .operators => (.ok (.operators s.allOperators), s)
  | .keys username => (.keys <$> s.allKeys username, s)
  | .hasActiveKey => (.ok (.flag s.hasActiveKey), s)

/-- A call of `PostgresOperatorStore`, on the lists. -/
def PostgresOperators.answer (s : PostgresOperators) : StoreCall → Answer × PostgresOperators
  | .change (.createOperator username displayName email role now) =>
      answered s .operator (s.createOperator username displayName email role now)
  | .change (.updateOperator username changes) =>
      answered s .operator (s.updateOperator username changes)
  | .change (.mintKey username label secret keyId now) =>
      answered s (fun minted => .minted minted.1 minted.2) (s.mintKey username label secret keyId now)
  | .change (.revokeKey keyId now) => (.ok (.flag (s.revokeKey keyId now).1), (s.revokeKey keyId now).2)
  | .change (.authenticate plaintext now) => answered s .principal (s.authenticate plaintext now)
  | .getOperator username => (.ok (.found (s.getOperator username)), s)
  | .operators => (.ok (.operators s.operators), s)
  | .keys username => (.ok (.keys (s.allKeys username)), s)
  | .hasActiveKey => (.ok (.flag s.hasActiveKey), s)

end Hashing

/-! ## Tables -/

/-- `waxseal_operators` and `waxseal_api_keys`, with their constraints. -/
structure OperatorTables where
  operators : SerialTable Operator
  keys : SerialTable KeyRow
  /-- `username TEXT PRIMARY KEY`. -/
  username_primary : (operators.ordered.map Operator.username).Nodup
  /-- `key_id TEXT PRIMARY KEY`. -/
  keyId_primary : (keys.ordered.map fun row => row.key.keyId).Nodup
  /-- `key_sha256 TEXT NOT NULL UNIQUE`. -/
  hash_unique : (keys.ordered.map KeyRow.keySha256).Nodup
  /-- `REFERENCES waxseal_operators(username)`. -/
  references : ∀ row ∈ keys.ordered, ∃ operator ∈ operators.ordered,
    operator.username = row.key.username

namespace OperatorTables

/-- The tables as `SCHEMA` creates them. -/
def empty : OperatorTables where
  operators := .empty
  keys := .empty
  username_primary := List.nodup_nil
  keyId_primary := List.nodup_nil
  hash_unique := List.nodup_nil
  references := List.forall_mem_nil _

/-- The tables in the order of their ordinals. -/
def listed (t : OperatorTables) : PostgresOperators :=
  ⟨t.operators.ordered, t.keys.ordered, t.references⟩

/-- `SELECT ... FROM waxseal_operators WHERE username = ...`. -/
def selectOperator (t : OperatorTables) (username : PyStr) : Option Operator :=
  (t.operators.rows.map Prod.snd).find? fun operator => operator.username = username

theorem selectOperator_eq (t : OperatorTables) (username : PyStr) :
    t.selectOperator username = t.listed.getOperator username := by
  refine SerialTable.find?_eq_ordered fun a ha b hb hpa hpb => ?_
  exact List.inj_on_of_nodup_map t.username_primary ha hb
    ((of_decide_eq_true hpa).trans (of_decide_eq_true hpb).symm)

theorem username_ne_of_selectOperator {t : OperatorTables} {username : PyStr}
    (h : t.selectOperator username = none) :
    ∀ operator ∈ t.operators.ordered, operator.username ≠ username := by
  rw [selectOperator_eq] at h
  intro operator hop hname
  exact List.find?_eq_none.mp h operator hop (decide_eq_true hname)

theorem username_of_selectOperator {t : OperatorTables} {username : PyStr} {operator : Operator}
    (h : t.selectOperator username = some operator) : operator.username = username := by
  rw [selectOperator_eq] at h
  exact PostgresOperators.username_of_getOperator h

/-- `INSERT INTO waxseal_operators`, of a username that is free. -/
def insertOperator (t : OperatorTables) (operator : Operator)
    (h : t.selectOperator operator.username = none) : OperatorTables where
  operators := t.operators.insert operator
  keys := t.keys
  username_primary := by
    rw [SerialTable.ordered_insert, List.map_append, List.map_singleton, List.nodup_append]
    refine ⟨t.username_primary, List.nodup_singleton _, fun name hname other hother => ?_⟩
    obtain ⟨op, hop, rfl⟩ := List.mem_map.mp hname
    rw [List.mem_singleton.mp hother]
    exact username_ne_of_selectOperator h op hop
  keyId_primary := t.keyId_primary
  hash_unique := t.hash_unique
  references row hrow := by
    obtain ⟨op, hop, hname⟩ := t.references row hrow
    exact ⟨op, SerialTable.ordered_insert t.operators operator ▸ List.mem_append_left _ hop, hname⟩

/-- `ON CONFLICT (username) DO NOTHING`: the ordinal is gone. -/
def skipOperator (t : OperatorTables) : OperatorTables :=
  { t with operators := t.operators.skip }

/-- `UPDATE waxseal_operators SET ... WHERE username = ...`. -/
def updateRow (t : OperatorTables) (username : PyStr) (updated : Operator)
    (h : updated.username = username) : OperatorTables where
  operators := t.operators.update (fun operator => operator.username = username) fun _ => updated
  keys := t.keys
  username_primary := by
    have hnames : (t.operators.ordered.map fun operator =>
        if decide (operator.username = username) = true then updated else operator).map
          Operator.username = t.operators.ordered.map Operator.username := by
      rw [List.map_map]
      refine List.map_congr_left fun operator _ => ?_
      rw [Function.comp_apply]
      split_ifs with heq
      · rw [h, of_decide_eq_true heq]
      · rfl
    rw [SerialTable.ordered_update, hnames]
    exact t.username_primary
  keyId_primary := t.keyId_primary
  hash_unique := t.hash_unique
  references row hrow := by
    obtain ⟨op, hop, hname⟩ := t.references row hrow
    rw [SerialTable.ordered_update]
    refine ⟨_, List.mem_map_of_mem hop, ?_⟩
    split_ifs with heq
    · rw [h, ← of_decide_eq_true heq, hname]
    · exact hname

/-- The row of a key identifier or a hash is there. -/
def conflicts (t : OperatorTables) (keyId hash : PyStr) : Bool :=
  (t.keys.rows.map Prod.snd).any fun row => row.key.keyId = keyId || row.keySha256 = hash

theorem conflicts_eq (t : OperatorTables) (keyId hash : PyStr) :
    t.conflicts keyId hash =
      t.listed.keys.any fun row => row.key.keyId = keyId || row.keySha256 = hash :=
  t.keys.any_eq_ordered _

/-- `INSERT INTO waxseal_api_keys`, for an operator that is there and a row that is new. -/
def insertKey (t : OperatorTables) (row : KeyRow) (h : (t.selectOperator row.key.username).isSome)
    (hfresh : t.conflicts row.key.keyId row.keySha256 = false) : OperatorTables where
  operators := t.operators
  keys := t.keys.insert row
  username_primary := t.username_primary
  keyId_primary := by
    rw [SerialTable.ordered_insert, List.map_append, List.map_singleton, List.nodup_append]
    refine ⟨t.keyId_primary, List.nodup_singleton _, fun keyId hid other hother => ?_⟩
    obtain ⟨row', hrow', rfl⟩ := List.mem_map.mp hid
    rw [List.mem_singleton.mp hother]
    rw [conflicts_eq] at hfresh
    intro heq
    refine Bool.eq_false_iff.mp hfresh (List.any_eq_true.mpr ⟨row', hrow', ?_⟩)
    rw [decide_eq_true heq, Bool.true_or]
  hash_unique := by
    rw [SerialTable.ordered_insert, List.map_append, List.map_singleton, List.nodup_append]
    refine ⟨t.hash_unique, List.nodup_singleton _, fun hash hid other hother => ?_⟩
    obtain ⟨row', hrow', rfl⟩ := List.mem_map.mp hid
    rw [List.mem_singleton.mp hother]
    rw [conflicts_eq] at hfresh
    intro heq
    refine Bool.eq_false_iff.mp hfresh (List.any_eq_true.mpr ⟨row', hrow', ?_⟩)
    rw [decide_eq_true heq, Bool.or_true]
  references row' hrow := by
    rw [SerialTable.ordered_insert] at hrow
    rcases List.mem_append.mp hrow with hold | hnew
    · exact t.references row' hold
    · obtain rfl := List.mem_singleton.mp hnew
      rw [selectOperator_eq] at h
      obtain ⟨op, hop⟩ := Option.isSome_iff_exists.mp h
      exact ⟨op, List.mem_of_find?_eq_some hop, PostgresOperators.username_of_getOperator hop⟩

/-- An insert of a key that a constraint refuses: the ordinal is gone. -/
def skipKey (t : OperatorTables) : OperatorTables := { t with keys := t.keys.skip }

/-- `UPDATE waxseal_api_keys SET ... WHERE ...`, of a column that is in no constraint. -/
def updateKeys (t : OperatorTables) (p : KeyRow → Bool) (f : ApiKey → ApiKey)
    (h : ∀ key, (f key).username = key.username ∧ (f key).keyId = key.keyId) : OperatorTables where
  operators := t.operators
  keys := t.keys.update p fun row => { row with key := f row.key }
  username_primary := t.username_primary
  keyId_primary := by
    rw [SerialTable.ordered_update, List.map_map]
    refine (congrArg List.Nodup (List.map_congr_left fun row _ => ?_)).mpr t.keyId_primary
    rw [Function.comp_apply]
    split_ifs
    · exact (h row.key).2
    · rfl
  hash_unique := by
    rw [SerialTable.ordered_update, List.map_map]
    refine (congrArg List.Nodup (List.map_congr_left fun row _ => ?_)).mpr t.hash_unique
    rw [Function.comp_apply]
    split_ifs
    · rfl
    · rfl
  references row hrow := by
    rw [SerialTable.ordered_update] at hrow
    obtain ⟨row', hrow', rfl⟩ := List.mem_map.mp hrow
    obtain ⟨op, hop, hname⟩ := t.references row' hrow'
    refine ⟨op, hop, hname.trans ?_⟩
    split_ifs
    · exact (h row'.key).1.symm
    · rfl

/-! ## Transactions -/

/-- `cur.execute(statement, texts)`, and what follows it.  A text that is not taken ends the
transaction, with the tables as they were. -/
def execute (takes : PyStr → Bool) (t : OperatorTables) (texts : List PyStr)
    (rest : Answer × OperatorTables) : Answer × OperatorTables :=
  if texts.all takes then rest else (.error .textRefused, t)

variable (takes : PyStr → Bool) (t : OperatorTables)

/-- `create_operator`. -/
def createOperator (username displayName : PyStr) (email : Option PyStr) (role : Role)
    (now : PyStr) : Answer × OperatorTables :=
  if !isUsername username then (.error .invalidIdentifier, t)
  else
    let operator : Operator := ⟨username, displayName, email, role, now, true⟩
    execute takes t ([username, displayName] ++ email.toList ++ [role.value, now]) <|
      match h : t.selectOperator username with
      | some _ => (.error .operatorExists, t.skipOperator)
      | none => (.ok (.operator operator), t.insertOperator operator h)

/-- `update_operator`. -/
def updateOperator (username : PyStr) (changes : OperatorChanges) : Answer × OperatorTables :=
  execute takes t [username] <|
    match h : t.selectOperator username with
    | none => (.error .noSuchOperator, t)
    | some current =>
        let updated := current.updated changes
        execute takes t ([updated.displayName] ++ updated.email.toList ++
            [updated.role.value, username]) <|
          (.ok (.operator updated),
            t.updateRow username updated (@username_of_selectOperator t username current h))

/-- `SELECT ... FROM waxseal_api_keys ORDER BY ordinal DESC`, of one operator or of all. -/
def selectKeys (username : Option PyStr) : List ApiKey :=
  let newestFirst := (t.keys.ordered.map KeyRow.key).reverse
  match username with
  | none => newestFirst
  | some username => newestFirst.filter fun key => key.username = username

/-- `revoke_key`. -/
def revokeKey (keyId now : PyStr) : Answer × OperatorTables :=
  execute takes t [now, keyId] <|
    let matching : KeyRow → Bool := fun row => row.key.keyId = keyId && row.key.active
    (.ok (.flag ((t.keys.rows.map Prod.snd).countP matching = 1)),
      t.updateKeys matching (fun key => { key with revokedAt := some now }) fun _ => ⟨rfl, rfl⟩)

variable [Hashlib]

/-- `mint_key`. -/
def mintKey (username label secret keyId now : PyStr) : Answer × OperatorTables :=
  match drawnKey secret with
  | .error e => (.error (.raised e), t)
  | .ok (plaintext, hash, fingerprint) =>
      let record : ApiKey := ⟨keyId, username, label, fingerprint, now, none, none⟩
      execute takes t [username] <|
        if h : (t.selectOperator username).isSome then
          execute takes t [keyId, username, label, fingerprint, hash, now] <|
            if hfresh : t.conflicts keyId hash = false then
              (.ok (.minted plaintext record), t.insertKey ⟨record, hash⟩ h hfresh)
            else (.error .integrityError, t.skipKey)
        else (.error .noSuchOperator, t)

/-- The row of the join that `authenticate` fetches. -/
def selectJoin (hash : PyStr) : Option KeyRow :=
  (t.keys.rows.map Prod.snd).find? fun row =>
    row.keySha256 = hash && (t.selectOperator row.key.username).isSome

/-- `authenticate`. -/
def authenticate (plaintext now : PyStr) : Answer × OperatorTables :=
  if plaintext = [] then (.ok (.principal none), t)
  else
    match hashKey plaintext with
    | .error e => (.error (.raised e), t)
    | .ok hash =>
        execute takes t [hash] <|
          match t.selectJoin hash with
          | none => (.ok (.principal none), t)
          | some row =>
              let found : FoundKey := ⟨row.key.keyId, row.key, t.selectOperator row.key.username⟩
              match found.principal with
              | none => (.ok (.principal none), t)
              | some principal =>
                  execute takes t [now, found.keyId] <|
                    (.ok (.principal (some principal)),
                      t.updateKeys (fun row => row.key.keyId = found.keyId)
                        (fun key => { key with lastUsedAt := some now }) fun _ => ⟨rfl, rfl⟩)

/-- A call. -/
def answer : StoreCall → Answer × OperatorTables
  | .change (.createOperator username displayName email role now) =>
      createOperator takes t username displayName email role now
  | .change (.updateOperator username changes) => updateOperator takes t username changes
  | .change (.mintKey username label secret keyId now) =>
      mintKey takes t username label secret keyId now
  | .change (.revokeKey keyId now) => revokeKey takes t keyId now
  | .change (.authenticate plaintext now) => authenticate takes t plaintext now
  | .getOperator username =>
      execute takes t [username] (.ok (.found (t.selectOperator username)), t)
  | .operators => (.ok (.operators t.operators.ordered), t)
  | .keys username => execute takes t username.toList (.ok (.keys (t.selectKeys username)), t)
  | .hasActiveKey =>
      (.ok (.flag ((t.keys.rows.map Prod.snd).any fun row => row.key.active)), t)

end OperatorTables

/-! ## The texts of a call -/

/-- The texts a call sends, one statement after the other. -/
def PostgresOperators.sqlTexts [Hashlib] (s : PostgresOperators) : StoreCall → List PyStr
  | .change (.createOperator username displayName email role now) =>
      if isUsername username then [username, displayName] ++ email.toList ++ [role.value, now]
      else []
  | .change (.updateOperator username changes) =>
      username ::
        match s.getOperator username with
        | none => []
        | some current =>
            let updated := current.updated changes
            [updated.displayName] ++ updated.email.toList ++ [updated.role.value, username]
  | .change (.mintKey username label secret keyId now) =>
      match drawnKey secret with
      | .error _ => []
      | .ok (_, hash, fingerprint) =>
          username ::
            if (s.getOperator username).isSome then
              [keyId, username, label, fingerprint, hash, now]
            else []
  | .change (.revokeKey keyId now) => [now, keyId]
  | .change (.authenticate plaintext now) =>
      if plaintext = [] then []
      else
        match hashKey plaintext with
        | .error _ => []
        | .ok hash =>
            hash ::
              match s.find plaintext with
              | .ok (some found) => if found.principal.isSome then [now, found.keyId] else []
              | _ => []
  | .getOperator username => [username]
  | .operators => []
  | .keys username => username.toList
  | .hasActiveKey => []

/-! ## What a call does to the lists -/

namespace OperatorTables

theorem listed_eq {t : OperatorTables} {s : PostgresOperators}
    (hoperators : t.operators.ordered = s.operators) (hkeys : t.keys.ordered = s.keys) :
    t.listed = s := by
  obtain ⟨operators, keys, references⟩ := s
  subst hoperators hkeys
  rfl

/-- A transaction with these texts does what is expected of it, or raises and does nothing when one
of them is refused. -/
structure Follows (takes : PyStr → Bool) (t : OperatorTables) (texts : List PyStr)
    (result : Answer × OperatorTables) (expected : Answer × PostgresOperators) : Prop where
  taken : texts.all takes = true → result.1 = expected.1 ∧ result.2.listed = expected.2
  refused : texts.all takes = false → result = (.error .textRefused, t)

variable {takes : PyStr → Bool} {t : OperatorTables} {result : Answer × OperatorTables}
  {expected : Answer × PostgresOperators}

theorem Follows.done (hanswer : result.1 = expected.1) (hlisted : result.2.listed = expected.2) :
    Follows takes t [] result expected where
  taken _ := ⟨hanswer, hlisted⟩
  refused h := by cases h

/-- One statement more. -/
theorem Follows.execute {texts more : List PyStr} (h : Follows takes t more result expected) :
    Follows takes t (texts ++ more) (execute takes t texts result) expected where
  taken htaken := by
    rw [List.all_append, Bool.and_eq_true] at htaken
    rw [OperatorTables.execute, if_pos htaken.1]
    exact h.taken htaken.2
  refused hrefused := by
    rw [OperatorTables.execute]
    by_cases htexts : texts.all takes = true
    · rw [List.all_append, htexts, Bool.true_and] at hrefused
      rw [if_pos htexts]
      exact h.refused hrefused
    · rw [if_neg htexts]

theorem Follows.execute_one {text : PyStr} {more : List PyStr}
    (h : Follows takes t more result expected) :
    Follows takes t (text :: more) (OperatorTables.execute takes t [text] result) expected := by
  have hone : Follows takes t ([text] ++ more) (OperatorTables.execute takes t [text] result)
      expected := h.execute
  exact hone

theorem Follows.execute_last {texts : List PyStr} (hanswer : result.1 = expected.1)
    (hlisted : result.2.listed = expected.2) :
    Follows takes t texts (OperatorTables.execute takes t texts result) expected := by
  have hdone : Follows takes t [] result expected := .done hanswer hlisted
  have h : Follows takes t (texts ++ []) (OperatorTables.execute takes t texts result) expected :=
    hdone.execute
  rwa [List.append_nil] at h

theorem createOperator_follows [Hashlib] (username displayName : PyStr) (email : Option PyStr)
    (role : Role) (now : PyStr) :
    Follows takes t
      (t.listed.sqlTexts (.change (.createOperator username displayName email role now)))
      (createOperator takes t username displayName email role now)
      (t.listed.answer (.change (.createOperator username displayName email role now))) := by
  rw [createOperator, PostgresOperators.sqlTexts, PostgresOperators.answer,
    PostgresOperators.createOperator]
  cases hname : isUsername username with
  | false => exact .done rfl rfl
  | true =>
      refine .execute_last ?_ ?_
      · split
        · next found hfound =>
            rw [selectOperator_eq] at hfound
            simp only [Bool.not_true, hfound]
            rfl
        · next hnone =>
            rw [selectOperator_eq] at hnone
            simp only [Bool.not_true, hnone]
            rfl
      · split
        · next found hfound =>
            rw [selectOperator_eq] at hfound
            simp only [Bool.not_true, hfound]
            exact listed_eq rfl rfl
        · next hnone =>
            rw [selectOperator_eq] at hnone
            simp only [Bool.not_true, hnone]
            exact listed_eq (SerialTable.ordered_insert _ _) rfl

theorem updateOperator_follows [Hashlib] (username : PyStr) (changes : OperatorChanges) :
    Follows takes t (t.listed.sqlTexts (.change (.updateOperator username changes)))
      (updateOperator takes t username changes)
      (t.listed.answer (.change (.updateOperator username changes))) := by
  have hselect := t.selectOperator_eq username
  rw [updateOperator, PostgresOperators.sqlTexts, PostgresOperators.answer,
    PostgresOperators.updateOperator]
  refine Follows.execute_one ?_
  split
  · next hnone =>
      rw [hnone] at hselect
      split
      · next hnone' =>
          split
          · exact .done rfl rfl
          · next current hfound =>
              rw [hnone] at hfound
              cases hfound
      · next current hfound =>
          rw [hselect] at hfound
          cases hfound
  · next current hfound =>
      rw [hfound] at hselect
      split
      · next hnone =>
          rw [hselect] at hnone
          cases hnone
      · next current' hfound' =>
          obtain rfl := Option.some.inj (hselect.symm.trans hfound')
          split
          · next hnone =>
              rw [hfound] at hnone
              cases hnone
          · next current' hfound' =>
              obtain rfl := Option.some.inj (hfound.symm.trans hfound')
              refine .execute_last rfl (listed_eq ?_ rfl)
              exact (SerialTable.ordered_update _ _ _).trans
                (List.map_congr_left fun operator _ => if_congr decide_eq_true_iff rfl rfl)

theorem revokeKey_follows [Hashlib] (keyId now : PyStr) :
    Follows takes t (t.listed.sqlTexts (.change (.revokeKey keyId now)))
      (revokeKey takes t keyId now) (t.listed.answer (.change (.revokeKey keyId now))) := by
  refine .execute_last ?_ (listed_eq rfl ?_)
  · exact congrArg (fun n : ℕ => (Except.ok (.flag (decide (n = 1))) : Answer))
      (t.keys.countP_eq_ordered fun row => row.key.keyId = keyId && row.key.active)
  · exact SerialTable.ordered_update _ _ _

theorem mintKey_follows [Hashlib] (username label secret keyId now : PyStr) :
    Follows takes t (t.listed.sqlTexts (.change (.mintKey username label secret keyId now)))
      (mintKey takes t username label secret keyId now)
      (t.listed.answer (.change (.mintKey username label secret keyId now))) := by
  rw [mintKey, PostgresOperators.sqlTexts, PostgresOperators.answer, PostgresOperators.mintKey]
  rcases drawnKey secret with e | ⟨plaintext, hash, fingerprint⟩
  · exact .done rfl rfl
  · refine Follows.execute_one ?_
    dsimp only
    by_cases hknown : (t.listed.getOperator username).isSome
    · have hselected : (t.selectOperator username).isSome := by rwa [selectOperator_eq]
      rw [if_pos hknown, dif_pos hselected, dif_pos hknown]
      have hconflicts := t.conflicts_eq keyId hash
      by_cases hfresh : t.conflicts keyId hash = false
      · rw [dif_pos hfresh]
        rw [hfresh] at hconflicts
        rw [← hconflicts]
        exact .execute_last rfl (listed_eq rfl (SerialTable.ordered_insert _ _))
      · rw [dif_neg hfresh]
        rw [Bool.not_eq_false] at hfresh
        rw [hfresh] at hconflicts
        rw [← hconflicts]
        exact .execute_last rfl (listed_eq rfl rfl)
    · have hselected : ¬ (t.selectOperator username).isSome := by rwa [selectOperator_eq]
      rw [if_neg hknown, dif_neg hselected, dif_neg hknown]
      exact .done rfl rfl

theorem joins_unique [Hashlib] {hash : PyStr} : ∀ row ∈ t.keys.ordered, ∀ row' ∈ t.keys.ordered,
    t.listed.joins hash row = true → t.listed.joins hash row' = true → row = row' := by
  intro row hrow row' hrow' h h'
  rw [PostgresOperators.joins, Bool.and_eq_true] at h h'
  exact List.inj_on_of_nodup_map t.hash_unique hrow hrow'
    ((of_decide_eq_true h.1).trans (of_decide_eq_true h'.1).symm)

theorem selectJoin_eq [Hashlib] (t : OperatorTables) (hash : PyStr) :
    t.selectJoin hash = t.listed.keys.find? (t.listed.joins hash) := by
  have hjoins : (fun row : KeyRow => decide (row.keySha256 = hash) &&
      (t.selectOperator row.key.username).isSome) = t.listed.joins hash := by
    funext row
    rw [PostgresOperators.joins, selectOperator_eq]
  rw [selectJoin, hjoins]
  exact SerialTable.find?_eq_ordered joins_unique

theorem authenticate_follows [Hashlib] (plaintext now : PyStr) :
    Follows takes t (t.listed.sqlTexts (.change (.authenticate plaintext now)))
      (authenticate takes t plaintext now)
      (t.listed.answer (.change (.authenticate plaintext now))) := by
  rw [authenticate, PostgresOperators.sqlTexts, PostgresOperators.answer,
    PostgresOperators.authenticate, PostgresOperators.find]
  by_cases hempty : plaintext = []
  · rw [if_pos hempty, if_pos hempty, if_pos hempty]
    exact .done rfl rfl
  · rw [if_neg hempty, if_neg hempty, if_neg hempty]
    rcases hashKey plaintext with e | hash
    · exact .done rfl rfl
    · refine Follows.execute_one ?_
      dsimp only
      rw [selectJoin_eq]
      rcases t.listed.keys.find? (t.listed.joins hash) with - | row
      · exact .done rfl rfl
      · dsimp only
        rw [selectOperator_eq]
        rcases FoundKey.principal _ with - | principal
        · exact .done rfl rfl
        · refine .execute_last rfl (listed_eq rfl ?_)
          exact (SerialTable.ordered_update _ _ _).trans
            (List.map_congr_left fun row _ => if_congr decide_eq_true_iff rfl rfl)

theorem selectKeys_eq (t : OperatorTables) (username : Option PyStr) :
    t.selectKeys username = t.listed.allKeys username := by
  cases username with
  | none => rfl
  | some username => exact List.filter_reverse

/-- **What a call does to the tables it does to the lists**, unless the driver refuses a text. -/
theorem answer_follows [Hashlib] (takes : PyStr → Bool) (t : OperatorTables) (call : StoreCall) :
    Follows takes t (t.listed.sqlTexts call) (t.answer takes call) (t.listed.answer call) := by
  cases call with
  | change call =>
      cases call with
      | createOperator username displayName email role now =>
          exact createOperator_follows username displayName email role now
      | updateOperator username changes => exact updateOperator_follows username changes
      | mintKey username label secret keyId now =>
          exact mintKey_follows username label secret keyId now
      | revokeKey keyId now => exact revokeKey_follows keyId now
      | authenticate plaintext now => exact authenticate_follows plaintext now
  | getOperator username =>
      refine .execute_last ?_ rfl
      exact congrArg (fun found => (Except.ok (.found found) : Answer)) (t.selectOperator_eq username)
  | operators => exact .done rfl rfl
  | keys username =>
      refine .execute_last ?_ rfl
      exact congrArg (fun keys => (Except.ok (.keys keys) : Answer)) (t.selectKeys_eq username)
  | hasActiveKey =>
      refine .done ?_ rfl
      exact congrArg (fun b => (Except.ok (.flag b) : Answer)) (t.keys.any_eq_ordered _)

end OperatorTables

end Waxseal
