import Waxseal.Server.Authorizing
import Waxseal.Server.OperatorTables

/-!
# The two operator stores

`InMemoryOperatorStore` is a stand-in for `PostgresOperatorStore`: dictionaries, and the order in
which their keys were first set, beside tables read in the order of their ordinals
(`SameContents`).  Each call answers the same in both and leaves the same contents
(`SameContents.answer`), as long as what is drawn at random is fresh.

What the stand-in does not have is the driver: a text that PostgreSQL does not hold is stored in
memory and raises there.  Over a whole run the two agree exactly when no call sends such a text
(`operatorStores_agree_iff`).
-/

namespace Waxseal

/-! ## What is drawn -/

/-- What `secrets.token_urlsafe` is made of. -/
def isUrlSafe (secret : PyStr) : Bool :=
  secret.all fun c => Json.isDigit c || (0x41 ≤ c.val && c.val ≤ 0x5A) ||
    (0x61 ≤ c.val && c.val ≤ 0x7A) || c == .ofChar '-' || c == .ofChar '_'

/-- The identifier and the secret a call draws. -/
def StoreCall.draw : StoreCall → Option (PyStr × PyStr)
  | .change (.mintKey _ _ secret keyId _) => some (keyId, secret)
  | _ => none

variable [Hashlib]

/-- Secrets are URL-safe; no identifier is drawn twice, and no two secrets hash alike. -/
structure FreshDraws (calls : List StoreCall) : Prop where
  urlSafe : ∀ draw ∈ calls.filterMap StoreCall.draw, isUrlSafe draw.2 = true
  keyIds : ((calls.filterMap StoreCall.draw).map Prod.fst).Nodup
  hashes : ((calls.filterMap StoreCall.draw).map fun draw => hashKey (keyMark ++ draw.2)).Nodup

theorem FreshDraws.tail {call : StoreCall} {calls : List StoreCall} (h : FreshDraws (call :: calls)) :
    FreshDraws calls := by
  have hsub : (calls.filterMap StoreCall.draw).Sublist ((call :: calls).filterMap StoreCall.draw) :=
    (List.sublist_cons_self call calls).filterMap StoreCall.draw
  exact ⟨fun draw hdraw => h.urlSafe draw (hsub.subset hdraw), h.keyIds.sublist (hsub.map _),
    h.hashes.sublist (hsub.map _)⟩

/-- What a call draws no later call draws. -/
theorem FreshDraws.ne {call call' : StoreCall} {calls : List StoreCall}
    (h : FreshDraws (call :: calls)) (hcall' : call' ∈ calls) {keyId secret keyId' secret' : PyStr}
    (hdraw : call.draw = some (keyId, secret)) (hdraw' : call'.draw = some (keyId', secret')) :
    keyId ≠ keyId' ∧ hashKey (keyMark ++ secret) ≠ hashKey (keyMark ++ secret') := by
  have hmem : (keyId', secret') ∈ calls.filterMap StoreCall.draw :=
    List.mem_filterMap.mpr ⟨call', hcall', hdraw'⟩
  obtain ⟨-, hkeyIds, hhashes⟩ := h
  rw [List.filterMap_cons_some hdraw, List.map_cons, List.nodup_cons] at hkeyIds hhashes
  constructor
  · rintro rfl
    exact hkeyIds.1 (List.mem_map.mpr ⟨_, hmem, rfl⟩)
  · intro hsame
    exact hhashes.1 (List.mem_map.mpr ⟨_, hmem, hsame.symm⟩)

theorem exists_drawnKey {secret : PyStr} (h : isUrlSafe secret = true) :
    ∃ hash fingerprint, drawnKey secret = .ok (keyMark ++ secret, hash, fingerprint) ∧
      hashKey (keyMark ++ secret) = .ok hash := by
  have hascii : isAscii (keyMark ++ secret) = true := by
    refine List.all_eq_true.mpr fun c hc => ?_
    rcases List.mem_append.mp hc with hmark | hsecret
    · exact List.all_eq_true.mp (by decide : isAscii keyMark = true) c hmark
    · refine decide_eq_true ?_
      have hsafe := List.all_eq_true.mp h c hsecret
      simp only [Json.isDigit, Bool.or_eq_true, Bool.and_eq_true, decide_eq_true_iff, beq_iff_eq]
        at hsafe
      rcases hsafe with (((hdigit | hupper) | hlower) | rfl) | rfl
      · omega
      · omega
      · omega
      · decide
      · decide
  have hhash : hashKey (keyMark ++ secret) = .ok (hexdigest (asciiBytes (keyMark ++ secret))) := by
    rw [hashKey, encodeUtf8_ascii hascii]
  have hmark : (keyMark ++ secret).take keyMark.length = keyMark := List.take_left
  have hminted : mintKey secret = .ok (keyMark ++ secret, hexdigest (asciiBytes (keyMark ++ secret))) :=
    bind_eq_ok_iff.mpr ⟨_, hhash, rfl⟩
  have hshown : keyFingerprint (keyMark ++ secret) =
      .ok (keyMark ++ ((keyMark ++ secret).drop keyMark.length).take 4 ++ str "…") := by
    rw [keyFingerprint, if_neg (not_not.mpr hmark)]
  exact ⟨_, _, bind_eq_ok_iff.mpr ⟨_, hminted, bind_eq_ok_iff.mpr ⟨_, hshown, rfl⟩⟩, hhash⟩

/-! ## Dictionaries and lists -/

section Dictionaries

omit [Hashlib]

variable {α β : Type} {d : AList fun _ : PyStr => β} {l : List α} {name : α → PyStr} {value : α → β}

/-- A key set for the first time is an element behind the others. -/
theorem lookup_insert_append (hd : ∀ k, d.lookup k = (l.find? fun x => name x = k).map value) {a : α}
    (hnew : l.find? (fun x => name x = name a) = none) (k : PyStr) :
    (d.insert (name a) (value a)).lookup k = ((l ++ [a]).find? fun x => name x = k).map value := by
  rw [List.find?_append, List.find?_singleton]
  by_cases hk : k = name a
  · rw [hk, AList.lookup_insert, hnew, Option.none_or, if_pos (decide_eq_true rfl), Option.map_some]
  · rw [AList.lookup_insert_ne hk, if_neg (fun h => hk (of_decide_eq_true h).symm), Option.or_none, hd]

/-- A key set again is an element changed in its place. -/
theorem lookup_insert_map (hd : ∀ k, d.lookup k = (l.find? fun x => name x = k).map value) {a : α}
    {f : α → α} (hfound : l.find? (fun x => name x = name a) = some a)
    (hname : ∀ x, name (f x) = name x) (hother : ∀ x, name x ≠ name a → f x = x) (k : PyStr) :
    (d.insert (name a) (value (f a))).lookup k =
      ((l.map f).find? fun x => name x = k).map value := by
  have hkept : ((fun x => decide (name x = k)) ∘ f) = fun x => decide (name x = k) := by
    funext x
    rw [Function.comp_apply, hname]
  rw [List.find?_map, hkept]
  by_cases hk : k = name a
  · rw [hk, AList.lookup_insert, hfound]
    rfl
  · rw [AList.lookup_insert_ne hk, hd]
    cases hx : l.find? fun x => name x = k with
    | none => rfl
    | some x =>
        have hxk : name x = k :=
          of_decide_eq_true (@List.find?_some _ (fun x => decide (name x = k)) _ _ hx)
        rw [Option.map_some, Option.map_some, Option.map_some, hother x (by rwa [hxk])]

theorem map_map_of_kept {l : List α} {f : α → α} (hname : ∀ x, name (f x) = name x) :
    (l.map f).map name = l.map name := by
  rw [List.map_map]
  exact List.map_congr_left fun x _ => hname x

end Dictionaries

/-! ## The same contents -/

/-- Dictionaries and lists with the same contents in the same order. -/
structure SameContents (m : InMemoryOperators) (s : PostgresOperators) : Prop where
  usernames : m.usernames = s.operators.map Operator.username
  usernames_nodup : (s.operators.map Operator.username).Nodup
  operator : ∀ username, m.getOperator username = s.getOperator username
  order : m.order = s.keys.map fun row => row.key.keyId
  order_nodup : (s.keys.map fun row => row.key.keyId).Nodup
  key : ∀ keyId, m.keys.lookup keyId =
    (s.keys.find? fun row => row.key.keyId = keyId).map KeyRow.key
  hash_nodup : (s.keys.map KeyRow.keySha256).Nodup
  hash : ∀ hash, m.byHash.lookup hash =
    (s.keys.find? fun row => row.keySha256 = hash).map fun row => row.key.keyId

omit [Hashlib] in
theorem sameContents_empty : SameContents .empty .empty where
  usernames := rfl
  usernames_nodup := List.nodup_nil
  operator _ := rfl
  order := rfl
  order_nodup := List.nodup_nil
  key _ := rfl
  hash_nodup := List.nodup_nil
  hash _ := rfl

omit [Hashlib] in
theorem keyId_of_find? {rows : List KeyRow} {keyId : PyStr} {row : KeyRow}
    (h : rows.find? (fun other => other.key.keyId = keyId) = some row) : row.key.keyId = keyId :=
  of_decide_eq_true (@List.find?_some _ (fun other : KeyRow => decide (other.key.keyId = keyId)) _ _ h)

namespace SameContents

variable {m : InMemoryOperators} {s : PostgresOperators} (h : SameContents m s)

section Reading

omit [Hashlib]

include h

theorem getOperator_of_mem {operator : Operator} (hop : operator ∈ s.operators) :
    s.getOperator operator.username = some operator := by
  have hsome : (s.getOperator operator.username).isSome = true :=
    List.find?_isSome.mpr ⟨operator, hop, decide_eq_true rfl⟩
  obtain ⟨found, hfound⟩ := Option.isSome_iff_exists.mp hsome
  have hname := PostgresOperators.username_of_getOperator hfound
  rw [hfound, List.inj_on_of_nodup_map h.usernames_nodup (List.mem_of_find?_eq_some hfound) hop hname]

theorem mem_operators_iff {username : PyStr} :
    username ∈ m.operators ↔ (s.getOperator username).isSome = true := by
  rw [← h.operator, InMemoryOperators.getOperator, AList.lookup_isSome]

/-- The operators, oldest first. -/
theorem allOperators : m.allOperators = s.operators := by
  have hread : ∀ operator ∈ s.operators, m.getOperator operator.username = some operator :=
    fun operator hop => by rw [h.operator, h.getOperator_of_mem hop]
  rw [InMemoryOperators.allOperators, h.usernames, List.filterMap_map]
  exact (List.filterMap_congr hread).trans List.filterMap_some

theorem find?_keyId {row : KeyRow} (hrow : row ∈ s.keys) :
    s.keys.find? (fun other => other.key.keyId = row.key.keyId) = some row := by
  have hsome : (s.keys.find? fun other => other.key.keyId = row.key.keyId).isSome = true :=
    List.find?_isSome.mpr ⟨row, hrow, decide_eq_true rfl⟩
  obtain ⟨found, hfound⟩ := Option.isSome_iff_exists.mp hsome
  have hid := keyId_of_find? hfound
  rw [hfound, List.inj_on_of_nodup_map h.order_nodup (List.mem_of_find?_eq_some hfound) hrow hid]

theorem lookup_of_mem {row : KeyRow} (hrow : row ∈ s.keys) :
    m.keys.lookup row.key.keyId = some row.key := by
  rw [h.key, h.find?_keyId hrow, Option.map_some]

/-- The keys, newest first. -/
theorem allKeys (username : Option PyStr) : m.allKeys username = .ok (s.allKeys username) := by
  have hread : ∀ rows : List KeyRow, (∀ row ∈ rows, row ∈ s.keys) →
      (rows.map fun row => row.key.keyId).mapM m.keyAt = .ok (rows.map KeyRow.key) := by
    intro rows hrows
    induction rows with
    | nil => rfl
    | cons row rows ih =>
        obtain ⟨hrow, hmore⟩ := List.forall_mem_cons.mp hrows
        rw [List.map_cons, List.mapM_cons, InMemoryOperators.keyAt, h.lookup_of_mem hrow, ih hmore]
        rfl
  rw [InMemoryOperators.allKeys, h.order, ← List.map_reverse,
    hread s.keys.reverse fun row hrow => List.mem_reverse.mp hrow]
  cases username with
  | none => exact congrArg Except.ok List.map_reverse
  | some username =>
      rw [List.map_reverse]
      exact congrArg Except.ok List.filter_reverse

theorem hasActiveKey : m.hasActiveKey = s.hasActiveKey := by
  rw [Bool.eq_iff_iff, InMemoryOperators.hasActiveKey_iff, PostgresOperators.hasActiveKey_iff]
  refine exists_congr fun keyId => ?_
  rw [InMemoryOperators.ActiveKey, PostgresOperators.ActiveKey, h.key]
  constructor
  · rintro ⟨record, hlookup, hactive⟩
    obtain ⟨row, hfound, rfl⟩ := Option.map_eq_some_iff.mp hlookup
    exact ⟨row, List.mem_of_find?_eq_some hfound, keyId_of_find? hfound, hactive⟩
  · rintro ⟨row, hrow, rfl, hactive⟩
    rw [h.find?_keyId hrow]
    exact ⟨row.key, rfl, hactive⟩

end Reading

/-! ### Changing the operators -/

section Changing

omit [Hashlib]

theorem withOperator (h : SameContents m s) {operator : Operator}
    (hnew : s.getOperator operator.username = none) :
    SameContents
      { m with
        operators := m.operators.insert operator.username operator
        usernames := m.usernames ++ [operator.username] } (s.withOperator operator) where
  usernames := by
    rw [PostgresOperators.withOperator, List.map_append, h.usernames]
    rfl
  usernames_nodup := by
    rw [PostgresOperators.withOperator, List.map_append, List.nodup_append]
    refine ⟨h.usernames_nodup, List.nodup_singleton _, fun name hname other hother => ?_⟩
    obtain ⟨op, hop, rfl⟩ := List.mem_map.mp hname
    rw [List.mem_singleton.mp hother]
    exact fun heq => List.find?_eq_none.mp hnew op hop (decide_eq_true heq)
  operator username := by
    have hread : ∀ name, m.operators.lookup name =
        (s.operators.find? fun op => op.username = name).map id := fun name =>
      (h.operator name).trans (Option.map_id_fun ▸ rfl)
    have happend := lookup_insert_append hread hnew username
    rwa [Option.map_id_fun] at happend
  order := h.order
  order_nodup := h.order_nodup
  key := h.key
  hash_nodup := h.hash_nodup
  hash := h.hash

theorem username_updated {username : PyStr} {updated : Operator} (hname : updated.username = username)
    (op : Operator) :
    (if op.username = username then updated else op).username = op.username := by
  split_ifs with heq
  · rw [hname, heq]
  · rfl

theorem setOperator (h : SameContents m s) {username : PyStr} {current updated : Operator}
    (hfound : s.getOperator username = some current) (hname : updated.username = username) :
    SameContents { m with operators := m.operators.insert username updated }
      (s.setOperator username updated hname) where
  usernames := by
    rw [PostgresOperators.setOperator, map_map_of_kept (username_updated hname), h.usernames]
  usernames_nodup := by
    rw [PostgresOperators.setOperator, map_map_of_kept (username_updated hname)]
    exact h.usernames_nodup
  operator other := by
    obtain rfl := PostgresOperators.username_of_getOperator hfound
    have hread : ∀ name, m.operators.lookup name =
        (s.operators.find? fun op => op.username = name).map id := fun name =>
      (h.operator name).trans (Option.map_id_fun ▸ rfl)
    have hmap := lookup_insert_map hread hfound (username_updated hname)
      (fun op hne => if_neg hne) other
    rw [if_pos rfl, Option.map_id_fun] at hmap
    exact hmap
  order := h.order
  order_nodup := h.order_nodup
  key := h.key
  hash_nodup := h.hash_nodup
  hash := h.hash

/-! ### Changing the keys -/

theorem withKey (h : SameContents m s) {row : KeyRow}
    (hop : (s.getOperator row.key.username).isSome) (hid : row.key.keyId ∉ m.order)
    (hhash : m.byHash.lookup row.keySha256 = none) :
    SameContents
      { m with
        keys := m.keys.insert row.key.keyId row.key
        byHash := m.byHash.insert row.keySha256 row.key.keyId
        order := m.order ++ [row.key.keyId] } (s.withKey row hop) where
  usernames := h.usernames
  usernames_nodup := h.usernames_nodup
  operator := h.operator
  order := by
    rw [PostgresOperators.withKey, List.map_append, h.order]
    rfl
  order_nodup := by
    rw [PostgresOperators.withKey, List.map_append, List.nodup_append]
    refine ⟨h.order_nodup, List.nodup_singleton _, fun keyId hmem other hother => ?_⟩
    rw [List.mem_singleton.mp hother]
    rintro rfl
    exact hid (h.order ▸ hmem)
  key keyId := by
    refine lookup_insert_append h.key (List.find?_eq_none.mpr fun other hother hname => hid ?_) keyId
    rw [h.order, ← of_decide_eq_true hname]
    exact List.mem_map_of_mem hother
  hash_nodup := by
    rw [PostgresOperators.withKey, List.map_append, List.nodup_append]
    refine ⟨h.hash_nodup, List.nodup_singleton _, fun hash hmem other hother => ?_⟩
    rw [List.mem_singleton.mp hother]
    rintro rfl
    obtain ⟨row', hrow', hsame⟩ := List.mem_map.mp hmem
    rw [h.hash] at hhash
    exact List.find?_eq_none.mp (Option.map_eq_none_iff.mp hhash) row' hrow' (decide_eq_true hsame)
  hash hash := by
    rw [h.hash] at hhash
    exact lookup_insert_append h.hash (Option.map_eq_none_iff.mp hhash) hash

theorem mapKeys (h : SameContents m s) {row : KeyRow} (hrow : row ∈ s.keys) {f : KeyRow → KeyRow}
    (hname : ∀ r, (f r).key.username = r.key.username) (hid : ∀ r, (f r).key.keyId = r.key.keyId)
    (hhash : ∀ r, (f r).keySha256 = r.keySha256)
    (hother : ∀ r : KeyRow, r.key.keyId ≠ row.key.keyId → f r = r) :
    SameContents { m with keys := m.keys.insert row.key.keyId (f row).key }
      (s.mapKeys f hname) where
  usernames := h.usernames
  usernames_nodup := h.usernames_nodup
  operator := h.operator
  order := by
    rw [PostgresOperators.mapKeys, h.order]
    exact (@map_map_of_kept _ (fun r : KeyRow => r.key.keyId) s.keys f hid).symm
  order_nodup := by
    rw [PostgresOperators.mapKeys, @map_map_of_kept _ (fun r : KeyRow => r.key.keyId) s.keys f hid]
    exact h.order_nodup
  key := lookup_insert_map h.key (h.find?_keyId hrow) hid hother
  hash_nodup := by
    rw [PostgresOperators.mapKeys, map_map_of_kept hhash]
    exact h.hash_nodup
  hash hash := by
    have hkept : ((fun r : KeyRow => decide (r.keySha256 = hash)) ∘ f) =
        fun r => decide (r.keySha256 = hash) := by
      funext r
      rw [Function.comp_apply, hhash]
    rw [PostgresOperators.mapKeys, List.find?_map, hkept, Option.map_map, h.hash]
    exact congrFun (congrArg Option.map (funext fun r => (hid r).symm)) _

end Changing

end SameContents

/-! ## One call -/

/-- The same error, or the same value and the same contents. -/
inductive AnswersAlike {α : Type} : Except StoreError (α × InMemoryOperators) →
    Except StoreError (α × PostgresOperators) → Prop
  | raised (e : StoreError) : AnswersAlike (.error e) (.error e)
  | returned (a : α) {m : InMemoryOperators} {s : PostgresOperators} (h : SameContents m s) :
      AnswersAlike (.ok (a, m)) (.ok (a, s))

namespace SameContents

variable {m : InMemoryOperators} {s : PostgresOperators}

omit [Hashlib] in
theorem answered (h : SameContents m s) {α : Type} {value : α → StoreValue}
    {r : Except StoreError (α × InMemoryOperators)} {r' : Except StoreError (α × PostgresOperators)}
    (halike : AnswersAlike r r') :
    (Waxseal.answered m value r).1 = (Waxseal.answered s value r').1 ∧
      SameContents (Waxseal.answered m value r).2 (Waxseal.answered s value r').2 := by
  cases halike with
  | raised e => exact ⟨rfl, h⟩
  | returned a hafter => exact ⟨rfl, hafter⟩

omit [Hashlib] in
theorem createOperator (h : SameContents m s) (username displayName : PyStr)
    (email : Option PyStr) (role : Role) (now : PyStr) :
    AnswersAlike (m.createOperator username displayName email role now)
      (s.createOperator username displayName email role now) := by
  rw [InMemoryOperators.createOperator, PostgresOperators.createOperator]
  by_cases hname : (!isUsername username) = true
  · rw [if_pos hname, if_pos hname]
    exact .raised _
  · rw [if_neg hname, if_neg hname]
    cases hfound : s.getOperator username with
    | some operator =>
        rw [if_pos (h.mem_operators_iff.mpr (by rw [hfound]; rfl))]
        exact .raised _
    | none =>
        rw [if_neg (fun hmem => by
          have hsome := h.mem_operators_iff.mp hmem
          rw [hfound] at hsome
          cases hsome)]
        exact .returned _ (@withOperator m s h ⟨username, displayName, email, role, now, true⟩ hfound)

omit [Hashlib] in
theorem updateOperator (h : SameContents m s) (username : PyStr) (changes : OperatorChanges) :
    AnswersAlike (m.updateOperator username changes) (s.updateOperator username changes) := by
  have hread : m.operators.lookup username = s.getOperator username := h.operator username
  rw [InMemoryOperators.updateOperator, PostgresOperators.updateOperator, hread]
  split
  · next hnone =>
      split
      · exact .raised _
      · next current hfound =>
          rw [hnone] at hfound
          cases hfound
  · next current hfound =>
      split
      · next hnone =>
          rw [hfound] at hnone
          cases hnone
      · next current' hfound' =>
          obtain rfl := Option.some.inj (hfound.symm.trans hfound')
          exact .returned _ (h.setOperator hfound _)

/-- The draws of a call are new to the store. -/
def NewDraws (m : InMemoryOperators) (call : StoreCall) : Prop :=
  ∀ keyId secret, call.draw = some (keyId, secret) → isUrlSafe secret = true ∧ keyId ∉ m.order ∧
    ∀ hash, hashKey (keyMark ++ secret) = .ok hash → m.byHash.lookup hash = none

theorem mintKey (h : SameContents m s) {username label secret keyId now : PyStr}
    (hnew : NewDraws m (.change (.mintKey username label secret keyId now))) :
    AnswersAlike (m.mintKey username label secret keyId now)
      (s.mintKey username label secret keyId now) := by
  obtain ⟨hsafe, hid, hhashes⟩ := hnew keyId secret rfl
  obtain ⟨hash, fingerprint, hdrawn, hhash⟩ := exists_drawnKey hsafe
  have hunused := hhashes hash hhash
  rw [InMemoryOperators.mintKey, PostgresOperators.mintKey, hdrawn]
  dsimp only
  by_cases hknown : (s.getOperator username).isSome = true
  · have hconflict : (s.keys.any fun row => row.key.keyId = keyId || row.keySha256 = hash) = false := by
      refine List.any_eq_false.mpr fun row hrow hclash => ?_
      rcases Bool.or_eq_true_iff.mp hclash with hsame | hsame
      · refine hid (h.order ▸ ?_)
        rw [← of_decide_eq_true hsame]
        exact List.mem_map_of_mem hrow
      · rw [h.hash] at hunused
        exact List.find?_eq_none.mp (Option.map_eq_none_iff.mp hunused) row hrow hsame
    rw [if_neg (not_not.mpr (h.mem_operators_iff.mpr hknown)), dif_pos hknown, hconflict]
    exact .returned _ (@withKey m s h ⟨⟨keyId, username, label, fingerprint, now, none, none⟩, hash⟩
      hknown hid hunused)
  · rw [if_pos (fun hmem => hknown (h.mem_operators_iff.mp hmem)), dif_neg hknown]
    exact .raised _

omit [Hashlib] in
theorem mapKeys_eq_self {f : KeyRow → KeyRow}
    (hname : ∀ r, (f r).key.username = r.key.username) (hf : ∀ r ∈ s.keys, f r = r) :
    s.mapKeys f hname = s := by
  obtain ⟨operators, keys, references⟩ := s
  have hkeys : keys.map f = keys := (List.map_congr_left hf).trans (List.map_id _)
  simp only [PostgresOperators.mapKeys, hkeys]

omit [Hashlib] in
/-- One row has the identifier, so at most one is updated. -/
theorem countP_of_active (h : SameContents m s) {row : KeyRow} (hrow : row ∈ s.keys)
    (hactive : row.key.active = true) :
    s.keys.countP (fun other => other.key.keyId = row.key.keyId && other.key.active) = 1 := by
  have hone : s.keys.countP (fun other => other.key.keyId = row.key.keyId && other.key.active) =
      (s.keys.map fun other => other.key.keyId).count row.key.keyId := by
    rw [List.count, List.countP_map]
    refine List.countP_congr fun other hother => ?_
    rw [Bool.and_eq_true, decide_eq_true_iff, Function.comp_apply, beq_iff_eq]
    constructor
    · exact fun hmatch => hmatch.1
    · intro hid
      obtain rfl := List.inj_on_of_nodup_map h.order_nodup hother hrow hid
      exact ⟨rfl, hactive⟩
  rw [hone]
  exact List.count_eq_one_of_mem h.order_nodup (List.mem_map_of_mem hrow)

omit [Hashlib] in
theorem revokeKey (h : SameContents m s) (keyId now : PyStr) :
    (m.revokeKey keyId now).1 = (s.revokeKey keyId now).1 ∧
      SameContents (m.revokeKey keyId now).2 (s.revokeKey keyId now).2 := by
  have hidle : (∀ row ∈ s.keys, ¬ (row.key.keyId = keyId && row.key.active) = true) →
      s.revokeKey keyId now = (false, s) := by
    intro hnone
    have hcount : s.keys.countP (fun row => row.key.keyId = keyId && row.key.active) = 0 :=
      List.countP_eq_zero.mpr hnone
    rw [PostgresOperators.revokeKey, hcount,
      mapKeys_eq_self _ fun row hrow => by rw [PostgresOperators.KeyRow.revoked, if_neg (hnone row hrow)]]
    rfl
  rw [InMemoryOperators.revokeKey, h.key]
  cases hfound : s.keys.find? fun row => row.key.keyId = keyId with
  | none =>
      rw [hidle fun row hrow hmatch =>
        List.find?_eq_none.mp hfound row hrow (Bool.and_eq_true_iff.mp hmatch).1]
      exact ⟨rfl, h⟩
  | some row =>
      obtain rfl := keyId_of_find? hfound
      have hrow := List.mem_of_find?_eq_some hfound
      rw [Option.map_some]
      dsimp only
      cases hactive : row.key.active with
      | false =>
          rw [hidle fun other hother hmatch => by
            obtain ⟨hid, hother'⟩ := Bool.and_eq_true_iff.mp hmatch
            obtain rfl := List.inj_on_of_nodup_map h.order_nodup hother hrow (of_decide_eq_true hid)
            rw [hactive] at hother'
            cases hother']
          exact ⟨rfl, h⟩
      | true =>
          have hset : (PostgresOperators.KeyRow.revoked row.key.keyId now row).key =
              { row.key with revokedAt := some now } := by
            rw [PostgresOperators.KeyRow.revoked, hactive, if_pos (by rw [decide_eq_true rfl, Bool.and_true])]
          have hafter := h.mapKeys hrow (PostgresOperators.KeyRow.revoked_username row.key.keyId now)
            (fun r => by rw [PostgresOperators.KeyRow.revoked]; split_ifs <;> rfl)
            (fun r => by rw [PostgresOperators.KeyRow.revoked]; split_ifs <;> rfl)
            (fun r hne => by
              rw [PostgresOperators.KeyRow.revoked, if_neg]
              exact fun hmatch => hne (of_decide_eq_true (Bool.and_eq_true_iff.mp hmatch).1))
          rw [hset] at hafter
          refine ⟨?_, hafter⟩
          rw [PostgresOperators.revokeKey, h.countP_of_active hrow hactive]
          rfl

/-- What is found for a token. -/
theorem find (h : SameContents m s) (plaintext : PyStr) : m.find plaintext = s.find plaintext := by
  by_cases hempty : plaintext = []
  · rw [InMemoryOperators.find, PostgresOperators.find, if_pos hempty, if_pos hempty]
  · cases hhash : hashKey plaintext with
    | error e =>
        rw [InMemoryOperators.find, PostgresOperators.find, if_neg hempty, if_neg hempty, hhash]
    | ok hash =>
        rw [PostgresOperators.find_eq hempty hhash, InMemoryOperators.find, if_neg hempty, hhash]
        dsimp only
        rw [h.hash]
        cases hfound : s.keys.find? fun row => row.keySha256 = hash with
        | none => rfl
        | some row =>
            rw [Option.map_some, Option.map_some]
            dsimp only
            rw [h.lookup_of_mem (List.mem_of_find?_eq_some hfound), ← h.operator]
            rfl

theorem exists_row_of_find {plaintext : PyStr} {found : FoundKey}
    (hfind : s.find plaintext = .ok (some found)) :
    ∃ row ∈ s.keys, found.keyId = row.key.keyId ∧ found.key = row.key := by
  have hempty : plaintext ≠ [] := by
    rintro rfl
    cases hfind
  cases hhash : hashKey plaintext with
  | error e =>
      rw [PostgresOperators.find, if_neg hempty, hhash] at hfind
      cases hfind
  | ok hash =>
      rw [PostgresOperators.find_eq hempty hhash, Except.ok.injEq, Option.map_eq_some_iff] at hfind
      obtain ⟨row, hrow, rfl⟩ := hfind
      exact ⟨row, List.mem_of_find?_eq_some hrow, rfl, rfl⟩

theorem authenticate (h : SameContents m s) (plaintext now : PyStr) :
    AnswersAlike (m.authenticate plaintext now) (s.authenticate plaintext now) := by
  rw [InMemoryOperators.authenticate, PostgresOperators.authenticate, h.find]
  rcases hfind : s.find plaintext with e | - | found
  · exact .raised _
  · exact .returned _ h
  · dsimp only
    rcases found.principal with - | principal
    · exact .returned _ h
    · obtain ⟨row, hrow, hid, hkey⟩ := exists_row_of_find hfind
      have hkeeps := PostgresOperators.KeyRow.used_keeps found.keyId now
      have hset : (PostgresOperators.KeyRow.used found.keyId now row).key =
          { found.key with lastUsedAt := some now } := by
        rw [PostgresOperators.KeyRow.used, if_pos hid.symm, hkey]
      have hafter := h.mapKeys hrow (PostgresOperators.KeyRow.used_username found.keyId now)
        (fun r => (hkeeps r).1) (fun r => (hkeeps r).2.1)
        (fun r hne => by rw [PostgresOperators.KeyRow.used, if_neg (hid ▸ hne)])
      rw [hset, ← hid] at hafter
      exact .returned _ hafter

/-- **Each call answers the same, and leaves the same contents.** -/
theorem answer (h : SameContents m s) {call : StoreCall} (hnew : NewDraws m call) :
    (m.answer call).1 = (s.answer call).1 ∧ SameContents (m.answer call).2 (s.answer call).2 := by
  cases call with
  | change call =>
      cases call with
      | createOperator username displayName email role now =>
          exact h.answered (h.createOperator username displayName email role now)
      | updateOperator username changes => exact h.answered (h.updateOperator username changes)
      | mintKey username label secret keyId now => exact h.answered (h.mintKey hnew)
      | revokeKey keyId now =>
          obtain ⟨hflag, hafter⟩ := h.revokeKey keyId now
          exact ⟨congrArg (fun b => (Except.ok (.flag b) : Answer)) hflag, hafter⟩
      | authenticate plaintext now => exact h.answered (h.authenticate plaintext now)
  | getOperator username =>
      exact ⟨congrArg (fun found => (Except.ok (.found found) : Answer)) (h.operator username), h⟩
  | operators =>
      exact ⟨congrArg (fun operators => (Except.ok (.operators operators) : Answer)) h.allOperators, h⟩
  | keys username =>
      refine ⟨?_, h⟩
      rw [InMemoryOperators.answer, h.allKeys username]
      rfl
  | hasActiveKey =>
      exact ⟨congrArg (fun b => (Except.ok (.flag b) : Answer)) h.hasActiveKey, h⟩

end SameContents

/-! ## A run -/

/-- What `InMemoryOperatorStore` answers, call by call. -/
def InMemoryOperators.answers (m : InMemoryOperators) : List StoreCall → List Answer
  | [] => []
  | call :: calls => (m.answer call).1 :: InMemoryOperators.answers (m.answer call).2 calls

namespace OperatorTables

/-- What `PostgresOperatorStore` answers, call by call. -/
def answers (takes : PyStr → Bool) (t : OperatorTables) : List StoreCall → List Answer
  | [] => []
  | call :: calls => (t.answer takes call).1 :: answers takes (t.answer takes call).2 calls

/-- The driver takes every text of every call, in the state the call is made in. -/
def TextsTaken (takes : PyStr → Bool) (t : OperatorTables) : List StoreCall → Prop
  | [] => True
  | call :: calls =>
      (∀ text ∈ t.listed.sqlTexts call, takes text = true) ∧
        TextsTaken takes (t.answer takes call).2 calls

end OperatorTables

theorem hashKey_of_drawnKey {secret plaintext hash fingerprint : PyStr}
    (h : drawnKey secret = .ok (plaintext, hash, fingerprint)) :
    hashKey (keyMark ++ secret) = .ok hash := by
  obtain ⟨minted, hminted, hmore⟩ := bind_eq_ok_iff.mp h
  obtain ⟨shown, -, hdrawn⟩ := bind_eq_ok_iff.mp hmore
  obtain ⟨hash', hhash', hpair⟩ := bind_eq_ok_iff.mp hminted
  obtain rfl : (keyMark ++ secret, hash') = minted := Except.ok.inj hpair
  obtain rfl : hash' = hash := congrArg (fun drawn => drawn.2.1) (Except.ok.inj hdrawn)
  exact hhash'

/-- What a call adds to what has been drawn. -/
theorem InMemoryOperators.drawn_answer (m : InMemoryOperators) (call : StoreCall) :
    ((m.answer call).2.order = m.order ∧ (m.answer call).2.byHash = m.byHash) ∨
      ∃ keyId secret hash, call.draw = some (keyId, secret) ∧ hashKey (keyMark ++ secret) = .ok hash ∧
        (m.answer call).2.order = m.order ++ [keyId] ∧
        (m.answer call).2.byHash = m.byHash.insert hash keyId := by
  cases call with
  | change call =>
      cases call with
      | createOperator username displayName email role now =>
          rw [answer, createOperator]
          split_ifs
          · exact .inl ⟨rfl, rfl⟩
          · exact .inl ⟨rfl, rfl⟩
          · exact .inl ⟨rfl, rfl⟩
      | updateOperator username changes =>
          rw [answer, updateOperator]
          cases m.operators.lookup username with
          | none => exact .inl ⟨rfl, rfl⟩
          | some current => exact .inl ⟨rfl, rfl⟩
      | mintKey username label secret keyId now =>
          rw [answer, mintKey]
          by_cases hknown : username ∈ m.operators
          · rw [if_neg (not_not.mpr hknown)]
            rcases hdrawn : drawnKey secret with e | ⟨plaintext, hash, fingerprint⟩
            · exact .inl ⟨rfl, rfl⟩
            · exact .inr ⟨keyId, secret, hash, rfl, hashKey_of_drawnKey hdrawn, rfl, rfl⟩
          · rw [if_pos hknown]
            exact .inl ⟨rfl, rfl⟩
      | revokeKey keyId now =>
          rw [answer, revokeKey]
          cases m.keys.lookup keyId with
          | none => exact .inl ⟨rfl, rfl⟩
          | some record =>
              dsimp only
              split_ifs
              · exact .inl ⟨rfl, rfl⟩
              · exact .inl ⟨rfl, rfl⟩
      | authenticate plaintext now =>
          rw [answer, authenticate]
          rcases m.find plaintext with e | - | found
          · exact .inl ⟨rfl, rfl⟩
          · exact .inl ⟨rfl, rfl⟩
          · dsimp only
            cases found.principal with
            | none => exact .inl ⟨rfl, rfl⟩
            | some principal => exact .inl ⟨rfl, rfl⟩
  | getOperator username => exact .inl ⟨rfl, rfl⟩
  | operators => exact .inl ⟨rfl, rfl⟩
  | keys username => exact .inl ⟨rfl, rfl⟩
  | hasActiveKey => exact .inl ⟨rfl, rfl⟩

namespace SameContents

variable {m : InMemoryOperators} {s : PostgresOperators}

/-- Nothing in memory refuses a text. -/
theorem answer_ne_textRefused (h : SameContents m s) (call : StoreCall) :
    (m.answer call).1 ≠ .error .textRefused := by
  have hanswered : ∀ {α : Type} {value : α → StoreValue} {r : Except StoreError (α × InMemoryOperators)},
      r ≠ .error .textRefused → (Waxseal.answered m value r).1 ≠ .error .textRefused := by
    rintro α value (e | ⟨a, after⟩) hne heq
    · exact hne (congrArg Except.error (Except.error.inj heq))
    · cases heq
  cases call with
  | change call =>
      cases call with
      | createOperator username displayName email role now =>
          refine hanswered ?_
          rw [InMemoryOperators.createOperator]
          split_ifs
          · intro herr
            cases herr
          · intro herr
            cases herr
          · intro herr
            cases herr
      | updateOperator username changes =>
          refine hanswered ?_
          rw [InMemoryOperators.updateOperator]
          cases m.operators.lookup username with
          | none =>
              intro herr
              cases herr
          | some current =>
              intro herr
              cases herr
      | mintKey username label secret keyId now =>
          refine hanswered ?_
          rw [InMemoryOperators.mintKey]
          by_cases hknown : username ∈ m.operators
          · rw [if_neg (not_not.mpr hknown)]
            rcases drawnKey secret with e | ⟨plaintext, hash, fingerprint⟩
            · intro herr
              cases herr
            · intro herr
              cases herr
          · rw [if_pos hknown]
            intro herr
            cases herr
      | revokeKey keyId now =>
          intro herr
          cases herr
      | authenticate plaintext now =>
          refine hanswered ?_
          rw [InMemoryOperators.authenticate]
          rcases m.find plaintext with e | - | found
          · intro herr
            cases herr
          · intro herr
            cases herr
          · dsimp only
            cases found.principal with
            | none =>
                intro herr
                cases herr
            | some principal =>
                intro herr
                cases herr
  | getOperator username =>
      intro herr
      cases herr
  | operators =>
      intro herr
      cases herr
  | keys username =>
      rw [InMemoryOperators.answer, h.allKeys username]
      intro herr
      cases herr
  | hasActiveKey =>
      intro herr
      cases herr

end SameContents

/-- The draws of the calls behind are still new after a call. -/
theorem newDraws_answer {m : InMemoryOperators} {call : StoreCall} {calls : List StoreCall}
    (hfresh : FreshDraws (call :: calls))
    (hnew : ∀ c ∈ call :: calls, SameContents.NewDraws m c) :
    ∀ c ∈ calls, SameContents.NewDraws (m.answer call).2 c := by
  intro c hc keyId secret hdraws
  obtain ⟨hsafe, hid, hhashes⟩ := hnew c (List.mem_cons_of_mem _ hc) keyId secret hdraws
  refine ⟨hsafe, ?_⟩
  rcases m.drawn_answer call with ⟨horder, hbyHash⟩ | ⟨keyId', secret', hash', hdraws', hhash', horder, hbyHash⟩
  · rw [horder, hbyHash]
    exact ⟨hid, hhashes⟩
  · obtain ⟨hne, hneHash⟩ := hfresh.ne hc hdraws' hdraws
    rw [horder, hbyHash]
    refine ⟨?_, fun hash hhash => ?_⟩
    · rw [List.mem_append, List.mem_singleton]
      rintro (hmem | rfl)
      · exact hid hmem
      · exact hne rfl
    · rw [AList.lookup_insert_ne, hhashes hash hhash]
      rintro rfl
      exact hneHash (hhash'.trans hhash.symm)

/-- The run from any pair of states with the same contents. -/
theorem answers_eq_iff_of_sameContents {takes : PyStr → Bool} {m : InMemoryOperators}
    {t : OperatorTables} {calls : List StoreCall} (h : SameContents m t.listed)
    (hfresh : FreshDraws calls) (hnew : ∀ c ∈ calls, SameContents.NewDraws m c) :
    m.answers calls = t.answers takes calls ↔ t.TextsTaken takes calls := by
  induction calls generalizing m t with
  | nil => exact ⟨fun _ => trivial, fun _ => rfl⟩
  | cons call calls ih =>
      have hfollows := t.answer_follows takes call
      obtain ⟨hanswer, hafter⟩ := h.answer (hnew call List.mem_cons_self)
      rw [InMemoryOperators.answers, OperatorTables.answers, OperatorTables.TextsTaken,
        List.cons_eq_cons]
      by_cases htexts : (t.listed.sqlTexts call).all takes = true
      · obtain ⟨htaken, hlisted⟩ := hfollows.taken htexts
        rw [← hlisted] at hafter
        exact and_congr
          (iff_of_true (hanswer.trans htaken.symm) (List.all_eq_true.mp htexts))
          (ih hafter hfresh.tail (newDraws_answer hfresh hnew))
      · refine iff_of_false (fun hsame => ?_) fun htaken => htexts (List.all_eq_true.mpr htaken.1)
        rw [hfollows.refused (Bool.eq_false_iff.mpr htexts)] at hsame
        exact h.answer_ne_textRefused call hsame.1

/-- **The two stores answer alike exactly as long as the driver takes every text.** -/
theorem operatorStores_agree_iff {takes : PyStr → Bool} {calls : List StoreCall} (hfresh : FreshDraws calls) :
    InMemoryOperators.empty.answers calls = OperatorTables.empty.answers takes calls ↔
      OperatorTables.empty.TextsTaken takes calls := by
  refine answers_eq_iff_of_sameContents sameContents_empty hfresh fun c hc keyId secret hdraws => ?_
  exact ⟨hfresh.urlSafe _ (List.mem_filterMap.mpr ⟨c, hc, hdraws⟩), List.not_mem_nil, fun _ _ => rfl⟩

/-- A driver that takes no text with a NUL character. -/
def takesNoNul (text : PyStr) : Bool := text.all fun c => c ≠ 0

omit [Hashlib] in
theorem operatorStores_agree_minting :
    letI := Sha256.hashlib
    let now := str "2026-01-01T00:00:00Z"
    let calls : List StoreCall :=
      [.change (.createOperator (str "admin") (str "Admin") none .admin now),
        .change (.mintKey (str "admin") (str "laptop") (str "0Secret-One") (str "k1") now),
        .change (.mintKey (str "admin") (str "ci") (str "0Secret_Two") (str "k2") now),
        .change (.revokeKey (str "k1") now), .keys none, .hasActiveKey]
    InMemoryOperators.empty.answers calls = OperatorTables.empty.answers takesNoNul calls ↔
      OperatorTables.empty.TextsTaken takesNoNul calls := by
  let _ := Sha256.hashlib
  intro now calls
  have hhashes : hashKey (keyMark ++ str "0Secret-One") ≠ hashKey (keyMark ++ str "0Secret_Two") := by
    decide +kernel
  have hdraws : calls.filterMap StoreCall.draw =
      [(str "k1", str "0Secret-One"), (str "k2", str "0Secret_Two")] := rfl
  refine operatorStores_agree_iff ⟨?_, ?_, ?_⟩
  · decide +kernel
  · decide +kernel
  · rw [hdraws]
    simp only [List.map_cons, List.map_nil, List.nodup_cons, List.mem_singleton, hhashes,
      List.not_mem_nil, not_false_eq_true, List.nodup_nil, and_true]

omit [Hashlib] in
/-- A display name with a NUL character. -/
theorem operatorStores_differ_nul :
    letI := Sha256.hashlib
    let calls : List StoreCall :=
      [.change (.createOperator (str "admin") [0x61, 0, 0x62] none .admin (str "2026-01-01T00:00:00Z"))]
    InMemoryOperators.empty.answers calls ≠ OperatorTables.empty.answers takesNoNul calls := by
  let _ := Sha256.hashlib
  intro calls hsame
  have hmemory : InMemoryOperators.empty.answers calls = [.ok (.operator ⟨str "admin", [0x61, 0, 0x62],
      none, .admin, str "2026-01-01T00:00:00Z", true⟩)] := rfl
  have htables : OperatorTables.empty.answers takesNoNul calls = [.error .textRefused] := rfl
  rw [hmemory, htables] at hsame
  cases hsame

end Waxseal
