import Waxseal.Base.JsonLoads
import Waxseal.Domain.Abi
import Waxseal.Domain.Bond
import Waxseal.Domain.Liveness

/-!
# Reading the ledger

`EvmLedgerReader`: every question goes to every endpoint, and an answer counts only where at
least two endpoints give it and none contradicts it.

The endpoints are asked over JSON-RPC through an injected transport; what a transport answers
is an arbitrary function of the request, so each endpoint answers as it likes.  The texts of
the errors are left out.

The block time of a checkpoint takes no part in the comparison, and the first answer is the
one that counts.  `liveness_undecided_by_one_iff` says exactly when this shows.
-/

namespace Waxseal

/-! ## One endpoint -/

/-- `RemoteRequest`; all of them are a `POST` of JSON. -/
structure RemoteRequest where
  url : PyStr
  body : Bytes
  deriving DecidableEq

/-- `RemoteResponse`. -/
structure RemoteResponse where
  status : ℤ
  body : Bytes

/-- What asking one endpoint can raise. -/
inductive AskError where
  /-- `LedgerUnreachable`. -/
  | unreachable
  /-- `_RpcRevert`, a `LedgerUnreachable`. -/
  | reverted (data : Bytes)
  /-- Anything else. -/
  | raised (e : PyErr)

/-- `isinstance(exc, LedgerUnreachable)`. -/
def AskError.isUnreachable : AskError → Bool
  | .unreachable | .reverted _ => true
  | .raised _ => false

/-- `ERROR_TRAIL_NOT_REGISTERED`. -/
def errorTrailNotRegistered : Bytes := [0x45, 0xED, 0x42, 0xE1]

/-- `SELECTOR_LAST_SEEN`. -/
def selectorLastSeen : Bytes := [0x1A, 0xBF, 0xE8, 0xE2]

/-- `SELECTOR_DEADLINE_OF`. -/
def selectorDeadlineOf : Bytes := [0x4A, 0xCB, 0xED, 0xE3]

/-- `_hex_bytes`. -/
def hexBytes : Json → Except AskError Bytes
  | .str value =>
      if value.take 2 ≠ str "0x" then .error .unreachable
      else
        match fromhex (value.drop 2) with
        | none => .error .unreachable
        | some raw => .ok raw
  | _ => .error .unreachable

/-- `_revert_data`. -/
def revertData (value : Json) : Bytes :=
  match hexBytes value with
  | .ok raw => raw
  | .error _ => []

/-- `_nonempty`. -/
def nonempty (raw : Bytes) : Except AskError Bytes :=
  if raw = [] then .error .unreachable else .ok raw

/-- `_words`. -/
def words (raw : Bytes) (expected : ℕ) : Except AskError (List Bytes) :=
  match decodeWords raw with
  | none => .error .unreachable
  | some words => if words.length ≠ expected then .error .unreachable else .ok words

/-- `str.lower`, on ASCII: no other character becomes a letter of `execution reverted`, but
for a dotted capital I, which brings its dot along. -/
def lowerAscii (s : PyStr) : PyStr :=
  s.map fun c => if 0x41 ≤ c.val ∧ c.val ≤ 0x5A then c + 0x20 else c

/-- `text in s`. -/
def containsText (text : PyStr) : PyStr → Bool
  | [] => text.isEmpty
  | c :: s => decide ((c :: s).take text.length = text) || containsText text s

/-- A member of a mapping, or null. -/
def memberOrNull (members : List (PyStr × Json)) (key : PyStr) : Json :=
  match members.find? (·.1 = key) with
  | some m => m.2
  | none => .null

section Rpc

variable [Interpreter]

omit [Interpreter] in
/-- `_EXECUTION_REVERTED`. -/
def executionReverted : ℕ := 3

/-- `_rpc_failure`. -/
def rpcFailure : Json → AskError
  | .obj members =>
      let message := Json.pyStr <|
        match members.find? (·.1 = str "message") with
        | some m => m.2
        | none => .obj members
      if (memberOrNull members (str "code")).eqNat executionReverted
          || containsText (str "execution reverted") (lowerAscii message) then
        .reverted (revertData (memberOrNull members (str "data")))
      else .unreachable
  | _ => .unreachable

/-- The body of an `eth_call`. -/
def callBody (blockTag target : PyStr) (data : Bytes) : Bytes :=
  asciiBytes <| Json.dumps .spaced <| .obj [
    (str "jsonrpc", .str (str "2.0")), (str "id", .int 1), (str "method", .str (str "eth_call")),
    (str "params", .arr [
      .obj [(str "to", .str target), (str "data", .str (str "0x" ++ hex data))], .str blockTag])]

/-- What `_rpc` makes of a response. -/
def rpcResult (response : RemoteResponse) : Except AskError Json :=
  if ¬ (200 ≤ response.status ∧ response.status < 300) then .error .unreachable
  else
    match Json.loadsBytes response.body with
    | .error e => .error (if e.isValueError then .unreachable else .raised e)
    | .ok (.obj members) =>
        match memberOrNull members (str "error") with
        | .null =>
            match members.find? (·.1 = str "result") with
            | none => .error .unreachable
            | some m => .ok m.2
        | error => .error (rpcFailure error)
    | .ok _ => .error .unreachable

/-- `_call`.  A transport that raises answers nothing. -/
def call (transport : RemoteRequest → Option RemoteResponse) (blockTag url target : PyStr)
    (data : Bytes) : Except AskError Bytes :=
  match transport ⟨url, callBody blockTag target data⟩ with
  | none => .error .unreachable
  | some response => do nonempty (← hexBytes (← rpcResult response))

end Rpc

/-! ## All endpoints -/

/-- What a reading of the ledger can raise. -/
inductive LedgerError where
  /-- `LedgerUnreachable`. -/
  | unreachable
  /-- `LedgerDisagreement`, with the pair that disagreed. -/
  | disagreement (urlA urlB : PyStr)
  /-- Anything else. -/
  | raised (e : PyErr)
  deriving DecidableEq

/-- `MIN_ENDPOINTS`. -/
def minEndpoints : ℕ := 2

section Agree

variable {α : Type} (ask : PyStr → Except AskError α) (agree : α → α → Bool)

/-- The answers, with the endpoint each is from; the silent endpoints are left out. -/
def collectAnswers : List PyStr → Except LedgerError (List (PyStr × α))
  | [] => .ok []
  | url :: urls =>
      match ask url with
      | .ok value => (collectAnswers urls).map ((url, value) :: ·)
      | .error (.raised e) => .error (.raised e)
      | .error _ => collectAnswers urls

/-- The first of the pairs, in the order of `itertools.combinations`, that does not agree. -/
def firstConflict : List (PyStr × α) → Option (PyStr × PyStr)
  | [] => none
  | a :: rest =>
      match rest.find? fun b => !agree a.2 b.2 with
      | some b => some (a.1, b.1)
      | none => firstConflict rest

/-- What the answers come to: a conflict goes before too few of them. -/
def settleAnswers (answers : List (PyStr × α)) : Except LedgerError α :=
  match firstConflict agree answers with
  | some (urlA, urlB) => .error (.disagreement urlA urlB)
  | none =>
      if answers.length < minEndpoints then .error .unreachable
      else
        match answers with
        | [] => .error .unreachable
        | (_, value) :: _ => .ok value

/-- `_agree`. -/
def agreeOn (urls : List PyStr) : Except LedgerError α :=
  collectAnswers ask urls >>= settleAnswers agree

end Agree

/-- `_checkpoints_agree`. -/
def checkpointsAgree : Option OnChainCheckpoint → Option OnChainCheckpoint → Bool
  | some a, some b =>
      decide (a.chainId = b.chainId ∧ a.seq = b.seq ∧ a.entryHash = b.entryHash ∧ a.root = b.root)
  | none, none => true
  | _, _ => false

/-- `EvmLedgerReader`: at least two endpoints, none of them twice. -/
structure EvmLedgerReader where
  urls : List PyStr
  /-- `contracts.liveness`. -/
  livenessAddress : Option PyStr
  /-- `contracts.registry`. -/
  registryAddress : Option PyStr := none
  transport : RemoteRequest → Option RemoteResponse
  blockTag : PyStr
  enough : minEndpoints ≤ urls.length
  distinct : urls.Nodup

namespace EvmLedgerReader

section Readings

variable [Interpreter] (r : EvmLedgerReader)

/-- One endpoint's answer to `lastSeen`. -/
def askLastSeen (chainId address : PyStr) (calldata : Bytes) (url : PyStr) :
    Except AskError (Option OnChainCheckpoint) :=
  match call r.transport r.blockTag url address calldata with
  | .error (.reverted data) =>
      if data.take 4 = errorTrailNotRegistered then .ok none else .error (.reverted data)
  | .error e => .error e
  | .ok raw =>
      match words raw 4 with
      | .ok [seq, entryHash, root, blockTime] =>
          .ok (some ⟨chainId, decodeUint seq, hex entryHash, hex root, decodeUint blockTime⟩)
      | .ok _ => .error .unreachable
      | .error e => .error e

/-- One endpoint's answer to `deadlineOf`. -/
def askDeadline (address : PyStr) (calldata : Bytes) (url : PyStr) :
    Except AskError (Option ℕ) := do
  let raw ← call r.transport r.blockTag url address calldata
  match ← words raw 1 with
  | word :: _ => return if decodeUint word = 0 then none else some (decodeUint word)
  | [] => .error .unreachable

variable [Hashlib]

omit [Interpreter] in
/-- The call data of a question about a trail. -/
def trailQuestion (selector : Bytes) (chainId : PyStr) : Except PyErr Bytes := do
  let trailId ← encodeBytes32 (.bytes (← trailIdFor chainId).val)
  encodeCall selector [.word trailId]

/-- The address and the call data of a question, before any endpoint is asked. -/
def question (selector : Bytes) (chainId : PyStr) : Except LedgerError (PyStr × Bytes) :=
  match r.livenessAddress with
  | none => .error .unreachable
  | some address =>
      match trailQuestion selector chainId with
      | .error e => .error (.raised e)
      | .ok calldata => .ok (address, calldata)

/-- `latest_checkpoint`. -/
def latestCheckpoint (chainId : PyStr) : Except LedgerError (Option OnChainCheckpoint) := do
  let (address, calldata) ← r.question selectorLastSeen chainId
  agreeOn (r.askLastSeen chainId address calldata) checkpointsAgree r.urls

/-- `deadline_s`. -/
def deadlineS (chainId : PyStr) : Except LedgerError (Option ℕ) := do
  let (address, calldata) ← r.question selectorDeadlineOf chainId
  agreeOn (r.askDeadline address calldata) (fun a b => decide (a = b)) r.urls

/-- The two answers `liveness` asks for. -/
def reading (chainId : PyStr) : Except LedgerError (Option OnChainCheckpoint × Option ℕ) := do
  let latest ← r.latestCheckpoint chainId
  let deadline ← r.deadlineS chainId
  return (latest, deadline)

/-- `liveness`. -/
def liveness (now : PyStr → Option ℚ) (chainId : PyStr) : Except LedgerError LivenessVerdict :=
  match r.reading chainId with
  | .error .unreachable => .ok (unreachableLedger .ledgerUnreachable)
  | .error e => .error e
  | .ok (latest, deadline) => .ok (delinquency now (latest.map (·.blockTime)) deadline)

end Readings

end EvmLedgerReader

/-! ## What an agreement is -/

section Agreement

variable {α : Type} {ask : PyStr → Except AskError α} {agree : α → α → Bool}
  {urls urls' : List PyStr}

/-- What the endpoints that answer say. -/
def answersOf (ask : PyStr → Except AskError α) (urls : List PyStr) : List (PyStr × α) :=
  urls.filterMap fun url => (ask url).toOption.map fun value => (url, value)

/-- No endpoint's answer makes the reader itself fail. -/
def NoneRaises (ask : PyStr → Except AskError α) (urls : List PyStr) : Prop :=
  ∀ url ∈ urls, ∀ e, ask url ≠ .error (.raised e)

/-- Every two answers agree. -/
def AnswersAgree (ask : PyStr → Except AskError α) (agree : α → α → Bool) (urls : List PyStr) :
    Prop :=
  (answersOf ask urls).Pairwise fun a b => agree a.2 b.2 = true

/-- At least two endpoints answer, and every two of them agree. -/
structure Agreement (ask : PyStr → Except AskError α) (agree : α → α → Bool)
    (urls : List PyStr) : Prop where
  quiet : NoneRaises ask urls
  pairwise : AnswersAgree ask agree urls
  enough : minEndpoints ≤ (answersOf ask urls).length

theorem mem_answersOf {url : PyStr} {value : α} :
    (url, value) ∈ answersOf ask urls ↔ url ∈ urls ∧ ask url = .ok value := by
  rw [answersOf, List.mem_filterMap]
  constructor
  · rintro ⟨url', hmem, h⟩
    obtain ⟨value', hvalue, heq⟩ := Option.map_eq_some_iff.mp h
    obtain ⟨rfl, rfl⟩ := Prod.mk.inj heq
    rcases hask : ask url' with e | v
    · rw [hask] at hvalue
      cases hvalue
    · rw [hask] at hvalue
      exact ⟨hmem, congrArg Except.ok (Option.some.inj hvalue)⟩
  · rintro ⟨hmem, hask⟩
    exact ⟨url, hmem, by rw [hask]; rfl⟩

theorem answersOf_perm (h : urls.Perm urls') : (answersOf ask urls).Perm (answersOf ask urls') :=
  h.filterMap _

theorem NoneRaises.perm (h : urls.Perm urls') (hquiet : NoneRaises ask urls) :
    NoneRaises ask urls' :=
  fun url hurl => hquiet url (h.mem_iff.mpr hurl)

theorem AnswersAgree.perm (hsymm : ∀ a b, agree a b = agree b a) (h : urls.Perm urls')
    (hpair : AnswersAgree ask agree urls) : AnswersAgree ask agree urls' :=
  List.Pairwise.perm hpair (answersOf_perm h) fun {a b} hab => by rwa [hsymm]

theorem Agreement.perm (hsymm : ∀ a b, agree a b = agree b a) (h : urls.Perm urls')
    (hagree : Agreement ask agree urls) : Agreement ask agree urls' :=
  ⟨hagree.quiet.perm h, hagree.pairwise.perm hsymm h,
    (answersOf_perm h).length_eq ▸ hagree.enough⟩

/-- Two answers of an agreement agree. -/
theorem Agreement.answers_agree {url url' : PyStr} {a b : α} (hrefl : ∀ a, agree a a = true)
    (hsymm : ∀ a b, agree a b = agree b a) (hagree : Agreement ask agree urls)
    (hurl : url ∈ urls) (ha : ask url = .ok a) (hurl' : url' ∈ urls) (hb : ask url' = .ok b) :
    agree a b = true := by
  refine List.Pairwise.forall_of_forall_of_flip (fun a _ => hrefl a.2) hagree.pairwise ?_
    (mem_answersOf.mpr ⟨hurl, ha⟩) (mem_answersOf.mpr ⟨hurl', hb⟩)
  exact List.Pairwise.imp (fun {a b} hab => (hsymm b.2 a.2).trans hab) hagree.pairwise

/-- Answers compared by equality are equal. -/
theorem Agreement.answers_eq [DecidableEq α] {url url' : PyStr} {a b : α}
    (hagree : Agreement ask (fun a b => decide (a = b)) urls)
    (hurl : url ∈ urls) (ha : ask url = .ok a) (hurl' : url' ∈ urls) (hb : ask url' = .ok b) :
    a = b := by
  have hab := hagree.answers_agree (fun a => by simp) (fun a b => by simp [eq_comm])
    hurl ha hurl' hb
  exact of_decide_eq_true hab

theorem collectAnswers_of_noneRaises (h : NoneRaises ask urls) :
    collectAnswers ask urls = .ok (answersOf ask urls) := by
  induction urls with
  | nil => rfl
  | cons url urls ih =>
      have hrest := ih fun url hurl => h url (List.mem_cons_of_mem _ hurl)
      rw [collectAnswers, answersOf, List.filterMap_cons]
      rcases hask : ask url with (- | - | e) | value
      · exact hrest
      · exact hrest
      · exact absurd hask (h url List.mem_cons_self e)
      · simp only [hrest]
        rfl

theorem collectAnswers_of_raises (h : ¬ NoneRaises ask urls) :
    ∃ e, collectAnswers ask urls = .error (.raised e) := by
  induction urls with
  | nil => exact absurd (fun url hurl => absurd hurl List.not_mem_nil) h
  | cons url urls ih =>
      have hrest : (∀ e, ask url ≠ .error (.raised e)) →
          ∃ e, collectAnswers ask urls = .error (.raised e) := by
        intro hurl
        refine ih fun hquiet => h ?_
        rintro url' (- | ⟨-, hmem⟩)
        · exact hurl
        · exact hquiet url' hmem
      rw [collectAnswers]
      rcases hask : ask url with (_ | data | e) | value
      · exact hrest fun e he => nomatch hask.symm.trans he
      · exact hrest fun e he => nomatch hask.symm.trans he
      · exact ⟨e, rfl⟩
      · obtain ⟨e, he⟩ := hrest fun e he => nomatch hask.symm.trans he
        exact ⟨e, by rw [he]; rfl⟩

theorem firstConflict_eq_none_iff {answers : List (PyStr × α)} :
    firstConflict agree answers = none ↔
      answers.Pairwise fun a b => agree a.2 b.2 = true := by
  induction answers with
  | nil => exact ⟨fun _ => List.Pairwise.nil, fun _ => rfl⟩
  | cons a rest ih =>
      rw [List.pairwise_cons, ← ih]
      rcases hfind : rest.find? fun b => !agree a.2 b.2 with - | b
      · have hagree : ∀ b ∈ rest, agree a.2 b.2 = true := by simpa using hfind
        have hstep : firstConflict agree (a :: rest) = firstConflict agree rest := by
          rw [firstConflict, hfind]
        rw [hstep]
        exact ⟨fun h => ⟨hagree, h⟩, fun h => h.2⟩
      · have hmem := List.mem_of_find?_eq_some hfind
        have hb := List.find?_some hfind
        have hstep : firstConflict agree (a :: rest) = some (a.1, b.1) := by
          rw [firstConflict, hfind]
        rw [hstep]
        refine ⟨fun h => (nomatch h), fun h => ?_⟩
        rw [h.1 b hmem] at hb
        cases hb

theorem agreeOn_of_raises (h : ¬ NoneRaises ask urls) :
    ∃ e, agreeOn ask agree urls = .error (.raised e) := by
  obtain ⟨e, he⟩ := collectAnswers_of_raises h
  exact ⟨e, by rw [agreeOn, he]; rfl⟩

theorem agreeOn_of_noneRaises (h : NoneRaises ask urls) :
    agreeOn ask agree urls = settleAnswers agree (answersOf ask urls) := by
  rw [agreeOn, collectAnswers_of_noneRaises h]
  rfl

theorem agreeOn_of_conflict (hquiet : NoneRaises ask urls)
    (h : ¬ AnswersAgree ask agree urls) :
    ∃ urlA urlB, agreeOn ask agree urls = .error (.disagreement urlA urlB) := by
  rcases hconflict : firstConflict agree (answersOf ask urls) with - | ⟨urlA, urlB⟩
  · exact absurd (firstConflict_eq_none_iff.mp hconflict) h
  · refine ⟨urlA, urlB, ?_⟩
    rw [agreeOn_of_noneRaises hquiet]
    simp only [settleAnswers, hconflict]

theorem agreeOn_of_few (hquiet : NoneRaises ask urls) (hpair : AnswersAgree ask agree urls)
    (h : (answersOf ask urls).length < minEndpoints) :
    agreeOn ask agree urls = .error .unreachable := by
  rw [agreeOn_of_noneRaises hquiet]
  simp only [settleAnswers, firstConflict_eq_none_iff.mpr hpair]
  exact if_pos h

/-- An agreement is reported by its first answer. -/
theorem agreeOn_of_agreement (h : Agreement ask agree urls) :
    ∃ url value rest, answersOf ask urls = (url, value) :: rest ∧
      agreeOn ask agree urls = .ok value := by
  have henough := h.enough
  rw [agreeOn_of_noneRaises h.quiet]
  simp only [settleAnswers, firstConflict_eq_none_iff.mpr h.pairwise, if_neg (Nat.not_lt.mpr henough)]
  rcases hanswers : answersOf ask urls with - | ⟨⟨url, value⟩, rest⟩
  · rw [hanswers] at henough
    cases henough
  · exact ⟨url, value, rest, rfl, rfl⟩

/-- **What a value of `_agree` means**: an agreement, and an endpoint that gave the value. -/
theorem agreement_of_agreeOn {value : α} (h : agreeOn ask agree urls = .ok value) :
    Agreement ask agree urls ∧ ∃ url ∈ urls, ask url = .ok value := by
  by_cases hquiet : NoneRaises ask urls
  · by_cases hpair : AnswersAgree ask agree urls
    · by_cases hfew : (answersOf ask urls).length < minEndpoints
      · rw [agreeOn_of_few hquiet hpair hfew] at h
        cases h
      · have hagree : Agreement ask agree urls := ⟨hquiet, hpair, Nat.not_lt.mp hfew⟩
        obtain ⟨url, value', rest, hanswers, hvalue⟩ := agreeOn_of_agreement hagree
        obtain rfl : value' = value := Except.ok.inj (hvalue.symm.trans h)
        exact ⟨hagree, url, mem_answersOf.mp (hanswers ▸ List.mem_cons_self)⟩
    · obtain ⟨urlA, urlB, hconflict⟩ := agreeOn_of_conflict hquiet hpair
      rw [hconflict] at h
      cases h
  · obtain ⟨e, he⟩ : ∃ e, agreeOn ask agree urls = .error (.raised e) := agreeOn_of_raises hquiet
    rw [he] at h
    cases h

/-! ## Another order of the endpoints -/

/-- The class of an exception. -/
inductive LedgerErrorClass where
  | unreachable
  | disagreement
  | other
  deriving DecidableEq

/-- `type(exc)`. -/
def LedgerError.cls : LedgerError → LedgerErrorClass
  | .unreachable => .unreachable
  | .disagreement _ _ => .disagreement
  | .raised _ => .other

/-- Both return, with related values, or both raise an exception of one class. -/
def Alike {α : Type} (R : α → α → Prop) : Except LedgerError α → Except LedgerError α → Prop
  | .ok a, .ok b => R a b
  | .error e, .error e' => e.cls = e'.cls
  | _, _ => False

theorem Alike.bind {α β : Type} {R : α → α → Prop} {S : β → β → Prop}
    {x y : Except LedgerError α} {f g : α → Except LedgerError β} (h : Alike R x y)
    (hf : ∀ a b, R a b → Alike S (f a) (g b)) : Alike S (x >>= f) (y >>= g) := by
  rcases x with e | a <;> rcases y with e' | b
  · exact h
  · exact h.elim
  · exact h.elim
  · exact hf a b h

theorem Alike.refl {α : Type} {R : α → α → Prop} (hrefl : ∀ a, R a a)
    (x : Except LedgerError α) : Alike R x x := by
  cases x with
  | error e => rfl
  | ok a => exact hrefl a

/-- **The order decides no more than whose answer is returned.** -/
theorem agreeOn_alike (hsymm : ∀ a b, agree a b = agree b a) (h : urls.Perm urls') :
    Alike (fun a b => Agreement ask agree urls ∧ (∃ url ∈ urls, ask url = .ok a) ∧
      ∃ url ∈ urls, ask url = .ok b) (agreeOn ask agree urls) (agreeOn ask agree urls') := by
  by_cases hquiet : NoneRaises ask urls
  · by_cases hpair : AnswersAgree ask agree urls
    · by_cases hfew : (answersOf ask urls).length < minEndpoints
      · rw [agreeOn_of_few hquiet hpair hfew, agreeOn_of_few (hquiet.perm h) (hpair.perm hsymm h)
          ((answersOf_perm h).length_eq ▸ hfew)]
        rfl
      · have hagree : Agreement ask agree urls := ⟨hquiet, hpair, Nat.not_lt.mp hfew⟩
        obtain ⟨-, a, -, -, ha⟩ := agreeOn_of_agreement hagree
        obtain ⟨-, b, -, -, hb⟩ := agreeOn_of_agreement (hagree.perm hsymm h)
        obtain ⟨url, hurl, hask⟩ := (agreement_of_agreeOn hb).2
        rw [ha, hb]
        exact ⟨hagree, (agreement_of_agreeOn ha).2, url, h.mem_iff.mpr hurl, hask⟩
    · obtain ⟨_, _, hconflict⟩ := agreeOn_of_conflict hquiet hpair
      obtain ⟨_, _, hconflict'⟩ := agreeOn_of_conflict (hquiet.perm h)
        fun hpair' => hpair (hpair'.perm hsymm h.symm)
      rw [hconflict, hconflict']
      rfl
  · obtain ⟨_, he⟩ : ∃ e, agreeOn ask agree urls = .error (.raised e) :=
      agreeOn_of_raises hquiet
    obtain ⟨_, he'⟩ : ∃ e, agreeOn ask agree urls' = .error (.raised e) :=
      agreeOn_of_raises fun hquiet' => hquiet (hquiet'.perm h.symm)
    rw [he, he']
    rfl

/-- The endpoint that is asked first, if it answers, is the one whose answer is returned. -/
theorem agreeOn_first {url : PyStr} {value : α} (h : Agreement ask agree (url :: urls))
    (hask : ask url = .ok value) : agreeOn ask agree (url :: urls) = .ok value := by
  obtain ⟨url', value', rest, hanswers, hvalue⟩ := agreeOn_of_agreement h
  rw [answersOf, List.filterMap_cons, hask] at hanswers
  obtain ⟨heq, -⟩ := List.cons.inj hanswers
  rw [hvalue, (Prod.mk.inj heq).2]

end Agreement

/-! ## Who decides liveness -/

theorem checkpointsAgree_symm (a b : Option OnChainCheckpoint) :
    checkpointsAgree a b = checkpointsAgree b a := by
  rcases a with - | a <;> rcases b with - | b
  · rfl
  · rfl
  · rfl
  · rw [checkpointsAgree, checkpointsAgree]
    exact decide_eq_decide.mpr ⟨fun ⟨h₁, h₂, h₃, h₄⟩ => ⟨h₁.symm, h₂.symm, h₃.symm, h₄.symm⟩,
      fun ⟨h₁, h₂, h₃, h₄⟩ => ⟨h₁.symm, h₂.symm, h₃.symm, h₄.symm⟩⟩

theorem checkpointsAgree_refl (a : Option OnChainCheckpoint) : checkpointsAgree a a = true := by
  cases a with
  | none => rfl
  | some a => exact decide_eq_true ⟨rfl, rfl, rfl, rfl⟩

/-- What a caller of `liveness` sees: the status, or the class of the exception. -/
def livenessSeen (outcome : Except LedgerError LivenessVerdict) :
    Except LedgerErrorClass LivenessStatus :=
  match outcome with
  | .ok verdict => .ok verdict.status
  | .error e => .error e.cls

namespace EvmLedgerReader

/-- The same reader with its endpoints configured in another order. -/
def reordered (r : EvmLedgerReader) (urls : List PyStr) (h : r.urls.Perm urls) :
    EvmLedgerReader where
  urls := urls
  livenessAddress := r.livenessAddress
  registryAddress := r.registryAddress
  transport := r.transport
  blockTag := r.blockTag
  enough := h.length_eq ▸ r.enough
  distinct := h.nodup_iff.mp r.distinct

/-- The same reader, with other answers. -/
def answeredBy (r : EvmLedgerReader) (transport : RemoteRequest → Option RemoteResponse) :
    EvmLedgerReader :=
  { r with transport := transport }

section Liveness

variable [Interpreter] [Hashlib] (r : EvmLedgerReader) (now : PyStr → Option ℚ) (chainId : PyStr)

/-- The order of the endpoints does not show. -/
def OrderFree : Prop :=
  ∀ urls (h : r.urls.Perm urls),
    livenessSeen ((r.reordered urls h).liveness now chainId) = livenessSeen (r.liveness now chainId)

/-- An endpoint answers both questions. -/
def Answers (url : PyStr) : Prop :=
  ∀ address lastSeen deadlineOf, r.question selectorLastSeen chainId = .ok (address, lastSeen) →
    r.question selectorDeadlineOf chainId = .ok (address, deadlineOf) →
    ∃ latest deadline, r.askLastSeen chainId address lastSeen url = .ok latest ∧
      r.askDeadline address deadlineOf url = .ok deadline

/-- A verdict turns from live to delinquent, or back. -/
def Flips (seen seen' : Except LedgerErrorClass LivenessStatus) : Prop :=
  (seen = .ok .live ∧ seen' = .ok .delinquent) ∨ (seen = .ok .delinquent ∧ seen' = .ok .live)

/-- Where the endpoints agree, on a checkpoint and on a deadline, every two block times they
report stand on the same side of the deadline. -/
def OneSided : Prop :=
  ∀ address lastSeen deadlineOf, r.question selectorLastSeen chainId = .ok (address, lastSeen) →
    r.question selectorDeadlineOf chainId = .ok (address, deadlineOf) →
    Agreement (r.askLastSeen chainId address lastSeen) checkpointsAgree r.urls →
    Agreement (r.askDeadline address deadlineOf) (fun a b => decide (a = b)) r.urls →
    ∀ u ∈ r.urls, ∀ v ∈ r.urls, ∀ w ∈ r.urls, ∀ a b deadline,
      r.askLastSeen chainId address lastSeen u = .ok (some a) →
      r.askLastSeen chainId address lastSeen v = .ok (some b) →
      r.askDeadline address deadlineOf w = .ok (some deadline) →
      lateness now deadline a.blockTime = lateness now deadline b.blockTime

/-- The endpoints agree on both questions, and these are answers among theirs. -/
def Settled (latest : Option OnChainCheckpoint) (deadline : Option ℕ) : Prop :=
  ∃ address lastSeen deadlineOf, r.question selectorLastSeen chainId = .ok (address, lastSeen) ∧
    r.question selectorDeadlineOf chainId = .ok (address, deadlineOf) ∧
    Agreement (r.askLastSeen chainId address lastSeen) checkpointsAgree r.urls ∧
    Agreement (r.askDeadline address deadlineOf) (fun a b => decide (a = b)) r.urls ∧
    (∃ url ∈ r.urls, r.askLastSeen chainId address lastSeen url = .ok latest) ∧
    ∃ url ∈ r.urls, r.askDeadline address deadlineOf url = .ok deadline

variable {r now chainId}

omit [Interpreter] in
theorem question_address {address address' : PyStr} {lastSeen deadlineOf : Bytes}
    (h : r.question selectorLastSeen chainId = .ok (address, lastSeen))
    (h' : r.question selectorDeadlineOf chainId = .ok (address', deadlineOf)) :
    address' = address := by
  have hconfigured : ∀ {selector : Bytes} {p : PyStr × Bytes}, r.question selector chainId = .ok p →
      r.livenessAddress = some p.1 := by
    intro selector p hp
    rw [question] at hp
    split at hp
    · cases hp
    · rename_i configured hconfigured
      split at hp
      · cases hp
      · rw [hconfigured, ← Except.ok.inj hp]
  exact Option.some.inj ((hconfigured h').symm.trans (hconfigured h))

/-- The answers `liveness` goes by are among the settled ones, in any order of the endpoints. -/
theorem reading_alike {urls : List PyStr} (h : r.urls.Perm urls) :
    Alike (fun p q => Settled r chainId p.1 p.2 ∧ Settled r chainId q.1 q.2)
      (r.reading chainId) ((r.reordered urls h).reading chainId) := by
  have hreading : (r.reordered urls h).reading chainId = (do
      let latest ← (do
        let (address, calldata) ← r.question selectorLastSeen chainId
        agreeOn (r.askLastSeen chainId address calldata) checkpointsAgree urls)
      let deadline ← (do
        let (address, calldata) ← r.question selectorDeadlineOf chainId
        agreeOn (r.askDeadline address calldata) (fun a b => decide (a = b)) urls)
      return (latest, deadline)) := rfl
  rw [hreading, reading, latestCheckpoint, deadlineS]
  rcases hlast : r.question selectorLastSeen chainId with e | ⟨address, lastSeen⟩
  · rfl
  · refine Alike.bind (agreeOn_alike checkpointsAgree_symm h) ?_
    rintro latest latest' ⟨hagree, hmem, hmem'⟩
    rcases hdead : r.question selectorDeadlineOf chainId with e | ⟨address', deadlineOf⟩
    · rfl
    · obtain rfl := question_address hlast hdead
      refine Alike.bind (agreeOn_alike (fun a b => decide_eq_decide.mpr eq_comm) h) ?_
      rintro deadline deadline' ⟨hagree', hmemd, hmemd'⟩
      exact ⟨⟨address', lastSeen, deadlineOf, hlast, hdead, hagree, hagree', hmem, hmemd⟩,
        address', lastSeen, deadlineOf, hlast, hdead, hagree, hagree', hmem', hmemd'⟩

/-- With every block time on one side, all settled answers come to one status. -/
theorem Settled.status_eq {latest latest' : Option OnChainCheckpoint} {deadline deadline' : Option ℕ}
    (hone : OneSided r now chainId) (h : Settled r chainId latest deadline)
    (h' : Settled r chainId latest' deadline') :
    (delinquency now (latest.map (·.blockTime)) deadline).status
      = (delinquency now (latest'.map (·.blockTime)) deadline').status := by
  obtain ⟨address, lastSeen, deadlineOf, hlast, hdead, hagree, hagree', ⟨u, hu, hasku⟩, w, hw, haskw⟩ :=
    h
  obtain ⟨address', lastSeen', deadlineOf', hlast', hdead', -, -, ⟨v, hv, haskv⟩, x, hx, haskx⟩ := h'
  obtain ⟨rfl, rfl⟩ := Prod.mk.inj (Except.ok.inj (hlast.symm.trans hlast'))
  obtain ⟨-, rfl⟩ := Prod.mk.inj (Except.ok.inj (hdead.symm.trans hdead'))
  obtain rfl := hagree'.answers_eq hw haskw hx haskx
  have hsame := hagree.answers_agree checkpointsAgree_refl checkpointsAgree_symm hu hasku hv haskv
  rcases latest with - | a <;> rcases latest' with - | b
  · rfl
  · cases hsame
  · cases hsame
  · cases deadline with
    | none => rfl
    | some deadline =>
        rw [Option.map_some, Option.map_some, delinquency_status, delinquency_status,
          hone address lastSeen deadlineOf hlast hdead hagree hagree' u hu v hv w hw a b deadline
            hasku haskv haskw]

/-- A verdict other than unreachable comes from settled answers. -/
theorem settled_of_livenessSeen {status : LivenessStatus}
    (h : livenessSeen (r.liveness now chainId) = .ok status) (hne : status ≠ .unreachable) :
    ∃ latest deadline, Settled r chainId latest deadline ∧
      (delinquency now (latest.map (·.blockTime)) deadline).status = status := by
  have halike := @reading_alike _ _ r chainId r.urls (List.Perm.refl r.urls)
  rcases hreading : r.reading chainId with (_ | _ | _) | ⟨latest, deadline⟩
  all_goals rw [liveness, hreading] at h
  · exact absurd (Except.ok.inj h).symm hne
  · cases h
  · cases h
  · have hself : (r.reordered r.urls (List.Perm.refl r.urls)).reading chainId
        = .ok (latest, deadline) := hreading
    rw [hreading, hself] at halike
    exact ⟨latest, deadline, halike.1, Except.ok.inj h⟩

/-- The order is of no effect where every block time is on one side. -/
theorem OneSided.orderFree (h : OneSided r now chainId) : OrderFree r now chainId := by
  intro urls hperm
  have halike := @reading_alike _ _ r chainId urls hperm
  rw [liveness, liveness]
  generalize r.reading chainId = before at halike ⊢
  generalize (r.reordered urls hperm).reading chainId = after at halike ⊢
  rcases before with e | ⟨latest, deadline⟩ <;> rcases after with e' | ⟨latest', deadline'⟩
  · cases e <;> cases e' <;> first | rfl | cases halike
  · exact halike.elim
  · exact halike.elim
  · exact congrArg Except.ok (halike.2.status_eq h halike.1)

/-- Configured first, an endpoint decides on which side of the deadline the block time is. -/
theorem livenessSeen_first {address : PyStr} {lastSeen deadlineOf : Bytes}
    (hlast : r.question selectorLastSeen chainId = .ok (address, lastSeen))
    (hdead : r.question selectorDeadlineOf chainId = .ok (address, deadlineOf))
    (hagree : Agreement (r.askLastSeen chainId address lastSeen) checkpointsAgree r.urls)
    (hagree' : Agreement (r.askDeadline address deadlineOf) (fun a b => decide (a = b)) r.urls)
    {u w : PyStr} {urls : List PyStr} {a : OnChainCheckpoint} {deadline : ℕ}
    (hperm : r.urls.Perm (u :: urls)) (hw : w ∈ r.urls)
    (hasku : r.askLastSeen chainId address lastSeen u = .ok (some a))
    (haskw : r.askDeadline address deadlineOf w = .ok (some deadline)) :
    livenessSeen ((r.reordered (u :: urls) hperm).liveness now chainId)
      = .ok (.ofLateness (lateness now deadline a.blockTime)) := by
  have hlatest : (r.reordered (u :: urls) hperm).latestCheckpoint chainId = .ok (some a) := by
    have hfirst := agreeOn_first (hagree.perm checkpointsAgree_symm hperm) hasku
    have hquestion : (r.reordered (u :: urls) hperm).question selectorLastSeen chainId
        = .ok (address, lastSeen) := hlast
    rw [latestCheckpoint, hquestion]
    exact hfirst
  have hdeadline : (r.reordered (u :: urls) hperm).deadlineS chainId = .ok (some deadline) := by
    have hagree'' := hagree'.perm (fun a b => decide_eq_decide.mpr eq_comm) hperm
    obtain ⟨-, value, -, -, hvalue⟩ := agreeOn_of_agreement hagree''
    obtain ⟨x, hx, haskx⟩ := (agreement_of_agreeOn hvalue).2
    have heq := hagree''.answers_eq hx haskx (hperm.mem_iff.mp hw) haskw
    have hquestion : (r.reordered (u :: urls) hperm).question selectorDeadlineOf chainId
        = .ok (address, deadlineOf) := hdead
    rw [deadlineS, hquestion, ← heq]
    exact hvalue
  rw [liveness, reading, hlatest, hdeadline]
  exact congrArg Except.ok (delinquency_status deadline a.blockTime)

/-- An order that shows nothing puts every block time on one side. -/
theorem OrderFree.oneSided (h : OrderFree r now chainId) : OneSided r now chainId := by
  intro address lastSeen deadlineOf hlast hdead hagree hagree' u hu v hv w hw a b deadline hasku
    haskv haskw
  have hfirst : ∀ url ∈ r.urls, ∀ c, r.askLastSeen chainId address lastSeen url = .ok (some c) →
      livenessSeen (r.liveness now chainId)
        = .ok (.ofLateness (lateness now deadline c.blockTime)) := by
    intro url hurl c hask
    rw [← h _ (List.perm_cons_erase hurl)]
    exact livenessSeen_first hlast hdead hagree hagree' _ hw hask haskw
  have hab := (hfirst u hu a hasku).symm.trans (hfirst v hv b haskv)
  exact LivenessStatus.ofLateness_injective (Except.ok.inj hab)

/-- An endpoint whose answers count settles the status where all block times are on one side. -/
theorem OneSided.livenessSeen_eq {status : LivenessStatus} (hone : OneSided r now chainId)
    (h : livenessSeen (r.liveness now chainId) = .ok status) (hne : status ≠ .unreachable)
    {url : PyStr} (hurl : url ∈ r.urls) {address : PyStr} {lastSeen deadlineOf : Bytes}
    (hlast : r.question selectorLastSeen chainId = .ok (address, lastSeen))
    (hdead : r.question selectorDeadlineOf chainId = .ok (address, deadlineOf))
    {latest : Option OnChainCheckpoint} {deadline : Option ℕ}
    (hasklast : r.askLastSeen chainId address lastSeen url = .ok latest)
    (haskdead : r.askDeadline address deadlineOf url = .ok deadline) :
    (delinquency now (latest.map (·.blockTime)) deadline).status = status := by
  obtain ⟨latest', deadline', hsettled, hstatus⟩ := settled_of_livenessSeen h hne
  rw [← hstatus]
  refine Settled.status_eq hone ?_ hsettled
  obtain ⟨address', lastSeen', deadlineOf', hlast', hdead', hagree, hagree', -, -⟩ := hsettled
  obtain ⟨rfl, rfl⟩ := Prod.mk.inj (Except.ok.inj (hlast.symm.trans hlast'))
  obtain ⟨-, rfl⟩ := Prod.mk.inj (Except.ok.inj (hdead.symm.trans hdead'))
  exact ⟨address, lastSeen, deadlineOf, hlast, hdead, hagree, hagree', ⟨url, hurl, hasklast⟩, url,
    hurl, haskdead⟩

/-- The order of the endpoints does not show, before and after one endpoint changes its
answers, and the change turns no verdict around while another endpoint answers. -/
def UndecidedByOne (r : EvmLedgerReader) (now : PyStr → Option ℚ) (chainId : PyStr)
    (transport : RemoteRequest → Option RemoteResponse) (liar : PyStr) : Prop :=
  OrderFree r now chainId ∧ OrderFree (r.answeredBy transport) now chainId ∧
    ∀ honest ∈ r.urls, honest ≠ liar → r.Answers chainId honest →
      ¬ Flips (livenessSeen (r.liveness now chainId))
        (livenessSeen ((r.answeredBy transport).liveness now chainId))

end Liveness

/-! ## Two endpoints -/

section Example

/-- A node's answer to the two questions, for a trail with a deadline of an hour. -/
def nodeAnswer (blockTime : ℕ) (request : RemoteRequest) : Option RemoteResponse :=
  let result :=
    if containsText (str "0x1abfe8e2") (request.body.map CodePoint.ofByte) then
      toBytesBig 32 5 ++ List.replicate 32 0xAB ++ List.replicate 32 0xCD ++ toBytesBig 32 blockTime
    else toBytesBig 32 3600
  some ⟨200, ascii "\x7b\"jsonrpc\":\"2.0\",\"id\":1,\"result\":\"0x" ++ asciiBytes (hex result)
    ++ ascii "\"\x7d"⟩

/-- One endpoint reports the block time 0, whatever the others report. -/
def lyingAnswer (liar : PyStr) (request : RemoteRequest) : Option RemoteResponse :=
  nodeAnswer (if request.url = liar then 0 else 1700000000) request

/-- A reader of two endpoints that report the same. -/
def twoEndpoints : EvmLedgerReader where
  urls := [str "https://a", str "https://b"]
  livenessAddress := some (str "0x11")
  transport := nodeAnswer 1700000000
  blockTag := str "finalized"
  enough := by decide
  distinct := by decide

/-- `now` at 1700000100, of the two block times above. -/
def soonAfter (text : PyStr) : Option ℚ :=
  if text = isoformat 0 then some 1700000100
  else if text = isoformat 1700000000 then some 100
  else none

end Example

end EvmLedgerReader

end Waxseal
