import Waxseal.Adapters.EvmReader
import Waxseal.Contracts.FingerprintRegistry
import Waxseal.Domain.CrossCheck
import Waxseal.Domain.Handoff

/-!
# Reading the registry

`EvmLedgerReader.registry_lookup` and `registry_agreement`, over what the FingerprintRegistry
contract answers.  The contract keeps every descriptor under its digest, and the reader takes
an empty answer for an absent one, so what the cross-check is given hashes to the 32 bytes that
were asked for.

The question is asked with bytes and the cross-check compares texts: a fingerprint is asked
for under any of its spellings, and agrees under one.  `publication_contradicts_iff` says that
this is the only way to a disagreement.
-/

namespace Waxseal

open FingerprintRegistry

/-- `SELECTOR_LOOKUP`. -/
def selectorLookup : Bytes := [0xF3, 0x9E, 0xC1, 0xF7]

/-- `descriptor or None`. -/
def orNone (descriptor : Bytes) : Option Bytes := if descriptor = [] then none else some descriptor

namespace EvmLedgerReader

variable [Interpreter] (r : EvmLedgerReader)

/-- One endpoint's answer to `lookup`. -/
def askLookup (address : PyStr) (calldata : Bytes) (url : PyStr) :
    Except AskError (Option Bytes) :=
  match call r.transport r.blockTag url address calldata with
  | .error e => .error e
  | .ok raw =>
      match decodeBytes raw 0 with
      | none => .error .unreachable
      | some descriptor => .ok (orNone descriptor)

omit [Interpreter] in
/-- The call data of `lookup`. -/
def lookupCalldata (fingerprint : PyStr) : Except PyErr Bytes := do
  encodeCall selectorLookup [.word (← encodeBytes32 (.text fingerprint))]

/-- `registry_lookup`. -/
def registryLookup (fingerprint : PyStr) : Except LedgerError (Option Bytes) :=
  match r.registryAddress with
  | none => .error .unreachable
  | some address =>
      match lookupCalldata fingerprint with
      | .error e => .error (.raised e)
      | .ok calldata =>
          agreeOn (r.askLookup address calldata) (fun a b => decide (a = b)) r.urls

variable [Hashlib]

/-- `registry_agreement`. -/
def registryAgreement (registry : VersionRegistry) (fingerprint : PyStr) :
    Except LedgerError RegistryFinding :=
  match r.registryLookup fingerprint with
  | .error .unreachable => .ok (crossCheck registry fingerprint none false)
  | .error e => .error e
  | .ok descriptor => .ok (crossCheck registry fingerprint descriptor true)

end EvmLedgerReader

/-! ## What the contract answers -/

section Answers

variable [Hashlib]

/-- What the reader makes of what `lookup` returns. -/
def lookupAnswer (w : World) (fp : Bytes32) : Option Bytes :=
  (decodeBytes (returnedBytes (lookup w fp)) 0).bind orNone

/-- The reader finds what the contract holds, and nothing where it holds nothing. -/
theorem lookupAnswer_run (txs : List Tx) (fp : Bytes32) :
    lookupAnswer (run txs) fp = orNone (lookup (run txs) fp) := by
  rw [lookupAnswer, decodeBytes_returnedBytes ((run_wf txs).fits fp)]
  rfl

/-- **The cross-check of what is there**: agreement is a matter of spelling. -/
theorem status_crossCheck_run (registry : VersionRegistry) (txs : List Tx) (fingerprint : PyStr)
    (fp : Bytes32) :
    (Registered txs fp ∧ (crossCheck registry fingerprint (lookupAnswer (run txs) fp) true).status
        = if hex fp.val = fingerprint then .agrees else .disagrees) ∨
      (¬ Registered txs fp ∧
        (crossCheck registry fingerprint (lookupAnswer (run txs) fp) true).status = .absent) := by
  rw [lookupAnswer_run, orNone, ← lookup_ne_nil_iff]
  by_cases hempty : lookup (run txs) fp = []
  · rw [if_pos hempty]
    exact .inr ⟨not_not.mpr hempty, status_crossCheck_none _ _⟩
  · rw [if_neg hempty, status_crossCheck_some, hexdigest, (run_wf txs).digest fp hempty]
    exact .inl ⟨hempty, rfl⟩

omit [Hashlib] in
/-- A text asks for the digest it is the lowercase spelling of. -/
theorem hex_eq_iff_isSha256Hex {fingerprint : PyStr} {fp : Bytes32}
    (h : encodeBytes32 (.text fingerprint) = .ok fp.val) :
    hex fp.val = fingerprint ↔ isSha256Hex fingerprint = true := by
  constructor
  · rintro rfl
    rw [isSha256Hex, isLowerHex_hex, Bool.and_true, decide_eq_true_eq, length_hex,
      fp.length_val]
  · intro hsha
    rw [isSha256Hex, Bool.and_eq_true] at hsha
    rw [encodeBytes32, stripHexMark_of_isLowerHex hsha.2] at h
    rcases hraw : fromhex fingerprint with - | raw
    · rw [hraw] at h
      cases h
    · rw [hraw] at h
      dsimp only at h
      split_ifs at h
      rw [← Except.ok.inj h]
      exact hex_of_fromhex hsha.2 hraw

/-! ## Honest endpoints -/

variable [Interpreter]

/-- Every endpoint of the reader is silent, or answers with what the contract returns. -/
def EvmLedgerReader.Honest (r : EvmLedgerReader) (w : World) (fingerprint : PyStr)
    (fp : Bytes32) : Prop :=
  ∀ url ∈ r.urls, ∀ address ∈ r.registryAddress, ∀ calldata,
    EvmLedgerReader.lookupCalldata fingerprint = .ok calldata →
      call r.transport r.blockTag url address calldata = .ok (returnedBytes (lookup w fp)) ∨
        ∃ e, call r.transport r.blockTag url address calldata = .error e ∧ e.isUnreachable = true

omit [Hashlib] [Interpreter] in
/-- Endpoints that say the same, or nothing. -/
theorem agreeOn_of_unanimous {α : Type} [DecidableEq α] {ask : PyStr → Except AskError α}
    {urls : List PyStr} {value : α}
    (h : ∀ url ∈ urls, ask url = .ok value ∨ ∃ e, ask url = .error e ∧ e.isUnreachable = true) :
    agreeOn ask (fun a b => decide (a = b)) urls = .ok value ∨
      agreeOn ask (fun a b => decide (a = b)) urls = .error .unreachable := by
  have hquiet : NoneRaises ask urls := by
    intro url hurl e he
    rcases h url hurl with hok | ⟨e', he', hunreachable⟩
    · rw [hok] at he
      cases he
    · rw [he'] at he
      rw [Except.error.inj he] at hunreachable
      cases hunreachable
  have hvalue : ∀ a ∈ answersOf ask urls, a.2 = value := by
    rintro ⟨url, a⟩ ha
    obtain ⟨hurl, hask⟩ := mem_answersOf.mp ha
    rcases h url hurl with hok | ⟨e', he', -⟩
    · exact Except.ok.inj (hask.symm.trans hok)
    · rw [he'] at hask
      cases hask
  have hpair : AnswersAgree ask (fun a b => decide (a = b)) urls := by
    refine List.pairwise_of_forall_mem_list fun a ha b hb => ?_
    rw [hvalue a ha, hvalue b hb]
    exact decide_eq_true rfl
  by_cases hfew : (answersOf ask urls).length < minEndpoints
  · exact .inr (agreeOn_of_few hquiet hpair hfew)
  · obtain ⟨url, a, rest, hanswers, ha⟩ :=
      agreeOn_of_agreement ⟨hquiet, hpair, Nat.not_lt.mp hfew⟩
    have hmem : (url, a) ∈ answersOf ask urls := by
      rw [hanswers]
      exact List.mem_cons_self
    rw [ha, show a = value from hvalue _ hmem]
    exact .inl rfl

omit [Hashlib] [Interpreter] in
/-- A digest can be asked for. -/
theorem EvmLedgerReader.exists_lookupCalldata {fingerprint : PyStr} {fp : Bytes32}
    (h : encodeBytes32 (.text fingerprint) = .ok fp.val) :
    ∃ calldata, lookupCalldata fingerprint = .ok calldata := by
  have hheads : encodeHeads (32 * 1) [.word fp.val] = .ok (fp.val ++ []) := by
    rw [encodeHeads, if_neg (not_not.mpr fp.length_val)]
    rfl
  refine ⟨selectorLookup ++ (fp.val ++ []) ++ encodeTails [.word fp.val], ?_⟩
  have hselector : ¬ selectorLookup.length ≠ 4 := by decide
  have hcall : encodeCall selectorLookup [.word fp.val]
      = .ok (selectorLookup ++ (fp.val ++ []) ++ encodeTails [.word fp.val]) := by
    rw [encodeCall, if_neg hselector, List.length_singleton, hheads]
    rfl
  rw [lookupCalldata, h]
  exact hcall

/-- **Honest endpoints give what the contract holds**, or the reader reads nothing. -/
theorem EvmLedgerReader.registryAgreement_of_honest {r : EvmLedgerReader} {txs : List Tx}
    {fingerprint : PyStr} {fp : Bytes32} (registry : VersionRegistry)
    (h : encodeBytes32 (.text fingerprint) = .ok fp.val)
    (hhonest : r.Honest (run txs) fingerprint fp) :
    r.registryAgreement registry fingerprint = .ok (crossCheck registry fingerprint none false) ∨
      r.registryAgreement registry fingerprint
        = .ok (crossCheck registry fingerprint (lookupAnswer (run txs) fp) true) := by
  rw [registryAgreement, registryLookup]
  rcases haddress : r.registryAddress with - | address
  · exact .inl rfl
  · obtain ⟨calldata, hcalldata⟩ := exists_lookupCalldata h
    rw [hcalldata]
    dsimp only
    have hask : ∀ url ∈ r.urls,
        r.askLookup address calldata url = .ok (lookupAnswer (run txs) fp) ∨
          ∃ e, r.askLookup address calldata url = .error e ∧
            e.isUnreachable = true := by
      intro url hurl
      rw [askLookup]
      rcases hhonest url hurl address haddress _ hcalldata with hcall | ⟨e, hcall, he⟩
      · rw [hcall, lookupAnswer_run]
        dsimp only
        rw [decodeBytes_returnedBytes ((run_wf txs).fits fp)]
        exact .inl rfl
      · rw [hcall]
        exact .inr ⟨e, rfl, he⟩
    rcases agreeOn_of_unanimous hask with hok | hnone
    · rw [hok]
      exact .inr rfl
    · rw [hnone]
      exact .inl rfl

/-! ## No contradiction -/

omit [Interpreter] in
/-- What is asked of a cross-check: no disagreement, and agreement exactly with what somebody
registered. -/
structure NeverContradicts (registry : VersionRegistry) (txs : List Tx) (fingerprint : PyStr)
    (fp : Bytes32) : Prop where
  no_disagreement :
    (crossCheck registry fingerprint (lookupAnswer (run txs) fp) true).status ≠ .disagrees
  agrees_iff :
    (crossCheck registry fingerprint (lookupAnswer (run txs) fp) true).status = .agrees ↔
      Registered txs fp

omit [Interpreter] in
/-- **A cross-check contradicts the registry exactly for another spelling** of a fingerprint
somebody registered. -/
theorem neverContradicts_iff {registry : VersionRegistry} {txs : List Tx} {fingerprint : PyStr}
    {fp : Bytes32} (h : encodeBytes32 (.text fingerprint) = .ok fp.val) :
    NeverContradicts registry txs fingerprint fp ↔
      isSha256Hex fingerprint = true ∨ ¬ Registered txs fp := by
  rw [← hex_eq_iff_isSha256Hex h]
  rcases status_crossCheck_run registry txs fingerprint fp with ⟨hreg, hstatus⟩ | ⟨hreg, hstatus⟩
  · by_cases hspelled : hex fp.val = fingerprint
    · rw [if_pos hspelled] at hstatus
      refine iff_of_true ⟨?_, ?_⟩ (.inl hspelled)
      · rw [hstatus]
        decide
      · exact iff_of_true hstatus hreg
    · rw [if_neg hspelled] at hstatus
      refine iff_of_false (fun hnever => hnever.no_disagreement hstatus) ?_
      rintro (hspelled' | hnot)
      · exact hspelled hspelled'
      · exact hnot hreg
  · refine iff_of_true ⟨?_, ?_⟩ (.inr hreg)
    · rw [hstatus]
      decide
    · refine iff_of_false ?_ hreg
      rw [hstatus]
      decide

/-- **Publication and the cross-check.**  Whoever registers what, a descriptor never changes and
is stored under its digest; the reader of honest endpoints cross-checks what is stored, if it
reads anything; and the check reports no disagreement, and agreement exactly with what somebody
registered, if and only if the fingerprint is spelled in lowercase without a mark or nobody
registered it. -/
theorem publication_contradicts_iff (r : EvmLedgerReader) (registry : VersionRegistry)
    (txs : List Tx) (fingerprint : PyStr) (fp : Bytes32)
    (h : encodeBytes32 (.text fingerprint) = .ok fp.val)
    (hhonest : r.Honest (run txs) fingerprint fp) :
    (∀ key, lookup (run txs) key ≠ [] → sha256 (lookup (run txs) key) = key ∧
        ∀ more, lookup (run (txs ++ more)) key = lookup (run txs) key) ∧
      (r.registryAgreement registry fingerprint = .ok (crossCheck registry fingerprint none false) ∨
        r.registryAgreement registry fingerprint
          = .ok (crossCheck registry fingerprint (lookupAnswer (run txs) fp) true)) ∧
      (NeverContradicts registry txs fingerprint fp ↔
        isSha256Hex fingerprint = true ∨ ¬ Registered txs fp) := by
  refine ⟨?_, EvmLedgerReader.registryAgreement_of_honest registry h hhonest,
    neverContradicts_iff h⟩
  intro key hne
  refine ⟨(run_wf txs).digest key hne, fun more => ?_⟩
  rw [run_append]
  exact lookup_keeps hne more

end Answers

/-! ## A fingerprint with its mark -/

section Example

theorem eq_ok_of_toOption {x : Except AskError Bytes} {a : Bytes} (h : x.toOption = some a) :
    x = .ok a := by
  cases x with
  | error e => cases h
  | ok b => exact congrArg _ (Option.some.inj h)

/-- Somebody registers one byte. -/
def oneByte : Tx := ⟨0, [0x61], by decide⟩

/-- The fingerprint of the byte behind `0x`. -/
def markedFingerprint : PyStr :=
  letI := Sha256.hashlib
  str "0x" ++ hexdigest [0x61]

/-- The descriptor is there and hashes to the 32 bytes asked for, and the cross-check reports a
disagreement. -/
theorem marked_fingerprint_disagrees :
    letI := Sha256.hashlib
    encodeBytes32 (.text markedFingerprint) = .ok (sha256 [0x61]).val ∧
      lookupAnswer (run [oneByte]) (sha256 [0x61]) = some [0x61] ∧
      (crossCheck VersionRegistry.new markedFingerprint
        (lookupAnswer (run [oneByte]) (sha256 [0x61])) true).status = .disagrees ∧
      ¬ NeverContradicts VersionRegistry.new [oneByte] markedFingerprint (sha256 [0x61]) := by
  let _ := Sha256.hashlib
  have hdisagrees : (crossCheck VersionRegistry.new markedFingerprint
      (lookupAnswer (run [oneByte]) (sha256 [0x61])) true).status = .disagrees := by
    decide +kernel
  exact ⟨by decide +kernel, by decide +kernel, hdisagrees,
    fun hnever => hnever.no_disagreement hdisagrees⟩

/-- A node's answer: the byte, as a contract returns it. -/
def oneByteResponse : RemoteResponse where
  status := 200
  body := ascii "\x7b\"jsonrpc\":\"2.0\",\"id\":1,\"result\":\"0x"
    ++ asciiBytes (hex (returnedBytes [0x61])) ++ ascii "\"\x7d"

theorem twoNodes_enough : 2 ≤ [str "https://a", str "https://b"].length := by decide

theorem twoNodes_distinct : [str "https://a", str "https://b"].Nodup := by decide

/-- A reader of two such nodes. -/
def oneByteReader : EvmLedgerReader where
  urls := [str "https://a", str "https://b"]
  livenessAddress := none
  registryAddress := some (str "0x11")
  transport := fun _ => some oneByteResponse
  blockTag := str "finalized"
  enough := twoNodes_enough
  distinct := twoNodes_distinct

/-- Under its lowercase spelling the fingerprint is cross-checked without contradiction. -/
theorem publication_contradicts_iff_one_byte :
    letI := Sha256.hashlib
    letI := Interpreter.plain
    NeverContradicts VersionRegistry.new [oneByte] (hexdigest [0x61]) (sha256 [0x61]) ↔
      isSha256Hex (hexdigest [0x61]) = true ∨ ¬ Registered [oneByte] (sha256 [0x61]) := by
  let _ := Sha256.hashlib
  let _ := Interpreter.plain
  refine (publication_contradicts_iff oneByteReader VersionRegistry.new [oneByte]
    (hexdigest [0x61]) (sha256 [0x61]) (by decide +kernel) ?_).2.2
  intro url _ address _ calldata _
  have hanswer : (do nonempty (← hexBytes (← rpcResult oneByteResponse))).toOption
      = some (returnedBytes (lookup (run [oneByte]) (sha256 [0x61]))) := by
    decide +kernel
  exact .inl (eq_ok_of_toOption hanswer)

end Example

end Waxseal
