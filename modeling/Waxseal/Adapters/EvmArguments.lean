import Waxseal.Contracts.BondedCheckpoints
import Waxseal.Contracts.Calldata
import Waxseal.Domain.Bond

/-!
# Arguments of a call

What `adapters/evm` hands to `encode_call`: words, `bytes`, `bytes32[]`, and the two structs it
writes out itself (`signedCheckpoint`, `leafClaim`), whose inner offsets count from their own
start.  A contract that reads call data by head and tail gets exactly these arguments, in their
order, and the heads and tails are all there is (`encodeCall_roundTrip`).
-/

namespace Waxseal

open BondedCheckpoints Calldata

/-! ## Writing -/

/-- `b"".join(encode_bytes32(value) for value in values)`, of bytes or text. -/
def joinBytes32Args : List Bytes32Arg → Except PyErr Bytes
  | [] => .ok []
  | value :: values => do return (← encodeBytes32 value) ++ (← joinBytes32Args values)

/-- `encode_bytes32_array`, of bytes or text. -/
def encodeBytes32Args (values : List Bytes32Arg) : Except PyErr Bytes := do
  let body ← joinBytes32Args values
  return (← encodeUint values.length 256) ++ body

theorem encodeBytes32Array_eq (values : List PyStr) :
    encodeBytes32Array values = encodeBytes32Args (values.map .text) := by
  have hjoin : joinBytes32 values = joinBytes32Args (values.map .text) := by
    induction values with
    | nil => rfl
    | cons value values ih => rw [joinBytes32, List.map_cons, joinBytes32Args, ih]
  rw [encodeBytes32Array, encodeBytes32Args, hjoin, List.length_map]

/-- `leaf_claim`. -/
def leafClaim (leaf : DivergentLeaf) : Except PyErr Bytes := do
  return (← encodeUint leaf.index 256) ++ (← encodeBytes32 (.text leaf.entryHash)) ++
    (← encodeUint (3 * 32) 256) ++ (← encodeBytes32Array leaf.proof)

/-- `_signed_checkpoint`. -/
def signedCheckpoint (checkpoint : Checkpoint) (signature : Bytes) : Except PyErr Bytes := do
  return (← encodeUint checkpoint.seq 64) ++ (← encodeBytes32 (.text checkpoint.entryHash)) ++
    (← encodeBytes32 (.text checkpoint.root)) ++ (← encodeUint (4 * 32) 256) ++
    (← encodeBytes signature)

/-- An argument of a call. -/
inductive CallArg where
  | word (b : Bytes)
  | bytes (value : Bytes)
  | bytes32Array (values : List Bytes32Arg)
  | signedCheckpoint (checkpoint : Checkpoint) (signature : Bytes)
  | leafClaim (leaf : DivergentLeaf)

/-- What is handed to `encode_call` for an argument. -/
def CallArg.encode : CallArg → Except PyErr AbiArg
  | .word b => .ok (.word b)
  | .bytes value => .dynamic <$> encodeBytes value
  | .bytes32Array values => .dynamic <$> encodeBytes32Args values
  | .signedCheckpoint checkpoint signature => .dynamic <$> Waxseal.signedCheckpoint checkpoint signature
  | .leafClaim leaf => .dynamic <$> Waxseal.leafClaim leaf

/-- `encode_call(selector, args)`, of these arguments. -/
def encodeCallArgs (selector : Bytes) (args : List CallArg) : Except PyErr Bytes := do
  encodeCall selector (← args.mapM CallArg.encode)

/-! ## Reading -/

/-- The type of an argument. -/
inductive ArgType where
  | word
  | bytes
  | bytes32Array
  | signedCheckpoint
  | leafClaim

/-- A value of an argument, as a contract has it. -/
inductive CallValue where
  | word (b : Bytes32)
  | bytes (value : Bytes)
  | bytes32Array (values : List Bytes32)
  | signedCheckpoint (checkpoint : SignedCheckpoint)
  | leafClaim (claim : LeafClaim)

/-- The `SignedCheckpoint` the head at `pos` points to. -/
def signedCheckpointAt (data : Bytes) (pos : ℕ) : Option SignedCheckpoint :=
  (tailAt data pos).bind fun tail => (uint64At tail 0).bind fun seq =>
  (wordAt tail 32).bind fun entryHash => (wordAt tail 64).bind fun root =>
  (bytesAt tail 96).map fun signature => ⟨seq, entryHash, root, signature⟩

/-- The `LeafClaim` the head at `pos` points to. -/
def leafClaimAt (data : Bytes) (pos : ℕ) : Option LeafClaim :=
  (tailAt data pos).bind fun tail => (natAt tail 0).bind fun index =>
  (wordAt tail 32).bind fun entryHash => (bytes32ArrayAt tail 64).map fun proof =>
    ⟨BitVec.ofNat 256 index, entryHash, proof⟩

/-- The argument of this type whose head is at `pos`. -/
def readArg (data : Bytes) (pos : ℕ) : ArgType → Option CallValue
  | .word => .word <$> wordAt data pos
  | .bytes => .bytes <$> bytesAt data pos
  | .bytes32Array => .bytes32Array <$> bytes32ArrayAt data pos
  | .signedCheckpoint => .signedCheckpoint <$> signedCheckpointAt data pos
  | .leafClaim => .leafClaim <$> leafClaimAt data pos

/-- The arguments of these types, whose heads stand one after the other from `pos` on. -/
def readArgs (data : Bytes) : ℕ → List ArgType → Option (List CallValue)
  | _, [] => some []
  | pos, type :: types => do
      return (← readArg data pos type) :: (← readArgs data (pos + 32) types)

/-- Call data, as the selector and the arguments. -/
def decodeCall (types : List ArgType) (calldata : Bytes) : Option (Bytes × List CallValue) :=
  (calldata.take 4, ·) <$> readArgs (calldata.drop 4) 0 types

/-! ## What an argument is for a contract -/

/-- The type of an argument. -/
def CallArg.type : CallArg → ArgType
  | .word _ => .word
  | .bytes _ => .bytes
  | .bytes32Array _ => .bytes32Array
  | .signedCheckpoint _ _ => .signedCheckpoint
  | .leafClaim _ => .leafClaim

/-- Bytes or hex text, and the word they are. -/
def Bytes32Arg.Denotes : Bytes32Arg → Bytes32 → Prop
  | .bytes b, w => b = w.val
  | .text s, w => fromhex (stripHexMark s) = some w.val

/-- An argument, and the value it is. -/
def CallArg.Denotes : CallArg → CallValue → Prop
  | .word b, .word w => b = w.val
  | .bytes value, .bytes value' => value = value'
  | .bytes32Array values, .bytes32Array words => List.Forall₂ Bytes32Arg.Denotes values words
  | .signedCheckpoint checkpoint signature, .signedCheckpoint signed =>
      (signed.seq.toNat : ℤ) = checkpoint.seq ∧
        (Bytes32Arg.text checkpoint.entryHash).Denotes signed.entryHash ∧
        (Bytes32Arg.text checkpoint.root).Denotes signed.root ∧ signed.signature = signature
  | .leafClaim leaf, .leafClaim claim =>
      (claim.index.toNat : ℤ) = leaf.index ∧
        (Bytes32Arg.text leaf.entryHash).Denotes claim.entryHash ∧
        List.Forall₂ Bytes32Arg.Denotes (leaf.proof.map .text) claim.proof
  | _, _ => False

/-! ## Words -/

theorem decodeUint_of_encodeUint {n : ℕ} {b : Bytes} (h : encodeUint n 256 = .ok b) :
    decodeUint b = n := by
  obtain ⟨-, -, -, -, hlt, rfl⟩ := encodeUint_eq_ok_iff.mp h
  have hfits : n < 256 ^ 32 := by
    rw [show 256 ^ 32 = 2 ^ 256 by norm_num]
    exact_mod_cast hlt
  rw [Int.toNat_natCast, decodeUint_toBytesBig hfits]

theorem denotes_of_encodeBytes32 {arg : Bytes32Arg} {b : Bytes} (h : encodeBytes32 arg = .ok b) :
    arg.Denotes ⟨b, length_of_encodeBytes32 h⟩ := by
  cases arg with
  | bytes raw =>
      have hraw := h
      rw [encodeBytes32] at hraw
      split_ifs at hraw
      exact Except.ok.inj hraw
  | text s =>
      have htext := h
      rw [encodeBytes32] at htext
      rcases hraw : fromhex (stripHexMark s) with - | raw
      · rw [hraw] at htext
        cases htext
      · simp only [hraw] at htext
        split_ifs at htext
        show fromhex (stripHexMark s) = some b
        rw [hraw, Except.ok.inj htext]

theorem words_of_joinBytes32Args {values : List Bytes32Arg} {body : Bytes}
    (h : joinBytes32Args values = .ok body) (after : Bytes) :
    ∃ elements, words values.length (body ++ after) = some elements ∧
      List.Forall₂ Bytes32Arg.Denotes values elements := by
  induction values generalizing body with
  | nil => exact ⟨[], rfl, .nil⟩
  | cons value values ih =>
      obtain ⟨word, hword, hmore⟩ := bind_eq_ok_iff.mp h
      obtain ⟨rest, hrest, hbody⟩ := bind_eq_ok_iff.mp hmore
      obtain rfl : word ++ rest = body := Except.ok.inj hbody
      obtain ⟨elements, hwords, hdenotes⟩ := ih hrest
      have hlen := length_of_encodeBytes32 hword
      have hdrop : (word ++ rest ++ after).drop 0 = word ++ (rest ++ after) := by
        rw [List.drop_zero, List.append_assoc]
      refine ⟨⟨word, hlen⟩ :: elements, ?_, .cons (denotes_of_encodeBytes32 hword) hdenotes⟩
      rw [List.length_cons, words, wordAt_of_drop hdrop hlen, Option.bind_some, List.append_assoc,
        List.drop_left' hlen, hwords]
      rfl

theorem bytes32ArrayAt_of_encode {data tail after : Bytes} {pos : ℕ} {values : List Bytes32Arg}
    (h : tailAt data pos = some (tail ++ after)) (henc : encodeBytes32Args values = .ok tail) :
    ∃ elements, bytes32ArrayAt data pos = some elements ∧
      List.Forall₂ Bytes32Arg.Denotes values elements := by
  obtain ⟨body, hbody, hcount⟩ := bind_eq_ok_iff.mp henc
  obtain ⟨word, hword, htail⟩ := bind_eq_ok_iff.mp hcount
  obtain rfl : word ++ body = tail := Except.ok.inj htail
  obtain ⟨elements, hwords, hdenotes⟩ := words_of_joinBytes32Args hbody after
  have hdrop : (word ++ body ++ after).drop 0 = word ++ (body ++ after) := by
    rw [List.drop_zero, List.append_assoc]
  refine ⟨elements, ?_, hdenotes⟩
  rw [bytes32ArrayAt, h, Option.bind_some, natAt_of_drop hdrop hword, Option.bind_some,
    Int.toNat_natCast, List.append_assoc, List.drop_left' (length_of_encodeUint hword), hwords]

/-! ## Structs -/

/-- **A signed checkpoint is read**, with its signature at the offset that counts from the start of
the struct. -/
theorem signedCheckpointAt_of_encode {data tail after : Bytes} {pos : ℕ} {checkpoint : Checkpoint}
    {signature : Bytes} (h : tailAt data pos = some (tail ++ after))
    (henc : signedCheckpoint checkpoint signature = .ok tail) :
    ∃ signed, signedCheckpointAt data pos = some signed ∧
      (CallArg.signedCheckpoint checkpoint signature).Denotes (.signedCheckpoint signed) := by
  obtain ⟨seq, hseq, henc⟩ := bind_eq_ok_iff.mp henc
  obtain ⟨entryHash, hentry, henc⟩ := bind_eq_ok_iff.mp henc
  obtain ⟨root, hroot, henc⟩ := bind_eq_ok_iff.mp henc
  obtain ⟨offset, hoffset, henc⟩ := bind_eq_ok_iff.mp henc
  obtain ⟨sigTail, hsig, htail⟩ := bind_eq_ok_iff.mp henc
  obtain rfl : seq ++ entryHash ++ root ++ offset ++ sigTail = tail := Except.ok.inj htail
  have hseqLen := length_of_encodeUint hseq
  have hentryLen := length_of_encodeBytes32 hentry
  have hrootLen := length_of_encodeBytes32 hroot
  have hoffsetLen := length_of_encodeUint hoffset
  generalize hall : seq ++ entryHash ++ root ++ offset ++ sigTail ++ after = all at h
  simp only [List.append_assoc] at hall
  have h0 : all.drop 0 = seq ++ (entryHash ++ (root ++ (offset ++ (sigTail ++ after)))) := hall.symm
  have h32 : all.drop 32 = entryHash ++ (root ++ (offset ++ (sigTail ++ after))) := by
    rw [← hall, List.drop_left' hseqLen]
  have h64 : all.drop 64 = root ++ (offset ++ (sigTail ++ after)) := by
    rw [show 64 = 32 + 32 from rfl, ← List.drop_drop, h32, List.drop_left' hentryLen]
  have h96 : all.drop 96 = offset ++ (sigTail ++ after) := by
    rw [show 96 = 64 + 32 from rfl, ← List.drop_drop, h64, List.drop_left' hrootLen]
  have h128 : all.drop 128 = sigTail ++ after := by
    rw [show 128 = 96 + 32 from rfl, ← List.drop_drop, h96, List.drop_left' hoffsetLen]
  have hle : 128 ≤ all.length := by
    rw [← hall]
    simp only [List.length_append, hseqLen, hentryLen, hrootLen, hoffsetLen]
    omega
  obtain ⟨seqWord, hseqAt, hseqVal⟩ := uint64At_of_drop h0 hseq
  have hsigAt : bytesAt all 96 = some signature :=
    bytesAt_of_tail (tailAt_of_drop h96 hoffset hle h128) hsig
  refine ⟨⟨seqWord, ⟨entryHash, hentryLen⟩, ⟨root, hrootLen⟩, signature⟩, ?_, hseqVal,
    denotes_of_encodeBytes32 hentry, denotes_of_encodeBytes32 hroot, rfl⟩
  rw [signedCheckpointAt, h, Option.bind_some, hseqAt, Option.bind_some,
    wordAt_of_drop h32 hentryLen, Option.bind_some, wordAt_of_drop h64 hrootLen, Option.bind_some,
    hsigAt]
  rfl

/-- **A leaf claim is read**, with its proof at the offset that counts from the start of the
struct. -/
theorem leafClaimAt_of_encode {data tail after : Bytes} {pos : ℕ} {leaf : DivergentLeaf}
    (h : tailAt data pos = some (tail ++ after)) (henc : leafClaim leaf = .ok tail) :
    ∃ claim, leafClaimAt data pos = some claim ∧
      (CallArg.leafClaim leaf).Denotes (.leafClaim claim) := by
  obtain ⟨index, hindex, henc⟩ := bind_eq_ok_iff.mp henc
  obtain ⟨entryHash, hentry, henc⟩ := bind_eq_ok_iff.mp henc
  obtain ⟨offset, hoffset, henc⟩ := bind_eq_ok_iff.mp henc
  obtain ⟨proofTail, hproof, htail⟩ := bind_eq_ok_iff.mp henc
  obtain rfl : index ++ entryHash ++ offset ++ proofTail = tail := Except.ok.inj htail
  rw [encodeBytes32Array_eq] at hproof
  have hindexLen := length_of_encodeUint hindex
  have hentryLen := length_of_encodeBytes32 hentry
  have hoffsetLen := length_of_encodeUint hoffset
  generalize hall : index ++ entryHash ++ offset ++ proofTail ++ after = all at h
  simp only [List.append_assoc] at hall
  have h0 : all.drop 0 = index ++ (entryHash ++ (offset ++ (proofTail ++ after))) := hall.symm
  have h32 : all.drop 32 = entryHash ++ (offset ++ (proofTail ++ after)) := by
    rw [← hall, List.drop_left' hindexLen]
  have h64 : all.drop 64 = offset ++ (proofTail ++ after) := by
    rw [show 64 = 32 + 32 from rfl, ← List.drop_drop, h32, List.drop_left' hentryLen]
  have h96 : all.drop 96 = proofTail ++ after := by
    rw [show 96 = 64 + 32 from rfl, ← List.drop_drop, h64, List.drop_left' hoffsetLen]
  have hle : 96 ≤ all.length := by
    rw [← hall]
    simp only [List.length_append, hindexLen, hentryLen, hoffsetLen]
    omega
  obtain ⟨proof, hproofAt, hdenotes⟩ :=
    bytes32ArrayAt_of_encode (tailAt_of_drop h64 hoffset hle h96) hproof
  obtain ⟨-, -, -, hpos, hlt, -⟩ := encodeUint_eq_ok_iff.mp hindex
  refine ⟨⟨BitVec.ofNat 256 leaf.index.toNat, ⟨entryHash, hentryLen⟩, proof⟩, ?_, ?_,
    denotes_of_encodeBytes32 hentry, hdenotes⟩
  · rw [leafClaimAt, h, Option.bind_some, natAt_of_drop h0 hindex, Option.bind_some,
      wordAt_of_drop h32 hentryLen, Option.bind_some, hproofAt]
    rfl
  · rw [BitVec.toNat_ofNat, Nat.mod_eq_of_lt ((Int.toNat_lt hpos).mpr (by exact_mod_cast hlt))]
    exact Int.toNat_of_nonneg hpos

/-! ## Calls -/

section

variable {selector data : Bytes} {first rest : List AbiArg}

/-- One argument, wherever it stands among the others. -/
theorem readArg_of_encode {arg : CallArg} {encoded : AbiArg} (henc : arg.encode = .ok encoded)
    (h : encodeCall selector (first ++ encoded :: rest) = .ok data) :
    ∃ value, readArg (data.drop 4) (32 * first.length) arg.type = some value ∧
      arg.Denotes value := by
  -- A dynamic argument is found through its offset.
  have htail : ∀ tail, encoded = .dynamic tail → ∃ after,
      tailAt (data.drop 4) (32 * first.length) = some (tail ++ after) := by
    rintro tail rfl
    obtain ⟨offset, word, more, after, -, hoffset, hhead, hle, hdrop⟩ := encodeCall_dynamic h
    exact ⟨after, tailAt_of_drop hhead hoffset hle hdrop⟩
  cases arg with
  | word b =>
      obtain rfl : AbiArg.word b = encoded := Except.ok.inj henc
      obtain ⟨hlen, more, hhead⟩ := encodeCall_word h
      refine ⟨.word ⟨b, hlen⟩, ?_, rfl⟩
      exact congrArg (CallValue.word <$> ·) (wordAt_of_drop hhead hlen)
  | bytes value =>
      obtain ⟨tail, htailEnc, rfl⟩ := map_eq_ok_iff.mp henc
      obtain ⟨after, hat⟩ := htail tail rfl
      refine ⟨.bytes value, ?_, rfl⟩
      exact congrArg (CallValue.bytes <$> ·) (bytesAt_of_tail hat htailEnc)
  | bytes32Array values =>
      obtain ⟨tail, htailEnc, rfl⟩ := map_eq_ok_iff.mp henc
      obtain ⟨after, hat⟩ := htail tail rfl
      obtain ⟨elements, helements, hdenotes⟩ := bytes32ArrayAt_of_encode hat htailEnc
      refine ⟨.bytes32Array elements, ?_, hdenotes⟩
      exact congrArg (CallValue.bytes32Array <$> ·) helements
  | signedCheckpoint checkpoint signature =>
      obtain ⟨tail, htailEnc, rfl⟩ := map_eq_ok_iff.mp henc
      obtain ⟨after, hat⟩ := htail tail rfl
      obtain ⟨signed, hsigned, hdenotes⟩ := signedCheckpointAt_of_encode hat htailEnc
      refine ⟨.signedCheckpoint signed, ?_, hdenotes⟩
      exact congrArg (CallValue.signedCheckpoint <$> ·) hsigned
  | leafClaim leaf =>
      obtain ⟨tail, htailEnc, rfl⟩ := map_eq_ok_iff.mp henc
      obtain ⟨after, hat⟩ := htail tail rfl
      obtain ⟨claim, hclaim, hdenotes⟩ := leafClaimAt_of_encode hat htailEnc
      refine ⟨.leafClaim claim, ?_, hdenotes⟩
      exact congrArg (CallValue.leafClaim <$> ·) hclaim

/-- The arguments behind the first ones. -/
theorem readArgs_of_encode {args : List CallArg} (henc : args.mapM CallArg.encode = .ok rest)
    (h : encodeCall selector (first ++ rest) = .ok data) :
    ∃ values, readArgs (data.drop 4) (32 * first.length) (args.map CallArg.type) = some values ∧
      List.Forall₂ CallArg.Denotes args values := by
  induction args generalizing first rest with
  | nil => exact ⟨[], rfl, .nil⟩
  | cons arg args ih =>
      rw [List.mapM_cons] at henc
      obtain ⟨encoded, hencoded, hmore⟩ := bind_eq_ok_iff.mp henc
      obtain ⟨later, hlater, hrest⟩ := bind_eq_ok_iff.mp hmore
      obtain rfl : encoded :: later = rest := Except.ok.inj hrest
      obtain ⟨value, hvalue, hdenotes⟩ := readArg_of_encode hencoded h
      have hbehind : encodeCall selector ((first ++ [encoded]) ++ later) = .ok data := by
        rwa [List.append_assoc, List.singleton_append]
      obtain ⟨values, hvalues, hall⟩ := ih hlater hbehind
      have hpos : 32 * (first ++ [encoded]).length = 32 * first.length + 32 := by
        rw [List.length_append, List.length_singleton]
        omega
      rw [hpos] at hvalues
      refine ⟨value :: values, ?_, .cons hdenotes hall⟩
      rw [List.map_cons, readArgs, hvalue, hvalues]
      rfl

end

/-! ## The layout -/

/-- Call data is the selector, one word for each argument, and the tails of the dynamic ones, which
follow each other; the word of a dynamic argument is where its own tail begins, counted from the
first word. -/
structure CallLayout (selector data : Bytes) (args : List AbiArg) (heads : List Bytes) : Prop where
  covers : data = selector ++ (heads.flatten ++ (args.map AbiArg.tail).flatten)
  length_selector : selector.length = 4
  length_heads : heads.length = args.length
  words : ∀ head ∈ heads, head.length = 32
  static : ∀ first b rest, args = first ++ .word b :: rest → heads[first.length]? = some b
  offsets : ∀ first tail rest, args = first ++ .dynamic tail :: rest →
    ∃ head, heads[first.length]? = some head ∧
      decodeUint head = heads.flatten.length + (first.map AbiArg.tail).flatten.length

/-- The words of the head, from the offset of the next tail. -/
theorem exists_heads {args : List AbiArg} {offset : ℕ} {encoded : Bytes}
    (h : encodeHeads offset args = .ok encoded) :
    ∃ heads : List Bytes, encoded = heads.flatten ∧ heads.length = args.length ∧
      (∀ head ∈ heads, head.length = 32) ∧
      (∀ first b rest, args = first ++ .word b :: rest → heads[first.length]? = some b) ∧
      ∀ first tail rest, args = first ++ .dynamic tail :: rest →
        ∃ head, heads[first.length]? = some head ∧
          decodeUint head = offset + (first.map AbiArg.tail).flatten.length := by
  induction args generalizing offset encoded with
  | nil =>
      obtain rfl : [] = encoded := Except.ok.inj h
      refine ⟨[], rfl, rfl, List.forall_mem_nil _, ?_, ?_⟩
      · intro first b rest hargs
        exact absurd hargs (by simp)
      · intro first tail rest hargs
        exact absurd hargs (by simp)
  | cons arg args ih =>
      obtain ⟨word, next, more, rfl, hlen, hmore, hword⟩ : ∃ word next more, encoded = word ++ more ∧
          word.length = 32 ∧ encodeHeads next args = .ok more ∧
          ((∃ b, arg = .word b ∧ word = b ∧ next = offset) ∨
            ∃ tail, arg = .dynamic tail ∧ decodeUint word = offset ∧ next = offset + tail.length) := by
        cases arg with
        | word b =>
            rw [encodeHeads] at h
            split_ifs at h with hlen
            obtain ⟨more, hmore, hencoded⟩ := bind_eq_ok_iff.mp h
            exact ⟨b, offset, more, (Except.ok.inj hencoded).symm, not_not.mp hlen, hmore,
              .inl ⟨b, rfl, rfl, rfl⟩⟩
        | dynamic tail =>
            rw [encodeHeads] at h
            obtain ⟨word, hword, hbehind⟩ := bind_eq_ok_iff.mp h
            obtain ⟨more, hmore, hencoded⟩ := bind_eq_ok_iff.mp hbehind
            refine ⟨word, offset + tail.length, more, (Except.ok.inj hencoded).symm,
              length_of_encodeUint hword, hmore, .inr ⟨tail, rfl, ?_, rfl⟩⟩
            exact decodeUint_of_encodeUint hword
      obtain ⟨heads, rfl, hcount, hwords, hstatic, hoffsets⟩ := ih hmore
      refine ⟨word :: heads, rfl, by rw [List.length_cons, List.length_cons, hcount],
        List.forall_mem_cons.mpr ⟨hlen, hwords⟩, ?_, ?_⟩
      · intro first b rest hargs
        cases first with
        | nil =>
            obtain ⟨rfl, -⟩ := List.cons.inj hargs
            rcases hword with ⟨b', hb, rfl, -⟩ | ⟨tail, htail, -⟩
            · rw [AbiArg.word.inj hb]
              rfl
            · cases htail
        | cons a first =>
            obtain ⟨-, hbehind⟩ := List.cons.inj hargs
            exact hstatic first b rest hbehind
      · intro first tail rest hargs
        cases first with
        | nil =>
            obtain ⟨rfl, -⟩ := List.cons.inj hargs
            rcases hword with ⟨b, hb, -⟩ | ⟨tail', -, hval, -⟩
            · cases hb
            · exact ⟨word, rfl, hval⟩
        | cons a first =>
            obtain ⟨rfl, hbehind⟩ := List.cons.inj hargs
            obtain ⟨head, hhead, hval⟩ := hoffsets first tail rest hbehind
            refine ⟨head, hhead, ?_⟩
            rw [hval, List.map_cons, List.flatten_cons, List.length_append, ← Nat.add_assoc]
            rcases hword with ⟨b, rfl, -, rfl⟩ | ⟨tail', rfl, -, rfl⟩
            · rfl
            · rfl

theorem encodeCall_layout {selector data : Bytes} {args : List AbiArg}
    (h : encodeCall selector args = .ok data) : ∃ heads, CallLayout selector data args heads := by
  obtain ⟨hselector, encoded, hencoded, rfl⟩ := encodeCall_eq_ok h
  obtain ⟨heads, rfl, hcount, hwords, hstatic, hoffsets⟩ := exists_heads hencoded
  rw [← length_of_encodeHeads hencoded] at hoffsets
  have htails : encodeTails args = (args.map AbiArg.tail).flatten := List.flatMap_def
  exact ⟨heads, by rw [htails], hselector, hcount, hwords, hstatic, hoffsets⟩

/-! ## Return values read the same way -/

theorem dvd_length_padRight (value : Bytes) : 32 ∣ (padRight value).length := by
  rw [padRight]
  split_ifs with hmod
  · exact Nat.dvd_of_mod_eq_zero hmod
  · rw [List.length_append, List.length_replicate]
    omega

theorem dvd_length_of_encodeBytes {value tail : Bytes} (h : encodeBytes value = .ok tail) :
    32 ∣ tail.length := by
  obtain ⟨word, hword, htail⟩ := bind_eq_ok_iff.mp h
  obtain rfl : word ++ padRight value = tail := Except.ok.inj htail
  rw [List.length_append, length_of_encodeUint hword]
  exact Nat.dvd_add (dvd_refl 32) (dvd_length_padRight value)

theorem length_of_joinBytes32Args {values : List Bytes32Arg} {body : Bytes}
    (h : joinBytes32Args values = .ok body) : body.length = 32 * values.length := by
  induction values generalizing body with
  | nil =>
      obtain rfl : [] = body := Except.ok.inj h
      rfl
  | cons value values ih =>
      obtain ⟨word, hword, hmore⟩ := bind_eq_ok_iff.mp h
      obtain ⟨rest, hrest, hbody⟩ := bind_eq_ok_iff.mp hmore
      obtain rfl : word ++ rest = body := Except.ok.inj hbody
      rw [List.length_append, length_of_encodeBytes32 hword, ih hrest, List.length_cons]
      omega

theorem dvd_length_of_encodeBytes32Args {values : List Bytes32Arg} {tail : Bytes}
    (h : encodeBytes32Args values = .ok tail) : 32 ∣ tail.length := by
  obtain ⟨body, hbody, hcount⟩ := bind_eq_ok_iff.mp h
  obtain ⟨word, hword, htail⟩ := bind_eq_ok_iff.mp hcount
  obtain rfl : word ++ body = tail := Except.ok.inj htail
  rw [List.length_append, length_of_encodeUint hword, length_of_joinBytes32Args hbody]
  exact Nat.dvd_add (dvd_refl 32) (Dvd.intro _ rfl)

/-- Every tail is a whole number of words, so every offset is. -/
theorem dvd_length_of_encode {arg : CallArg} {encoded : AbiArg} (h : arg.encode = .ok encoded) :
    32 ∣ encoded.tail.length := by
  cases arg with
  | word b =>
      obtain rfl : AbiArg.word b = encoded := Except.ok.inj h
      exact dvd_zero 32
  | bytes value =>
      obtain ⟨tail, htail, rfl⟩ := map_eq_ok_iff.mp h
      exact dvd_length_of_encodeBytes htail
  | bytes32Array values =>
      obtain ⟨tail, htail, rfl⟩ := map_eq_ok_iff.mp h
      exact dvd_length_of_encodeBytes32Args htail
  | signedCheckpoint checkpoint signature =>
      obtain ⟨tail, htail, rfl⟩ := map_eq_ok_iff.mp h
      obtain ⟨seq, hseq, htail⟩ := bind_eq_ok_iff.mp htail
      obtain ⟨entryHash, hentry, htail⟩ := bind_eq_ok_iff.mp htail
      obtain ⟨root, hroot, htail⟩ := bind_eq_ok_iff.mp htail
      obtain ⟨offset, hoffset, htail⟩ := bind_eq_ok_iff.mp htail
      obtain ⟨sigTail, hsig, htail⟩ := bind_eq_ok_iff.mp htail
      obtain rfl : seq ++ entryHash ++ root ++ offset ++ sigTail = tail := Except.ok.inj htail
      have hinner := dvd_length_of_encodeBytes hsig
      simp only [AbiArg.tail, List.length_append, length_of_encodeUint hseq,
        length_of_encodeBytes32 hentry, length_of_encodeBytes32 hroot, length_of_encodeUint hoffset]
      omega
  | leafClaim leaf =>
      obtain ⟨tail, htail, rfl⟩ := map_eq_ok_iff.mp h
      obtain ⟨index, hindex, htail⟩ := bind_eq_ok_iff.mp htail
      obtain ⟨entryHash, hentry, htail⟩ := bind_eq_ok_iff.mp htail
      obtain ⟨offset, hoffset, htail⟩ := bind_eq_ok_iff.mp htail
      obtain ⟨proofTail, hproof, htail⟩ := bind_eq_ok_iff.mp htail
      obtain rfl : index ++ entryHash ++ offset ++ proofTail = tail := Except.ok.inj htail
      rw [encodeBytes32Array_eq] at hproof
      have hinner := dvd_length_of_encodeBytes32Args hproof
      simp only [AbiArg.tail, List.length_append, length_of_encodeUint hindex,
        length_of_encodeBytes32 hentry, length_of_encodeUint hoffset]
      omega

theorem length_of_encodeArgs {args : List CallArg} {encoded : List AbiArg}
    (h : args.mapM CallArg.encode = .ok encoded) : encoded.length = args.length := by
  induction args generalizing encoded with
  | nil =>
      obtain rfl : [] = encoded := Except.ok.inj h
      rfl
  | cons arg args ih =>
      rw [List.mapM_cons] at h
      obtain ⟨first, -, hmore⟩ := bind_eq_ok_iff.mp h
      obtain ⟨later, hlater, hencoded⟩ := bind_eq_ok_iff.mp hmore
      obtain rfl : first :: later = encoded := Except.ok.inj hencoded
      rw [List.length_cons, List.length_cons, ih hlater]

theorem dvd_length_of_encodeTails {args : List CallArg} {encoded : List AbiArg}
    (h : args.mapM CallArg.encode = .ok encoded) : 32 ∣ (encodeTails encoded).length := by
  induction args generalizing encoded with
  | nil =>
      obtain rfl : [] = encoded := Except.ok.inj h
      exact dvd_zero 32
  | cons arg args ih =>
      rw [List.mapM_cons] at h
      obtain ⟨first, hfirst, hmore⟩ := bind_eq_ok_iff.mp h
      obtain ⟨later, hlater, hencoded⟩ := bind_eq_ok_iff.mp hmore
      obtain rfl : first :: later = encoded := Except.ok.inj hencoded
      rw [encodeTails, List.flatMap_cons, List.length_append]
      exact Nat.dvd_add (dvd_length_of_encode hfirst) (ih hlater)

/-- `decode_bytes` follows a head of the call to its tail. -/
theorem decodeBytes_of_encode {first : List CallArg} {before rest : List AbiArg}
    {selector data value tail : Bytes} (hfirst : first.mapM CallArg.encode = .ok before)
    (henc : encodeBytes value = .ok tail)
    (h : encodeCall selector (before ++ .dynamic tail :: rest) = .ok data) :
    decodeBytes (data.drop 4) before.length = some value := by
  obtain ⟨offset, word, more, after, hformula, hoffset, hhead, -, hdrop⟩ := encodeCall_dynamic h
  obtain ⟨count, hcount, htail⟩ := bind_eq_ok_iff.mp henc
  obtain rfl : count ++ padRight value = tail := Except.ok.inj htail
  obtain ⟨pad, hpad⟩ := exists_padRight value
  have hwordLen := length_of_encodeUint hoffset
  have hcountLen := length_of_encodeUint hcount
  have hheadLen := congrArg List.length hhead
  have hdropLen := congrArg List.length hdrop
  simp only [List.length_append, List.length_drop, hpad] at hheadLen hdropLen
  have hmod : offset % 32 = 0 := by
    have htails := dvd_length_of_encodeTails hfirst
    omega
  have hbody : (data.drop 4).drop (offset + 32) = value ++ (pad ++ after) := by
    rw [← List.drop_drop, hdrop, List.append_assoc, List.drop_left' hcountLen, hpad,
      List.append_assoc]
  have hpoint : decodeUint (((data.drop 4).drop (before.length * 32)).take 32) = offset := by
    rw [Nat.mul_comm, hhead, List.take_left' hwordLen, decodeUint_of_encodeUint hoffset]
  have hsize : decodeUint (((data.drop 4).drop offset).take 32) = value.length := by
    rw [hdrop, List.append_assoc, List.take_left' hcountLen, decodeUint_of_encodeUint hcount]
  rw [decodeBytes]
  dsimp only
  rw [if_neg (by simp only [List.length_drop]; omega), hpoint,
    if_neg (by simp only [List.length_drop]; omega), hsize,
    if_neg (by simp only [List.length_drop]; omega), hbody, List.take_left' rfl]

/-- **Calls are read back.**  The call data of any arguments decodes, by head and tail, to these
arguments in their order; `decode_bytes` follows the heads too; the heads point at their own tails,
and the tails follow each other to the end. -/
theorem encodeCall_roundTrip {selector data : Bytes} {args : List CallArg}
    (h : encodeCallArgs selector args = .ok data) :
    (∃ values, decodeCall (args.map CallArg.type) data = some (selector, values) ∧
      List.Forall₂ CallArg.Denotes args values) ∧
    (∀ first value rest, args = first ++ .bytes value :: rest →
      decodeBytes (data.drop 4) first.length = some value) ∧
    ∃ encoded heads, args.mapM CallArg.encode = .ok encoded ∧
      CallLayout selector data encoded heads := by
  obtain ⟨encoded, hencoded, hcall⟩ := bind_eq_ok_iff.mp h
  obtain ⟨heads, hlayout⟩ := encodeCall_layout hcall
  refine ⟨?_, ?_, encoded, heads, hencoded, hlayout⟩
  · obtain ⟨values, hvalues, hdenotes⟩ :
        ∃ values, readArgs (data.drop 4) (32 * ([] : List AbiArg).length) (args.map CallArg.type) =
          some values ∧ List.Forall₂ CallArg.Denotes args values :=
      readArgs_of_encode hencoded hcall
    refine ⟨values, ?_, hdenotes⟩
    rw [decodeCall, (drop_selector hcall).1]
    exact congrArg ((selector, ·) <$> ·) hvalues
  · rintro first value rest rfl
    rw [List.mapM_append] at hencoded
    obtain ⟨before, hbefore, hmore⟩ := bind_eq_ok_iff.mp hencoded
    obtain ⟨behind, hbehind, hall⟩ := bind_eq_ok_iff.mp hmore
    obtain rfl : before ++ behind = encoded := Except.ok.inj hall
    rw [List.mapM_cons] at hbehind
    obtain ⟨arg, harg, hlater⟩ := bind_eq_ok_iff.mp hbehind
    obtain ⟨later, -, hsplit⟩ := bind_eq_ok_iff.mp hlater
    obtain rfl : arg :: later = behind := Except.ok.inj hsplit
    obtain ⟨tail, htail, rfl⟩ := map_eq_ok_iff.mp harg
    rw [← length_of_encodeArgs hbefore]
    exact decodeBytes_of_encode hbefore htail hcall

theorem encodeCall_roundTrip_dispute :
    let selector : Bytes := [0x29, 0x61, 0x52, 0x14]
    let hash := List.replicate 64 (CodePoint.ofChar 'a')
    let args : List CallArg :=
      [.word (List.replicate 32 7), .signedCheckpoint (.bare 5 hash hash) [1, 2, 3],
        .bytes32Array [.text hash], .leafClaim ⟨3, hash, []⟩, .bytes [9]]
    ∃ data, encodeCallArgs selector args = .ok data ∧
      ∃ values, decodeCall (args.map CallArg.type) data = some (selector, values) ∧
        List.Forall₂ CallArg.Denotes args values := by
  intro selector hash args
  obtain ⟨data, hdata⟩ : ∃ data, encodeCallArgs selector args = .ok data :=
    exists_eq_ok_of_isSome (by decide +kernel)
  exact ⟨data, hdata, (encodeCall_roundTrip hdata).1⟩

end Waxseal
