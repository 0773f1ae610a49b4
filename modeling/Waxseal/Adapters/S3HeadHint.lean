import Waxseal.Adapters.S3Backend
import Waxseal.Base.JsonDigits

/-!
# The head hint of the S3 backend

`S3Backend._tail`, over a bucket that nobody changes while it looks: it takes a position and a
hash from `head.json`, whatever that holds, and looks for the entry behind it, and the one
behind that.  `StoredHashes` says what the bucket holds; `tail_correct_iff` says which hints the
answer survives: the hint is believed where it is not overtaken by an entry that is found.
-/

namespace Waxseal

open Json

variable [Interpreter]

/-! ## The tail -/

/-- `_entry_key(seq)`; a position can be too long to spell. -/
def S3Backend.entryKeyDigits (backend : S3Backend) (seq : ℤ) : Except PyErr PyStr :=
  if tooLong (strNat seq.natAbs).length then .error .valueError else .ok (backend.entryKey seq)

/-- `int(head["seq"]), str(head["entry_hash"])`, for any decoder. -/
def readHeadBy (loads : Bytes → Except PyErr Json) (body : Bytes) : Except PyErr (ℤ × PyStr) := do
  let head ← loads body
  let seq ← pyInt (← getItem head (str "seq"))
  return (seq, pyStr (← getItem head (str "entry_hash")))

/-- What `_tail` starts from: any exception, and no `head.json`, make it probe from the
genesis. -/
def candidateBy (loads : Bytes → Except PyErr Json) (head : Option Bytes) : ℤ × PyStr :=
  match head.map (readHeadBy loads) with
  | some (.ok head) => head
  | some (.error _) | none => (-1, genesisPrevHash)

/-- The loop of `_tail`, for so many turns: `none` is a loop that has not come to its end. -/
def S3Backend.probe (backend : S3Backend) (loads : Bytes → Except PyErr Json) (bucket : Bucket) :
    ℕ → ℤ → PyStr → Option (Except PyErr (ℤ × PyStr))
  | 0, _, _ => none
  | turns + 1, seq, entryHash =>
      match backend.entryKeyDigits (seq + 1) with
      | .error e => some (.error e)
      | .ok key =>
          match (bucket key).head? with
          | none => some (.ok (seq + 1, entryHash))
          | some body =>
              match loads body >>= entryHashField with
              | .error e => some (.error e)
              | .ok entryHash => probe backend loads bucket turns (seq + 1) entryHash

/-- `_tail()`, for so many turns of its loop. -/
def S3Backend.tail (backend : S3Backend) (loads : Bytes → Except PyErr Json) (bucket : Bucket)
    (head : Option Bytes) (turns : ℕ) : Option (Except PyErr (ℤ × PyStr)) :=
  backend.probe loads bucket turns (candidateBy loads head).1 (candidateBy loads head).2

/-- The hint is the one the appends of the backend start from. -/
theorem candidateBy_loadsBytes (backend : S3Backend) (bucket : Bucket) (reply : S3Reply) :
    candidateBy loadsBytes (reply.version (bucket backend.headKey)) =
      backend.candidate bucket reply := rfl

variable {backend : S3Backend} {loads : Bytes → Except PyErr Json} {bucket : Bucket}

/-- More turns do not change an answer. -/
theorem probe_mono {turns more : ℕ} (hmore : turns ≤ more) {seq : ℤ} {entryHash : PyStr}
    {r : Except PyErr (ℤ × PyStr)} (h : backend.probe loads bucket turns seq entryHash = some r) :
    backend.probe loads bucket more seq entryHash = some r := by
  induction turns generalizing more seq entryHash with
  | zero => cases h
  | succ turns ih =>
      obtain ⟨more, rfl⟩ : ∃ k, more = k + 1 := ⟨more - 1, by omega⟩
      rw [S3Backend.probe] at h ⊢
      cases hkey : backend.entryKeyDigits (seq + 1) with
      | error e =>
          rw [hkey] at h
          exact h
      | ok key =>
          rw [hkey] at h
          simp only at h ⊢
          cases hbody : (bucket key).head? with
          | none =>
              rw [hbody] at h
              exact h
          | some body =>
              rw [hbody] at h
              simp only at h ⊢
              cases hread : loads body >>= entryHashField with
              | error e =>
                  rw [hread] at h
                  exact h
              | ok entryHash' =>
                  rw [hread] at h
                  exact ih (Nat.le_of_succ_le_succ hmore) h

theorem probe_unique {turns turns' : ℕ} {seq : ℤ} {entryHash : PyStr}
    {r r' : Except PyErr (ℤ × PyStr)} (h : backend.probe loads bucket turns seq entryHash = some r)
    (h' : backend.probe loads bucket turns' seq entryHash = some r') : r = r' := by
  have hmax := probe_mono (le_max_left turns turns') h
  rw [probe_mono (le_max_right turns turns') h'] at hmax
  exact (Option.some.inj hmax).symm

/-! ## What the bucket holds -/

/-- The bucket holds entries with these hashes, at the positions from 0 on, and no others. -/
structure StoredHashes (backend : S3Backend) (loads : Bytes → Except PyErr Json) (bucket : Bucket)
    (hashes : List PyStr) : Prop where
  object : ∀ (n : ℕ) (h : n < hashes.length), ∃ body, (bucket (backend.entryKey n)).head? = some body ∧
    loads body >>= entryHashField = .ok hashes[n]
  absent : ∀ seq : ℤ, seq < 0 ∨ hashes.length ≤ seq → bucket (backend.entryKey seq) = []
  /-- The position of the next entry can be spelled. -/
  spelled : ∀ n ≤ hashes.length, tooLong (strNat n).length = false

/-- What the next entry has to link to. -/
def lastHash (hashes : List PyStr) : PyStr := hashes.getLast?.getD genesisPrevHash

variable {hashes : List PyStr}

/-- Where an entry is, the loop goes on from it. -/
theorem StoredHashes.probe_found (h : StoredHashes backend loads bucket hashes) {seq : ℤ}
    {n : ℕ} (hseq : seq + 1 = n) (hn : n < hashes.length) (turns : ℕ) (entryHash : PyStr) :
    backend.probe loads bucket (turns + 1) seq entryHash =
      backend.probe loads bucket turns n hashes[n] := by
  obtain ⟨body, hbody, hread⟩ := h.object n hn
  rw [S3Backend.probe, hseq, S3Backend.entryKeyDigits, Int.natAbs_natCast,
    h.spelled n (Nat.le_of_lt hn)]
  simp only [Bool.false_eq_true, if_false, hbody, hread]

/-- Where there is no entry, the loop ends, with what it believes. -/
theorem StoredHashes.probe_absent (h : StoredHashes backend loads bucket hashes) {seq : ℤ}
    (hseq : seq + 1 < 0 ∨ hashes.length ≤ seq + 1) (turns : ℕ) (entryHash : PyStr) :
    backend.probe loads bucket (turns + 1) seq entryHash =
      some (if tooLong (strNat (seq + 1).natAbs).length then .error .valueError
        else .ok (seq + 1, entryHash)) := by
  rw [S3Backend.probe, S3Backend.entryKeyDigits]
  split_ifs with hlong
  · rfl
  · simp only [h.absent (seq + 1) hseq, List.head?_nil]

/-- **From any place in the trail the loop comes to its end.**  By induction on how many entries
are behind the place. -/
theorem StoredHashes.probe_end (h : StoredHashes backend loads bucket hashes) (left : ℕ) {seq : ℤ}
    (hseq : seq + 1 + left = hashes.length) (hstart : 0 ≤ seq + 1) (entryHash : PyStr) :
    backend.probe loads bucket (left + 1) seq entryHash =
      some (.ok (hashes.length, if left = 0 then entryHash else lastHash hashes)) := by
  induction left generalizing seq entryHash with
  | zero =>
      have hend : seq + 1 = hashes.length := by omega
      rw [h.probe_absent (.inr hend.ge), hend, Int.natAbs_natCast, h.spelled _ le_rfl]
      rfl
  | succ left ih =>
      obtain ⟨n, hn⟩ := Int.eq_ofNat_of_zero_le hstart
      have hlt : n < hashes.length := by omega
      rw [h.probe_found hn hlt, ih (by omega) (by omega), if_neg (Nat.succ_ne_zero left)]
      split_ifs with hlast
      · -- the entry that is found last is the last one
        have hlen : n = hashes.length - 1 := by omega
        rw [lastHash, List.getLast?_eq_getElem?, ← hlen, List.getElem?_eq_getElem hlt,
          Option.getD_some]
      · rfl

/-! ## Hints -/

/-- A position and a hash the loop may start from: below the last entry, or the last entry with
its own hash, or the genesis. -/
def HintFits (hashes : List PyStr) (hint : ℤ × PyStr) : Prop :=
  -1 ≤ hint.1 ∧ hint.1 + 1 ≤ hashes.length ∧
    (hint.1 + 1 = hashes.length → hint.2 = lastHash hashes)

/-- The loop ends with the tail exactly if what it starts from fits. -/
theorem StoredHashes.probe_correct_iff (h : StoredHashes backend loads bucket hashes) (seq : ℤ)
    (entryHash : PyStr) :
    (∃ turns, backend.probe loads bucket turns seq entryHash =
        some (.ok (hashes.length, lastHash hashes))) ↔ HintFits hashes (seq, entryHash) := by
  have hanswer : ∀ {turns r}, backend.probe loads bucket turns seq entryHash = some r →
      ((∃ turns, backend.probe loads bucket turns seq entryHash =
        some (.ok (hashes.length, lastHash hashes))) ↔ r = .ok (hashes.length, lastHash hashes)) := by
    intro turns r hr
    constructor
    · rintro ⟨turns', hr'⟩
      exact probe_unique hr hr'
    · rintro rfl
      exact ⟨turns, hr⟩
  by_cases hrange : -1 ≤ seq ∧ seq + 1 ≤ hashes.length
  · obtain ⟨left, hleft⟩ := Int.eq_ofNat_of_zero_le (a := hashes.length - (seq + 1)) (by omega)
    rw [hanswer (h.probe_end left (by omega) (by omega) entryHash), Except.ok.injEq,
      Prod.mk.injEq, and_iff_right rfl, HintFits]
    simp only [hrange, true_and]
    split_ifs with hlast
    · have hend : seq + 1 = hashes.length := by omega
      simp only [hend, true_imp_iff]
    · have hend : seq + 1 ≠ hashes.length := by omega
      simp only [hend, false_imp_iff]
  · rw [hanswer (h.probe_absent (by omega) 0 entryHash), HintFits]
    refine iff_of_false ?_ fun hfits => hrange ⟨hfits.1, hfits.2.1⟩
    intro heq
    split_ifs at heq
    have hseq := (Prod.mk.inj (Except.ok.inj heq)).1
    omega

/-- What the loop starts from fits if the hint cannot be read, or fits. -/
theorem hintFits_candidate_iff {head : Option Bytes} :
    HintFits hashes (candidateBy loads head) ↔
      ∀ body ∈ head, ∀ hint, readHeadBy loads body = .ok hint → HintFits hashes hint := by
  have hgenesis : HintFits hashes (-1, genesisPrevHash) := by
    refine ⟨le_rfl, by simp, ?_⟩
    intro hnil
    have hempty : hashes = [] := List.length_eq_zero_iff.mp (by simpa using hnil.symm)
    rw [hempty]
    rfl
  cases head with
  | none => exact iff_of_true hgenesis nofun
  | some body =>
      cases hread : readHeadBy loads body with
      | error e =>
          simp only [candidateBy, Option.map_some, hread]
          refine iff_of_true hgenesis ?_
          intro body' hbody hint hok
          obtain rfl := Option.some.inj hbody
          rw [hread] at hok
          cases hok
      | ok hint =>
          simp only [candidateBy, Option.map_some, hread]
          constructor
          · intro hfit body' hbody hint' hok
            obtain rfl := Option.some.inj hbody
            rw [hread] at hok
            exact Except.ok.inj hok ▸ hfit
          · exact fun h => h body rfl hint hread

/-- **The tail is right exactly if the hint cannot be read or fits.** -/
theorem tail_correct_iff (h : StoredHashes backend loads bucket hashes) (head : Option Bytes) :
    (∃ turns, backend.tail loads bucket head turns =
        some (.ok (hashes.length, lastHash hashes))) ↔
      ∀ body ∈ head, ∀ hint, readHeadBy loads body = .ok hint → HintFits hashes hint := by
  rw [← hintFits_candidate_iff]
  exact h.probe_correct_iff _ _

/-! ## Hints the backend wrote -/

omit [Interpreter] in
theorem minus_notMem_leftpad (n width : ℕ) :
    CodePoint.ofChar '-' ∉ (strNat n).leftpad width (.ofChar '0') := by
  rw [List.leftpad, List.mem_append, not_or]
  constructor
  · intro h
    exact absurd (List.eq_of_mem_replicate h) (by decide)
  · intro h
    exact absurd (isDigit_of_mem_strNat h).1 (by decide)

omit [Interpreter] in
/-- Positions below zero have keys of their own, too. -/
theorem paddedSeq_injective_int : Function.Injective paddedSeq := by
  intro a b h
  cases a with
  | ofNat m =>
      cases b with
      | ofNat n => exact congrArg Int.ofNat (paddedSeq_injective h)
      | negSucc n =>
          refine absurd ?_ (minus_notMem_leftpad m seqWidth)
          rw [show (strNat m).leftpad seqWidth (.ofChar '0') = _ from h]
          exact List.mem_cons_self
  | negSucc m =>
      cases b with
      | ofNat n =>
          refine absurd ?_ (minus_notMem_leftpad n seqWidth)
          rw [show (strNat n).leftpad seqWidth (.ofChar '0') = _ from h.symm]
          exact List.mem_cons_self
      | negSucc n =>
          have hpad := congrArg ofDigits (List.cons.inj h).2
          rw [ofDigits_leftpad, ofDigits_leftpad] at hpad
          exact congrArg Int.negSucc (Nat.succ.inj hpad)

omit [Interpreter] in
theorem entryKey_injective_int : Function.Injective backend.entryKey := by
  intro a b h
  rw [S3Backend.entryKey, S3Backend.entryKey, List.append_left_inj, List.append_right_inj] at h
  exact paddedSeq_injective_int h

omit [Interpreter] in
/-- What the next entry of a linked trail has to say. -/
theorem Linked.nextLink_eq {es : List Entry} (h : Linked es) :
    nextLink es = ((es.length : ℤ), lastHash (es.map Entry.entryHash)) := by
  apply Prod.ext
  · exact nextLink_fst h
  · rw [nextLink, headHash_eq_getLast?, lastHash, List.getLast?_map]
    cases es.getLast? <;> rfl

/-- A bucket that holds a trail, read without a limit on integers. -/
theorem HoldsTrail.storedHashes {es : List Entry} (h : HoldsTrail backend bucket es)
    (hlimit : Interpreter.maxStrDigits = 0) :
    StoredHashes backend loadsBytes bucket (es.map Entry.entryHash) where
  object n hn := by
    rw [List.length_map] at hn
    refine ⟨storedBytes es[n], ?_, ?_⟩
    · rw [h.objects, List.getElem?_eq_getElem hn]
      rfl
    · rw [List.getElem_map]
      exact entryHashField_storedBytes (h.wellFormed.storable _ (List.getElem_mem hn))
  absent seq hseq := by
    rw [List.length_map] at hseq
    by_cases hneg : seq < 0
    · refine h.others _ (backend.entryKey_ne_headKey seq) fun n heq => ?_
      have := entryKey_injective_int heq
      omega
    · obtain ⟨n, rfl⟩ := Int.eq_ofNat_of_zero_le (not_lt.mp hneg)
      rw [h.objects, List.getElem?_eq_none (by omega)]
      rfl
  spelled n _ := by
    rw [tooLong, hlimit]
    rfl

/-- Every hint the backend wrote fits, however old it is. -/
theorem HoldsTrail.hint_fits {es : List Entry} (h : HoldsTrail backend bucket es) {body : Bytes}
    (hbody : body ∈ bucket backend.headKey) {hint : ℤ × PyStr}
    (hread : readHeadBy loadsBytes body = .ok hint) :
    HintFits (es.map Entry.entryHash) hint := by
  obtain ⟨e, he, rfl⟩ := h.heads body hbody
  have hhead : readHeadBy loadsBytes (headBody e) = .ok (e.header.seq, e.entryHash) :=
    readHead_headBody (h.wellFormed.storable e he)
  obtain rfl := Except.ok.inj (hhead.symm.trans hread)
  obtain ⟨n, hn⟩ := List.getElem?_of_mem he
  obtain ⟨hlt, hget⟩ := List.getElem?_eq_some_iff.mp hn
  have hseq := h.wellFormed.linked.seq_eq hn
  refine ⟨?_, ?_, ?_⟩
  · show -1 ≤ e.header.seq
    omega
  · show e.header.seq + 1 ≤ _
    rw [List.length_map]
    omega
  · intro hlast
    have hend : n = es.length - 1 := by
      rw [List.length_map] at hlast
      have hlast' : e.header.seq + 1 = es.length := hlast
      omega
    rw [lastHash, List.getLast?_map, List.getLast?_eq_getElem?, ← hend, hn]
    rfl

/-- **On the hints the backend wrote the tail is right.** -/
theorem HoldsTrail.tail_eq {es : List Entry} (h : HoldsTrail backend bucket es)
    (hlimit : Interpreter.maxStrDigits = 0) {head : Option Bytes}
    (hhead : ∀ body ∈ head, body ∈ bucket backend.headKey) :
    ∃ turns, backend.tail loadsBytes bucket head turns = some (.ok (nextLink es)) := by
  have hstored := h.storedHashes hlimit
  rw [h.wellFormed.linked.nextLink_eq, ← List.length_map (f := Entry.entryHash)]
  apply (hstored.probe_correct_iff _ _).mpr
  rw [Prod.mk.eta, hintFits_candidate_iff]
  intro body hbody hint hread
  exact h.hint_fits (hhead body hbody) hread

/-! ## Hints from elsewhere -/

/-- A bucket with one entry. -/
def loneEntry : Bucket :=
  Function.update (fun _ => []) (S3Backend.entryKey ⟨str "p"⟩ 0)
    [ascii "\x7b\"entry_hash\":\"a\"\x7d"]

omit [Interpreter] in
theorem storedHashes_loneEntry :
    letI := Interpreter.plain
    StoredHashes ⟨str "p"⟩ loadsDigits loneEntry [str "a"] := by
  let _ := Interpreter.plain
  constructor
  · intro n hn
    obtain rfl : n = 0 := Nat.lt_one_iff.mp hn
    refine ⟨ascii "\x7b\"entry_hash\":\"a\"\x7d", ?_, ?_⟩
    · show (loneEntry (S3Backend.entryKey ⟨str "p"⟩ 0)).head? = _
      rw [loneEntry, Function.update_self]
      rfl
    · show loadsDigits (ascii "\x7b\"entry_hash\":\"a\"\x7d") >>= entryHashField = .ok (str "a")
      decide +kernel
  · intro seq hseq
    rw [loneEntry, Function.update_of_ne]
    intro heq
    have hzero := entryKey_injective_int heq
    rw [hzero] at hseq
    exact absurd hseq (by decide)
  · intro n hn
    rcases Nat.le_one_iff_eq_zero_or_eq_one.mp hn with rfl | rfl <;> decide +kernel

omit [Interpreter] in
/-- A hint that is no JSON is passed over. -/
theorem tail_unreadable_hint :
    letI := Interpreter.plain
    ∃ turns, S3Backend.tail ⟨str "p"⟩ loadsDigits loneEntry (some (ascii "no JSON")) turns =
      some (.ok (1, str "a")) := by
  let _ := Interpreter.plain
  apply (tail_correct_iff storedHashes_loneEntry (some (ascii "no JSON"))).mpr
  intro body hbody hint hread
  obtain rfl := Option.some.inj hbody
  have herror : (readHeadBy loadsDigits (ascii "no JSON")).toOption = none := by decide +kernel
  rw [hread] at herror
  cases herror

omit [Interpreter] in
/-- **A hint is believed**: one past the end leaves a gap, one with a wrong hash breaks the link,
and one below the genesis starts over. -/
theorem tail_believes_hint :
    letI := Interpreter.plain
    S3Backend.tail ⟨str "p"⟩ loadsDigits loneEntry
        (some (ascii "\x7b\"seq\":5,\"entry_hash\":\"b\"\x7d")) 1 = some (.ok (6, str "b")) ∧
      S3Backend.tail ⟨str "p"⟩ loadsDigits loneEntry
        (some (ascii "\x7b\"seq\":0,\"entry_hash\":\"b\"\x7d")) 1 = some (.ok (1, str "b")) ∧
      S3Backend.tail ⟨str "p"⟩ loadsDigits loneEntry
        (some (ascii "\x7b\"seq\":-9,\"entry_hash\":\"b\"\x7d")) 1 = some (.ok (-8, str "b")) := by
  let _ := Interpreter.plain
  refine ⟨?_, ?_, ?_⟩ <;> decide +kernel

end Waxseal
