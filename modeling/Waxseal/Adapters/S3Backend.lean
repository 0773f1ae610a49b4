import Mathlib.Logic.Function.Basic
import Waxseal.Adapters.Trail

/-!
# The S3 backend

`S3Backend.append` and `S3Backend._tail`, for any number of appenders of one trail.  An entry
is an object of its own, stored by a conditional `PUT` that only succeeds where there is no
object; an appender that loses the race looks for the tail again.

A step is one request of one appender, so any other request can come between two of them.
What comes back is up to the schedule: a read of `head.json` may be served by any version
that was ever written, and any request may fail, whether it had its effect or not.  An entry
object is read as it is stored, and the conditional `PUT` says whether it stored its own.

`Serialized` is what holds of the bucket in every run (`appends_serializable`).
-/

namespace Waxseal

open Json

/-! ## Keys -/

/-- `_MAX_RACE_RETRIES`. -/
def maxRaceRetries : ℕ := 32

/-- `_SEQ_WIDTH`. -/
def seqWidth : ℕ := 20

/-- `f"{seq:020d}"`. -/
def paddedSeq : ℤ → PyStr
  | .ofNat n => (strNat n).leftpad seqWidth (.ofChar '0')
  | .negSucc n => .ofChar '-' :: (strNat (n + 1)).leftpad (seqWidth - 1) (.ofChar '0')

/-- A backend: the `prefix` of its keys, without the slashes at its end. -/
structure S3Backend where
  keyPrefix : PyStr

/-- `_entry_key(seq)`. -/
def S3Backend.entryKey (backend : S3Backend) (seq : ℤ) : PyStr :=
  backend.keyPrefix ++ str "/entries/" ++ paddedSeq seq ++ str ".json"

/-- `_head_key()`. -/
def S3Backend.headKey (backend : S3Backend) : PyStr := backend.keyPrefix ++ str "/head.json"

theorem ofDigits_paddedSeq (n : ℕ) : ofDigits (paddedSeq n) = n := ofDigits_leftpad seqWidth n

theorem paddedSeq_injective {m n : ℕ} (h : paddedSeq m = paddedSeq n) : m = n := by
  rw [← ofDigits_paddedSeq m, h, ofDigits_paddedSeq]

theorem S3Backend.entryKey_injective {backend : S3Backend} {m n : ℕ}
    (h : backend.entryKey m = backend.entryKey n) : m = n := by
  rw [entryKey, entryKey, List.append_left_inj, List.append_right_inj] at h
  exact paddedSeq_injective h

theorem S3Backend.entryKey_ne_headKey (backend : S3Backend) (seq : ℤ) :
    backend.entryKey seq ≠ backend.headKey := by
  rw [entryKey, headKey, List.append_assoc, List.append_assoc, Ne, List.append_right_inj]
  intro h
  exact absurd (List.cons.inj (List.cons.inj h).2).1 (by decide)

/-! ## The bucket -/

/-- The bodies each key was given, the last one first. -/
abbrev Bucket := PyStr → List Bytes

namespace Bucket

/-- A `PUT`. -/
def put (bucket : Bucket) (key : PyStr) (body : Bytes) : Bucket :=
  Function.update bucket key (body :: bucket key)

/-- A `PUT` with `IfNoneMatch="*"`; `none` is `412 PreconditionFailed`. -/
def createIfAbsent (bucket : Bucket) (key : PyStr) (body : Bytes) : Option Bucket :=
  if bucket key = [] then some (bucket.put key body) else none

end Bucket

/-! ## Tails that were known -/

/-- What the next entry has to say, at some time of the trail so far. -/
def KnownTail (es : List Entry) (link : ℤ × PyStr) : Prop :=
  ∃ k ≤ es.length, link = nextLink (es.take k)

theorem KnownTail.nil (es : List Entry) : KnownTail es genesisLink := ⟨0, Nat.zero_le _, rfl⟩

theorem KnownTail.append {es : List Entry} {link : ℤ × PyStr} (h : KnownTail es link)
    (new : List Entry) : KnownTail (es ++ new) link := by
  obtain ⟨k, hk, rfl⟩ := h
  refine ⟨k, ?_, by rw [List.take_append_of_le_length hk]⟩
  rw [List.length_append]
  omega

/-- A stored entry is known by what its successor has to say. -/
theorem KnownTail.of_mem {es : List Entry} {e : Entry} (he : e ∈ es) : KnownTail es e.next := by
  obtain ⟨n, hn⟩ := List.getElem?_of_mem he
  obtain ⟨hlt, -⟩ := List.getElem?_eq_some_iff.mp hn
  exact ⟨n + 1, hlt, (nextLink_take_succ hn).symm⟩

/-- The object behind a tail that was known is the successor, if it is there; if it is not,
the tail is still the tail. -/
theorem KnownTail.successor {es : List Entry} {link : ℤ × PyStr} (hlinked : Linked es)
    (h : KnownTail es link) :
    ∃ n : ℕ, link.1 = n ∧ (∀ e, es[n]? = some e → KnownTail es e.next ∧ e.next.1 = link.1 + 1) ∧
      (es[n]? = none → link = nextLink es) := by
  obtain ⟨k, hk, rfl⟩ := h
  have hfst : (nextLink (es.take k)).1 = k := by
    rw [nextLink_fst (hlinked.take k), List.length_take_of_le hk]
  refine ⟨k, hfst, fun e he => ⟨.of_mem (List.mem_of_getElem? he), ?_⟩, fun hnone => ?_⟩
  · rw [Entry.next, hlinked.seq_eq he, hfst]
  · rw [List.take_of_length_le (List.getElem?_eq_none_iff.mp hnone)]

/-! ## Appenders -/

/-- Where an append is. -/
inductive S3State where
  /-- About to read `head.json`, with this many more tries behind this one. -/
  | reading (tries : ℕ)
  /-- About to look for the entry behind the one it knows. -/
  | probing (tries : ℕ) (seq : ℤ) (entryHash : PyStr)
  /-- About to store its entry. -/
  | storing (tries : ℕ) (nextSeq : ℤ) (entry : Entry) (body : Bytes)
  /-- About to write `head.json`. -/
  | hinting (entry : Entry)
  | returned (entry : Entry)
  | raised (e : PyErr)

/-- After `412`: the next turn of the loop, or its end. -/
def retry : ℕ → S3State
  | 0 => .raised .runtimeError
  | tries + 1 => .reading tries

/-- The entry an append knows to be its own. -/
def S3State.own : S3State → Option Entry
  | .hinting entry | .returned entry => some entry
  | .reading _ | .probing _ _ _ | .storing _ _ _ _ | .raised _ => none

theorem own_retry (tries : ℕ) : (retry tries).own = none := by
  cases tries <;> rfl

/-- An append, with what its `build` does at each try. -/
structure S3Append where
  build : ℕ → Builder
  state : S3State

/-- The bucket, and the appends so far. -/
structure S3World where
  bucket : Bucket
  appends : List S3Append

/-- What a request gets back. -/
inductive S3Reply where
  /-- An answer; one from `head.json` is this many versions old. -/
  | served (age : ℕ)
  /-- An error that is neither `404` nor `412`; the request may have had its effect. -/
  | failed (e : PyErr) (landed : Bool)

/-- What happens next: another append, or the next request of one of them. -/
inductive S3Step where
  | append (build : ℕ → Builder)
  | request (i : ℕ) (reply : S3Reply)

variable [Interpreter]

/-- The members of `head.json`. -/
def headMembers (entry : Entry) : List (PyStr × Json) :=
  [(str "seq", .int entry.header.seq), (str "entry_hash", .str entry.entryHash)]

/-- The body of `head.json`. -/
def headBody (entry : Entry) : Bytes := asciiBytes (dumps .spaced (.obj (headMembers entry)))

/-- What `_tail` takes from `head.json`. -/
def readHead (body : Bytes) : Except PyErr (ℤ × PyStr) := do
  let head ← loadsBytes body
  let seq ← pyInt (← getItem head (str "seq"))
  return (seq, pyStr (← getItem head (str "entry_hash")))

/-- The version of `head.json` a reply serves. -/
def S3Reply.version (versions : List Bytes) : S3Reply → Option Bytes
  | .served age => versions[age]?
  | .failed _ _ => none

/-- What `_tail` starts from: any exception makes it probe from the genesis. -/
def S3Backend.candidate (backend : S3Backend) (bucket : Bucket) (reply : S3Reply) : ℤ × PyStr :=
  match (reply.version (bucket backend.headKey)).map readHead with
  | some (.ok head) => head
  | some (.error _) | none => (-1, genesisPrevHash)

/-- What an append does with a tail: the entry and the body to store. -/
def buildBody (build : Builder) (nextSeq : ℤ) (prevHash : PyStr) : Except PyErr (Entry × Bytes) := do
  let entry ← build.build nextSeq prevHash
  let line ← entryLine entry
  return (entry, asciiBytes line)

namespace S3Backend

/-- A request of an append, and where its reply leads. -/
def request (backend : S3Backend) (build : ℕ → Builder) (bucket : Bucket) :
    S3State → S3Reply → Bucket × S3State
  | .reading tries, reply =>
      (bucket, .probing tries (backend.candidate bucket reply).1 (backend.candidate bucket reply).2)
  | .probing _ _ _, .failed e _ => (bucket, .raised e)
  | .probing tries seq entryHash, .served _ =>
      match (bucket (backend.entryKey (seq + 1))).head? with
      | some body =>
          match loadsBytes body >>= entryHashField with
          | .ok entryHash => (bucket, .probing tries (seq + 1) entryHash)
          | .error e => (bucket, .raised e)
      | none =>
          match buildBody (build tries) (seq + 1) entryHash with
          | .ok (entry, body) => (bucket, .storing tries (seq + 1) entry body)
          | .error e => (bucket, .raised e)
  | .storing tries nextSeq entry body, .served _ =>
      match bucket.createIfAbsent (backend.entryKey nextSeq) body with
      | some bucket => (bucket, .hinting entry)
      | none => (bucket, retry tries)
  | .storing _ nextSeq _ body, .failed e landed =>
      (if landed then (bucket.createIfAbsent (backend.entryKey nextSeq) body).getD bucket
        else bucket, .raised e)
  | .hinting entry, .served _ => (bucket.put backend.headKey (headBody entry), .returned entry)
  | .hinting entry, .failed _ landed =>
      (if landed then bucket.put backend.headKey (headBody entry) else bucket, .returned entry)
  | .returned entry, _ => (bucket, .returned entry)
  | .raised e, _ => (bucket, .raised e)

/-- One step. -/
def step (backend : S3Backend) (w : S3World) : S3Step → S3World
  | .append build => { w with appends := w.appends ++ [⟨build, retry maxRaceRetries⟩] }
  | .request i reply =>
      match w.appends[i]? with
      | none => w
      | some append =>
          let out := backend.request append.build w.bucket append.state reply
          ⟨out.1, w.appends.set i { append with state := out.2 }⟩

/-- A run on a bucket without objects. -/
def run (backend : S3Backend) (steps : List S3Step) : S3World :=
  steps.foldl backend.step ⟨fun _ => [], []⟩

end S3Backend

/-! ## Reading back -/

theorem loadsBytes_headBody {entry : Entry} (h : Storable entry) :
    loadsBytes (headBody entry) = .ok (.obj (headMembers entry)) := by
  have hkeys : [str "seq", str "entry_hash"].Nodup := by decide
  have hone : Writable 1 (.obj (headMembers entry)) := by
    refine ⟨hkeys, ?_⟩
    simp only [headMembers, List.forall_mem_cons, List.not_mem_nil, false_imp_iff, implies_true,
      and_true]
    exact ⟨⟨noSurrogatePair_str rfl, trivial⟩, noSurrogatePair_str rfl, h.entryHash⟩
  have hwritable : Writable recursionLimit (.obj (headMembers entry)) :=
    hone.mono (le_trans (by decide) Interpreter.recursionLimit_large)
  have hdecode := @decode_dumps_append _ .spaced _ hwritable []
  rw [List.append_nil, if_pos (show skipWs [] = [] from rfl)] at hdecode
  rw [headBody, loadsBytes_printable (isPrintable_dumps hwritable), hdecode]

/-- `head.json` says where the entry it was written for is, and its hash. -/
theorem readHead_headBody {entry : Entry} (h : Storable entry) :
    readHead (headBody entry) = .ok (entry.header.seq, entry.entryHash) := by
  rw [readHead, loadsBytes_headBody h]
  rfl

theorem entryHashField_storedBytes {entry : Entry} (h : Storable entry) :
    loadsBytes (storedBytes entry) >>= entryHashField = .ok entry.entryHash := by
  rw [loadsBytes_storedBytes h]
  exact entryHashField_storedMembers entry

/-- An object gives back the entry it was stored for. -/
theorem fromObj_storedBytes {entry : Entry} (h : Storable entry) :
    loadsBytes (storedBytes entry) >>= fromObj = .ok entry := by
  rw [loadsBytes_storedBytes h]
  exact fromObj_storedMembers h.payload

theorem storedBytes_ne_headBody {e e' : Entry} (h : Storable e) (h' : Storable e') :
    storedBytes e ≠ headBody e' := by
  intro heq
  have hread := fromObj_storedBytes h
  rw [heq, loadsBytes_headBody h'] at hread
  cases hread

theorem buildBody_eq_ok {build : Builder} {nextSeq : ℤ} {prevHash : PyStr} {entry : Entry}
    {body : Bytes} (h : buildBody build nextSeq prevHash = .ok (entry, body)) :
    entry.backLink = (nextSeq, prevHash) ∧ Storable entry ∧ body = storedBytes entry := by
  obtain ⟨built, hbuild, h⟩ := bind_eq_ok_iff.mp h
  obtain ⟨line, hline, h⟩ := bind_eq_ok_iff.mp h
  obtain ⟨rfl, rfl⟩ := Prod.mk.inj (Except.ok.inj h)
  rw [(entryLine_ok hline).2]
  exact ⟨build.linked hbuild, build.storable hbuild, rfl⟩

/-! ## What holds of the bucket -/

/-- What an append rests on: a tail the trail has had, or its entry being stored. -/
def S3State.Knows (es : List Entry) : S3State → Prop
  | .reading _ | .raised _ => True
  | .probing _ seq entryHash => KnownTail es (seq + 1, entryHash)
  | .storing _ nextSeq entry body =>
      KnownTail es entry.backLink ∧ entry.header.seq = nextSeq ∧ Storable entry ∧
        body = storedBytes entry
  | .hinting entry | .returned entry => entry ∈ es

/-- The bucket holds a trail: an object for each of its entries, and heads of its entries. -/
structure HoldsTrail (backend : S3Backend) (bucket : Bucket) (es : List Entry) : Prop where
  wellFormed : WellFormed es
  objects : ∀ n : ℕ, bucket (backend.entryKey n) = (es[n]?.map storedBytes).toList
  others : ∀ key, key ≠ backend.headKey → (∀ n : ℕ, key ≠ backend.entryKey n) → bucket key = []
  heads : ∀ body ∈ bucket backend.headKey, ∃ e ∈ es, body = headBody e

theorem S3State.Knows.append {es : List Entry} {state : S3State} (h : state.Knows es)
    (new : List Entry) : state.Knows (es ++ new) := by
  cases state with
  | reading tries | raised e => trivial
  | probing tries seq entryHash => exact KnownTail.append h new
  | storing tries nextSeq entry body => exact ⟨h.1.append new, h.2⟩
  | hinting entry | returned entry => exact List.mem_append_left new h

theorem knows_retry (es : List Entry) (tries : ℕ) : (retry tries).Knows es := by
  cases tries <;> trivial

section Requests

variable {backend : S3Backend} {bucket : Bucket} {es : List Entry}

/-- The trail starts out empty. -/
theorem holds_nil : HoldsTrail backend (fun _ => []) [] where
  wellFormed := wellFormed_nil
  objects := fun _ => rfl
  others := fun _ _ _ => rfl
  heads := nofun

/-- Whatever `head.json` says, or does not say, was the tail once. -/
theorem knownTail_candidate (h : HoldsTrail backend bucket es) (reply : S3Reply) :
    KnownTail es ((backend.candidate bucket reply).1 + 1, (backend.candidate bucket reply).2) := by
  rw [S3Backend.candidate]
  cases hversion : reply.version (bucket backend.headKey) with
  | none => exact KnownTail.nil es
  | some body =>
      have hmem : body ∈ bucket backend.headKey := by
        cases reply with
        | served age => exact List.mem_of_getElem? hversion
        | failed e landed => cases hversion
      obtain ⟨e, he, rfl⟩ := h.heads body hmem
      rw [Option.map_some, readHead_headBody (h.wellFormed.storable e he)]
      exact KnownTail.of_mem he

/-- **The conditional `PUT`** of an entry built on a tail that was known stores it only if
that tail is still the tail. -/
theorem HoldsTrail.create (h : HoldsTrail backend bucket es) {entry : Entry}
    (htail : KnownTail es entry.backLink) (hstorable : Storable entry) {bucket' : Bucket}
    (hcreate : bucket.createIfAbsent (backend.entryKey entry.header.seq) (storedBytes entry)
      = some bucket') : HoldsTrail backend bucket' (es ++ [entry]) := by
  obtain ⟨n, hn, -, htip⟩ := htail.successor h.wellFormed.linked
  have hseq : entry.header.seq = n := hn
  rw [hseq, Bucket.createIfAbsent] at hcreate
  split_ifs at hcreate with habsent
  obtain rfl := (Option.some.inj hcreate).symm
  have hnone : es[n]? = none := by
    rw [h.objects, Option.toList_eq_nil_iff, Option.map_eq_none_iff] at habsent
    exact habsent
  have hlink : entry.backLink = nextLink es := htip hnone
  have hlen : es.length = n := by
    have := nextLink_fst h.wellFormed.linked
    rw [← hlink] at this
    have hcast : (n : ℤ) = es.length := hn.symm.trans this
    omega
  have hhead : backend.headKey ≠ backend.entryKey n := (backend.entryKey_ne_headKey n).symm
  refine ⟨wellFormed_append_singleton.mpr ⟨h.wellFormed, hlink, hstorable⟩, fun m => ?_,
    fun key hkey hentry => ?_, fun body hbody => ?_⟩
  · rw [Bucket.put]
    by_cases hm : m = n
    · subst hm
      rw [Function.update_self, habsent, ← hlen, List.getElem?_concat_length]
      rfl
    · rw [Function.update_of_ne (fun heq => hm (S3Backend.entryKey_injective heq)), h.objects,
        List.getElem?_append]
      split_ifs with hlt
      · rfl
      · rw [List.getElem?_eq_none (by omega), List.getElem?_eq_none (by simp; omega)]
  · rw [Bucket.put, Function.update_of_ne (hentry n)]
    exact h.others key hkey hentry
  · rw [Bucket.put, Function.update_of_ne hhead] at hbody
    obtain ⟨e, he, rfl⟩ := h.heads body hbody
    exact ⟨e, List.mem_append_left _ he, rfl⟩

/-- The hint may be written at any time. -/
theorem HoldsTrail.hint (h : HoldsTrail backend bucket es) {entry : Entry} (hentry : entry ∈ es) :
    HoldsTrail backend (bucket.put backend.headKey (headBody entry)) es where
  wellFormed := h.wellFormed
  objects := fun n => by
    rw [Bucket.put, Function.update_of_ne (backend.entryKey_ne_headKey n), h.objects]
  others := fun key hkey hne => by
    rw [Bucket.put, Function.update_of_ne hkey, h.others key hkey hne]
  heads := fun body hbody => by
    rw [Bucket.put, Function.update_self, List.mem_cons] at hbody
    rcases hbody with rfl | hbody
    · exact ⟨entry, hentry, rfl⟩
    · exact h.heads body hbody

/-- **One request.**  The trail keeps its entries.  If the request stores an entry, it is the
one the append was about to store, and only then does the append come to own one. -/
theorem request_holds (h : HoldsTrail backend bucket es) (build : ℕ → Builder) {state : S3State}
    (hstate : state.Knows es) (reply : S3Reply) :
    ∃ new : List Entry,
      HoldsTrail backend (backend.request build bucket state reply).1 (es ++ new) ∧
      (backend.request build bucket state reply).2.Knows (es ++ new) ∧
      ∀ e, (backend.request build bucket state reply).2.own = some e →
        state.own = some e ∨ e ∈ new := by
  have stays : ∀ {bucket' : Bucket} {after : S3State}, HoldsTrail backend bucket' es →
      after.Knows es → (∀ e, after.own = some e → state.own = some e) →
      ∃ new : List Entry, HoldsTrail backend bucket' (es ++ new) ∧ after.Knows (es ++ new) ∧
        ∀ e, after.own = some e → state.own = some e ∨ e ∈ new := by
    intro bucket' after hholds hknows hown
    refine ⟨[], ?_, ?_, fun e he => .inl (hown e he)⟩
    · rwa [List.append_nil]
    · rwa [List.append_nil]
  cases state with
  | reading tries => exact stays h (knownTail_candidate h reply) nofun
  | probing tries seq entryHash =>
      cases reply with
      | failed e landed => exact stays h trivial nofun
      | served age =>
          obtain ⟨n, hn, hfound, hmissing⟩ := KnownTail.successor h.wellFormed.linked hstate
          have hseq : seq + 1 = n := hn
          have hhead : (bucket (backend.entryKey (seq + 1))).head? = es[n]?.map storedBytes := by
            rw [hseq, h.objects]
            cases es[n]? <;> rfl
          rw [S3Backend.request, hhead]
          cases hentry : es[n]? with
          | some e =>
              have hstorable := h.wellFormed.storable e (List.mem_of_getElem? hentry)
              obtain ⟨htail, hnext⟩ := hfound e hentry
              rw [Option.map_some]
              simp only [entryHashField_storedBytes hstorable]
              refine stays h ?_ nofun
              have hlink : (seq + 1 + 1, e.entryHash) = e.next := Prod.ext hnext.symm rfl
              rw [S3State.Knows, hlink]
              exact htail
          | none =>
              rw [Option.map_none]
              cases hbuild : buildBody (build tries) (seq + 1) entryHash with
              | error e => exact stays h trivial nofun
              | ok built =>
                  obtain ⟨hlink, hstorable, hbody⟩ := buildBody_eq_ok hbuild
                  refine stays h ⟨?_, congrArg Prod.fst hlink, hstorable, hbody⟩ nofun
                  rw [hlink]
                  exact hstate
  | storing tries nextSeq entry body =>
      obtain ⟨htail, rfl, hstorable, rfl⟩ := hstate
      cases hcreate : bucket.createIfAbsent (backend.entryKey entry.header.seq)
          (storedBytes entry) with
      | none =>
          cases reply with
          | served age =>
              rw [S3Backend.request, hcreate]
              refine stays h (knows_retry es tries) fun e he => ?_
              rw [own_retry] at he
              cases he
          | failed e landed =>
              rw [S3Backend.request, hcreate, Option.getD_none, ite_self]
              exact stays h trivial nofun
      | some bucket' =>
          have hstored := h.create htail hstorable hcreate
          cases reply with
          | served age =>
              rw [S3Backend.request, hcreate]
              refine ⟨[entry], hstored, List.mem_append_right _ List.mem_cons_self, ?_⟩
              intro e he
              obtain rfl := Option.some.inj he
              exact .inr List.mem_cons_self
          | failed e landed =>
              rw [S3Backend.request, hcreate, Option.getD_some]
              cases landed with
              | false => exact stays h trivial nofun
              | true => exact ⟨[entry], hstored, trivial, nofun⟩
  | hinting entry =>
      cases reply with
      | served age => exact stays (h.hint hstate) hstate fun e he => he
      | failed e landed =>
          cases landed with
          | false => exact stays h hstate fun e he => he
          | true => exact stays (h.hint hstate) hstate fun e he => he
  | returned entry => exact stays h hstate fun e he => he
  | raised e => exact stays h trivial nofun

end Requests

/-! ## Runs -/

/-- An append knows its entry to be stored, and no other append does. -/
structure SoundWorld (backend : S3Backend) (w : S3World) (es : List Entry) : Prop where
  holds : HoldsTrail backend w.bucket es
  knows : ∀ append ∈ w.appends, append.state.Knows es
  distinct : ∀ (i j : ℕ) (a b : S3Append) (e : Entry), w.appends[i]? = some a →
    w.appends[j]? = some b → a.state.own = some e → b.state.own = some e → i = j

theorem S3State.Knows.mem_of_own {es : List Entry} {state : S3State} (h : state.Knows es)
    {e : Entry} (he : state.own = some e) : e ∈ es := by
  cases state with
  | hinting entry | returned entry =>
      obtain rfl := Option.some.inj he
      exact h
  | reading tries | probing tries seq entryHash | storing tries nextSeq entry body | raised e =>
      cases he

/-- **One step** keeps the entries that are stored. -/
theorem SoundWorld.step {backend : S3Backend} {w : S3World} {es : List Entry}
    (h : SoundWorld backend w es) (s : S3Step) : ∃ new, SoundWorld backend (backend.step w s) (es ++ new) := by
  cases s with
  | append build =>
      refine ⟨[], ?_⟩
      rw [List.append_nil]
      refine ⟨h.holds, ?_, ?_⟩
      · rw [S3Backend.step, List.forall_mem_append, List.forall_mem_singleton]
        exact ⟨h.knows, trivial⟩
      · intro i j a b e ha hb hae hbe
        -- The new append owns nothing yet.
        have old : ∀ {k : ℕ} {c : S3Append}, c.state.own = some e →
            (w.appends ++ [⟨build, retry maxRaceRetries⟩])[k]? = some c →
            w.appends[k]? = some c := by
          intro k c hown hk
          rw [List.getElem?_append] at hk
          split_ifs at hk with hlt
          · exact hk
          · obtain rfl := List.mem_singleton.mp (List.mem_of_getElem? hk)
            rw [own_retry] at hown
            cases hown
        exact h.distinct i j a b e (old hae ha) (old hbe hb) hae hbe
  | request i reply =>
      cases hi : w.appends[i]? with
      | none =>
          refine ⟨[], ?_⟩
          rw [List.append_nil, S3Backend.step, hi]
          exact h
      | some append =>
          obtain ⟨new, hholds, hknows, hown⟩ := request_holds h.holds append.build
            (h.knows append (List.mem_of_getElem? hi)) reply
          refine ⟨new, ?_⟩
          rw [S3Backend.step, hi]
          refine ⟨hholds, ?_, ?_⟩
          · intro other hother
            rcases List.mem_or_eq_of_mem_set hother with hother | rfl
            · exact (h.knows other hother).append new
            · exact hknows
          · -- An entry the request stored is not among those that were stored before.
            have fresh : ∀ {j : ℕ} {c : S3Append} {e : Entry}, w.appends[j]? = some c →
                c.state.own = some e →
                (backend.request append.build w.bucket append.state reply).2.own = some e →
                i = j := by
              intro j c e hj hce he
              rcases hown e he with hbefore | hnew
              · exact h.distinct i j append c e hi hj hbefore hce
              · have hmem : e ∈ es := (h.knows c (List.mem_of_getElem? hj)).mem_of_own hce
                exact absurd hnew (hholds.wellFormed.linked.disjoint hmem)
            have moved : ∀ {c : S3Append}, (w.appends.set i { append with
                state := (backend.request append.build w.bucket append.state reply).2 })[i]?
                  = some c →
                c.state = (backend.request append.build w.bucket append.state reply).2 := by
              intro c hc
              rw [List.getElem?_set_self (List.getElem?_eq_some_iff.mp hi).1] at hc
              rw [← Option.some.inj hc]
            intro j k a b e ha hb hae hbe
            by_cases hj : i = j
            · subst hj
              by_cases hk : i = k
              · exact hk
              · rw [moved ha] at hae
                rw [List.getElem?_set_ne hk] at hb
                exact fresh hb hbe hae
            · rw [List.getElem?_set_ne hj] at ha
              by_cases hk : i = k
              · subst hk
                rw [moved hb] at hbe
                exact (fresh ha hae hbe).symm
              · rw [List.getElem?_set_ne hk] at hb
                exact h.distinct j k a b e ha hb hae hbe

theorem sound_nil (backend : S3Backend) : SoundWorld backend ⟨fun _ => [], []⟩ [] where
  holds := holds_nil
  knows := fun _ h => absurd h List.not_mem_nil
  distinct := fun i j a b e ha => by
    rw [List.getElem?_nil] at ha
    cases ha

/-- **Any run** of any number of appends. -/
theorem sound_run (backend : S3Backend) (steps : List S3Step) :
    ∃ es, SoundWorld backend (backend.run steps) es := by
  induction steps using List.reverseRecOn with
  | nil => exact ⟨[], sound_nil backend⟩
  | append_singleton steps s ih =>
      obtain ⟨es, hes⟩ := ih
      rw [S3Backend.run, List.foldl_append]
      obtain ⟨new, hnew⟩ := hes.step s
      exact ⟨es ++ new, hnew⟩

/-- The bodies under which an entry is stored. -/
theorem HoldsTrail.mem_iff {backend : S3Backend} {bucket : Bucket} {es : List Entry}
    (h : HoldsTrail backend bucket es) {e : Entry} (he : e ∈ es) {key : PyStr} :
    storedBytes e ∈ bucket key ↔ ∃ n : ℕ, key = backend.entryKey n ∧ es[n]? = some e := by
  have hstorable := h.wellFormed.storable
  constructor
  · intro hmem
    by_cases hhead : key = backend.headKey
    · obtain ⟨e', he', heq⟩ := h.heads _ (hhead ▸ hmem)
      exact absurd heq (storedBytes_ne_headBody (hstorable e he) (hstorable e' he'))
    · by_cases hentry : ∃ n : ℕ, key = backend.entryKey n
      · obtain ⟨n, rfl⟩ := hentry
        rw [h.objects, Option.mem_toList, Option.map_eq_some_iff] at hmem
        obtain ⟨e', he', heq⟩ := hmem
        have hread := fromObj_storedBytes (hstorable e' (List.mem_of_getElem? he'))
        rw [heq, fromObj_storedBytes (hstorable e he)] at hread
        exact ⟨n, rfl, (Except.ok.inj hread).symm ▸ he'⟩
      · rw [h.others key hhead (not_exists.mp hentry)] at hmem
        exact absurd hmem List.not_mem_nil
  · rintro ⟨n, rfl, hn⟩
    rw [h.objects, hn]
    exact List.mem_singleton_self _

/-- **Appends are serializable.**  Whatever the interleaving, the objects under the keys of
entries are those of one linked trail from position 0 on.  What an append returned is an
entry of it, stored under exactly one key of the bucket, and no other append returned it. -/
theorem appends_serializable (backend : S3Backend) (steps : List S3Step) :
    ∃ es : List Entry,
      (∀ n : ℕ, (backend.run steps).bucket (backend.entryKey n)
        = (es[n]?.map storedBytes).toList) ∧
      (∀ key, (backend.run steps).bucket key ≠ [] →
        key = backend.headKey ∨ ∃ n < es.length, key = backend.entryKey n) ∧
      (∀ (n : ℕ) (e : Entry), es[n]? = some e →
        e.header.seq = n ∧ e.header.prevHash = ((es.take n).getLast?.map Entry.entryHash).getD
          genesisPrevHash) ∧
      (∀ (i : ℕ) (build : ℕ → Builder) (e : Entry),
        (backend.run steps).appends[i]? = some ⟨build, .returned e⟩ →
          e ∈ es ∧ (∃! key, storedBytes e ∈ (backend.run steps).bucket key) ∧
          ∀ (j : ℕ) (build' : ℕ → Builder),
            (backend.run steps).appends[j]? = some ⟨build', .returned e⟩ → i = j) := by
  obtain ⟨es, h⟩ := sound_run backend steps
  have hlinked := h.holds.wellFormed.linked
  refine ⟨es, h.holds.objects, fun key hkey => ?_, fun n e he => ?_, fun i build e hi => ?_⟩
  · by_cases hhead : key = backend.headKey
    · exact .inl hhead
    · by_cases hentry : ∃ n : ℕ, key = backend.entryKey n
      · obtain ⟨n, rfl⟩ := hentry
        refine .inr ⟨n, ?_, rfl⟩
        by_contra hlt
        rw [h.holds.objects, List.getElem?_eq_none (not_lt.mp hlt)] at hkey
        exact hkey rfl
      · exact absurd (h.holds.others key hhead (not_exists.mp hentry)) hkey
  · refine ⟨hlinked.seq_eq he, ?_⟩
    have hprev : e.header.prevHash = (nextLink (es.take n)).2 :=
      congrArg Prod.snd (hlinked.backLink_eq he)
    rw [hprev, nextLink, headHash_eq_getLast?]
    cases (es.take n).getLast? <;> rfl
  · have hmem : e ∈ es := (h.knows _ (List.mem_of_getElem? hi)).mem_of_own rfl
    obtain ⟨n, hn⟩ := List.getElem?_of_mem hmem
    refine ⟨hmem, ⟨backend.entryKey n, (h.holds.mem_iff hmem).mpr ⟨n, rfl, hn⟩, ?_⟩, ?_⟩
    · intro key hkey
      obtain ⟨m, rfl, hm⟩ := (h.holds.mem_iff hmem).mp hkey
      rw [hlinked.index_unique hm hn]
    · exact fun j build' hj => h.distinct i j _ _ e hi hj rfl rfl

end Waxseal
