import Waxseal.Base.JsonDigits

/-!
# The limit on bodies

`api/_body_limit.py` of the server: `BodySizeLimitMiddleware` in front of the routes.  A body that
says how long it is is refused by what it says; one that does not is counted as it comes in, kept,
and played back to the route.

What a route gets of a body does not depend on how it was cut into messages, nor on which of the
two ways it took (`bodyLimit_exact`).
-/

namespace Waxseal

/-- `MAX_BODY_BYTES`. -/
def maxBodyBytes : ℕ := 1048576

/-! ## Messages -/

/-- The messages of a request still to come: the body of each and its `more_body`.  Behind them is
`http.disconnect`, as often as it is asked for, or nothing. -/
structure Connection where
  messages : List (Bytes × Bool)
  gone : Bool
  deriving DecidableEq

/-- What a route has of a body when it stops reading. -/
inductive BodyEnd where
  | complete
  /-- `ClientDisconnect`. -/
  | disconnected
  /-- It waits for a message. -/
  | waiting
  deriving DecidableEq

/-- A body as it is read, and how that ended. -/
structure BodyRead where
  bytes : Bytes
  ending : BodyEnd
  deriving DecidableEq

/-- `await request.body()`. -/
def readMessages (gone : Bool) : List (Bytes × Bool) → BodyRead
  | [] => ⟨[], if gone then .disconnected else .waiting⟩
  | (body, more) :: messages =>
      if more then
        let rest := readMessages gone messages
        ⟨body ++ rest.bytes, rest.ending⟩
      else ⟨body, .complete⟩

/-- What a route reads that is asked directly. -/
def Connection.read (c : Connection) : BodyRead := readMessages c.gone c.messages

/-- What becomes of a request. -/
inductive Passage where
  /-- `413`. -/
  | refused
  | raised (e : PyErr)
  /-- The route is called, with this to receive. -/
  | passed (c : Connection)
  /-- The next message is waited for. -/
  | waiting
  deriving DecidableEq

/-- What comes of the body of a request. -/
inductive Seen where
  | refused
  | raised (e : PyErr)
  /-- What the route reads. -/
  | read (body : BodyRead)
  /-- The route is not called yet. -/
  | waiting
  deriving DecidableEq

/-- What is seen behind the limit. -/
def Passage.seen : Passage → Seen
  | .refused => .refused
  | .raised e => .raised e
  | .passed c => .read c.read
  | .waiting => .waiting

/-! ## The middleware -/

/-- `str.isdigit()` of a header, which is Latin-1: the superscripts are digits. -/
def isDigitHeader (header : Bytes) : Bool :=
  !header.isEmpty && header.all fun b =>
    (0x30 ≤ b.toNat && b.toNat ≤ 0x39) || b.toNat == 0xB2 || b.toNat == 0xB3 || b.toNat == 0xB9

section

variable [Interpreter]

/-- `int(header)` of a header that is digits. -/
def intOfHeader (header : Bytes) : Except PyErr ℕ :=
  if header.all fun b => 0x30 ≤ b.toNat && b.toNat ≤ 0x39 then
    if tooLong header.length then .error .valueError
    else .ok (header.foldl (fun n (b : UInt8) => 10 * n + (b.toNat - 0x30)) 0)
  else .error .valueError

/-- `refuse_oversized_post(method, content_length)`: whether it refuses. -/
def refuseOversizedPost (method : PyStr) (contentLength : Option Bytes) : Except PyErr Bool :=
  if method ≠ str "POST" then .ok false
  else
    match contentLength with
    | none => .ok false
    | some header =>
        if isDigitHeader header then (intOfHeader header).map fun n => maxBodyBytes < n
        else .ok false

/-- The loop that counts: `chunks` is kept, `received` is its length. -/
def countBody (gone : Bool) (chunks : Bytes) (received : ℕ) : List (Bytes × Bool) → Passage
  | [] => if gone then .passed ⟨[], true⟩ else .waiting
  | (body, more) :: messages =>
      if maxBodyBytes < received + body.length then .refused
      else if more then countBody gone (chunks ++ body) (received + body.length) messages
      else .passed ⟨(chunks ++ body, false) :: messages, gone⟩

/-- `BodySizeLimitMiddleware.__call__`. -/
def bodySizeLimit (method : PyStr) (contentLength : Option Bytes) (c : Connection) : Passage :=
  match refuseOversizedPost method contentLength with
  | .error e => .raised e
  | .ok true => .refused
  | .ok false =>
      if method ≠ str "POST" then .passed c
      else if contentLength.any isDigitHeader then .passed c
      else countBody c.gone [] 0 c.messages

end

/-! ## What a route sees -/

/-- What a body comes to behind the limit: too much is refused, even if more is to come; of the rest
a route sees all of it, or only that the client has gone. -/
def BodyRead.within (body : BodyRead) : Seen :=
  if maxBodyBytes < body.bytes.length then .refused
  else
    match body.ending with
    | .complete => .read body
    | .disconnected => .read ⟨[], .disconnected⟩
    | .waiting => .waiting

theorem BodyRead.within_eq_refused_iff (body : BodyRead) :
    body.within = .refused ↔ maxBodyBytes < body.bytes.length := by
  rw [within]
  split_ifs with hlong
  · exact iff_of_true rfl hlong
  · refine iff_of_false ?_ hlong
    cases body.ending <;> simp

theorem BodyRead.eq_of_within_eq_read {body seen : BodyRead} (h : body.within = .read seen)
    (hcomplete : seen.ending = .complete) : seen = body := by
  rw [within] at h
  split_ifs at h
  cases hending : body.ending with
  | complete =>
      rw [hending] at h
      exact (Seen.read.inj h).symm
  | disconnected =>
      rw [hending] at h
      rw [← Seen.read.inj h] at hcomplete
      cases hcomplete
  | waiting =>
      rw [hending] at h
      cases h

/-- What a message does to a body. -/
theorem readMessages_more (gone : Bool) (body : Bytes) (messages : List (Bytes × Bool)) :
    readMessages gone ((body, true) :: messages) =
      ⟨body ++ (readMessages gone messages).bytes, (readMessages gone messages).ending⟩ := rfl

theorem length_le_readMessages (gone : Bool) (body : Bytes) (more : Bool)
    (messages : List (Bytes × Bool)) :
    body.length ≤ (readMessages gone ((body, more) :: messages)).bytes.length := by
  cases more with
  | false => exact le_refl _
  | true =>
      rw [readMessages_more, List.length_append]
      exact Nat.le_add_right _ _

/-- **The counting**, with `chunks` counted before. -/
theorem seen_countBody (gone : Bool) (messages : List (Bytes × Bool)) (chunks : Bytes)
    (hroom : chunks.length ≤ maxBodyBytes) :
    (countBody gone chunks chunks.length messages).seen =
      BodyRead.within ⟨chunks ++ (readMessages gone messages).bytes,
        (readMessages gone messages).ending⟩ := by
  induction messages generalizing chunks with
  | nil =>
      have hnot : ¬ maxBodyBytes < (chunks ++ ([] : Bytes)).length := by
        rw [List.append_nil]
        omega
      cases gone with
      | false => exact (if_neg hnot).symm
      | true => exact (if_neg hnot).symm
  | cons message messages ih =>
      obtain ⟨body, more⟩ := message
      rw [countBody]
      by_cases hlong : maxBodyBytes < chunks.length + body.length
      · -- it is refused here, and is over the limit however it goes on
        have hbody := length_le_readMessages gone body more messages
        rw [if_pos hlong, BodyRead.within, if_pos]
        · rfl
        · show maxBodyBytes < (chunks ++ _).length
          rw [List.length_append]
          omega
      · have hkept : (chunks ++ body).length = chunks.length + body.length := List.length_append
        rw [if_neg hlong]
        cases more with
        | false =>
            have hnot : ¬ maxBodyBytes < (chunks ++ body).length := by omega
            exact (if_neg hnot).symm
        | true =>
            have hnext := ih (chunks ++ body) (by omega)
            rw [hkept, List.append_assoc] at hnext
            exact hnext

variable [Interpreter]

/-- A body whose length is declared comes in whole, and is that long. -/
def LengthHolds (contentLength : Option Bytes) (c : Connection) : Prop :=
  ∀ header, contentLength = some header → isDigitHeader header = true →
    c.read.ending = .complete ∧ intOfHeader header = .ok c.read.bytes.length

/-- **Both ways** come to the same. -/
theorem seen_bodySizeLimit {contentLength : Option Bytes} {c : Connection}
    (hframed : LengthHolds contentLength c) :
    (bodySizeLimit (str "POST") contentLength c).seen = c.read.within := by
  have hpost : ¬ str "POST" ≠ str "POST" := not_not.mpr rfl
  have counted : contentLength.any isDigitHeader = false →
      refuseOversizedPost (str "POST") contentLength = .ok false →
      (bodySizeLimit (str "POST") contentLength c).seen = c.read.within := by
    intro hheader hpasses
    have hcount := seen_countBody c.gone c.messages [] (Nat.zero_le _)
    simp only [bodySizeLimit, hpasses, if_neg hpost, hheader]
    exact hcount
  cases contentLength with
  | none => exact counted rfl (if_neg hpost)
  | some header =>
      cases hdigits : isDigitHeader header with
      | false =>
          apply counted hdigits
          simp only [refuseOversizedPost, if_neg hpost, hdigits]
          rfl
      | true =>
          obtain ⟨hcomplete, hlength⟩ := hframed header rfl hdigits
          have hrefuse : refuseOversizedPost (str "POST") (some header) =
              .ok (decide (maxBodyBytes < c.read.bytes.length)) := by
            simp only [refuseOversizedPost, if_neg hpost, hdigits, hlength]
            rfl
          simp only [bodySizeLimit, hrefuse, BodyRead.within, hcomplete]
          by_cases hlong : maxBodyBytes < c.read.bytes.length
          · simp only [hlong, decide_true, if_true]
            rfl
          · simp only [hlong, decide_false, if_neg hpost, Option.any_some, hdigits, if_true, if_false]
            rfl

/-- **What a route gets of a body** is decided by the body: not by the messages it comes in, and not
by whether its length was declared.  It is refused if it is too long, and a route that reads a
complete body reads the one that was sent. -/
theorem bodyLimit_exact {contentLength contentLength' : Option Bytes} {c c' : Connection}
    (hframed : LengthHolds contentLength c) (hframed' : LengthHolds contentLength' c')
    (hsame : c.read = c'.read) :
    let seen := (bodySizeLimit (str "POST") contentLength c).seen
    seen = (bodySizeLimit (str "POST") contentLength' c').seen ∧
      (seen = .refused ↔ maxBodyBytes < c.read.bytes.length) ∧
      ∀ body, seen = .read body → body.ending = .complete → body = c.read := by
  intro seen
  have hseen : seen = c.read.within := seen_bodySizeLimit hframed
  rw [seen_bodySizeLimit hframed', ← hsame, hseen]
  exact ⟨rfl, c.read.within_eq_refused_iff,
    fun body hbody hcomplete => BodyRead.eq_of_within_eq_read hbody hcomplete⟩

omit [Interpreter] in
/-- A body of five bytes, in two messages and in one, without its length and with it. -/
theorem bodyLimit_exact_five :
    letI := Interpreter.plain
    (bodySizeLimit (str "POST") none ⟨[([0x61, 0x62], true), ([0x63, 0x64, 0x65], false)], true⟩).seen =
      (bodySizeLimit (str "POST") (some [0x35])
        ⟨[([0x61, 0x62, 0x63, 0x64, 0x65], false)], false⟩).seen := by
  let _ := Interpreter.plain
  have hsame : Connection.read ⟨[([0x61, 0x62], true), ([0x63, 0x64, 0x65], false)], true⟩ =
      Connection.read ⟨[([0x61, 0x62, 0x63, 0x64, 0x65], false)], false⟩ := rfl
  refine (bodyLimit_exact ?_ ?_ hsame).1
  · intro header hheader
    cases hheader
  · intro header hheader hdigits
    obtain rfl := Option.some.inj hheader
    exact ⟨rfl, rfl⟩

end Waxseal
