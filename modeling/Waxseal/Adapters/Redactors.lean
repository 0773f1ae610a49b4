import Waxseal.Base.Json

/-!
# The regex redactor

`RegexRedactor` of `adapters/redactors.py`: which values of a payload it replaces.  What the
patterns make of one string is `redactText`, a parameter of everything here.
-/

namespace Waxseal

open Json

/-- `REDACTED`. -/
def redacted : PyStr := str "***REDACTED***"

/-- `SENSITIVE_KEYS`. -/
def sensitiveKeys : List PyStr :=
  [str "password", str "passwd", str "secret", str "token", str "api_key", str "apikey",
    str "access_key", str "private_key", str "credentials", str "authorization", str "auth",
    str "access_token", str "refresh_token", str "id_token", str "session_token",
    str "client_secret", str "aws_secret_access_key", str "aws_session_token", str "x-api-key",
    str "api-key", str "secret_key", str "auth_token", str "bearer_token", str "database_url",
    str "db_url", str "mongodb_uri", str "postgres_url", str "redis_url",
    str "aws_access_key_id", str "private-key"]

/-- `str.lower` of one character, as far as the result is ASCII: the Kelvin sign is the one
other character whose lowercase is an ASCII letter. -/
def lowerChar (c : CodePoint) : CodePoint :=
  if 0x41 ≤ c.val ∧ c.val ≤ 0x5A then ofUnit (c.val + 0x20)
  else if c.val = 0x212A then .ofChar 'k'
  else c

/-- `key.lower() in SENSITIVE_KEYS`. -/
def isSensitive (key : PyStr) : Bool := sensitiveKeys.contains (key.map lowerChar)

section

variable (redactText : PyStr → PyStr)

mutual

/-- `_walk(value)`. -/
def walkValue : Json → Json
  | .str s => .str (redactText s)
  | .obj members => .obj (redactMembers members)
  | .arr items => .arr (walkItems items)
  | value => value

/-- `_walk` of every item. -/
def walkItems : List Json → List Json
  | [] => []
  | item :: items => walkValue item :: walkItems items

/-- `_value(key, value)` of every member. -/
def redactMembers : List (PyStr × Json) → List (PyStr × Json)
  | [] => []
  | (key, value) :: members =>
      (key, if isSensitive key then .str redacted else walkValue value) :: redactMembers members

end

/-- What redaction makes of the value of a key. -/
theorem find?_redactMembers {key : PyStr} (hkey : isSensitive key = false)
    (members : List (PyStr × Json)) :
    (redactMembers redactText members).find? (fun m => m.1 = key) =
      (members.find? (fun m => m.1 = key)).map fun m => (m.1, walkValue redactText m.2) := by
  induction members with
  | nil => rfl
  | cons m members ih =>
      obtain ⟨k, value⟩ := m
      rw [redactMembers]
      by_cases hk : k = key
      · subst hk
        simp [hkey]
      · simp [hk, ih]

end

/-- `redactor.redact(payload)`, for a log with a redactor or without. -/
def redactPayload (redactor : Option (PyStr → PyStr)) (payload : Json) : Json :=
  match redactor with
  | none => payload
  | some redactText => walkValue redactText payload

end Waxseal
