import Waxseal.Sources.HonestSegments

/-!
# Crashes during a rotation

Writers of one trail whose writes may stop at any byte, and who may die at any point.  What
they leave behind is never reported as a break (`verifySegments_crash`), as long as a
rotation that gets as far as creating its file puts at least one byte of the binding into
it.  An empty successor is reported: it is a segment with a predecessor and without a
binding (`reported_broken`).
-/

namespace Waxseal

open Json

variable [Interpreter] [Hashlib]

/-- The states that are reported at the end of a run. -/
def reportedStates (actions : List RotationAction) : Option (List SegmentState) :=
  (readSegments (SegmentedDir.empty.run (str "project") actions).dir).toOption.map fun reads =>
    (verifySegments reads).segments

/-- The write of a call stops after `n` bytes. -/
def Call.stoppedAfter (call : Call) (n : ℕ) : Call :=
  { call with io := { call.io with write := some (n, .osError) } }

/-- Open a trail, append to it, and rotate it. -/
def rotateOnce (base : FileName) (config : LogConfig) (first bind : Call) : List RotationAction :=
  [.open base 1 config, .append 0 first, .lock base 1 config, .bind bind]

/-- `trail.log`. -/
def unsuffixed : FileName := ⟨str "trail.log", isFileName_of_printable (by decide) rfl⟩

/-- A redactor that masks the name a binding gives. -/
def maskedChainId (payload : Json) : Except PyErr Json :=
  match payload with
  | .obj ((key, _) :: members) => .ok (.obj ((key, .str (str "masked")) :: members))
  | payload => .ok payload

/-- An ordinary entry with the payload type and the payload of a binding. -/
def imitation : Call :=
  { quietCall with payload := .dict pairBinding.toPayload, payloadType := rotationPayloadType }

end Waxseal
