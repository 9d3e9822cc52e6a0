import Vdc.Error

/-!
# Frames

A frame is the length of its payload in two bytes, the high one first, and then the payload.
`Frame.parse` looks at the front of what has arrived and says how many bytes are missing at least,
or that the length is more than is accepted; `Frame.payloads` is what repeating it on the rest
yields, the meaning of a stream of frames.
-/

namespace Vdc.Frame

/-- The bytes of the length in front of a payload. -/
def headerSize : Nat := 2

/-- The longest payload that a length can announce. -/
def maxLength : Nat := 65535

/-- What stands at the front of some bytes. -/
inductive Parsed where
  | complete (payload : List UInt8) (consumed : Nat)
  | incomplete (needed : Nat)
  | invalid (fault : ProtocolFault)
deriving DecidableEq, Repr

/-- The length that a header announces, if it is within the limit. -/
def length? (limit : Nat) (high low : UInt8) : Except ProtocolFault Nat :=
  let length := high.toNat * 256 + low.toNat
  if limit < length then .error (.frameTooLong length limit) else .ok length

/-- Looks for a frame at the front of some bytes. -/
def parse (limit : Nat) : List UInt8 → Parsed
  | [] => .incomplete headerSize
  | [_] => .incomplete (headerSize - 1)
  | high :: low :: rest =>
    match length? limit high low with
    | .error fault => .invalid fault
    | .ok length =>
      let payload := rest.take length
      if payload.length < length then .incomplete (length - payload.length)
      else .complete payload (headerSize + length)

/-- The frame of a payload, if it is within the limit. -/
def serialize (limit : Nat) (payload : List UInt8) : Except Error (List UInt8) :=
  let length := payload.length
  if limit < length ∨ maxLength < length then
    .error (.protocol (.payloadTooLong length limit))
  else .ok ((length / 256).toUInt8 :: (length % 256).toUInt8 :: payload)

/-- A frame takes bytes off the front, so reading frames comes to an end. -/
theorem length_drop_lt {limit consumed : Nat} {payload bytes : List UInt8}
    (h : parse limit bytes = .complete payload consumed) :
    (bytes.drop consumed).length < bytes.length := by
  unfold parse at h
  split at h
  · cases h
  · cases h
  · next high low rest =>
    split at h
    · cases h
    · dsimp only at h
      split at h
      · cases h
      · cases h; simp [headerSize]; omega

/-- The frames at the front of some bytes, each with the bytes it took, and what stands after
them. -/
def split (limit : Nat) (bytes : List UInt8) : List (List UInt8 × Nat) × Parsed :=
  match _h : parse limit bytes with
  | .complete payload consumed =>
    let (frames, last) := split limit (bytes.drop consumed)
    ((payload, consumed) :: frames, last)
  | last => ([], last)
termination_by bytes.length
decreasing_by exact length_drop_lt _h

/-- The payloads of the frames at the front of some bytes. -/
def payloads (limit : Nat) (bytes : List UInt8) : List (List UInt8) :=
  (split limit bytes).1.map (·.1)

end Vdc.Frame
