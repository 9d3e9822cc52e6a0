import Mathlib.Data.List.Forall2
import Vdc.Proofs.Frame

/-!
# Frames from a stream that is still arriving

`incremental` says what a reader of frames can rely on at any moment, whatever has arrived by then.
The frames of some payloads, one after the other, are found in their order and nothing of what
follows them is touched. A frame that has not arrived whole is never taken for one or for a fault,
and the number of bytes that are asked for is the least that can complete it. What has arrived is a
fault from the two bytes of its length on, and no earlier.

Every statement here follows from how a frame is found, `parse_cons_cons`, and from the fact that
more bytes change neither a complete frame nor a fault.
-/

namespace Vdc.Frame

variable {limit consumed needed : Nat} {payload frame part bytes : List UInt8}

/-! ## Frames one after the other -/

/-- With the limit it was written with, a frame is found. -/
theorem parse_of_serialize (h : serialize limit payload = .ok frame) (rest : List UInt8) :
    parse limit (frame ++ rest) = .complete payload frame.length := by
  rw [parse_serialize h, if_neg (Nat.not_lt.2 (exists_of_serialize h).1)]

/-- The frames of some payloads are taken off the front of what they stand in, and what follows them
is left. -/
theorem taken_of_serialize {payloads frames : List (List UInt8)}
    (h : List.Forall₂ (fun payload frame => serialize limit payload = .ok frame) payloads frames)
    (rest : List UInt8) : Taken limit (frames.flatten ++ rest) payloads rest := by
  induction h with
  | nil => exact .none rest
  | @cons payload frame payloads frames hframe _ ih =>
    rw [List.flatten_cons, List.append_assoc]
    refine .frame (parse_of_serialize hframe _) ?_
    rwa [List.drop_left]

/-- They are found in their order, each with the bytes of its length and its payload. -/
theorem split_of_serialize {payloads frames : List (List UInt8)}
    (h : List.Forall₂ (fun payload frame => serialize limit payload = .ok frame) payloads frames)
    (rest : List UInt8) :
    split limit (frames.flatten ++ rest) =
      (payloads.map (fun payload => (payload, headerSize + payload.length)) ++
        (split limit rest).1, (split limit rest).2) := by
  induction h with
  | nil => rfl
  | @cons payload frame payloads frames hframe _ ih =>
    have hfront := parse_of_serialize hframe (frames.flatten ++ rest)
    have hconsumed : frame.length = headerSize + payload.length := by
      rw [length_of_serialize hframe, headerSize, Nat.add_comm]
    rw [List.flatten_cons, List.append_assoc, split_of_complete hfront, List.drop_left, ih,
      hconsumed, List.map_cons, List.cons_append]

/-! ## Frames that have not arrived whole -/

/-- Fewer bytes than a frame takes are neither a frame nor a fault. -/
theorem exists_incomplete_of_prefix (h : parse limit bytes = .complete payload consumed)
    (hpart : part <+: bytes) (hlength : part.length < consumed) :
    ∃ needed, parse limit part = .incomplete needed := by
  obtain ⟨more, rfl⟩ := hpart
  cases hparse : parse limit part with
  | incomplete needed => exact ⟨needed, rfl⟩
  | complete payload' consumed' =>
    -- What is complete stays so, and would have taken no more bytes than there are.
    have hsame := parse_append hparse more
    rw [h] at hsame
    cases hsame
    exact absurd (consumed_le hparse) (Nat.not_le.2 hlength)
  | invalid fault =>
    have hsame := parse_append_of_invalid hparse more
    rw [h] at hsame
    cases hsame

/-- Bytes that are not a frame yet lack a part of the header, or some of what it announces. -/
theorem cases_of_incomplete (h : parse limit bytes = .incomplete needed) :
    (bytes.length < headerSize ∧ needed = headerSize - bytes.length) ∨
      ∃ high low rest, bytes = high :: low :: rest ∧ announced high low ≤ limit ∧
        rest.length < announced high low ∧ needed = announced high low - rest.length := by
  match bytes, h with
  | [], h | [_], h =>
    cases h
    exact .inl ⟨by simp [headerSize], rfl⟩
  | high :: low :: rest, h =>
    rw [parse_cons_cons] at h
    split at h
    · cases h
    · next hlong =>
      split at h
      · next hshort =>
        cases h
        exact .inr ⟨high, low, rest, rfl, Nat.not_lt.1 hlong, hshort, rfl⟩
      · cases h

theorem needed_pos (h : parse limit bytes = .incomplete needed) : 0 < needed := by
  obtain ⟨hshort, rfl⟩ | ⟨high, low, rest, -, -, hshort, rfl⟩ := cases_of_incomplete h
  · exact Nat.sub_pos_of_lt hshort
  · exact Nat.sub_pos_of_lt hshort

/-- Fewer bytes than were asked for leave the frame incomplete, by as many as are still missing. -/
theorem parse_append_of_lt (h : parse limit bytes = .incomplete needed) {more : List UInt8}
    (hmore : more.length < needed) :
    parse limit (bytes ++ more) = .incomplete (needed - more.length) := by
  obtain ⟨-, rfl⟩ | ⟨high, low, rest, rfl, hlimit, -, rfl⟩ := cases_of_incomplete h
  · have hlength : (bytes ++ more).length < headerSize := by
      rw [List.length_append]
      omega
    rw [parse_of_short limit hlength, List.length_append, Nat.sub_sub]
  · have hlength : (rest ++ more).length < announced high low := by
      rw [List.length_append]
      omega
    rw [List.cons_append, List.cons_append, parse_cons_cons, if_neg (Nat.not_lt.2 hlimit),
      if_pos hlength, List.length_append, Nat.sub_sub]

/-- Behind a header, as many bytes as were asked for complete the frame, and all are in it. -/
theorem parse_append_of_eq (h : parse limit bytes = .incomplete needed)
    (hheader : headerSize ≤ bytes.length) {more : List UInt8} (hmore : more.length = needed) :
    parse limit (bytes ++ more) =
      .complete (bytes.drop headerSize ++ more) (bytes.length + needed) := by
  obtain ⟨hshort, -⟩ | ⟨high, low, rest, rfl, hlimit, hshort, hneeded⟩ := cases_of_incomplete h
  · exact absurd hshort (Nat.not_lt.2 hheader)
  · have hlength : (rest ++ more).length = announced high low := by
      rw [List.length_append]
      omega
    have hconsumed : headerSize + announced high low = (high :: low :: rest).length + needed := by
      simp only [headerSize, List.length_cons]
      omega
    rw [List.cons_append, List.cons_append, parse_cons_cons, if_neg (Nat.not_lt.2 hlimit),
      if_neg (by omega), List.take_of_length_le (Nat.le_of_eq hlength), hconsumed]
    rfl

/-- A payload that is found is within the limit, and is what stands behind the header in the bytes
that were there. -/
theorem within_of_complete (h : parse limit bytes = .complete payload consumed) :
    payload.length ≤ limit ∧ consumed ≤ bytes.length ∧
      payload = (bytes.take consumed).drop headerSize := by
  have hconsumed := consumed_le h
  obtain ⟨high, low, rest, rfl, hlimit, hrest, rfl, rfl⟩ := exists_of_complete h
  refine ⟨?_, hconsumed, ?_⟩
  · rwa [List.length_take_of_le hrest]
  · rw [Nat.add_comm]
    rfl

/-! ## All at once -/

/-- How frames are written and found, with a limit on the length of a payload. -/
structure Incremental (limit : Nat) : Prop where
  /-- A payload has a frame exactly if it is within the limit and its length fits two bytes. -/
  serialize_iff : ∀ payload, (∃ frame, serialize limit payload = .ok frame) ↔
    payload.length ≤ limit ∧ payload.length ≤ 65535
  /-- Frames one after the other are found in their order, each with all its bytes, and whatever
  follows them is left as it is. -/
  in_order : ∀ payloads frames,
    List.Forall₂ (fun payload frame => serialize limit payload = .ok frame) payloads frames →
      ∀ rest, Taken limit (frames.flatten ++ rest) payloads rest ∧
        split limit (frames.flatten ++ rest) =
          (payloads.map (fun payload => (payload, 2 + payload.length)) ++ (split limit rest).1,
            (split limit rest).2)
  /-- A part of a frame is incomplete. -/
  prefix_incomplete : ∀ payload frame, serialize limit payload = .ok frame →
    ∀ part, part <+: frame → part ≠ frame → ∃ needed, parse limit part = .incomplete needed
  /-- With fewer bytes more than are asked for it stays incomplete, -/
  needed_least : ∀ bytes needed, parse limit bytes = .incomplete needed → 0 < needed ∧
    ∀ more, more.length < needed →
      parse limit (bytes ++ more) = .incomplete (needed - more.length)
  /-- and with just as many, whatever they are, it is complete if there was a header. -/
  needed_enough : ∀ bytes needed, parse limit bytes = .incomplete needed → 2 ≤ bytes.length →
    ∀ more, more.length = needed →
      parse limit (bytes ++ more) = .complete (bytes.drop 2 ++ more) (bytes.length + needed)
  /-- Only a header that is there and announces more than the limit is invalid. -/
  invalid_iff : ∀ bytes, (∃ fault, parse limit bytes = .invalid fault) ↔
    ∃ high low rest, bytes = high :: low :: rest ∧ limit < high.toNat * 256 + low.toNat
  /-- What is found is within the limit, and within the bytes that are there. -/
  complete_within : ∀ bytes payload consumed, parse limit bytes = .complete payload consumed →
    payload.length ≤ limit ∧ consumed ≤ bytes.length ∧ payload = (bytes.take consumed).drop 2

/-- Frames are written and found piece by piece, whatever the limit is. -/
theorem incremental (limit : Nat) : Incremental limit where
  serialize_iff _ := exists_serialize_iff
  in_order _ _ hframes rest := ⟨taken_of_serialize hframes rest, split_of_serialize hframes rest⟩
  prefix_incomplete payload frame hframe part hpart hne := by
    have hwhole := parse_of_serialize hframe []
    rw [List.append_nil] at hwhole
    have hlength : part.length < frame.length :=
      Nat.lt_of_le_of_ne hpart.length_le fun heq => hne (hpart.eq_of_length heq)
    exact exists_incomplete_of_prefix hwhole hpart hlength
  needed_least _ _ h := ⟨needed_pos h, fun _ hmore => parse_append_of_lt h hmore⟩
  needed_enough _ _ h hheader _ hmore := parse_append_of_eq h hheader hmore
  invalid_iff bytes := by
    constructor
    · rintro ⟨fault, h⟩
      obtain ⟨high, low, rest, hbytes, hlong, -⟩ := parse_eq_invalid_iff.1 h
      exact ⟨high, low, rest, hbytes, hlong⟩
    · rintro ⟨high, low, rest, hbytes, hlong⟩
      exact ⟨_, parse_eq_invalid_iff.2 ⟨high, low, rest, hbytes, hlong, rfl⟩⟩
  complete_within _ _ _ h := within_of_complete h

end Vdc.Frame
