import Vdc.Frame

/-!
# Frames of a stream

What a stream of frames means does not depend on how it was cut into reads: `parse_append` says that
a frame at the front of some bytes stays there when more bytes arrive, and the equations of
`payloads` take the frames off one after the other. `Taken` is the course of taking some of them
off.
-/

namespace Vdc.Frame

variable {limit consumed : Nat} {payload bytes more : List UInt8}

/-- The length of a payload that two bytes announce, the high one first. -/
def announced (high low : UInt8) : Nat := high.toNat * 256 + low.toNat

/-- Bytes that are too few for a header lack the rest of it. -/
theorem parse_of_short (limit : Nat) (h : bytes.length < headerSize) :
    parse limit bytes = .incomplete (headerSize - bytes.length) := by
  match bytes, h with
  | [], _ => rfl
  | [_], _ => rfl

/-- What is found behind a header depends on the length that it announces and on how much is
there. -/
theorem parse_cons_cons (limit : Nat) (high low : UInt8) (rest : List UInt8) :
    parse limit (high :: low :: rest) =
      if limit < announced high low then .invalid (.frameTooLong (announced high low) limit)
      else if rest.length < announced high low then .incomplete (announced high low - rest.length)
      else .complete (rest.take (announced high low)) (headerSize + announced high low) := by
  have hlength : length? limit high low =
      if limit < announced high low then .error (.frameTooLong (announced high low) limit)
      else .ok (announced high low) := rfl
  by_cases hlong : limit < announced high low
  · rw [parse, hlength, if_pos hlong, if_pos hlong]
  · rw [parse, hlength, if_neg hlong, if_neg hlong]
    by_cases hshort : rest.length < announced high low
    · have htake : rest.take (announced high low) = rest :=
        List.take_of_length_le (Nat.le_of_lt hshort)
      simp only [htake, if_pos hshort]
    · have htake : (rest.take (announced high low)).length = announced high low :=
        List.length_take_of_le (Nat.not_lt.1 hshort)
      simp only [htake, Nat.lt_irrefl, if_false, if_neg hshort]

/-- A frame that is found has a header, and as many bytes after it as that announces. -/
theorem exists_of_complete (h : parse limit bytes = .complete payload consumed) :
    ∃ high low rest, bytes = high :: low :: rest ∧ announced high low ≤ limit ∧
      announced high low ≤ rest.length ∧ payload = rest.take (announced high low) ∧
      consumed = headerSize + announced high low := by
  match bytes, h with
  | high :: low :: rest, h =>
    rw [parse_cons_cons] at h
    split at h
    · cases h
    · next hlong =>
      split at h
      · cases h
      · next hshort =>
        cases h
        exact ⟨high, low, rest, rfl, Nat.not_lt.1 hlong, Nat.not_lt.1 hshort, rfl, rfl⟩

/-- A complete frame lies within the bytes that it was found in. -/
theorem consumed_le (h : parse limit bytes = .complete payload consumed) :
    consumed ≤ bytes.length := by
  obtain ⟨high, low, rest, rfl, -, hrest, -, rfl⟩ := exists_of_complete h
  simp only [headerSize, List.length_cons]
  omega

/-- A frame is found alike whatever comes after it. -/
theorem parse_append (h : parse limit bytes = .complete payload consumed) (more : List UInt8) :
    parse limit (bytes ++ more) = .complete payload consumed := by
  obtain ⟨high, low, rest, rfl, hlimit, hrest, rfl, rfl⟩ := exists_of_complete h
  have hmore : ¬ (rest ++ more).length < announced high low := by
    rw [List.length_append]
    omega
  rw [List.cons_append, List.cons_append, parse_cons_cons, if_neg (Nat.not_lt.2 hlimit),
    if_neg hmore, List.take_append_of_le_length hrest]

/-- A length is out of range exactly if both of its bytes are there and announce more than the
limit. -/
theorem parse_eq_invalid_iff {fault : ProtocolFault} :
    parse limit bytes = .invalid fault ↔
      ∃ high low rest, bytes = high :: low :: rest ∧ limit < announced high low ∧
        fault = .frameTooLong (announced high low) limit := by
  constructor
  · intro h
    match bytes, h with
    | high :: low :: rest, h =>
      rw [parse_cons_cons] at h
      split at h
      · next hlong =>
        cases h
        exact ⟨high, low, rest, rfl, hlong, rfl⟩
      · split at h <;> cases h
  · rintro ⟨high, low, rest, rfl, hlong, rfl⟩
    rw [parse_cons_cons, if_pos hlong]

/-- A length out of range is found alike whatever comes after it. -/
theorem parse_append_of_invalid {fault : ProtocolFault} (h : parse limit bytes = .invalid fault)
    (more : List UInt8) : parse limit (bytes ++ more) = .invalid fault := by
  obtain ⟨high, low, rest, rfl, hlong, rfl⟩ := parse_eq_invalid_iff.1 h
  exact parse_eq_invalid_iff.2 ⟨high, low, rest ++ more, rfl, hlong, rfl⟩

/-- The frames of a stream are the one at its front and those of the rest. -/
theorem split_of_complete (h : parse limit bytes = .complete payload consumed) :
    split limit bytes =
      ((payload, consumed) :: (split limit (bytes.drop consumed)).1,
        (split limit (bytes.drop consumed)).2) := by
  rw [split]
  split
  · next payload' consumed' h' =>
    rw [h] at h'
    cases h'
    rfl
  · next hnone => exact absurd h (hnone payload consumed)

/-- The first payload of a stream is that of the frame at its front. -/
theorem payloads_of_complete (h : parse limit bytes = .complete payload consumed) :
    payloads limit bytes = payload :: payloads limit (bytes.drop consumed) := by
  rw [payloads, split_of_complete h, List.map_cons, payloads]

/-- Without a complete frame at its front a stream has no frames. -/
theorem split_of_ne_complete
    (h : ∀ payload consumed, parse limit bytes ≠ .complete payload consumed) :
    split limit bytes = ([], parse limit bytes) := by
  rw [split]
  split
  · next payload consumed hparse => exact absurd hparse (h payload consumed)
  · rfl

theorem payloads_eq_nil (h : ∀ payload consumed, parse limit bytes ≠ .complete payload consumed) :
    payloads limit bytes = [] := by
  rw [payloads, split_of_ne_complete h, List.map_nil]

/-- A payload has a frame exactly if it is within the limit and its length fits two bytes. -/
theorem exists_serialize_iff :
    (∃ frame, serialize limit payload = .ok frame) ↔
      payload.length ≤ limit ∧ payload.length ≤ maxLength := by
  simp only [serialize]
  split
  · next hlong => exact ⟨nofun, fun hfits => by omega⟩
  · next hshort => exact ⟨fun _ => by omega, fun _ => ⟨_, rfl⟩⟩

/-- A frame is its payload after the two bytes that announce its length. -/
theorem exists_of_serialize {frame : List UInt8} (h : serialize limit payload = .ok frame) :
    payload.length ≤ limit ∧
      ∃ high low, frame = high :: low :: payload ∧ announced high low = payload.length := by
  obtain ⟨hlimit, hmax⟩ := exists_serialize_iff.1 ⟨frame, h⟩
  have hhigh : (payload.length / 256).toUInt8.toNat = payload.length / 256 := by
    have hbound : payload.length / 256 < 256 := by
      simp only [maxLength] at hmax
      omega
    simpa [Nat.toUInt8] using hbound
  have hlow : (payload.length % 256).toUInt8.toNat = payload.length % 256 := by
    simp [Nat.toUInt8]
  simp only [serialize] at h
  split at h
  · cases h
  · refine ⟨hlimit, _, _, (Except.ok.inj h).symm, ?_⟩
    rw [announced, hhigh, hlow, Nat.div_add_mod']

theorem length_of_serialize {frame : List UInt8} (h : serialize limit payload = .ok frame) :
    frame.length = payload.length + 2 := by
  obtain ⟨-, high, low, rfl, -⟩ := exists_of_serialize h
  rfl

/-- A frame at the front of some bytes is found whatever comes after it, unless it is too long. -/
theorem parse_serialize {limit limit' : Nat} {payload frame : List UInt8}
    (h : serialize limit' payload = .ok frame) (rest : List UInt8) :
    parse limit (frame ++ rest) =
      if limit < payload.length then .invalid (.frameTooLong payload.length limit)
      else .complete payload frame.length := by
  obtain ⟨-, high, low, rfl, hlength⟩ := exists_of_serialize h
  have hrest : ¬ (payload ++ rest).length < payload.length := by
    rw [List.length_append]
    omega
  have hconsumed : headerSize + payload.length = (high :: low :: payload).length := by
    simp only [headerSize, List.length_cons]
    omega
  rw [List.cons_append, List.cons_append, parse_cons_cons, hlength, if_neg hrest, List.take_left,
    hconsumed]

/-- Frames were taken off the front of some bytes, one after the other, and a rest is left. -/
inductive Taken (limit : Nat) : List UInt8 → List (List UInt8) → List UInt8 → Prop
  | none (bytes : List UInt8) : Taken limit bytes [] bytes
  | frame {bytes payload rest : List UInt8} {payloads : List (List UInt8)} {consumed : Nat}
      (hparse : parse limit bytes = .complete payload consumed)
      (h : Taken limit (bytes.drop consumed) payloads rest) :
      Taken limit bytes (payload :: payloads) rest

namespace Taken

variable {rest : List UInt8} {taken : List (List UInt8)}

/-- What was taken off stays so when more bytes arrive. -/
theorem append (h : Taken limit bytes taken rest) (more : List UInt8) :
    Taken limit (bytes ++ more) taken (rest ++ more) := by
  induction h with
  | none bytes => exact .none _
  | @frame bytes payload rest payloads consumed hparse _ ih =>
    refine .frame (parse_append hparse more) ?_
    rwa [List.drop_append_of_le_length (consumed_le hparse)]

/-- One more frame is taken off. -/
theorem snoc (h : Taken limit bytes taken rest)
    (hparse : parse limit rest = .complete payload consumed) :
    Taken limit bytes (taken ++ [payload]) (rest.drop consumed) := by
  induction h with
  | none bytes => exact .frame hparse (.none _)
  | frame hfirst _ ih => exact .frame hfirst (ih hparse)

/-- More frames are taken off the rest. -/
theorem trans {rest' : List UInt8} {taken' : List (List UInt8)} (h : Taken limit bytes taken rest)
    (h' : Taken limit rest taken' rest') : Taken limit bytes (taken ++ taken') rest' := by
  induction h with
  | none bytes => exact h'
  | frame hparse _ ih => exact .frame hparse (ih h')

/-- The frames of a stream are those that were taken off and those of the rest. -/
theorem payloads_eq (h : Taken limit bytes taken rest) :
    payloads limit bytes = taken ++ payloads limit rest := by
  induction h with
  | none bytes => rfl
  | frame hparse _ ih => rw [payloads_of_complete hparse, ih, List.cons_append]

/-- The rest stands at the end of the bytes. -/
theorem suffix (h : Taken limit bytes taken rest) : rest <:+ bytes := by
  induction h with
  | none bytes => exact List.suffix_refl _
  | frame _ _ ih => exact ih.trans (List.drop_suffix _ _)

end Taken

/-- Frames can be taken off the front of some bytes until there is none. -/
theorem taken_payloads (limit : Nat) (bytes : List UInt8) :
    ∃ rest, Taken limit bytes (payloads limit bytes) rest := by
  induction hlength : bytes.length using Nat.strongRecOn generalizing bytes with
  | _ length ih =>
    cases hparse : parse limit bytes with
    | complete payload consumed =>
      have hshorter := length_drop_lt hparse
      obtain ⟨rest, hrest⟩ := ih _ (hlength ▸ hshorter) (bytes.drop consumed) rfl
      exact ⟨rest, payloads_of_complete hparse ▸ .frame hparse hrest⟩
    | incomplete | invalid =>
      have hnone : payloads limit bytes = [] := payloads_eq_nil (by simp [hparse])
      exact ⟨bytes, hnone ▸ .none bytes⟩

/-- Payloads that have arrived stay so when more bytes arrive. -/
theorem mem_payloads_append {limit : Nat} {bytes payload : List UInt8}
    (h : payload ∈ payloads limit bytes) (more : List UInt8) :
    payload ∈ payloads limit (bytes ++ more) := by
  obtain ⟨rest, htaken⟩ := taken_payloads limit bytes
  rw [(htaken.append more).payloads_eq]
  exact List.mem_append_left _ h

end Vdc.Frame
