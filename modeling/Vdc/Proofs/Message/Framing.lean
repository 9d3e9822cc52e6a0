import Vdc.Proofs.Frame
import Vdc.Proofs.Message.RoundTrip

/-!
# Messages in a stream

`Message.Framed` says that some bytes are the frames of some messages, one after the other. Whoever
takes frames off the front of such bytes, or of the part of them that has arrived, finds texts of
these messages and nothing else, whatever limit he reads with (`Framed.exists_encode`). If the text
of a message is understood at all, it is understood as that message (`eq_of_decode`).
-/

namespace Vdc

namespace Message

/-- If the text of a message is understood at all, it is understood as that message. -/
theorem eq_of_decode {m m' : Message} {bytes : List UInt8} (hencode : m.encode = .ok bytes)
    (hdecode : decode bytes = .ok m') : m' = m := by
  have hfinite := isFinite_of_encode hencode
  obtain rfl : m.toJson.render = bytes := Except.ok.inj ((encode_eq_ok hfinite).symm.trans hencode)
  rw [decode_render hfinite] at hdecode
  split at hdecode
  · exact (Except.ok.inj hdecode).symm
  · cases hdecode

/-- Some bytes are the frames of some messages, one after the other. -/
inductive Framed (limit : Nat) : List Message → List UInt8 → Prop
  | nil : Framed limit [] []
  | cons {m : Message} {payload frame bytes : List UInt8} {messages : List Message}
      (hencode : m.encode = .ok payload) (hframe : Frame.serialize limit payload = .ok frame)
      (h : Framed limit messages bytes) : Framed limit (m :: messages) (frame ++ bytes)

namespace Framed

variable {limit : Nat} {messages messages' : List Message} {bytes bytes' : List UInt8}

theorem single {m : Message} {payload frame : List UInt8} (hencode : m.encode = .ok payload)
    (hframe : Frame.serialize limit payload = .ok frame) : Framed limit [m] frame := by
  have h := Framed.cons hencode hframe .nil
  rwa [List.append_nil] at h

theorem append (h : Framed limit messages bytes) (h' : Framed limit messages' bytes') :
    Framed limit (messages ++ messages') (bytes ++ bytes') := by
  induction h with
  | nil => exact h'
  | cons hencode hframe _ ih =>
    rw [List.cons_append, List.append_assoc]
    exact .cons hencode hframe ih

/-- Whatever is taken off the front of the frames of some messages is the text of one of them. -/
theorem exists_encode (h : Framed limit messages bytes) {limit' : Nat} {arrived rest : List UInt8}
    {taken : List (List UInt8)} (htaken : Frame.Taken limit' arrived taken rest)
    (hbegins : arrived <+: bytes) : ∀ payload ∈ taken, ∃ m ∈ messages, m.encode = .ok payload := by
  induction htaken generalizing messages bytes with
  | none => simp
  | @frame arrived payload rest payloads consumed hparse _ ih =>
    obtain ⟨more, rfl⟩ := hbegins
    have hfront := Frame.parse_append hparse more
    generalize hbytes : arrived ++ more = bytes at h hfront
    cases h with
    | nil => cases hfront
    | @cons m text frame bytes' messages hencode hframe h =>
      rw [Frame.parse_serialize hframe] at hfront
      split at hfront
      · cases hfront
      · obtain ⟨rfl, rfl⟩ := Frame.Parsed.complete.inj hfront
        have hrest : arrived.drop frame.length <+: bytes' := by
          have hdrop : (arrived ++ more).drop frame.length = arrived.drop frame.length ++ more :=
            List.drop_append_of_le_length (Frame.consumed_le hparse)
          rw [hbytes, List.drop_left] at hdrop
          exact ⟨more, hdrop.symm⟩
        refine List.forall_mem_cons.2 ⟨⟨m, List.mem_cons_self, hencode⟩, fun payload hmem => ?_⟩
        obtain ⟨m', hm', hencode'⟩ := ih h hrest payload hmem
        exact ⟨m', List.mem_cons_of_mem _ hm', hencode'⟩

/-- A message that is read from the frames of some messages is one of them. -/
theorem mem_of_decode (h : Framed limit messages bytes) {limit' : Nat}
    {arrived payload : List UInt8} (hbegins : arrived <+: bytes)
    (hpayload : payload ∈ Frame.payloads limit' arrived) {m : Message}
    (hdecode : decode payload = .ok m) : m ∈ messages := by
  obtain ⟨rest, htaken⟩ := Frame.taken_payloads limit' arrived
  obtain ⟨m', hm', hencode⟩ := h.exists_encode htaken hbegins payload hpayload
  rwa [eq_of_decode hencode hdecode]

end Framed

end Message

end Vdc
