import Vdc.Message.Codec
import Vdc.Proofs.Json.Length
import Vdc.Proofs.Number.Length

/-!
# How long messages are

A message is as long as its payload, and what is around that is bounded since ids and names of kinds
are. A generic response has nothing else of its own length, so it is short whatever it says.
-/

namespace Vdc

namespace Message

theorem length_id_le (id : RequestId) : (Digits.ofNat id.toNat).length ≤ 10 :=
  Digits.length_ofNat_le (by decide) (Nat.lt_trans id.toNat_lt (by decide))

/-- The text of a message with an id: the id, the kind and the payload, and what is around them. -/
theorem length_render {m : Message} (hid : m.id ≠ reservedId) : m.toJson.render.length =
    17 + (Digits.ofNat m.id.toNat).length + (Json.quote m.payload.kind.name).length +
      m.payload.toJson.render.length := by
  have hkey : (Json.quote "message_id").length = 12 := by decide
  have hnumber : (Json.ofNat m.id.toNat).render = Digits.ofNat m.id.toNat := rfl
  rw [toJson, Json.length_render_record ⟨_, List.mem_cons_of_mem _ List.mem_cons_self, rfl⟩,
    if_neg hid]
  simp only [List.map_cons, List.map_nil, List.sum_cons, List.sum_nil, Json.fieldLength,
    Option.elim_some, hkey, hnumber]
  omega

/-- Without an id the text is shorter. -/
theorem length_render_le (m : Message) : m.toJson.render.length ≤
    27 + (Json.quote m.payload.kind.name).length + m.payload.toJson.render.length := by
  by_cases hid : m.id = reservedId
  · rw [toJson, Json.length_render_record ⟨_, List.mem_cons_of_mem _ List.mem_cons_self, rfl⟩,
      if_pos hid]
    simp only [List.map_cons, List.map_nil, List.sum_cons, List.sum_nil, Json.fieldLength,
      Option.elim_none, Option.elim_some]
    omega
  · have hnumber := length_id_le m.id
    rw [length_render hid]
    omega

theorem length_genericResponse_le {id : RequestId} (hid : id ≠ reservedId) (code : ResultCode) :
    (genericResponse id code).toJson.render.length ≤ 200 := by
  have hpayload : (Payload.genericResponse code (some code.description)).toJson.render.length ≤
      150 := by
    cases code <;> decide +kernel
  have hkind : (Json.quote MessageKind.genericResponse.name).length = 18 := by decide
  have hnumber := length_id_le id
  have htext : (genericResponse id code).toJson.render.length = _ := length_render hid
  simp only [genericResponse, Payload.kind] at htext ⊢
  omega

end Message

/-- The message with which a tree answers its request. -/
def Property.message (tree : Property) : Message :=
  ⟨tree.requestId, .propertyResponse tree.toElements⟩

end Vdc
