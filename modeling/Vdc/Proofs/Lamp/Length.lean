import Mathlib.Algebra.Order.BigOperators.Group.List
import Mathlib.Algebra.Order.Group.Nat
import Vdc.Lamp.Basic
import Vdc.Proofs.Message.Length
import Vdc.Proofs.Number.Length
import Vdc.Proofs.Property.Element
import Vdc.Proofs.Property.Tree

/-!
# How long the answers of the lamp are

An answer with properties is as long as the nodes in it, and of the nodes of the lamp only one has no
bound of its own: the name, which is whatever it was set to. So an answer that is not asked for the
name is short, as generic responses are, `Message.length_genericResponse_le`.
-/

namespace Vdc

/-- The bytes that a node takes in a list of nodes, with the one that follows it there. -/
def Node.extent (node : Node) : Nat := (node.toElement.toJson.render).length + 1

/-- A value that is a text takes 13 bytes more than the text. -/
theorem Value.length_render_string (text : String) :
    (Value.string text).toJson.render.length = 13 + (Json.quote text).length := by
  have hkey : (Json.quote "v_string").length = 10 := by decide
  rw [toJson, Json.length_render_object (List.cons_ne_nil _ _)]
  simp only [List.map_cons, List.map_nil, List.sum_cons, List.sum_nil, hkey, Json.render]
  omega

theorem Node.extent_leaf (name : String) (value : Value) : (leaf (some name) value).extent =
    19 + (Json.quote name).length + value.toJson.render.length := by
  have hname : (Json.quote "name").length = 6 := by decide
  have hvalue : (Json.quote "value").length = 7 := by decide
  rw [extent, toElement, Element.toJson, Json.length_render_record ⟨_, List.mem_cons_self, rfl⟩]
  simp only [List.map_cons, List.map_nil, List.sum_cons, List.sum_nil, Json.fieldLength,
    Option.map_some, Option.elim_some, List.isEmpty_nil, if_true, Option.elim_none, Json.render,
    hname, hvalue]
  omega

theorem Node.extent_branch (name : String) {children : List Node} (h : children ≠ []) :
    (branch (some name) children).extent =
      23 + (Json.quote name).length + (children.map extent).sum := by
  have hname : (Json.quote "name").length = 6 := by decide
  have helements : (Json.quote "elements").length = 10 := by decide
  have hchildren : (toElements children).isEmpty = false := by
    rw [toElements_eq_map, List.isEmpty_eq_false_iff]
    exact mt List.map_eq_nil_iff.1 h
  have hitems : Element.listToJson (toElements children) ≠ [] := by
    rw [Element.listToJson_eq_map, toElements_eq_map]
    simpa using h
  have hsum : (Element.listToJson (toElements children)).map (fun item => item.render.length + 1) =
      children.map extent := by
    rw [Element.listToJson_eq_map, toElements_eq_map, List.map_map, List.map_map]
    rfl
  rw [extent, toElement, Element.toJson, Json.length_render_record ⟨_, List.mem_cons_self, rfl⟩]
  simp only [List.map_cons, List.map_nil, List.sum_cons, List.sum_nil, Json.fieldLength,
    Option.map_some, Option.elim_some, Option.map_none, Option.elim_none, hchildren,
    Bool.false_eq_true, if_false, Json.length_render_array hitems, hsum, hname, helements]
  simp only [Json.render]
  omega

/-- The text of a property response with some nodes in it. -/
theorem Property.length_message {tree : Property} (hid : tree.requestId ≠ reservedId)
    (h : tree.nodes ≠ []) :
    tree.message.toJson.render.length =
      60 + (Digits.ofNat tree.requestId.toNat).length + (tree.nodes.map Node.extent).sum := by
  have hkind : (Json.quote MessageKind.propertyResponse.name).length = 27 := by decide
  have hproperties : (Json.quote "properties").length = 12 := by decide
  have hitems : tree.toElements.map Element.toJson ≠ [] := by
    rw [Property.toElements, Node.toElements_eq_map]
    simpa using h
  have hfield : Payload.elementsField tree.toElements =
      some (.array (tree.toElements.map Element.toJson)) := by
    rw [Payload.elementsField, Json.unlessEmpty, if_neg]
    simpa using hitems
  have hsum : (tree.toElements.map Element.toJson).map (fun item => item.render.length + 1) =
      tree.nodes.map Node.extent := by
    rw [Property.toElements, Node.toElements_eq_map, List.map_map, List.map_map]
    rfl
  have htext : tree.message.toJson.render.length = _ := Message.length_render hid
  rw [htext]
  simp only [Property.message, Payload.kind, Payload.toJson, hkind]
  rw [Json.length_render_record ⟨_, List.mem_cons_self, by rw [hfield]; rfl⟩]
  simp only [List.map_cons, List.map_nil, List.sum_cons, List.sum_nil, Json.fieldLength, hfield,
    Option.elim_some, Json.length_render_array hitems, hsum, hproperties]
  omega

theorem Property.length_message_le {tree : Property} (hid : tree.requestId ≠ reservedId) :
    tree.message.toJson.render.length ≤ 70 + (tree.nodes.map Node.extent).sum := by
  have hnumber := Message.length_id_le tree.requestId
  by_cases h : tree.nodes = []
  · have hpayload : (Payload.propertyResponse tree.toElements).toJson.render.length = 2 := by
      rw [Property.toElements, h]
      decide
    have hkind : (Json.quote MessageKind.propertyResponse.name).length = 27 := by decide
    have htext : tree.message.toJson.render.length = _ := Message.length_render hid
    simp only [Property.message, Payload.kind, hkind, hpayload] at htext ⊢
    omega
  · rw [length_message hid h]
    omega

namespace Lamp

/-! ## The nodes in an answer -/

/-- Whether a query asks for the property with a name: for all properties, or for that one. -/
def wants (query : Property) (name : Option String) : Bool :=
  query.nodes.isEmpty || (name.bind query.find?).isSome

theorem answer_eq (query response : Property) (properties : List Node) :
    answer query response properties = { response with
      nodes := response.nodes ++ properties.filter fun node => wants query node.name } := by
  have hfoldl (nodes : List Node) (tree : Property) :
      nodes.foldl Property.push tree = { tree with nodes := tree.nodes ++ nodes } := by
    induction nodes generalizing tree with
    | nil => simp
    | cons node rest ih => rw [List.foldl_cons, ih, Property.push, List.append_assoc]; rfl
  exact hfoldl _ response

theorem extents_filter_le (p : Node → Bool) (nodes : List Node) :
    ((nodes.filter p).map Node.extent).sum ≤ (nodes.map Node.extent).sum :=
  (List.filter_sublist.map _).sum_le_sum fun _ _ => Nat.zero_le _

/-- The length of each node of the lamp. -/
theorem extents_properties (lamp : Lamp) : lamp.properties.map Node.extent =
    [38 + (Json.quote lamp.name).length, 118, 166,
      112 + (Json.ofDouble lamp.brightness).render.length] := by
  have hone : (Value.uint 1).toJson.render.length = 14 := by decide +kernel
  have hfive : (Value.uint 5).toJson.render.length = 14 := by decide +kernel
  have hzero : (Value.uint 0).toJson.render.length = 14 := by decide +kernel
  have hdouble : (Value.double lamp.brightness).toJson.render.length =
      13 + (Json.ofDouble lamp.brightness).render.length := by
    have hkey : (Json.quote "v_double").length = 10 := by decide
    rw [Value.toJson, Json.length_render_object (List.cons_ne_nil _ _)]
    simp only [List.map_cons, List.map_nil, List.sum_cons, List.sum_nil, hkey]
    omega
  have hkeys : (Json.quote "name").length = 6 ∧ (Json.quote "outputSettings").length = 16 ∧
      (Json.quote "group").length = 7 ∧ (Json.quote "mode").length = 6 ∧
      (Json.quote "buttonInputSettings").length = 21 ∧ (Json.quote "function").length = 10 ∧
      (Json.quote "channelStates").length = 15 ∧ (Json.quote "brightness").length = 12 ∧
      (Json.quote "value").length = 7 := by
    decide +kernel
  simp only [properties, List.map_cons, List.map_nil, List.sum_cons, List.sum_nil,
    Node.extent_leaf, Node.extent_branch _ (List.cons_ne_nil _ _), hone, hfive, hzero,
    Value.length_render_string, hdouble, hkeys]
  simp only [List.cons.injEq, and_true]
  omega

/-- All that is asked of the lamp but its name is short. -/
theorem extents_wanted_le (lamp : Lamp) (query : Property)
    (hfinite : lamp.brightness.isFinite = true) :
    ((lamp.properties.filter fun node => wants query node.name).map Node.extent).sum ≤
      2227 + if wants query (some "name") then (Json.quote lamp.name).length else 0 := by
  obtain ⟨v, hv⟩ : ∃ v, lamp.brightness = .finite v := by
    cases hbrightness : lamp.brightness with
    | finite v => exact ⟨v, rfl⟩
    | _ =>
      rw [hbrightness] at hfinite
      cases hfinite
  have hdouble : (Json.ofDouble lamp.brightness).render.length ≤ 1793 := by
    rw [hv]
    exact v.length_toText_le
  -- The name comes first; what is asked of the rest is no longer than all of it.
  obtain ⟨rest, hproperties⟩ :
      ∃ rest, lamp.properties = .leaf (some "name") (.string lamp.name) :: rest := ⟨_, rfl⟩
  have hextents := lamp.extents_properties
  rw [hproperties, List.map_cons, List.cons.injEq] at hextents
  obtain ⟨hname, hrest⟩ := hextents
  have hfilter := extents_filter_le (fun node => wants query node.name) rest
  rw [hrest] at hfilter
  simp only [List.sum_cons, List.sum_nil] at hfilter
  have hleaf : (Node.leaf (some "name") (.string lamp.name)).name = some "name" := rfl
  rw [hproperties, List.filter_cons, hleaf]
  by_cases hwants : wants query (some "name") = true
  · rw [if_pos hwants, if_pos hwants, List.map_cons, List.sum_cons, hname]
    omega
  · rw [if_neg hwants, if_neg hwants]
    omega

theorem extents_container_le (query : Property) :
    ((containerProperties.filter fun node => wants query node.name).map Node.extent).sum ≤ 200 :=
  Nat.le_trans (extents_filter_le _ _) (by decide +kernel)

end Lamp

end Vdc
