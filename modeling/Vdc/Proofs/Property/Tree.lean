import Vdc.Property.Tree

/-!
# Property trees read back

A tree written as elements is read back from them: a leaf has a value and no elements, a branch has
no value, so what is written is never refused. Only the tag of the tree is not part of its elements.

The other way round some elements are refused: those with one among them, at whatever depth, that
carries a value and elements of its own. All others are just what the tree that they are read as is
written to, `Node.toElements_of_ofElements?`. So the two forms of a property correspond to each
other, `Property.correspondence`.
-/

namespace Vdc

/-! ## Elements that are refused -/

/-- An element carries a value and elements of its own. -/
def Element.IsMixed (element : Element) : Prop := element.value ≠ none ∧ element.elements ≠ []

/-- An element stands among some elements or inside one of them, at whatever depth. -/
inductive Element.Inside (element : Element) : List Element → Prop
  | top {elements : List Element} (h : element ∈ elements) : Inside element elements
  | deeper {elements : List Element} {parent : Element} (hparent : parent ∈ elements)
      (h : Inside element parent.elements) : Inside element elements

theorem Element.Inside.mono {element : Element} {elements more : List Element}
    (h : element.Inside elements) (hmore : elements ⊆ more) : element.Inside more := by
  cases h with
  | top h => exact .top (hmore h)
  | deeper hparent h => exact .deeper (hmore hparent) h

namespace Node

variable {element : Element} {elements : List Element}

theorem toElements_eq_map (nodes : List Node) : toElements nodes = nodes.map toElement := by
  induction nodes with
  | nil => rfl
  | cons node rest ih => rw [toElements, ih, List.map_cons]

mutual

theorem ofElement?_toElement : ∀ node : Node, ofElement? node.toElement = .ok node
  | .leaf _ _ => rfl
  | .branch name children => by
    rw [toElement, ofElement?, ofElements?_toElements]
    rfl

/-- Nodes are read back from the elements that they are written as. -/
theorem ofElements?_toElements : ∀ nodes : List Node, ofElements? (toElements nodes) = .ok nodes
  | [] => rfl
  | node :: rest => by
    rw [toElements, ofElements?, ofElement?_toElement, ofElements?_toElements]
    rfl

end

/-- No element that a tree is written to is mixed. -/
theorem not_isMixed_of_inside (h : element.Inside elements) :
    ∀ nodes, elements = toElements nodes → ¬ element.IsMixed := by
  induction h with
  | top h =>
    rintro nodes rfl hmixed
    rw [toElements_eq_map] at h
    obtain ⟨node, -, rfl⟩ := List.mem_map.1 h
    cases node with
    | leaf => exact hmixed.2 rfl
    | branch => exact hmixed.1 rfl
  | deeper hparent h ih =>
    rintro nodes rfl
    rw [toElements_eq_map] at hparent
    obtain ⟨node, -, rfl⟩ := List.mem_map.1 hparent
    cases node with
    | leaf => exact ih [] rfl
    | branch name children => exact ih children rfl

mutual

theorem toElement_of_ofElement? : ∀ {element : Element} {node : Node},
    ofElement? element = .ok node → node.toElement = element
  | ⟨_, some _, []⟩, _, h => by
    obtain rfl := Except.ok.inj h
    rfl
  | ⟨_, some _, _ :: _⟩, _, h => by cases h
  | ⟨name, none, elements⟩, node, h => by
    rw [ofElement?] at h
    cases hnodes : ofElements? elements with
    | error e =>
      rw [hnodes] at h
      cases h
    | ok nodes =>
      rw [hnodes] at h
      obtain rfl := Except.ok.inj h
      rw [toElement, toElements_of_ofElements? hnodes]

/-- Elements that are read as nodes are what these are written to. -/
theorem toElements_of_ofElements? : ∀ {elements : List Element} {nodes : List Node},
    ofElements? elements = .ok nodes → toElements nodes = elements
  | [], _, h => by
    obtain rfl := Except.ok.inj h
    rfl
  | element :: rest, nodes, h => by
    rw [ofElements?] at h
    cases hnode : ofElement? element with
    | error e =>
      rw [hnode] at h
      cases h
    | ok node =>
      cases hnodes : ofElements? rest with
      | error e =>
        rw [hnode, hnodes] at h
        cases h
      | ok others =>
        rw [hnode, hnodes] at h
        obtain rfl := Except.ok.inj h
        rw [toElements, toElement_of_ofElement? hnode, toElements_of_ofElements? hnodes]

end

mutual

theorem exists_mixed_of_ofElement? : ∀ {element : Element} {e : Error},
    ofElement? element = .error e → ∃ mixed : Element, mixed.Inside [element] ∧ mixed.IsMixed ∧
      e = .protocol (.mixedElement mixed.name)
  | ⟨_, some _, []⟩, _, h => by cases h
  | ⟨name, some value, first :: rest⟩, _, h => by
    obtain rfl := Except.error.inj h
    exact ⟨_, .top List.mem_cons_self, ⟨by simp, by simp⟩, rfl⟩
  | ⟨name, none, elements⟩, e, h => by
    rw [ofElement?] at h
    cases hnodes : ofElements? elements with
    | error e' =>
      rw [hnodes] at h
      obtain rfl := Except.error.inj h
      obtain ⟨mixed, hinside, hmixed, he⟩ := exists_mixed_of_ofElements? hnodes
      exact ⟨mixed, .deeper List.mem_cons_self hinside, hmixed, he⟩
    | ok nodes =>
      rw [hnodes] at h
      cases h

/-- Only for a mixed element are elements refused, and its name is in the error. -/
theorem exists_mixed_of_ofElements? : ∀ {elements : List Element} {e : Error},
    ofElements? elements = .error e → ∃ mixed : Element, mixed.Inside elements ∧ mixed.IsMixed ∧
      e = .protocol (.mixedElement mixed.name)
  | [], _, h => by cases h
  | element :: rest, e, h => by
    rw [ofElements?] at h
    cases hnode : ofElement? element with
    | error e' =>
      rw [hnode] at h
      obtain rfl := Except.error.inj h
      obtain ⟨mixed, hinside, hmixed, he⟩ := exists_mixed_of_ofElement? hnode
      exact ⟨mixed, hinside.mono (by simp), hmixed, he⟩
    | ok node =>
      cases hnodes : ofElements? rest with
      | error e' =>
        rw [hnode, hnodes] at h
        obtain rfl := Except.error.inj h
        obtain ⟨mixed, hinside, hmixed, he⟩ := exists_mixed_of_ofElements? hnodes
        exact ⟨mixed, hinside.mono (List.subset_cons_self element rest), hmixed, he⟩
      | ok nodes =>
        rw [hnode, hnodes] at h
        cases h

end

end Node

namespace Property

/-- A tree is read back without its tag. -/
theorem ofElements?_toElements (p : Property) :
    ofElements? p.toElements = .ok ⟨reservedId, p.nodes⟩ := by
  rw [ofElements?, toElements, Node.ofElements?_toElements]
  rfl

theorem ofElements?_eq_ok_iff {elements : List Element} {p : Property} :
    ofElements? elements = .ok p ↔
      p.requestId = reservedId ∧ Node.ofElements? elements = .ok p.nodes := by
  rw [ofElements?]
  cases Node.ofElements? elements with
  | error e => exact iff_of_false nofun (fun h => nomatch h.2)
  | ok nodes =>
    constructor
    · intro h
      obtain rfl := Except.ok.inj h
      exact ⟨rfl, rfl⟩
    · rintro ⟨hid, hnodes⟩
      obtain ⟨id, nodes'⟩ := p
      obtain rfl : id = reservedId := hid
      obtain rfl : nodes = nodes' := Except.ok.inj hnodes
      rfl

/-- The two forms of properties. -/
structure Correspondence : Prop where
  /-- A tree is read back from its elements, without its tag, -/
  ofTree : ∀ p : Property, ofElements? p.toElements = .ok ⟨reservedId, p.nodes⟩
  /-- and these are made node by node, so that a tree that is given up for them makes the same. -/
  nodewise : ∀ p : Property, p.toElements = p.nodes.map Node.toElement
  /-- Elements are read if none among them, at whatever depth, is mixed, -/
  accepted : ∀ elements, (∃ p, ofElements? elements = .ok p) ↔
    ∀ element : Element, element.Inside elements → ¬ element.IsMixed
  /-- and what they are read as, which has no tag, is written to just these elements. -/
  toTree : ∀ elements p, ofElements? elements = .ok p →
    p.requestId = reservedId ∧ p.toElements = elements
  /-- All others are refused, with the name of a mixed element among them. -/
  refused : ∀ elements, (∃ element : Element, element.Inside elements ∧ element.IsMixed) →
    ∃ mixed : Element, mixed.Inside elements ∧ mixed.IsMixed ∧
      ofElements? elements = .error (.protocol (.mixedElement mixed.name))

/-- Trees without a tag and elements none of which is mixed correspond to each other. -/
theorem correspondence : Correspondence := by
  have hread : ∀ {elements : List Element} {p : Property}, ofElements? elements = .ok p →
      p.toElements = elements := fun h =>
    Node.toElements_of_ofElements? (ofElements?_eq_ok_iff.1 h).2
  have hmixed : ∀ {elements : List Element} {e : Error}, ofElements? elements = .error e →
      ∃ mixed : Element, mixed.Inside elements ∧ mixed.IsMixed ∧
        e = .protocol (.mixedElement mixed.name) := by
    intro elements e h
    rw [ofElements?] at h
    cases hnodes : Node.ofElements? elements with
    | error e' =>
      rw [hnodes] at h
      obtain rfl := Except.error.inj h
      exact Node.exists_mixed_of_ofElements? hnodes
    | ok nodes =>
      rw [hnodes] at h
      cases h
  have hplain : ∀ {elements : List Element} {p : Property}, ofElements? elements = .ok p →
      ∀ element : Element, element.Inside elements → ¬ element.IsMixed :=
    fun {elements p} h element hinside => Node.not_isMixed_of_inside hinside p.nodes (hread h).symm
  refine ⟨ofElements?_toElements, fun p => Node.toElements_eq_map p.nodes, ?_, ?_, ?_⟩
  · intro elements
    refine ⟨fun ⟨p, hp⟩ => hplain hp, fun h => ?_⟩
    cases htree : ofElements? elements with
    | ok p => exact ⟨p, rfl⟩
    | error e =>
      obtain ⟨mixed, hinside, hisMixed, -⟩ := hmixed htree
      exact absurd hisMixed (h mixed hinside)
  · exact fun elements p h => ⟨(ofElements?_eq_ok_iff.1 h).1, hread h⟩
  · rintro elements ⟨element, hinside, hisMixed⟩
    cases htree : ofElements? elements with
    | ok p => exact absurd hisMixed (hplain htree element hinside)
    | error e =>
      obtain ⟨mixed, hmixedInside, hmixedMixed, rfl⟩ := hmixed htree
      exact ⟨mixed, hmixedInside, hmixedMixed, rfl⟩

end Property

end Vdc
