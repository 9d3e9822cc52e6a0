import Vdc.Property.Element

/-!
# Property trees

A tree is a list of nodes, and a node holds either a value or further nodes. A tree that is handed
out for a request carries the id of that request; every other tree carries the reserved id `0`.
Only `Property.forRequest` makes a tagged tree, and the operations that build on a tree keep its
tag, so a tag always stems from a request.

The two forms of a property are in bijection where both exist: `toElements` is total, and
`ofElements?` refuses exactly the elements that carry a value and nested elements at once.
-/

namespace Vdc

/-- The id that marks a message without a reply. -/
def reservedId : UInt32 := 0

/-- A node of a property tree. -/
inductive Node where
  | leaf (name : Option String) (value : Value)
  | branch (name : Option String) (children : List Node)
deriving Repr, Inhabited

namespace Node

/-- The name of a node. -/
def name : Node → Option String
  | .leaf name _ => name
  | .branch name _ => name

/-- The value of a leaf. -/
def value? : Node → Option Value
  | .leaf _ value => some value
  | .branch _ _ => none

/-- The nodes inside a branch. -/
def children? : Node → Option (List Node)
  | .leaf _ _ => none
  | .branch _ children => some children

/-- What a node holds. -/
def kind : Node → ValueKind
  | .leaf _ value => value.kind
  | .branch _ _ => .nested

mutual

/-- Equality of nodes, doubles compared as numbers. -/
def same : Node → Node → Bool
  | .leaf n v, .leaf m w => n == m && v.same w
  | .branch n as, .branch m bs => n == m && sameList as bs
  | _, _ => false

/-- Equality of lists of nodes, doubles compared as numbers. -/
def sameList : List Node → List Node → Bool
  | [], [] => true
  | a :: as, b :: bs => same a b && sameList as bs
  | _, _ => false

end

mutual

/-- The wire form of a node. -/
def toElement : Node → Element
  | .leaf name value => ⟨name, some value, []⟩
  | .branch name children => ⟨name, none, toElements children⟩

/-- The wire forms of some nodes. -/
def toElements : List Node → List Element
  | [] => []
  | node :: rest => toElement node :: toElements rest

end

mutual

/-- The node of an element; an element with a value and nested elements is refused. -/
def ofElement? : Element → Except Error Node
  | ⟨name, some value, []⟩ => .ok (.leaf name value)
  | ⟨name, some _, _ :: _⟩ => .error (.protocol (.mixedElement name))
  | ⟨name, none, elements⟩ => (ofElements? elements).map (.branch name)

/-- The nodes of some elements. -/
def ofElements? : List Element → Except Error (List Node)
  | [] => .ok []
  | element :: rest => do
    let node ← ofElement? element
    let nodes ← ofElements? rest
    return node :: nodes

end

end Node

/-- A property tree and the request it answers. -/
structure Property where
  requestId : UInt32
  nodes : List Node
deriving Repr, Inhabited

namespace Property

/-! ## Building -/

/-- The empty tree, answering no request. -/
def empty : Property := ⟨reservedId, []⟩

/-- The empty tree for the answer to a request. -/
def forRequest (id : UInt32) : Property := ⟨id, []⟩

/-- Adds a node at the end. -/
def push (p : Property) (node : Node) : Property :=
  { p with nodes := p.nodes ++ [node] }

/-- Adds a named value at the end. -/
def add (p : Property) (name : String) (value : Value) : Property :=
  p.push (.leaf (some name) value)

/-- Adds the nodes of another tree as one node; the other tree's tag is dropped. -/
def addTree (p : Property) (name : Option String) (child : Property) : Property :=
  p.push (.branch name child.nodes)

/-! ## Wire form -/

/-- The tree of some elements. -/
def ofElements? (elements : List Element) : Except Error Property :=
  (Node.ofElements? elements).map (⟨reservedId, ·⟩)

/-- The wire form of a tree; its tag is not part of it. -/
def toElements (p : Property) : List Element :=
  Node.toElements p.nodes

/-! ## Reading -/

/-- Equality of trees and of their tags, doubles compared as numbers. -/
def same (p q : Property) : Bool :=
  p.requestId == q.requestId && Node.sameList p.nodes q.nodes

/-- How many nodes stand at the top. -/
def size (p : Property) : Nat := p.nodes.length

/-- The node at an index. -/
def node? (p : Property) (index : Nat) : Except Error Node :=
  match p.nodes[index]? with
  | some node => .ok node
  | none => .error (.indexOutOfRange index)

/-- The first node with a name. -/
def find? (p : Property) (name : String) : Option Node :=
  p.nodes.find? (·.name == some name)

/-- The kind of the node at an index. -/
def kindAt (p : Property) (index : Nat) : Except Error ValueKind :=
  (p.node? index).map Node.kind

/-- The name of the node at an index. -/
def nameAt (p : Property) (index : Nat) : Except Error (Option String) :=
  (p.node? index).map Node.name

/-- The value at an index, of the kind that is asked for. -/
def valueAt (p : Property) (expected : ValueKind) (index : Nat) : Except Error Value := do
  let node ← p.node? index
  match node.value? with
  | some value => if value.kind = expected then return value
                  else throw (.typeMismatch expected value.kind)
  | none => throw (.typeMismatch expected .nested)

/-- The nodes inside a node, as an untagged tree. -/
def subtree (node : Node) : Except Error Property :=
  match node.children? with
  | some children => .ok ⟨reservedId, children⟩
  | none => .error (.typeMismatch .nested node.kind)

/-- The nodes inside the first node with a name. -/
def treeNamed (p : Property) (name : String) : Except Error Property :=
  match p.find? name with
  | some node => subtree node
  | none => .error (.notFound name)

/-- The nodes inside the node at an index. -/
def treeAt (p : Property) (index : Nat) : Except Error Property :=
  (p.node? index).bind subtree

end Property

end Vdc
