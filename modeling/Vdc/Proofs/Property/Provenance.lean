import Vdc.Property.Rows
import Vdc.Session.Application
import Vdc.Store.Basic

/-!
# Where the tag of a tree comes from

The tag of a tree names the request that the tree answers. A tree that is handed out for a request
has one, and the operations on trees, rows and stores either keep the tag of the tree that they
start from or leave the new tree untagged: `Property.tagRules`. No operation makes a tag up, and
none puts the tag of one tree on another, so the tag of a tree that was made from some given ones
stems from one of these, `Property.MadeFrom.tag`.
-/

namespace Vdc

mutual

/-- The trees that the operations on trees, rows and stores make from some given ones. -/
inductive Property.MadeFrom (given : Property → Prop) : Property → Prop
  | given {p : Property} (h : given p) : Property.MadeFrom given p
  | empty : Property.MadeFrom given .empty
  | push {p : Property} (h : Property.MadeFrom given p) (node : Node) :
      Property.MadeFrom given (p.push node)
  | add {p : Property} (h : Property.MadeFrom given p) (name : String) (value : Value) :
      Property.MadeFrom given (p.add name value)
  | addTree {p child : Property} (h : Property.MadeFrom given p)
      (hchild : Property.MadeFrom given child) (name : Option String) :
      Property.MadeFrom given (p.addTree name child)
  | ofElements {elements : List Element} {p : Property}
      (h : Property.ofElements? elements = .ok p) : Property.MadeFrom given p
  | treeNamed {p q : Property} (h : Property.MadeFrom given p) {name : String}
      (hq : p.treeNamed name = .ok q) : Property.MadeFrom given q
  | treeAt {p q : Property} (h : Property.MadeFrom given p) {index : Nat}
      (hq : p.treeAt index = .ok q) : Property.MadeFrom given q
  | load {store : Store} {key : String} {p : Property} (h : store.load key = .ok p) :
      Property.MadeFrom given p
  | ofRows {rows : Rows} (h : Rows.MadeFrom given rows) {p : Property}
      (hp : rows.toProperty? = .ok p) : Property.MadeFrom given p

/-- The rows that are made from some given trees. -/
inductive Rows.MadeFrom (given : Property → Prop) : Rows → Prop
  | new (name : String) (count : Nat) : Rows.MadeFrom given (.new name count)
  | forResponse {response : Property} (h : Property.MadeFrom given response) (name : String) :
      Rows.MadeFrom given (.forResponse response name)
  | add {rows : Rows} (h : Rows.MadeFrom given rows) (index : Nat) (key : String) (value : Value) :
      Rows.MadeFrom given (rows.add index key value)

end

/-! ## What each operation does to the tag -/

namespace Property

theorem requestId_ofElements? {elements : List Element} {p : Property}
    (h : ofElements? elements = .ok p) : p.requestId = reservedId := by
  unfold ofElements? at h
  cases hnodes : Node.ofElements? elements with
  | error e =>
    rw [hnodes] at h
    cases h
  | ok nodes =>
    rw [hnodes] at h
    obtain rfl := Except.ok.inj h
    rfl

theorem requestId_subtree {node : Node} {p : Property} (h : subtree node = .ok p) :
    p.requestId = reservedId := by
  unfold subtree at h
  split at h
  · obtain rfl := Except.ok.inj h
    rfl
  · cases h

theorem requestId_treeNamed {p q : Property} {name : String} (h : p.treeNamed name = .ok q) :
    q.requestId = reservedId := by
  unfold treeNamed at h
  split at h
  · exact requestId_subtree h
  · cases h

theorem requestId_treeAt {p q : Property} {index : Nat} (h : p.treeAt index = .ok q) :
    q.requestId = reservedId := by
  unfold treeAt at h
  cases hnode : p.node? index with
  | error e =>
    rw [hnode] at h
    cases h
  | ok node =>
    rw [hnode] at h
    exact requestId_subtree h

end Property

theorem Store.requestId_load {store : Store} {key : String} {p : Property}
    (h : store.load key = .ok p) : p.requestId = reservedId := by
  unfold load at h
  split at h
  · exact Property.requestId_ofElements? h
  · cases h

namespace Rows

theorem requestId_toProperty? {rows : Rows} {p : Property} (h : rows.toProperty? = .ok p) :
    p.requestId = rows.requestId := by
  unfold toProperty? at h
  split at h
  · cases h
  · obtain rfl := Except.ok.inj h
    rfl

/-- Adds some values, each to the row at its index. -/
def addAll (rows : Rows) (entries : List (Nat × String × Value)) : Rows :=
  entries.foldl (fun rows entry => rows.add entry.1 entry.2.1 entry.2.2) rows

theorem requestId_addAll (rows : Rows) (entries : List (Nat × String × Value)) :
    (rows.addAll entries).requestId = rows.requestId := by
  induction entries generalizing rows with
  | nil => rfl
  | cons entry rest ih => exact ih (rows.add entry.1 entry.2.1 entry.2.2)

end Rows

namespace Property

/-- What becomes of tags. -/
structure TagRules : Prop where
  /-- A tree that is added to keeps its tag, and the tag of a tree that is spliced in is lost. -/
  push : ∀ (p : Property) node, (p.push node).requestId = p.requestId
  add : ∀ (p : Property) name value, (p.add name value).requestId = p.requestId
  addTree : ∀ (p : Property) name child, (p.addTree name child).requestId = p.requestId
  /-- Rows for the answer that a tree was handed out for make a tree with its tag, whatever they
  are filled with. -/
  rows : ∀ (response : Property) name entries p,
    ((Rows.forResponse response name).addAll entries).toProperty? = .ok p →
      p.requestId = response.requestId
  /-- Trees that come from anywhere else are untagged. -/
  empty : Property.empty.requestId = reservedId
  ofElements : ∀ elements p, ofElements? elements = .ok p → p.requestId = reservedId
  treeNamed : ∀ (p : Property) name q, p.treeNamed name = .ok q → q.requestId = reservedId
  treeAt : ∀ (p : Property) index q, p.treeAt index = .ok q → q.requestId = reservedId
  load : ∀ (store : Store) key p, store.load key = .ok p → p.requestId = reservedId
  newRows : ∀ name count entries p,
    ((Rows.new name count).addAll entries).toProperty? = .ok p → p.requestId = reservedId

theorem tagRules : TagRules where
  push _ _ := rfl
  add _ _ _ := rfl
  addTree _ _ _ := rfl
  rows response name entries _ h :=
    (Rows.requestId_toProperty? h).trans ((Rows.forResponse response name).requestId_addAll entries)
  empty := rfl
  ofElements _ _ := requestId_ofElements?
  treeNamed _ _ _ := requestId_treeNamed
  treeAt _ _ _ := requestId_treeAt
  load _ _ _ := Store.requestId_load
  newRows name count entries _ h :=
    (Rows.requestId_toProperty? h).trans ((Rows.new name count).requestId_addAll entries)

end Property

/-! ## Tags of what was made -/

section

variable {given : Property → Prop}

mutual

/-- The tag of a tree that was made from some given ones is that of one of these, unless there is
none. -/
theorem Property.MadeFrom.tag {p : Property} :
    p.MadeFrom given → p.requestId = reservedId ∨ ∃ q, given q ∧ q.requestId = p.requestId
  | .given h => .inr ⟨p, h, rfl⟩
  | .empty => .inl rfl
  | .push h _ | .add h _ _ | .addTree h _ _ => (h.tag :)
  | .ofElements h => .inl (Property.requestId_ofElements? h)
  | .treeNamed _ hq => .inl (Property.requestId_treeNamed hq)
  | .treeAt _ hq => .inl (Property.requestId_treeAt hq)
  | .load h => .inl (Store.requestId_load h)
  | .ofRows h hp => Rows.requestId_toProperty? hp ▸ h.tag

/-- The same of rows. -/
theorem Rows.MadeFrom.tag {rows : Rows} :
    rows.MadeFrom given → rows.requestId = reservedId ∨ ∃ q, given q ∧ q.requestId = rows.requestId
  | .new _ _ => .inl rfl
  | .forResponse h _ => (h.tag :)
  | .add h _ _ _ => (h.tag :)

end

mutual

/-- What was made from some trees was made from more. -/
theorem Property.MadeFrom.mono {more : Property → Prop} (hmore : ∀ p, given p → more p)
    {p : Property} : p.MadeFrom given → p.MadeFrom more
  | .given h => .given (hmore p h)
  | .empty => .empty
  | .push h node => .push (h.mono hmore) node
  | .add h name value => .add (h.mono hmore) name value
  | .addTree h hchild name => .addTree (h.mono hmore) (hchild.mono hmore) name
  | .ofElements h => .ofElements h
  | .treeNamed h hq => .treeNamed (h.mono hmore) hq
  | .treeAt h hq => .treeAt (h.mono hmore) hq
  | .load h => .load h
  | .ofRows h hp => .ofRows (h.mono hmore) hp

theorem Rows.MadeFrom.mono {more : Property → Prop} (hmore : ∀ p, given p → more p)
    {rows : Rows} : rows.MadeFrom given → rows.MadeFrom more
  | .new name count => .new name count
  | .forResponse h name => .forResponse (h.mono hmore) name
  | .add h index key value => .add (h.mono hmore) index key value

end

end

/-- The trees that a callback hands out: what is asked for, and the tree for the answer. -/
def Callback.trees : Callback → List Property
  | .getProperty _ query response => [query, response]
  | .setProperty _ values response => [values, response]
  | _ => []

/-- A tree was handed out in one of some callbacks. -/
def Property.HandedOut (calls : List Callback) (p : Property) : Prop :=
  ∃ callback ∈ calls, p ∈ callback.trees

end Vdc
