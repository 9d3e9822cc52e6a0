import Vdc.Proofs.Property.Tree
import Vdc.Proofs.Store.Folder
import Vdc.Proofs.Store.Records
import Vdc.Proofs.Text.Utf8

/-!
# Stores opened again

A store is used by saving trees, and some of the saves fail. After every one that did not, the store
can be opened again from its file, and `reopens_of_save` says what is found there, on one condition:
all trees that were saved last under their keys fit, which is about how deep they nest. If one of
them does not, nothing of the file can be read, as `refused_of_deep` shows.
-/

namespace Vdc

/-! ## Trees -/

namespace Property

/-- A tree that can be read back from a store. -/
def Fits (tree : Property) : Prop := Records.Fits tree.toElements

instance (tree : Property) : Decidable tree.Fits :=
  inferInstanceAs (Decidable (Records.Fits _))

/-- A tree of one value. -/
def lamp : Property := ⟨reservedId, [.leaf (some "on") (.bool true)]⟩

/-- A value inside so many branches. -/
def deepNode : Nat → Node
  | 0 => .leaf none (.bool true)
  | depth + 1 => .branch none [deepNode depth]

/-- A tree of a value inside so many branches. -/
def deep (depth : Nat) : Property := ⟨reservedId, [deepNode depth]⟩

theorem nesting_deepNode (depth : Nat) :
    (deepNode depth).toElement.toJson.nesting = 2 * depth + 2 := by
  induction depth with
  | zero => rfl
  | succ depth ih =>
    have hfield : Json.fieldNesting (Element.field (Node.toElements [deepNode depth])) =
        1 + max (deepNode depth).toElement.toJson.nesting 0 := rfl
    rw [deepNode, Node.toElement, Element.toJson_eq, Json.nesting_record_cons,
      Json.nesting_record_cons, Json.nesting_record_cons, Json.nesting_record_nil, hfield, ih]
    simp only [Option.map_none, Json.fieldNesting, Option.getD_none]
    omega

theorem fits_deep_iff (depth : Nat) : (deep depth).Fits ↔ depth ≤ 61 := by
  have hnesting : (Json.array (Element.listToJson (deep depth).toElements)).nesting =
      1 + max (deepNode depth).toElement.toJson.nesting 0 := rfl
  rw [Fits, Records.Fits, hnesting, nesting_deepNode, Json.maxNesting]
  omega

theorem doubles_deep (depth : Nat) : Element.listDoubles (deep depth).toElements = [] := by
  have hnode : (deepNode depth).toElement.doubles = [] := by
    induction depth with
    | zero => rfl
    | succ depth ih =>
      rw [deepNode, Node.toElement, Element.doubles, Node.toElements, Node.toElements,
        Element.listDoubles, ih]
      rfl
  rw [deep, toElements, Node.toElements, Node.toElements, Element.listDoubles, hnode]
  rfl

end Property

namespace Store

/-! ## Saving -/

theorem exists_of_save {s s' : Store} {folder folder' : Folder} {key : String} {tree : Property}
    (h : s.save folder key tree = .ok (s', folder')) :
    s' = { s with records := s.records.insert key tree.toElements } ∧
      ∃ content, s'.records.encode = .ok content ∧ folder.replace s.name content = .ok folder' := by
  rw [save] at h
  split at h
  · cases h
  cases hencode : (s.records.insert key tree.toElements).encode with
  | error e =>
    simp only [hencode, bind, Except.bind] at h
    cases h
  | ok content =>
    simp only [hencode, bind, Except.bind] at h
    split at h
    · next hreplace =>
      cases h
      exact ⟨rfl, content, hencode, hreplace⟩
    · cases h

/-- A store that may be written saves what has a text into a file that can be replaced. -/
theorem save_eq_ok {s : Store} {folder folder' : Folder} {key : String} {tree : Property}
    {content : List UInt8} (hwritable : s.writable = true)
    (hencode : (s.records.insert key tree.toElements).encode = .ok content)
    (hreplace : folder.replace s.name content = .ok folder') :
    s.save folder key tree =
      .ok ({ s with records := s.records.insert key tree.toElements }, folder') := by
  rw [save, hwritable]
  simp only [Bool.not_true, Bool.false_eq_true, if_false, hencode, bind, Except.bind, hreplace]
  rfl

/-- Nothing keeps a store from saving: it may be written, and its file can be replaced. -/
structure Ready (s : Store) (folder : Folder) : Prop where
  writable_eq : s.writable = true
  isPlain : folder.IsPlain s.name
  fault_eq : folder.fault = none
  find?_ne : folder.find? (Place.home ++ [s.name]) ≠ some .folder
  finite : ∀ d ∈ s.records.doubles, d.isFinite = true

/-- A store that is ready saves every tree with finite doubles, and is ready again. -/
theorem Ready.exists_save {s : Store} {folder : Folder} (h : s.Ready folder) (key : String)
    (tree : Property) (htree : ∀ d ∈ Element.listDoubles tree.toElements, d.isFinite = true) :
    ∃ s' folder', s.save folder key tree = .ok (s', folder') ∧ s'.Ready folder' := by
  have hfinite : ∀ d ∈ Records.doubles (s.records.insert key tree.toElements), d.isFinite = true :=
    Records.forall_doubles_insert h.finite htree
  obtain ⟨content, hencode⟩ := Records.exists_encode hfinite
  have hreplace := Folder.replace_of_isPlain h.isPlain h.fault_eq h.find?_ne content
  refine ⟨_, _, save_eq_ok h.writable_eq hencode hreplace, h.writable_eq, h.isPlain.put,
    h.fault_eq, ?_, hfinite⟩
  rw [Folder.find?_put_self h.find?_ne]
  exact fun heq => FileEntry.noConfusion (Option.some.inj heq)

/-- A store without a file yet is ready if nothing stands in its place. -/
theorem ready_of_free {folder : Folder} {name : String} (hplain : folder.IsPlain name)
    (hfault : folder.fault = none) (hfree : folder.find? (Place.home ++ [name]) = none) :
    ∃ s, ofFolder folder name true = .ok s ∧ s.Ready folder := by
  refine ⟨⟨name, folder.pathOf name, true, []⟩, ?_, rfl, hplain, hfault, ?_, fun d hd => nomatch hd⟩
  · rw [ofFolder, Folder.lookup_of_isPlain hplain hfree]
    rfl
  · change folder.find? (Place.home ++ [name]) ≠ some .folder
    rw [hfree]
    exact (Option.some_ne_none _).symm

theorem isPlain_empty : (Folder.empty "d").IsPlain "store.json" :=
  ⟨by decide, by decide, rfl, by decide, by decide, by decide +kernel⟩

/-! ## Saving in turn -/

/-- One attempt to save a tree, in the folder as it is by then. -/
structure Attempt where
  folder : Folder
  key : String
  tree : Property

/-- A store, and the trees saved since it was opened, the last one first. -/
structure Usage where
  store : Store
  saved : List (String × Property)

namespace Usage

/-- Makes an attempt. If it fails the store is what it was. -/
def attempt (u : Usage) (a : Attempt) : Usage :=
  match u.store.save a.folder a.key a.tree with
  | .ok (store, _) => ⟨store, (a.key, a.tree) :: u.saved⟩
  | .error _ => u

theorem attempt_of_save {u : Usage} {a : Attempt} {s : Store} {folder : Folder}
    (h : u.store.save a.folder a.key a.tree = .ok (s, folder)) :
    u.attempt a = ⟨s, (a.key, a.tree) :: u.saved⟩ := by
  rw [attempt, h]

/-- Makes attempts one after the other. -/
def run (u : Usage) (attempts : List Attempt) : Usage := attempts.foldl attempt u

/-- What the records of a store in use are, told from those it was opened with. -/
structure Follows (u : Usage) (opened : Store) : Prop where
  name_eq : u.store.name = opened.name
  sorted : u.store.records.Sorted
  find?_eq : ∀ key, u.store.records.find? key =
    ((u.saved.lookup key).map Property.toElements).or (opened.records.find? key)

theorem follows_self {opened : Store} (h : opened.records.Sorted) :
    Follows ⟨opened, []⟩ opened :=
  ⟨rfl, h, fun _ => rfl⟩

/-- What a save leaves follows on what was there. -/
theorem Follows.of_save {u : Usage} {opened s' : Store} {folder folder' : Folder} {key : String}
    {tree : Property} (h : u.Follows opened)
    (hsave : u.store.save folder key tree = .ok (s', folder')) :
    Follows ⟨s', (key, tree) :: u.saved⟩ opened := by
  obtain ⟨rfl, -⟩ := exists_of_save hsave
  refine ⟨h.name_eq, Records.sorted_insert h.sorted, fun other => ?_⟩
  by_cases hother : other = key
  · rw [hother, Records.find?_insert_self, List.lookup_cons_self]
    rfl
  · have hbeq : (other == key) = false := by simpa using hother
    rw [Records.find?_insert_of_ne hother, h.find?_eq other, List.lookup_cons, hbeq]

theorem Follows.attempt {u : Usage} {opened : Store} (h : u.Follows opened) (a : Attempt) :
    (u.attempt a).Follows opened := by
  unfold Usage.attempt
  split
  · next store folder hsave => exact h.of_save hsave
  · exact h

theorem Follows.run {opened : Store} : ∀ {u : Usage} (attempts : List Attempt),
    u.Follows opened → (u.run attempts).Follows opened
  | _, [], h => h
  | _, a :: rest, h => Follows.run rest (h.attempt a)

end Usage

/-! ## Opening again -/

/-- A store that was opened keeps its records sorted, and they fit. -/
theorem sound_of_ofFolder {folder : Folder} {name : String} {writable : Bool} {s : Store}
    (h : ofFolder folder name writable = .ok s) :
    s.name = name ∧ s.records.Sorted ∧ s.records.AllFit := by
  unfold ofFolder at h
  split at h
  · next content hlookup =>
    cases hdecode : Records.decode content with
    | error e =>
      rw [hdecode] at h
      cases h
    | ok records =>
      rw [hdecode] at h
      obtain rfl := Except.ok.inj h
      exact ⟨rfl, Records.sound_of_decode hdecode⟩
  · cases h
  · split at h
    · obtain rfl := Except.ok.inj h
      exact ⟨rfl, List.Pairwise.nil, fun _ hrecord => nomatch hrecord⟩
    · cases h
  · cases h

/-- What was saved is found in the file if all of it fits, and otherwise the file is refused. -/
theorem ofFolder_of_save {s s' : Store} {folder folder' : Folder} {key : String}
    {tree : Property} (hsorted : s'.records.Sorted)
    (hsave : s.save folder key tree = .ok (s', folder')) (writable : Bool) :
    ofFolder folder' s.name writable =
      if s'.records.AllFit then .ok ⟨s.name, folder'.pathOf s.name, writable, s'.records⟩
      else .error (.protocol .malformed) := by
  obtain ⟨-, content, hencode, hreplace⟩ := exists_of_save hsave
  rw [ofFolder, Folder.lookup_of_replace hreplace]
  dsimp only
  rw [Records.decode_of_encode hsorted hencode]
  split <;> rfl

/-- What a store that is opened again holds of the one that was opened first and of the trees that
were saved since, the last one first. -/
structure Restores (again opened : Store) (saved : List (String × Property)) : Prop where
  keys_ordered : (again.keys.map Utf8.encode).Pairwise (· < ·)
  mem_keys : ∀ key, key ∈ again.keys ↔ key ∈ opened.keys ∨ key ∈ saved.map (·.1)
  load_eq : ∀ key tree, saved.lookup key = some tree →
    again.load key = .ok ⟨reservedId, tree.nodes⟩
  kept : ∀ key, key ∉ saved.map (·.1) → again.records.find? key = opened.records.find? key

theorem Usage.Follows.restores {u : Usage} {opened again : Store} (h : u.Follows opened)
    (hrecords : again.records = u.store.records) : again.Restores opened u.saved := by
  have hfind : ∀ key, again.records.find? key =
      ((u.saved.lookup key).map Property.toElements).or (opened.records.find? key) := by
    rw [hrecords]
    exact h.find?_eq
  constructor
  · rw [keys, hrecords, List.map_map, List.pairwise_map]
    exact h.sorted.imp Utf8.encode_lt
  · intro key
    have hkeys : ∀ s : Store, key ∈ s.keys ↔ (s.records.find? key).isSome = true :=
      fun _ => Records.mem_map_fst_iff
    rw [hkeys, hkeys, Records.mem_map_fst_iff, hfind, Option.isSome_or, Option.isSome_map,
      Bool.or_eq_true, or_comm]
  · intro key tree htree
    rw [load, hfind, htree]
    exact tree.ofElements?_toElements
  · intro key hkey
    have hnone : u.saved.lookup key = none := by
      rw [Records.mem_map_fst_iff] at hkey
      exact Option.not_isSome_iff_eq_none.1 hkey
    rw [hfind, hnone]
    rfl

theorem Usage.Follows.allFit_iff {u : Usage} {opened : Store} (h : u.Follows opened)
    (hopened : opened.records.AllFit) :
    u.store.records.AllFit ↔ ∀ key tree, u.saved.lookup key = some tree → tree.Fits := by
  constructor
  · intro hall key tree htree
    have hfind := h.find?_eq key
    rw [htree] at hfind
    exact hall (key, tree.toElements) (Records.mem_of_lookup hfind)
  · intro hfit record hrecord
    have hfind := Records.find?_of_mem h.sorted hrecord
    rw [h.find?_eq] at hfind
    cases htree : u.saved.lookup record.1 with
    | none =>
      rw [htree] at hfind
      exact hopened _ (Records.mem_of_lookup hfind)
    | some tree =>
      rw [htree] at hfind
      have helements : tree.toElements = record.2 := Option.some.inj hfind
      exact helements ▸ hfit record.1 tree htree

/-- What the file of a store, opened once and saved to since, is when it is opened again. -/
structure Reopens (opened : Store) (saved : List (String × Property)) (folder : Folder)
    (name : String) : Prop where
  /-- If every tree that was saved last under its key fits, all of it is found. -/
  restored : (∀ key tree, saved.lookup key = some tree → tree.Fits) → ∀ writable, ∃ again,
    ofFolder folder name writable = .ok again ∧ again.Restores opened saved
  /-- If one of them does not fit, nothing is found, under no key. -/
  refused : (¬ ∀ key tree, saved.lookup key = some tree → tree.Fits) → ∀ writable,
    ofFolder folder name writable = .error (.protocol .malformed)

theorem Usage.Follows.reopens {u : Usage} {opened s' : Store} {folder folder' : Folder}
    {key : String} {tree : Property} (h : u.Follows opened) (hopened : opened.records.AllFit)
    (hsave : u.store.save folder key tree = .ok (s', folder')) :
    Reopens opened ((key, tree) :: u.saved) folder' opened.name := by
  have hafter := h.of_save hsave
  have hreopen := ofFolder_of_save hafter.sorted hsave
  rw [h.name_eq] at hreopen
  refine ⟨fun hfit writable => ?_, fun hfit writable => ?_⟩
  · rw [hreopen, if_pos ((hafter.allFit_iff hopened).2 hfit)]
    exact ⟨_, rfl, hafter.restores rfl⟩
  · rw [hreopen, if_neg fun hall => hfit ((hafter.allFit_iff hopened).1 hall)]

/-- A tree with too many branches inside one another is saved beside another tree, and the file is
refused from then on. -/
theorem refused_of_deep {folder : Folder} {name : String} (hplain : folder.IsPlain name)
    (hfault : folder.fault = none) (hfree : folder.find? (Place.home ++ [name]) = none)
    {depth : Nat} (hdepth : 61 < depth) :
    ∃ opened s₁ s₂ folder₁ folder₂, ofFolder folder name true = .ok opened ∧
      opened.save folder "a" .lamp = .ok (s₁, folder₁) ∧
      s₁.save folder₁ "b" (.deep depth) = .ok (s₂, folder₂) ∧
      ofFolder folder₂ name true = .error (.protocol .malformed) := by
  obtain ⟨opened, hopen, hready⟩ := ready_of_free hplain hfault hfree
  obtain ⟨s₁, folder₁, hsave₁, hready₁⟩ := hready.exists_save "a" .lamp fun d hd => nomatch hd
  obtain ⟨s₂, folder₂, hsave₂, -⟩ := hready₁.exists_save "b" (.deep depth) (by
    rw [Property.doubles_deep]
    exact fun d hd => nomatch hd)
  obtain ⟨rfl, hsorted, hfit⟩ := sound_of_ofFolder hopen
  have hfollows := (Usage.follows_self hsorted).of_save hsave₁
  refine ⟨opened, s₁, s₂, folder₁, folder₂, hopen, hsave₁, hsave₂, ?_⟩
  refine (hfollows.reopens hfit hsave₂).refused (fun hall => ?_) true
  have hdeep := (Property.fits_deep_iff depth).1 (hall "b" (.deep depth) List.lookup_cons_self)
  omega

/-- After a save the store can be opened again if and only if every tree that was saved last under
its key fits. It then has the keys from before and those of the trees in the order of their bytes,
under each key the tree that was saved last, and what it had under every other key. Otherwise the
file is refused as a whole. -/
theorem reopens_of_save {folder : Folder} {name : String} {opened : Store}
    (hopen : ofFolder folder name true = .ok opened) (attempts : List Attempt) (last : Attempt)
    {s' : Store} {folder' : Folder}
    (hsave : (Usage.run ⟨opened, []⟩ attempts).store.save last.folder last.key last.tree =
      .ok (s', folder')) :
    Reopens opened ((last.key, last.tree) :: (Usage.run ⟨opened, []⟩ attempts).saved) folder'
      name := by
  obtain ⟨rfl, hsorted, hfit⟩ := sound_of_ofFolder hopen
  exact ((Usage.follows_self hsorted).run attempts).reopens hfit hsave

/-- Two trees saved, the second one as deep as can be read. -/
theorem reopens_of_save_two :
    ∃ opened folder₁ s₂ folder₂, ofFolder (Folder.empty "d") "store.json" true = .ok opened ∧
      (Usage.run ⟨opened, []⟩ [⟨Folder.empty "d", "b", .lamp⟩]).store.save folder₁ "a" (.deep 61) =
        .ok (s₂, folder₂) ∧
      ∃ again, ofFolder folder₂ "store.json" false = .ok again ∧
        again.Restores opened [("a", .deep 61), ("b", .lamp)] := by
  obtain ⟨opened, hopen, hready⟩ := ready_of_free isPlain_empty rfl rfl
  obtain ⟨s₁, folder₁, hsave₁, hready₁⟩ := hready.exists_save "b" .lamp fun d hd => nomatch hd
  obtain ⟨s₂, folder₂, hsave₂, -⟩ := hready₁.exists_save "a" (.deep 61) (by
    rw [Property.doubles_deep]
    exact fun d hd => nomatch hd)
  have hrun : Usage.run ⟨opened, []⟩ [⟨Folder.empty "d", "b", .lamp⟩] = ⟨s₁, [("b", .lamp)]⟩ :=
    Usage.attempt_of_save hsave₁
  have hlast : (Usage.run ⟨opened, []⟩ [⟨Folder.empty "d", "b", .lamp⟩]).store.save folder₁ "a"
      (.deep 61) = .ok (s₂, folder₂) := by
    rw [hrun]
    exact hsave₂
  have hreopens := reopens_of_save hopen _ ⟨folder₁, "a", .deep 61⟩ hlast
  rw [hrun] at hreopens
  refine ⟨opened, folder₁, s₂, folder₂, hopen, hlast, hreopens.restored ?_ false⟩
  intro key tree h
  have hmem := Records.mem_of_lookup h
  simp only [List.mem_cons, Prod.mk.injEq, List.not_mem_nil, or_false] at hmem
  rcases hmem with ⟨-, rfl⟩ | ⟨-, rfl⟩
  · exact (Property.fits_deep_iff 61).2 (Nat.le_refl 61)
  · decide

/-- A save that succeeds can leave a file that is refused. -/
theorem refused_after_save :
    ∃ opened s₁ s₂ folder₁ folder₂, ofFolder (Folder.empty "d") "store.json" true = .ok opened ∧
      opened.save (Folder.empty "d") "a" .lamp = .ok (s₁, folder₁) ∧
      s₁.save folder₁ "b" (.deep 62) = .ok (s₂, folder₂) ∧
      ofFolder folder₂ "store.json" true = .error (.protocol .malformed) :=
  refused_of_deep isPlain_empty rfl rfl (by decide)

end Store

end Vdc
