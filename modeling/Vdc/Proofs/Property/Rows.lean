import Mathlib.Data.List.Basic
import Mathlib.Data.List.GetD
import Mathlib.Data.Nat.Basic
import Mathlib.Order.Basic
import Vdc.Proofs.Property.Provenance

/-!
# Rows told from what was added

Values come to rows in any order. They leave gaps, make rows that are filled later or never, and
stand beside rows that were there from the beginning. `Rows.size_addAll` and `Rows.row?_addAll` say
what becomes of all this: how many rows there are, and that each holds what was added at its index,
in that order.

So whether the rows are sound can be told from the additions alone, without looking at the rows:
`Rows.followsHistory`. The tree that sound rows become leaves out missing rows, and since there are
none each row stands in it at its index.
-/

namespace Vdc.Rows

variable {start : Rows} {count index : Nat} {entries others : List (Nat × String × Value)}

/-! ## Single rows -/

/-- The row at an index. Missing rows are none, as are those beyond the end. -/
def row? (r : Rows) (index : Nat) : Option (List Node) := r.rows.getD index none

/-- Two tables of rows are equal if they are as long and have the same rows. -/
theorem ext_row? {r r' : Rows} (hname : r.name = r'.name) (hid : r.requestId = r'.requestId)
    (hsize : r.size = r'.size) (hrow : ∀ index, r.row? index = r'.row? index) : r = r' := by
  obtain ⟨name, id, rows⟩ := r
  obtain ⟨name', id', rows'⟩ := r'
  obtain rfl : name = name' := hname
  obtain rfl : id = id' := hid
  have hrows : rows = rows' := by
    refine List.ext_getElem hsize fun index h h' => ?_
    have hindex := hrow index
    rwa [row?, row?, List.getD_eq_getElem _ _ h, List.getD_eq_getElem _ _ h'] at hindex
  rw [hrows]

section

variable {node : Node} {rows : List (Option (List Node))}

theorem length_addTo (node : Node) (index : Nat) (rows : List (Option (List Node))) :
    (addTo node index rows).length = max rows.length (index + 1) := by
  fun_induction addTo node index rows with
  | case1 => rfl
  | case2 row rest =>
    rw [List.length_cons, List.length_cons]
    omega
  | case3 index ih =>
    rw [List.length_cons, ih, List.length_nil]
    omega
  | case4 index row rest ih =>
    rw [List.length_cons, List.length_cons, ih]
    omega

/-- The row at the index has one value more. -/
theorem getD_addTo_self (node : Node) (index : Nat) (rows : List (Option (List Node))) :
    (addTo node index rows).getD index none = some ((rows.getD index none).getD [] ++ [node]) := by
  fun_induction addTo node index rows with
  | case1 | case2 => rfl
  | case3 index ih => exact ih
  | case4 index row rest ih => exact ih

/-- Every other row is what it was; those that come into being are missing. -/
theorem getD_addTo_of_ne {other : Nat} (h : other ≠ index) :
    (addTo node index rows).getD other none = rows.getD other none := by
  fun_induction addTo node index rows generalizing other with
  | case1 | case2 =>
    obtain ⟨other, rfl⟩ := Nat.exists_eq_succ_of_ne_zero h
    rfl
  | case3 index ih =>
    cases other with
    | zero => rfl
    | succ other => exact ih (by omega)
  | case4 index row rest ih =>
    cases other with
    | zero => rfl
    | succ other => exact ih (by omega)

end

/-! ## All additions -/

/-- How many rows there are after some additions, if there were `count` before: as many as it takes
for the highest index. -/
def span (count : Nat) (entries : List (Nat × String × Value)) : Nat :=
  entries.foldl (fun size entry => max size (entry.1 + 1)) count

/-- What was added at an index, in order. -/
def entriesAt (index : Nat) (entries : List (Nat × String × Value)) :
    List (Nat × String × Value) :=
  entries.filter (·.1 == index)

/-- The node of a value that was added. -/
def leafOf (entry : Nat × String × Value) : Node := .leaf (some entry.2.1) entry.2.2

/-- The rows are those that were there, and all up to each index at which something was added. -/
theorem lt_span_iff :
    index < span count entries ↔ index < count ∨ ∃ entry ∈ entries, index ≤ entry.1 := by
  induction entries generalizing count with
  | nil => simp [span]
  | cons first rest ih =>
    have hspan : span count (first :: rest) = span (max count (first.1 + 1)) rest := rfl
    rw [hspan, ih]
    simp only [List.mem_cons, exists_eq_or_imp, ← or_assoc]
    exact or_congr_left (by omega)

theorem size_addAll (start : Rows) (entries : List (Nat × String × Value)) :
    (start.addAll entries).size = span start.size entries := by
  induction entries generalizing start with
  | nil => rfl
  | cons first rest ih =>
    have hfirst : (start.add first.1 first.2.1 first.2.2).size = max start.size (first.1 + 1) :=
      length_addTo _ _ _
    exact (ih _).trans (by rw [hfirst]; rfl)

/-- A row holds what it held before and then what was added at its index, if anything was. -/
theorem row?_addAll (start : Rows) (entries : List (Nat × String × Value)) (index : Nat) :
    (start.addAll entries).row? index =
      if entriesAt index entries = [] then start.row? index
      else some ((start.row? index).getD [] ++ (entriesAt index entries).map leafOf) := by
  induction entries generalizing start with
  | nil => rfl
  | cons first rest ih =>
    have hall : start.addAll (first :: rest) =
        (start.add first.1 first.2.1 first.2.2).addAll rest := rfl
    rw [hall, ih]
    by_cases hindex : first.1 = index
    · have hentries : entriesAt index (first :: rest) = first :: entriesAt index rest := by
        simp [entriesAt, hindex]
      have hrow : (start.add first.1 first.2.1 first.2.2).row? index =
          some ((start.row? index).getD [] ++ [leafOf first]) :=
        hindex ▸ getD_addTo_self _ _ _
      rw [hentries, hrow]
      by_cases hrest : entriesAt index rest = []
      · simp [hrest]
      · simp [hrest]
    · have hentries : entriesAt index (first :: rest) = entriesAt index rest := by
        simp [entriesAt, hindex]
      have hrow : (start.add first.1 first.2.1 first.2.2).row? index = start.row? index :=
        getD_addTo_of_ne (Ne.symm hindex)
      rw [hentries, hrow]

theorem name_addAll (start : Rows) (entries : List (Nat × String × Value)) :
    (start.addAll entries).name = start.name := by
  induction entries generalizing start with
  | nil => rfl
  | cons first rest ih => exact ih (start.add first.1 first.2.1 first.2.2)

/-- Only the order of what is added at the same index matters. -/
theorem addAll_congr (start : Rows)
    (h : ∀ index, entriesAt index others = entriesAt index entries) :
    start.addAll others = start.addAll entries := by
  have hmem : ∀ entry, entry ∈ others ↔ entry ∈ entries := by
    intro entry
    have hentry : entry ∈ entriesAt entry.1 others ↔ entry ∈ entriesAt entry.1 entries := by
      rw [h]
    simpa [entriesAt] using hentry
  have hspan : span start.size others = span start.size entries := by
    refine eq_of_forall_lt_iff fun n => ?_
    rw [lt_span_iff, lt_span_iff]
    simp only [hmem]
  refine ext_row? ?_ ?_ ?_ fun index => ?_
  · rw [name_addAll, name_addAll]
  · rw [requestId_addAll, requestId_addAll]
  · rw [size_addAll, size_addAll, hspan]
  · rw [row?_addAll, row?_addAll, h]

/-! ## Soundness -/

/-- From some index on the rows have the width of the first if none is missing and all have it. -/
theorem checkFrom_eq_ok_iff {width : Nat} {rows : List (Option (List Node))} :
    checkFrom width index rows = .ok () ↔
      ∀ row ∈ rows, ∃ nodes, row = some nodes ∧ nodes.length = width := by
  fun_induction checkFrom width index rows with
  | case1 => simp
  | case2 => simp
  | case3 index row rest hwidth ih =>
    rw [ih, List.forall_mem_cons]
    simp [hwidth]
  | case4 index row rest hwidth =>
    simp [hwidth]

/-- Rows are sound if there are any, none is missing, and all have as many values, which is not
none. -/
theorem check_eq_ok_iff {r : Rows} : r.check = .ok () ↔ 1 ≤ r.size ∧
    ∃ width, 1 ≤ width ∧ ∀ row ∈ r.rows, ∃ nodes, row = some nodes ∧ nodes.length = width := by
  unfold check size
  split
  · next h => simp [h]
  · next h => simp [h]
  · next rest h =>
    rw [h]
    refine iff_of_false nofun ?_
    rintro ⟨-, width, hwidth, hrows⟩
    obtain ⟨nodes, hnodes, rfl⟩ := hrows _ List.mem_cons_self
    obtain rfl := Option.some.inj hnodes
    exact absurd hwidth (by simp)
  · next node row rest h =>
    rw [h, checkFrom_eq_ok_iff]
    simp only [List.length_cons, List.forall_mem_cons]
    constructor
    · intro hrest
      exact ⟨by omega, row.length + 1, by omega, ⟨node :: row, rfl, rfl⟩, hrest⟩
    · rintro ⟨-, width, -, ⟨nodes, hnodes, rfl⟩, hrest⟩
      obtain rfl := Option.some.inj hnodes
      exact hrest

/-- The rows of a table, one after the other. -/
theorem rows_eq_map (r : Rows) : r.rows = (List.range r.size).map r.row? := by
  refine List.ext_getElem (by simp [size]) fun index h h' => ?_
  rw [List.getElem_map, List.getElem_range, row?, List.getD_eq_getElem _ _ h]

/-- Whether every row is filled with equally many values, and with one at least, told from what was
added. -/
def EvenlyFilled (count : Nat) (entries : List (Nat × String × Value)) : Prop :=
  1 ≤ span count entries ∧ ∃ width, 1 ≤ width ∧
    ∀ index < span count entries, (entriesAt index entries).length = width

/-- The tree of what was added: one node, named like the rows, with a nameless node for each
index. -/
def tabulated (start : Rows) (count : Nat) (entries : List (Nat × String × Value)) : Property :=
  let rows := (List.range (span count entries)).map fun index =>
    .branch none ((entriesAt index entries).map leafOf)
  ⟨start.requestId, [.branch (some start.name) rows]⟩

/-- Some number of rows that are there and empty. -/
structure Empty (start : Rows) (count : Nat) : Prop where
  size : start.size = count
  row? : ∀ index < count, start.row? index = some []

theorem empty_new (name : String) (count : Nat) : (new name count).Empty count where
  size := List.length_replicate
  row? index h := by
    rw [Rows.row?, new, List.getD_eq_getElem _ _ (by rwa [List.length_replicate]),
      List.getElem_replicate]

theorem empty_forResponse (response : Property) (name : String) :
    (forResponse response name).Empty 0 := ⟨rfl, nofun⟩

/-- Beyond the rows that are there none is found. -/
theorem Empty.row?_of_le (hstart : start.Empty count) (h : count ≤ index) :
    start.row? index = none := by
  rw [← hstart.size] at h
  exact List.getD_eq_default _ _ h

/-- The rows of a table that was made by operations hold leaves only. -/
theorem MadeFrom.isLeaf {given : Property → Prop} {rows : Rows} : rows.MadeFrom given →
    ∀ {index row}, rows.row? index = some row → ∀ node ∈ row, ∃ name value, node = .leaf name value
  | .new name count, index, row, hrow, node, hnode => by
    have hempty := empty_new name count
    rcases Nat.lt_or_ge index count with h | h
    · obtain rfl := Option.some.inj ((hempty.row? index h).symm.trans hrow)
      cases hnode
    · cases (hempty.row?_of_le h).symm.trans hrow
  | @add _ before h added key value, index, row, hrow, node, hnode => by
    by_cases hindex : index = added
    · obtain rfl : _ = row := Option.some.inj ((getD_addTo_self _ _ _).symm.trans (hindex ▸ hrow))
      rcases List.mem_append.1 hnode with hnode | hnode
      · cases hbefore : before.row? added with
        | none =>
          rw [row?] at hbefore
          rw [hbefore] at hnode
          cases hnode
        | some row =>
          rw [row?] at hbefore
          rw [hbefore] at hnode
          exact h.isLeaf hbefore node hnode
      · exact ⟨_, _, List.mem_singleton.1 hnode⟩
    · exact h.isLeaf ((getD_addTo_of_ne hindex).symm.trans hrow) node hnode

/-- The row at an index, if there were only empty rows before. -/
theorem row?_of_empty (hstart : start.Empty count) (h : entriesAt index entries ≠ []) :
    (start.addAll entries).row? index = some ((entriesAt index entries).map leafOf) := by
  have hbefore : (start.row? index).getD [] = [] := by
    by_cases hindex : index < count
    · rw [hstart.row? index hindex]
      rfl
    · rw [hstart.row?_of_le (Nat.le_of_not_lt hindex)]
      rfl
  rw [row?_addAll, if_neg h, hbefore, List.nil_append]

theorem size_of_empty (hstart : start.Empty count) :
    (start.addAll entries).size = span count entries := by
  rw [size_addAll, hstart.size]

/-- The rows are sound if and only if the additions fill them evenly. -/
theorem check_addAll_iff (hstart : start.Empty count) :
    (start.addAll entries).check = .ok () ↔ EvenlyFilled count entries := by
  rw [check_eq_ok_iff, size_of_empty hstart, EvenlyFilled, rows_eq_map, size_of_empty hstart]
  simp only [List.forall_mem_map, List.mem_range]
  refine and_congr_right fun _ => exists_congr fun width => and_congr_right fun hwidth =>
    forall₂_congr fun index hindex => ?_
  by_cases h : entriesAt index entries = []
  · -- Nothing was added at the index, so the row is missing or empty.
    rw [row?_addAll, if_pos h, h]
    by_cases hbefore : index < count
    · rw [hstart.row? index hbefore]
      simp
    · rw [hstart.row?_of_le (Nat.le_of_not_lt hbefore)]
      simp only [List.length_nil, reduceCtorEq, false_and, exists_const, false_iff]
      omega
  · rw [row?_of_empty hstart h]
    simp

/-- What becomes of empty rows and what is added to them. -/
structure FollowsHistory (start : Rows) (count : Nat) (entries : List (Nat × String × Value)) :
    Prop where
  /-- Rows that are filled evenly are sound, and become the tree of what was added. -/
  sound : EvenlyFilled count entries → (start.addAll entries).check = .ok () ∧
    (start.addAll entries).toProperty? = .ok (tabulated start count entries)
  /-- All others are refused for their structure. -/
  unsound : ¬ EvenlyFilled count entries → ∃ fault, (start.addAll entries).check = .error fault ∧
    (start.addAll entries).toProperty? = .error (.structural fault)
  /-- Additions in another order, but in the same at each index, come to the same. -/
  reordered : ∀ others, (∀ index, entriesAt index others = entriesAt index entries) →
    (start.addAll others).check = (start.addAll entries).check ∧
      (start.addAll others).toProperty? = (start.addAll entries).toProperty?

theorem followsHistory_of_empty (hstart : start.Empty count)
    (entries : List (Nat × String × Value)) : FollowsHistory start count entries where
  sound := by
    intro heven
    have hcheck := (check_addAll_iff hstart).2 heven
    refine ⟨hcheck, ?_⟩
    obtain ⟨-, width, hwidth, hat⟩ := heven
    -- No row is missing, so none is left out.
    have hrows : (start.addAll entries).rows.filterMap (·.map (Node.branch none)) =
        (List.range (span count entries)).map fun index =>
          .branch none ((entriesAt index entries).map leafOf) := by
      rw [rows_eq_map, size_of_empty hstart, List.filterMap_map,
        List.filterMap_eq_map_iff_forall_eq_some]
      intro index hindex
      have hne : entriesAt index entries ≠ [] := by
        rintro hnil
        have hlength := hat index (List.mem_range.1 hindex)
        rw [hnil, List.length_nil] at hlength
        omega
      rw [Function.comp_apply, row?_of_empty hstart hne]
      rfl
    rw [toProperty?, hcheck]
    simp only [hrows, requestId_addAll, name_addAll]
    rfl
  unsound := by
    intro huneven
    cases hcheck : (start.addAll entries).check with
    | ok => exact absurd ((check_addAll_iff hstart).1 hcheck) huneven
    | error fault => exact ⟨fault, rfl, by rw [toProperty?, hcheck]⟩
  reordered := by
    intro others h
    rw [addAll_congr start h]
    exact ⟨rfl, rfl⟩

/-- Whatever is added to rows in whatever order, what they come to can be told from the additions:
for rows that were created with some number of empty ones, and for those of a response. -/
theorem followsHistory (entries : List (Nat × String × Value)) :
    (∀ name count, FollowsHistory (.new name count) count entries) ∧
      ∀ response name, FollowsHistory (.forResponse response name) 0 entries :=
  ⟨fun name count => followsHistory_of_empty (empty_new name count) entries,
    fun response name => followsHistory_of_empty (empty_forResponse response name) entries⟩

end Vdc.Rows
