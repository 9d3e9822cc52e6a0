import Vdc.Proofs.Json.RoundTrip
import Vdc.Proofs.Property.Element
import Vdc.Store.Basic

/-!
# Records read back

The records of a store are kept in the order of their keys (`Records.Sorted`), and the file they are
written to holds them in that order, so that reading it puts one after the other at the end. A list
of elements that nests too deep is refused by the reader and not by the writer, and with it the
whole file: `decode_of_encode` tells which records come back.
-/

namespace Vdc.Records

/-! ## Insertion -/

/-- The keys ascend, so none is there twice. -/
def Sorted (records : Records) : Prop := records.Pairwise (·.1 < ·.1)

variable {records : Records} {key : String} {elements : List Element}

theorem find?_insert_self : (insert key elements records).find? key = some elements := by
  induction records with
  | nil => simp [insert, find?]
  | cons record rest ih =>
    rw [insert]
    split
    · simp [find?]
    split
    · simp [find?]
    · next hne =>
      have hbeq : (key == record.1) = false := by simpa using hne
      rw [find?, List.lookup_cons, hbeq]
      exact ih

theorem find?_insert_of_ne {other : String} (h : other ≠ key) :
    (insert key elements records).find? other = records.find? other := by
  have hother : (other == key) = false := by simpa using h
  induction records with
  | nil => rw [insert, find?, List.lookup_cons, hother, find?]
  | cons record rest ih =>
    rw [insert]
    split
    · rw [find?, List.lookup_cons, hother, find?]
    split
    · next heq =>
      obtain rfl := heq
      rw [find?, List.lookup_cons, hother, find?, List.lookup_cons, hother]
    · rw [find?, List.lookup_cons, find?, List.lookup_cons]
      cases other == record.1 with
      | true => rfl
      | false => exact ih

theorem mem_insert {record : String × List Element} (h : record ∈ insert key elements records) :
    record = (key, elements) ∨ record ∈ records := by
  induction records with
  | nil => exact .inl (List.mem_singleton.1 h)
  | cons first rest ih =>
    rw [insert] at h
    split at h
    · exact List.mem_cons.1 h
    split at h
    · exact (List.mem_cons.1 h).imp_right fun h => List.mem_cons_of_mem _ h
    · rcases List.mem_cons.1 h with rfl | h
      · exact .inr List.mem_cons_self
      · exact (ih h).imp_right fun h => List.mem_cons_of_mem _ h

theorem sorted_insert (h : records.Sorted) : (insert key elements records).Sorted := by
  induction records with
  | nil => exact List.pairwise_singleton _ _
  | cons first rest ih =>
    obtain ⟨hfirst, hrest⟩ := List.pairwise_cons.1 h
    rw [insert]
    split
    · next hlt =>
      refine List.pairwise_cons.2 ⟨fun record hrecord => ?_, h⟩
      rcases List.mem_cons.1 hrecord with rfl | hrecord
      · exact hlt
      · exact String.lt_trans hlt (hfirst record hrecord)
    split
    · next heq =>
      obtain rfl := heq
      exact List.pairwise_cons.2 ⟨hfirst, hrest⟩
    · next hnlt hne =>
      refine List.pairwise_cons.2 ⟨fun record hrecord => ?_, ih hrest⟩
      rcases mem_insert hrecord with rfl | hrecord
      · refine String.not_le.1 fun hle => hne ?_
        exact String.le_antisymm hle (String.not_lt.1 hnlt)
      · exact hfirst record hrecord

/-- A key after all others goes to the end. -/
theorem insert_of_forall_lt (h : ∀ record ∈ records, record.1 < key) :
    insert key elements records = records ++ [(key, elements)] := by
  induction records with
  | nil => rfl
  | cons first rest ih =>
    obtain ⟨hfirst, hrest⟩ := List.forall_mem_cons.1 h
    rw [insert, if_neg (String.lt_asymm hfirst), if_neg (String.ne_of_lt hfirst).symm,
      ih hrest]
    rfl

/-- A key is among those of a list if and only if something is found under it. -/
theorem mem_map_fst_iff {α : Type} {entries : List (String × α)} :
    key ∈ entries.map (·.1) ↔ (entries.lookup key).isSome = true := by
  rw [List.lookup_isSome_iff, List.mem_map]
  refine exists_congr fun entry => and_congr_right fun _ => ?_
  rw [beq_iff_eq]
  exact eq_comm

theorem mem_of_lookup {α : Type} {entries : List (String × α)} {value : α}
    (h : entries.lookup key = some value) : (key, value) ∈ entries := by
  obtain ⟨before, after, rfl, -⟩ := List.lookup_eq_some_iff.1 h
  simp

theorem find?_of_mem (hsorted : records.Sorted) {record : String × List Element}
    (h : record ∈ records) : records.find? record.1 = some record.2 := by
  obtain ⟨before, after, rfl⟩ := List.append_of_mem h
  refine List.lookup_eq_some_iff.2 ⟨before, after, rfl, fun other hother => ?_⟩
  have hlt : other.1 < record.1 :=
    (List.pairwise_append.1 hsorted).2.2 other hother record List.mem_cons_self
  simpa using (String.ne_of_lt hlt).symm

/-! ## Text -/

/-- The doubles in records, at any depth. -/
def doubles (records : Records) : List Double :=
  records.flatMap fun record => Element.listDoubles record.2

theorem carries_toJson : ∀ records : Records, (toJson records).Carries records.doubles
  | [] => Json.carries_object_nil
  | record :: rest =>
    Json.carries_object_cons (Element.carries_listToJson record.2) (carries_toJson rest)

theorem forall_doubles_insert {P : Double → Prop} (hrecords : ∀ d ∈ records.doubles, P d)
    (helements : ∀ d ∈ Element.listDoubles elements, P d) :
    ∀ d ∈ doubles (insert key elements records), P d := by
  intro d hd
  obtain ⟨record, hrecord, hd⟩ := List.mem_flatMap.1 hd
  rcases mem_insert hrecord with rfl | hrecord
  · exact helements d hd
  · exact hrecords d (List.mem_flatMap.2 ⟨record, hrecord, hd⟩)

theorem exists_encode (h : ∀ d ∈ records.doubles, d.isFinite = true) :
    ∃ content, records.encode = .ok content := by
  rw [encode, (carries_toJson records).firstNonFinite?_eq_none_iff.2 h]
  exact ⟨_, rfl⟩

/-- A file ends with a line feed, so it is not empty. -/
theorem length_pos_of_encode {content : List UInt8} (h : records.encode = .ok content) :
    0 < content.length := by
  rw [encode] at h
  split at h <;> cases h
  exact List.length_append ▸ Nat.succ_pos _

/-- The content of a file, if there is one, is the indented text of the records. -/
theorem parse_of_encode {content : List UInt8} (h : records.encode = .ok content) :
    Json.parse content = some records.toJson := by
  have hcarries := carries_toJson records
  rw [encode] at h
  split at h
  · cases h
  · next hnone =>
    obtain rfl := Except.ok.inj h
    exact Json.parse_indent (hcarries.isPrintable (hcarries.firstNonFinite?_eq_none_iff.1 hnone))

/-! ## Reading -/

/-- A list of elements that is read back from under a key: nested no deeper than texts that are
read, less the object with the keys. -/
def Fits (elements : List Element) : Prop :=
  (Json.array (Element.listToJson elements)).nesting ≤ Json.maxNesting - 1

instance (elements : List Element) : Decidable (Fits elements) :=
  inferInstanceAs (Decidable (_ ≤ _))

/-- Everything in the records fits. -/
def AllFit (records : Records) : Prop := ∀ record ∈ records, Fits record.2

instance (records : Records) : Decidable records.AllFit :=
  inferInstanceAs (Decidable (∀ record ∈ records, _))

/-- Takes the next entry of an object that is read. -/
def readEntry (records : Records) (entry : String × Json) : Option Records := do
  return insert entry.1 (← Element.listOfJson? (Json.maxNesting - 1) entry.2) records

theorem ofJson?_object (entries : List (String × Json)) :
    ofJson? (.object entries) = entries.foldlM readEntry [] := rfl

theorem readEntry_listToJson (h : ∀ record ∈ records, record.1 < key) :
    readEntry records (key, .array (Element.listToJson elements)) =
      if Fits elements then some (records ++ [(key, elements)]) else none := by
  have hread : Element.listOfJson? (Json.maxNesting - 1) (.array (Element.listToJson elements)) =
      if Fits elements then some elements else none := Element.listOfJson?_listToJson _ _
  rw [readEntry, hread, ← insert_of_forall_lt h]
  by_cases hfits : Fits elements
  · rw [if_pos hfits, if_pos hfits]
    rfl
  · rw [if_neg hfits, if_neg hfits]
    rfl

/-- Sorted records are read one after the other, up to the first that does not fit. -/
theorem foldlM_readEntry : ∀ {before after : Records}, (before ++ after).Sorted →
    (after.map fun record => (record.1, Json.array (Element.listToJson record.2))).foldlM readEntry
      before = if after.AllFit then some (before ++ after) else none
  | before, [], _ => by simp [AllFit]
  | before, (key, elements) :: rest, h => by
    -- All keys so far are smaller, so the next record goes to the end.
    have hbefore : ∀ record ∈ before, record.1 < key := fun record hrecord =>
      (List.pairwise_append.1 h).2.2 record hrecord _ List.mem_cons_self
    have hsplit : AllFit ((key, elements) :: rest) ↔ Fits elements ∧ AllFit rest :=
      List.forall_mem_cons
    rw [List.map_cons, List.foldlM_cons, readEntry_listToJson hbefore]
    by_cases hfits : Fits elements
    · have hmore : (before ++ [(key, elements)] ++ rest).Sorted := by
        rwa [List.append_assoc, List.singleton_append]
      rw [if_pos hfits, Option.bind_eq_bind, Option.bind_some, foldlM_readEntry hmore,
        List.append_assoc, List.singleton_append]
      simp only [hsplit, hfits, true_and]
    · rw [if_neg hfits, if_neg fun hall => hfits (hsplit.1 hall).1]
      rfl

/-- The content of a file is read back if everything in it fits, and otherwise nothing of it is. -/
theorem decode_of_encode (hsorted : records.Sorted) {content : List UInt8}
    (h : records.encode = .ok content) :
    decode content = if records.AllFit then .ok records else .error (.protocol .malformed) := by
  have hread : ofJson? records.toJson = if records.AllFit then some records else none :=
    (ofJson?_object _).trans (foldlM_readEntry (List.nil_append records ▸ hsorted))
  rw [decode, parse_of_encode h, Option.bind_some, hread]
  by_cases hfit : records.AllFit
  · rw [if_pos hfit, if_pos hfit]
  · rw [if_neg hfit, if_neg hfit]

theorem sound_of_foldlM : ∀ {entries : List (String × Json)} {before records : Records},
    entries.foldlM readEntry before = some records → before.Sorted → before.AllFit →
    records.Sorted ∧ records.AllFit
  | [], before, records, h, hsorted, hfit => by
    obtain rfl : before = records := Option.some.inj h
    exact ⟨hsorted, hfit⟩
  | entry :: rest, before, records, h, hsorted, hfit => by
    rw [List.foldlM_cons] at h
    obtain ⟨next, hnext, h⟩ := Option.bind_eq_some_iff.1 h
    obtain ⟨elements, helements, heq⟩ := Option.bind_eq_some_iff.1 hnext
    obtain rfl : insert entry.1 elements before = next := Option.some.inj heq
    refine sound_of_foldlM h (sorted_insert hsorted) fun record hrecord => ?_
    rcases mem_insert hrecord with rfl | hrecord
    · exact Element.nesting_le_of_listOfJson? helements
    · exact hfit record hrecord

/-- Records that were read are sorted, and fit to be read again. -/
theorem sound_of_decode {content : List UInt8} (h : decode content = .ok records) :
    records.Sorted ∧ records.AllFit := by
  rw [decode] at h
  split at h
  · next read hread =>
    obtain rfl := Except.ok.inj h
    obtain ⟨json, -, hjson⟩ := Option.bind_eq_some_iff.1 hread
    cases json with
    | object entries =>
      rw [ofJson?_object] at hjson
      exact sound_of_foldlM hjson List.Pairwise.nil fun _ hrecord => nomatch hrecord
    | _ => cases hjson
  · cases h

end Vdc.Records
