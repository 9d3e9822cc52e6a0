import Mathlib.Algebra.GroupWithZero.Nat
import Vdc.Json.Printer
import Vdc.Json.Record
import Vdc.Proofs.Text.Utf8

/-!
# How long a JSON text is

The compact form has no blanks, so the length of an array or an object is the sum of the lengths of
its parts and of one byte of punctuation for each, two for the entries of an object.
-/

namespace Vdc.Json

/-- An array that is not empty has a bracket before its items and a byte after each. -/
theorem length_render_array {items : List Json} (h : items ≠ []) :
    (render (.array items)).length = 1 + (items.map fun item => (render item).length + 1).sum := by
  have hitems : (renderItems items).length + 1 =
      (items.map fun item => (render item).length + 1).sum := by
    induction items with
    | nil => exact absurd rfl h
    | cons item rest ih =>
      cases rest with
      | nil => simp [renderItems]
      | cons next rest =>
        have hrest := ih nofun
        simp only [renderItems, List.length_append, List.length_cons, List.map_cons,
          List.sum_cons] at hrest ⊢
        omega
  rw [render, List.length_cons, List.length_append, List.length_singleton, hitems, Nat.add_comm]

/-- An object that is not empty has a brace before its entries, and a colon and a byte for each. -/
theorem length_render_object {entries : List (String × Json)} (h : entries ≠ []) :
    (render (.object entries)).length =
      1 + (entries.map fun entry => (quote entry.1).length + (render entry.2).length + 2).sum := by
  have hentries : (renderEntries entries).length + 1 =
      (entries.map fun entry => (quote entry.1).length + (render entry.2).length + 2).sum := by
    induction entries with
    | nil => exact absurd rfl h
    | cons entry rest ih =>
      cases rest with
      | nil =>
        simp only [renderEntries, List.length_append, List.length_cons, List.map_cons, List.map_nil,
          List.sum_cons, List.sum_nil]
        omega
      | cons next rest =>
        have hrest := ih nofun
        simp only [renderEntries, List.length_append, List.length_cons, List.map_cons,
          List.sum_cons] at hrest ⊢
        omega
  rw [render, List.length_cons, List.length_append, List.length_singleton, hentries, Nat.add_comm]

/-- What a field adds to the text of a record. -/
def fieldLength (field : String × Option Json) : Nat :=
  field.2.elim 0 fun json => (quote field.1).length + (render json).length + 2

/-- A record of which at least one field is present has a brace before its fields. -/
theorem length_render_record {fields : List (String × Option Json)}
    (h : ∃ field ∈ fields, field.2.isSome = true) :
    (render (record fields)).length = 1 + (fields.map fieldLength).sum := by
  have hpresent : (fields.filterMap fun field => field.2.map (field.1, ·)) ≠ [] := by
    obtain ⟨⟨name, value⟩, hfield, hsome⟩ := h
    obtain ⟨json, rfl⟩ := Option.isSome_iff_exists.1 hsome
    exact List.ne_nil_of_mem (List.mem_filterMap.2 ⟨_, hfield, rfl⟩)
  rw [record, length_render_object hpresent]
  clear h hpresent
  induction fields with
  | nil => rfl
  | cons field rest ih =>
    obtain ⟨name, _ | json⟩ := field
    · simpa [fieldLength] using ih
    · simp only [List.filterMap_cons, Option.map_some, List.map_cons, List.sum_cons, fieldLength,
        Option.elim_some] at ih ⊢
      omega

/-- Characters of one byte that need no escape are quoted as they are. -/
theorem length_quote_of_plain {text : String}
    (h : ∀ c ∈ text.toList, ∃ b, String.utf8EncodeChar c = [b] ∧ escape b = [b]) :
    (quote text).length = text.length + 2 := by
  have hchars (chars : List Char)
      (h : ∀ c ∈ chars, ∃ b, String.utf8EncodeChar c = [b] ∧ escape b = [b]) :
      ((chars.flatMap String.utf8EncodeChar).flatMap escape).length = chars.length := by
    induction chars with
    | nil => rfl
    | cons c rest ih =>
      obtain ⟨⟨b, hbyte, hescape⟩, hrest⟩ := List.forall_mem_cons.1 h
      rw [List.flatMap_cons, hbyte, List.singleton_append, List.flatMap_cons, hescape,
        List.singleton_append, List.length_cons, List.length_cons, ih hrest]
  rw [quote, List.length_cons, List.length_append, List.length_singleton, Utf8.encode_eq_flatMap,
    hchars _ h, String.length_toList]

/-- A character of one byte that needs no escape may be repeated as often as there is room. -/
theorem length_quote_replicate {c : Char} {b : UInt8} (hbyte : String.utf8EncodeChar c = [b])
    (hescape : escape b = [b]) (n : Nat) :
    (quote (String.ofList (List.replicate n c))).length = n + 2 := by
  rw [length_quote_of_plain, String.length_ofList, List.length_replicate]
  intro c' hc
  rw [String.toList_ofList] at hc
  rw [List.eq_of_mem_replicate hc]
  exact ⟨b, hbyte, hescape⟩

end Vdc.Json
