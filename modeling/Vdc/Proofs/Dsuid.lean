import Vdc.Lamp.Settings
import Vdc.Proofs.Text.Hex

/-!
# The normal form of dSUIDs

A text is taken for a dSUID exactly if it is made of 34 hex digits, and is brought into upper case.
The result is brought into itself, so that two spellings come to the same text exactly if they spell
the same seventeen bytes. The sibling of a normal form is one as well. It spells the same bytes but
for the last bit, and the first is its sibling in turn.

All of this is read off `parse_eq_ok_iff` and `sibling_ofBytes`, which say what parsing and going
over to the sibling do to the bytes that a text spells.
-/

namespace Vdc.Dsuid

variable {text normal : String} {bytes : List UInt8}

/-- A text is made of 34 hex digits. -/
def IsSpelling (text : String) : Prop :=
  text.length = 34 ∧ ∀ c ∈ text.toList, c ∈ Hex.digits

/-! ## The bytes of a text -/

theorem bytes?_eq_ok_iff :
    bytes? text = .ok bytes ↔ Hex.Spells text.toList bytes ∧ bytes.length = size := by
  rw [← Hex.decode?_eq_some_iff, bytes?]
  cases Hex.decode? (Utf8.encode text) with
  | none => simp
  | some found =>
    by_cases hsize : found.length = size
    · simp only [hsize, if_true, Except.ok.injEq, Option.some.injEq]
      exact ⟨fun h => ⟨h, h ▸ hsize⟩, And.left⟩
    · simp only [hsize, if_false, reduceCtorEq, Option.some.injEq, false_iff, not_and]
      exact fun h => h ▸ hsize

/-- The normal form is what is written for the bytes that the text spells. -/
theorem parse_eq_ok_iff : parse text = .ok normal ↔
    ∃ bytes, Hex.Spells text.toList bytes ∧ bytes.length = size ∧ normal = ofBytes bytes := by
  rw [parse]
  cases hbytes : bytes? text with
  | error e =>
    simp only [Except.map, reduceCtorEq, false_iff, not_exists, not_and]
    intro bytes hspells hsize
    cases hbytes.symm.trans (bytes?_eq_ok_iff.2 ⟨hspells, hsize⟩)
  | ok bytes =>
    obtain ⟨hspells, hsize⟩ := bytes?_eq_ok_iff.1 hbytes
    simp only [Except.map, Except.ok.injEq]
    constructor
    · rintro rfl
      exact ⟨bytes, hspells, hsize, rfl⟩
    · rintro ⟨bytes', hspells', -, rfl⟩
      rw [hspells.unique hspells']

theorem spells_ofBytes (bytes : List UInt8) : Hex.Spells (ofBytes bytes).toList bytes :=
  Hex.spells_text_upper bytes

/-- What is written for a dSUID is in normal form. -/
theorem parse_ofBytes (h : bytes.length = size) : parse (ofBytes bytes) = .ok (ofBytes bytes) :=
  parse_eq_ok_iff.2 ⟨bytes, spells_ofBytes bytes, h, rfl⟩

theorem parse_ofBytes_append {front : List UInt8} (h : front.length = 16) (last : UInt8) :
    parse (ofBytes (front ++ [last])) = .ok (ofBytes (front ++ [last])) :=
  parse_ofBytes (by rw [List.length_append, h]; rfl)

/-! ## The last bit -/

theorem toList_ofBytes_append (front bytes : List UInt8) :
    (ofBytes (front ++ bytes)).toList = (ofBytes front).toList ++ (ofBytes bytes).toList := by
  simp only [ofBytes, Hex.text, Hex.upper, Hex.encode, String.toList_ofList, List.flatMap_append,
    List.map_append]

/-- The last two digits are those of the last byte. -/
theorem splitLast_ofBytes (front : List UInt8) (last : UInt8) :
    splitLast (ofBytes (front ++ [last])) = (ofBytes front, ofBytes [last]) := by
  have hlength : (ofBytes (front ++ [last])).length - 2 = (ofBytes front).toList.length := by
    have hlast : (ofBytes [last]).toList.length = 2 := (spells_ofBytes [last]).length_eq
    rw [← String.length_toList, toList_ofBytes_append, List.length_append, hlast,
      Nat.add_sub_cancel]
  rw [splitLast, hlength, toList_ofBytes_append, List.take_left, List.drop_left,
    String.ofList_toList, String.ofList_toList]

/-- The sibling of a dSUID is that of its bytes with the last bit turned over. -/
theorem sibling_ofBytes (front : List UInt8) (last : UInt8) :
    sibling (ofBytes (front ++ [last])) = .ok (ofBytes (front ++ [last ^^^ 1])) := by
  have hbyte : Hex.byteOfText? (Utf8.encode (ofBytes [last])) = .ok last := by
    rw [ofBytes, Hex.encode_text_upper, Hex.byteOfText?_upper]
  have hwritten : ofBytes front ++ ofBytes [last ^^^ 1] = ofBytes (front ++ [last ^^^ 1]) :=
    String.ext (by rw [String.toList_append, toList_ofBytes_append])
  rw [sibling, splitLast_ofBytes]
  simp only [hbyte, hwritten, bind, Except.bind]
  rfl

theorem xor_one_xor_one (b : UInt8) : b ^^^ 1 ^^^ 1 = b := by
  rw [UInt8.xor_assoc, UInt8.xor_self, UInt8.xor_zero]

/-- The settings name the lamp by the sibling of its container. -/
theorem identity_of_parse {settings : Lamp.Settings} (random : Lamp.Identity) {lamp : String}
    (hsettings : settings.dsuid = some text) (hparse : parse text = .ok normal)
    (hsibling : sibling normal = .ok lamp) : settings.identity random = .ok ⟨normal, lamp⟩ := by
  simp only [Lamp.Settings.identity, hsettings, hparse]
  change ((sibling normal).mapError IntegerFault.message >>= fun lamp => _) = _
  rw [hsibling]
  rfl

/-! ## The normal form -/

/-- How a normal form stands to a text that it is the normal form of. -/
structure NormalForm (text normal : String) : Prop where
  upper_eq : normal = text.toUpper
  parse_eq : parse normal = .ok normal
  /-- Another text has the same normal form exactly if it spells the same seventeen bytes. -/
  same_iff : ∀ other normal', parse other = .ok normal' →
    (normal' = normal ↔
      ∃ bytes, bytes.length = 17 ∧ Hex.Spells text.toList bytes ∧ Hex.Spells other.toList bytes)
  /-- The lamp of a container whose name is given by the text is named by the sibling, which is a
  normal form, spells the same bytes but for the last bit, and has the container for its sibling. -/
  sibling : ∃ front last lamp, front.length = 16 ∧
    (∀ settings : Lamp.Settings, settings.dsuid = some text →
      ∀ random, settings.identity random = .ok ⟨normal, lamp⟩) ∧
    parse lamp = .ok lamp ∧ Hex.Spells normal.toList (front ++ [last]) ∧
    Hex.Spells lamp.toList (front ++ [last ^^^ 1]) ∧ Dsuid.sibling normal = .ok lamp ∧
    Dsuid.sibling lamp = .ok normal

theorem exists_parse_iff : (∃ normal, parse text = .ok normal) ↔ IsSpelling text := by
  have hsize : text.length = 34 ↔ text.toList.length = 2 * size := by
    rw [String.length_toList]
    exact Iff.rfl
  rw [IsSpelling, hsize, ← Hex.exists_spells_iff]
  constructor
  · rintro ⟨normal, h⟩
    obtain ⟨bytes, hspells, hsize, -⟩ := parse_eq_ok_iff.1 h
    exact ⟨bytes, hsize, hspells⟩
  · rintro ⟨bytes, hsize, hspells⟩
    exact ⟨ofBytes bytes, parse_eq_ok_iff.2 ⟨bytes, hspells, hsize, rfl⟩⟩

theorem exists_append_singleton (h : bytes.length = size) :
    ∃ front last, front.length = 16 ∧ bytes = front ++ [last] := by
  have hne : bytes ≠ [] := by
    rintro rfl
    cases h
  refine ⟨bytes.dropLast, bytes.getLast hne, ?_, (List.dropLast_concat_getLast hne).symm⟩
  rw [List.length_dropLast, h]
  rfl

/-- A text is accepted exactly if it is made of 34 hex digits, and what comes of it is a normal
form. -/
theorem accepts_iff (text : String) :
    ((∃ normal, parse text = .ok normal) ↔ IsSpelling text) ∧
      ∀ normal, parse text = .ok normal → NormalForm text normal := by
  refine ⟨exists_parse_iff, fun normal hparse => ?_⟩
  obtain ⟨bytes, hspells, hsize, rfl⟩ := parse_eq_ok_iff.1 hparse
  obtain ⟨front, last, hfront, rfl⟩ := exists_append_singleton hsize
  refine ⟨?_, parse_ofBytes hsize, fun other normal' hother => ?_, ?_⟩
  · refine String.ext ?_
    rw [String.toUpper, String.toList_map]
    exact Hex.toList_text_upper hspells
  · obtain ⟨bytes', hspells', hsize', rfl⟩ := parse_eq_ok_iff.1 hother
    constructor
    · -- A normal form spells its bytes, so equal ones spell the same.
      intro hsame
      have hbytes : bytes' = front ++ [last] :=
        (hsame ▸ spells_ofBytes bytes').unique (spells_ofBytes (front ++ [last]))
      exact ⟨front ++ [last], hsize, hspells, hbytes ▸ hspells'⟩
    · rintro ⟨bytes, -, htext, hothers⟩
      rw [hspells.unique htext, hspells'.unique hothers]
  · refine ⟨front, last, ofBytes (front ++ [last ^^^ 1]), hfront,
      fun settings hsettings random =>
        identity_of_parse random hsettings hparse (sibling_ofBytes front last),
      parse_ofBytes_append hfront _, spells_ofBytes _, spells_ofBytes _, sibling_ofBytes front last,
      ?_⟩
    have hback := sibling_ofBytes front (last ^^^ 1)
    rwa [xor_one_xor_one] at hback

/-- A dSUID is given in mixed case. -/
theorem accepts_iff_mixed :
    parse "198c033e330755e78015F97AD093dd1c00" = .ok "198C033E330755E78015F97AD093DD1C00" ∧
      NormalForm "198c033e330755e78015F97AD093dd1c00" "198C033E330755E78015F97AD093DD1C00" := by
  have hparse : parse "198c033e330755e78015F97AD093dd1c00" =
      .ok "198C033E330755E78015F97AD093DD1C00" := rfl
  exact ⟨hparse, (accepts_iff _).2 _ hparse⟩

end Vdc.Dsuid
