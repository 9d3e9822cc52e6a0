import Mathlib.Data.List.TakeWhile
import Vdc.Probe.Basic
import Vdc.Proofs.Number.Integer
import Vdc.Proofs.Session.Rows

/-!
# What assignments come to

A text is an assignment if it is a name, an equals sign and the rest, and the name is neither empty
nor has an equals sign in it. What the rest is read as depends on nothing but the rest. `Reads` says
which value it is by the grammar of the text, and reading finds that value and no other,
`value?_eq_ok_iff`. The only rests that are refused are those that stand for an infinity or for no
number at all.

So every double among the values is finite and none of the values nests, which is all that it takes
to send them and to read them back, `sendable_of_parse`.
-/

namespace Vdc.Assignment

variable {text name rest : String} {v : Value} {negative : Bool} {n : Nat}

/-! ## The grammar of values -/

/-- A sign and a size make an integer of 64 bits, signed only if there is a minus sign. -/
def FitsWord : Bool → Nat → Prop
  | false, n => n < 2 ^ 64
  | true, n => n ≤ 2 ^ 63

/-- The value that a sign and a size make. -/
def ofInteger : Bool → Nat → Value
  | false, n => .uint (UInt64.ofNat n)
  | true, n => .int (Int64.ofInt (-n))

/-- A text is an integer in range. -/
def IsWord (text : String) : Prop :=
  ∃ negative n, IsInteger (Utf8.encode text) negative n ∧ FitsWord negative n

/-- What a text is read as. -/
inductive Reads (text : String) : Value → Prop
  | bool {b : Bool} (h : text = toString b) : Reads text (.bool b)
  | integer {negative : Bool} {n : Nat} (h : IsInteger (Utf8.encode text) negative n)
      (hfits : FitsWord negative n) : Reads text (ofInteger negative n)
  | double {d : Double} (hword : ¬ IsWord text) (h : Double.ofText? text = some d)
      (hfinite : d.isFinite = true) : Reads text (.double d)
  | string (hbool : ∀ b : Bool, text ≠ toString b) (hword : ¬ IsWord text)
      (h : Double.ofText? text = none) : Reads text (.string text)

/-- A text stands for a double that is no finite number, and for no integer in range. -/
def IsNotFinite (text : String) : Prop :=
  ¬ IsWord text ∧ ∃ d, Double.ofText? text = some d ∧ d.isFinite = false

/-! ## Both sides of the equals sign -/

theorem toList_joined (name rest : String) :
    (name ++ "=" ++ rest).toList = name.toList ++ '=' :: rest.toList := by
  rw [String.toList_append, String.toList_append, List.append_assoc]
  rfl

theorem split?_append (h : '=' ∉ name.toList) :
    split? (name ++ "=" ++ rest) = some (name, rest) := by
  have hname : ∀ c ∈ name.toList, (c != '=') = true := by
    intro c hc
    exact bne_iff_ne.2 fun heq => h (heq ▸ hc)
  rw [split?, toList_joined, List.dropWhile_append_of_pos hname,
    List.takeWhile_append_of_pos hname]
  simp

/-- A text is split at its first equals sign. -/
theorem split?_eq_some_iff : split? text = some (name, rest) ↔
    text = name ++ "=" ++ rest ∧ '=' ∉ name.toList := by
  constructor
  · intro h
    unfold split? at h
    split at h
    · cases h
    · next c value hdrop =>
      obtain ⟨rfl, rfl⟩ := Prod.mk.inj (Option.some.inj h)
      have hmark : c = '=' := by
        have hhead := List.head?_dropWhile_not (· != '=') text.toList
        rw [hdrop] at hhead
        simpa using hhead
      have hname : ∀ c ∈ text.toList.takeWhile (· != '='), (c != '=') = true :=
        List.all_eq_true.1 List.all_takeWhile
      refine ⟨String.ext ?_, ?_⟩
      · rw [toList_joined, String.toList_ofList, String.toList_ofList, ← hmark, ← hdrop, hmark,
          List.takeWhile_append_dropWhile]
      · rw [String.toList_ofList]
        exact fun hmem => absurd (hname '=' hmem) (by decide)
  · rintro ⟨rfl, h⟩
    exact split?_append h

theorem split?_eq_none_iff : split? text = none ↔ '=' ∉ text.toList := by
  have hdrop : split? text = none ↔ text.toList.dropWhile (· != '=') = [] := by
    unfold split?
    split
    · next h => simp [h]
    · next h => simp [h]
  rw [hdrop, List.dropWhile_eq_nil_iff]
  simp only [bne_iff_ne]
  exact ⟨fun h hmem => h '=' hmem rfl, fun h c hc heq => h (heq ▸ hc)⟩

/-! ## The value -/

theorem bool?_toString (b : Bool) : bool? (toString b) = some (.bool b) := by
  cases b <;> rfl

theorem bool?_eq_none (h : ∀ b : Bool, text ≠ toString b) : bool? text = none := by
  rw [bool?]
  exact (if_neg (h true)).trans (if_neg (h false))

/-- A boolean is no numeral. -/
theorem ofText?_toString (b : Bool) : Double.ofText? (toString b) = none := by
  cases b <;> decide

theorem not_isInteger_toString (b : Bool) :
    ¬ IsInteger (Utf8.encode (toString b)) negative n := by
  intro h
  obtain ⟨first, hfirst, hhead⟩ := h.exists_head
  cases b <;> obtain rfl := Option.some.inj hfirst <;> revert hhead <;> decide

theorem uint?_of_unsigned (h : IsInteger (Utf8.encode text) false n) (hfits : FitsWord false n) :
    uint? text = some (ofInteger false n) := by
  have hread : natOfText? (2 ^ 64 - 1) (Utf8.encode text) = .ok n :=
    natOfText?_eq_ok_iff.2 ⟨h, Nat.le_sub_one_of_lt hfits⟩
  rw [uint?, hread]
  rfl

theorem int?_of_minus (h : IsInteger (Utf8.encode text) true n) (hfits : FitsWord true n) :
    int? text = some (ofInteger true n) := by
  have hread : intOfText? (2 ^ 63) (2 ^ 63 - 1) (Utf8.encode text) = .ok (-(n : Int)) :=
    intOfText?_eq_ok_iff.2 (.inr ⟨n, ⟨h, hfits⟩, rfl⟩)
  rw [int?, hread]
  rfl

theorem uint?_eq_none (h : ∀ n, IsInteger (Utf8.encode text) false n → ¬ FitsWord false n) :
    uint? text = none := by
  cases hread : natOfText? (2 ^ 64 - 1) (Utf8.encode text) with
  | error fault =>
    rw [uint?, hread]
    rfl
  | ok n =>
    obtain ⟨hinteger, hlimit⟩ := natOfText?_eq_ok_iff.1 hread
    exact absurd (Nat.lt_of_le_sub_one (by decide) hlimit) (h n hinteger)

theorem int?_eq_none (h : ¬ IsWord text) : int? text = none := by
  cases hread : intOfText? (2 ^ 63) (2 ^ 63 - 1) (Utf8.encode text) with
  | error fault =>
    rw [int?, hread]
    rfl
  | ok k =>
    rcases intOfText?_eq_ok_iff.1 hread with ⟨n, ⟨hinteger, hlimit⟩, -⟩ | ⟨n, ⟨hinteger, hlimit⟩, -⟩
    · have hfits : n < 2 ^ 64 := by omega
      exact absurd ⟨false, n, hinteger, hfits⟩ h
    · exact absurd ⟨true, n, hinteger, hlimit⟩ h

theorem value?_of_integer (h : IsInteger (Utf8.encode text) negative n)
    (hfits : FitsWord negative n) : value? name text = .ok (ofInteger negative n) := by
  have hbool : bool? text = none := bool?_eq_none fun b heq =>
    not_isInteger_toString b (heq ▸ h)
  cases negative with
  | false => rw [value?, hbool, uint?_of_unsigned h hfits]; rfl
  | true =>
    have huint : uint? text = none := uint?_eq_none fun n' h' => absurd h (h'.not_minus n)
    rw [value?, hbool, huint, int?_of_minus h hfits]
    rfl

/-- What is neither a boolean nor an integer in range is a double if it is one at all. -/
theorem value?_of_rest (hbool : ∀ b : Bool, text ≠ toString b) (hword : ¬ IsWord text) :
    value? name text = match Double.ofText? text with
      | none => .ok (.string text)
      | some d => if d.isFinite then .ok (.double d) else .error (.notFinite name text) := by
  have huint : uint? text = none := uint?_eq_none fun n h hfits => hword ⟨false, n, h, hfits⟩
  rw [value?, bool?_eq_none hbool, huint, int?_eq_none hword]
  rfl

theorem value?_of_reads (h : Reads text v) : value? name text = .ok v := by
  cases h with
  | @bool b h =>
    rw [h, value?, bool?_toString]
    rfl
  | integer h hfits => exact value?_of_integer h hfits
  | double hword h hfinite =>
    have hbool (b : Bool) : text ≠ toString b := by
      rintro rfl
      cases h.symm.trans (ofText?_toString b)
    rw [value?_of_rest hbool hword, h]
    exact if_pos hfinite
  | string hbool hword h => rw [value?_of_rest hbool hword, h]

theorem value?_of_isNotFinite (h : IsNotFinite text) :
    value? name text = .error (.notFinite name text) := by
  obtain ⟨hword, d, h, hfinite⟩ := h
  have hbool (b : Bool) : text ≠ toString b := by
    rintro rfl
    cases h.symm.trans (ofText?_toString b)
  rw [value?_of_rest hbool hword, h]
  exact if_neg (by rw [hfinite]; decide)

/-- There is no third case. -/
theorem reads_or_isNotFinite (text : String) : (∃ v, Reads text v) ∨ IsNotFinite text := by
  by_cases hbool : ∃ b : Bool, text = toString b
  · obtain ⟨b, hb⟩ := hbool
    exact .inl ⟨_, .bool hb⟩
  by_cases hword : IsWord text
  · obtain ⟨negative, n, h, hfits⟩ := hword
    exact .inl ⟨_, .integer h hfits⟩
  cases h : Double.ofText? text with
  | none => exact .inl ⟨_, .string (not_exists.1 hbool) hword h⟩
  | some d =>
    cases hfinite : d.isFinite with
    | true => exact .inl ⟨_, .double hword h hfinite⟩
    | false => exact .inr ⟨hword, d, h, hfinite⟩

theorem value?_eq_ok_iff : value? name text = .ok v ↔ Reads text v := by
  refine ⟨fun h => ?_, value?_of_reads⟩
  rcases reads_or_isNotFinite text with ⟨v', hreads⟩ | hnot
  · obtain rfl := Except.ok.inj ((value?_of_reads hreads).symm.trans h)
    exact hreads
  · cases h.symm.trans (value?_of_isNotFinite hnot)

theorem value?_eq_error_iff : (∃ fault, value? name text = .error fault) ↔ IsNotFinite text := by
  refine ⟨fun ⟨fault, h⟩ => ?_, fun h => ⟨_, value?_of_isNotFinite h⟩⟩
  rcases reads_or_isNotFinite text with ⟨v', hreads⟩ | hnot
  · cases h.symm.trans (value?_of_reads hreads)
  · exact hnot

/-! ## Assignments -/

theorem parse_append (hne : name ≠ "") (h : '=' ∉ name.toList) (rest : String) :
    parse (name ++ "=" ++ rest) = (value? name rest).map (⟨name, ·⟩) := by
  rw [parse, split?_append h]
  exact if_neg (by simpa using hne)

theorem parse_of_noName (rest : String) : parse ("=" ++ rest) = .error (.noName ("=" ++ rest)) := by
  have hsplit : split? ("" ++ "=" ++ rest) = some ("", rest) := split?_append List.not_mem_nil
  rw [String.empty_append] at hsplit
  rw [parse, hsplit]
  rfl

/-- A text has no equals sign, or no name before the first one, or is a name, an equals sign and the
rest. -/
theorem shapes (text : String) : '=' ∉ text.toList ∨ (∃ rest, text = "=" ++ rest) ∨
    ∃ name rest, name ≠ "" ∧ '=' ∉ name.toList ∧ text = name ++ "=" ++ rest := by
  cases hsplit : split? text with
  | none => exact .inl (split?_eq_none_iff.1 hsplit)
  | some sides =>
    obtain ⟨name, rest⟩ := sides
    obtain ⟨htext, hname⟩ := split?_eq_some_iff.1 hsplit
    by_cases hne : name = ""
    · subst hne
      exact .inr (.inl ⟨rest, by rw [htext, String.empty_append]⟩)
    · exact .inr (.inr ⟨name, rest, hne, hname, htext⟩)

theorem parse_of_noEquals (h : '=' ∉ text.toList) : parse text = .error (.noEquals text) := by
  rw [parse, split?_eq_none_iff.2 h]

/-- A text is read as an assignment exactly if it is one. -/
theorem parse_eq_ok_iff {a : Assignment} : parse text = .ok a ↔
    a.name ≠ "" ∧ '=' ∉ a.name.toList ∧
      ∃ rest, text = a.name ++ "=" ++ rest ∧ Reads rest a.value := by
  constructor
  · intro h
    rcases shapes text with hnone | ⟨rest, rfl⟩ | ⟨name, rest, hne, hname, rfl⟩
    · cases h.symm.trans (parse_of_noEquals hnone)
    · cases h.symm.trans (parse_of_noName rest)
    · rw [parse_append hne hname] at h
      cases hvalue : value? name rest with
      | error fault =>
        rw [hvalue] at h
        cases h
      | ok v =>
        rw [hvalue] at h
        obtain rfl := Except.ok.inj h
        exact ⟨hne, hname, rest, rfl, value?_eq_ok_iff.1 hvalue⟩
  · rintro ⟨hne, hname, rest, rfl, hreads⟩
    rw [parse_append hne hname, value?_of_reads hreads]
    rfl

theorem parse_eq_error_iff : (∃ fault, parse text = .error fault) ↔
    '=' ∉ text.toList ∨ (∃ rest, text = "=" ++ rest) ∨
      ∃ name rest, '=' ∉ name.toList ∧ text = name ++ "=" ++ rest ∧ IsNotFinite rest := by
  constructor
  · rintro ⟨fault, h⟩
    rcases shapes text with hnone | ⟨rest, rfl⟩ | ⟨name, rest, hne, hname, rfl⟩
    · exact .inl hnone
    · exact .inr (.inl ⟨rest, rfl⟩)
    · rw [parse_append hne hname] at h
      cases hvalue : value? name rest with
      | error fault => exact .inr (.inr ⟨name, rest, hname, rfl, value?_eq_error_iff.1 ⟨_, hvalue⟩⟩)
      | ok v =>
        rw [hvalue] at h
        cases h
  · rintro (hnone | ⟨rest, rfl⟩ | ⟨name, rest, hname, rfl, hnot⟩)
    · exact ⟨_, parse_of_noEquals hnone⟩
    · exact ⟨_, parse_of_noName rest⟩
    · by_cases hne : name = ""
      · rw [hne, String.empty_append]
        exact ⟨_, parse_of_noName rest⟩
      · rw [parse_append hne hname, value?_of_isNotFinite hnot]
        exact ⟨_, rfl⟩

/-! ## Texts of integers -/

theorem reads_uint (k : UInt64) : Reads (toString k) (.uint k) := by
  have htext : toString k = toString k.toNat := rfl
  have hinteger : IsInteger (Utf8.encode (toString k)) false k.toNat := by
    rw [htext, Digits.encode_toString]
    exact .unsigned (Digits.make_ofNat k.toNat)
  have hreads := Reads.integer hinteger k.toNat_lt
  rwa [ofInteger, UInt64.ofNat_toNat] at hreads

theorem reads_int {k : Int64} (h : k < 0) : Reads (toString k) (.int k) := by
  have hneg : k.toInt < 0 := Int64.lt_iff_toInt_lt.1 h
  have hlow := k.le_toInt
  obtain ⟨n, hn⟩ : ∃ n : Nat, k.toInt = Int.negSucc n := Int.eq_negSucc_of_lt_zero hneg
  have htext : toString k = "-" ++ toString (n + 1) := by
    change toString k.toInt = _
    rw [hn]
    rfl
  have hinteger : IsInteger (Utf8.encode (toString k)) true (n + 1) := by
    rw [htext, Utf8.encode_eq_flatMap, String.toList_append, List.flatMap_append,
      ← Utf8.encode_eq_flatMap, ← Utf8.encode_eq_flatMap, Digits.encode_toString]
    exact .minus (Digits.make_ofNat (n + 1))
  have hfits : FitsWord true (n + 1) := by
    have : n + 1 ≤ 2 ^ 63 := by omega
    exact this
  have hreads := Reads.integer hinteger hfits
  have hvalue : -((n + 1 : Nat) : Int) = k.toInt := by omega
  rwa [ofInteger, hvalue, Int64.ofInt_toInt] at hreads

/-! ## Sending -/

/-- Some assignments go over the wire whole: the request that sets them has a text, and what is read
from it is the request with one leaf for each of them. -/
def Sendable (assignments : List Assignment) : Prop :=
  ∀ id dsuid, ∃ bytes,
    (⟨id, .setProperty dsuid (Probe.update assignments)⟩ : Message).encode = .ok bytes ∧
      Message.decode bytes = .ok ⟨id, .setProperty dsuid
        (assignments.map fun a => ⟨some a.name, some a.value, []⟩)⟩

theorem update_eq_map (assignments : List Assignment) : Probe.update assignments =
    assignments.map fun a => ⟨some a.name, some a.value, []⟩ := by
  rw [Probe.update, Node.toElements_eq_map, List.map_map]
  rfl

theorem isFinite_of_reads (h : Reads text v) : ∀ d ∈ v.doubles, d.isFinite = true := by
  cases h with
  | double _ _ hfinite => exact List.forall_mem_singleton.2 hfinite
  | @integer negative n _ _ => cases negative <;> exact List.forall_mem_nil _
  | bool | string => exact List.forall_mem_nil _

theorem sendable_of_parse {assignments : List Assignment}
    (h : ∀ a ∈ assignments, ∃ text, parse text = .ok a) : Sendable assignments := by
  intro id dsuid
  have hfinite : ∀ d ∈ (⟨id, .setProperty dsuid (Probe.update assignments)⟩ : Message).doubles,
      d.isFinite = true := by
    rw [update_eq_map]
    refine Element.forall_mem_listDoubles_iff.2 fun element helement => ?_
    obtain ⟨a, ha, rfl⟩ := List.mem_map.1 helement
    obtain ⟨text, htext⟩ := h a ha
    obtain ⟨-, -, rest, -, hreads⟩ := parse_eq_ok_iff.1 htext
    have hdoubles : (⟨some a.name, some a.value, []⟩ : Element).doubles = a.value.doubles :=
      List.append_nil _
    rw [hdoubles]
    exact isFinite_of_reads hreads
  have hnesting : (⟨id, .setProperty dsuid (Probe.update assignments)⟩ : Message).toJson.nesting ≤
      Json.maxNesting := by
    have hfield : Json.fieldNesting (Payload.elementsField (Probe.update assignments)) ≤ 1 + 3 := by
      rw [Payload.elementsField_eq_field]
      refine Node.fieldNesting_field_le fun node hnode => ?_
      obtain ⟨a, -, rfl⟩ := List.mem_map.1 hnode
      exact Node.nesting_leaf_le _ _
    have hpayload : (Payload.setProperty dsuid (Probe.update assignments)).toJson.nesting ≤
        1 + max 1 (Json.fieldNesting (Payload.elementsField (Probe.update assignments))) :=
      Payload.nesting_toJson_le _
    have hlimit : 1 + (1 + max 1 (1 + 3)) ≤ Json.maxNesting := by decide
    rw [Message.nesting_toJson]
    change 1 + (Payload.setProperty dsuid (Probe.update assignments)).toJson.nesting ≤ _
    omega
  have hencode := Message.encode_eq_ok hfinite
  refine ⟨_, hencode, ?_⟩
  rw [← update_eq_map]
  exact Message.decode_of_encode hencode hnesting

/-! ## What assignments come to -/

/-- What becomes of a text that is read as an assignment. -/
structure Reading (text : String) : Prop where
  /-- It is one exactly if it is a name, an equals sign and what the value is read from. -/
  ok_iff : ∀ a, parse text = .ok a ↔ a.name ≠ "" ∧ '=' ∉ a.name.toList ∧
    ∃ rest, text = a.name ++ "=" ++ rest ∧ Reads rest a.value
  /-- It is refused exactly if the equals sign or the name is missing, or the rest stands for a
  double that is no finite number. -/
  error_iff : (∃ fault, parse text = .error fault) ↔
    '=' ∉ text.toList ∨ (∃ rest, text = "=" ++ rest) ∨
      ∃ name rest, '=' ∉ name.toList ∧ text = name ++ "=" ++ rest ∧ IsNotFinite rest

/-- What is given to a name comes out with the type that its text has. -/
structure Typed (name : String) : Prop where
  bool : ∀ b : Bool, parse (name ++ "=" ++ toString b) = .ok ⟨name, .bool b⟩
  uint : ∀ k : UInt64, parse (name ++ "=" ++ toString k) = .ok ⟨name, .uint k⟩
  int : ∀ k : Int64, k < 0 → parse (name ++ "=" ++ toString k) = .ok ⟨name, .int k⟩
  /-- Whatever is no boolean, no integer and no double is a string as it stands. -/
  string : ∀ rest, (∀ b : Bool, rest ≠ toString b) →
    (∀ negative n, ¬ IsInteger (Utf8.encode rest) negative n) → Double.ofText? rest = none →
      parse (name ++ "=" ++ rest) = .ok ⟨name, .string rest⟩

theorem typed (hne : name ≠ "") (h : '=' ∉ name.toList) : Typed name := by
  have hparse {rest : String} {v : Value} (hreads : Reads rest v) :
      parse (name ++ "=" ++ rest) = .ok ⟨name, v⟩ :=
    parse_eq_ok_iff.2 ⟨hne, h, rest, rfl, hreads⟩
  refine ⟨fun b => hparse (.bool rfl), fun k => hparse (reads_uint k),
    fun k hk => hparse (reads_int hk), fun rest hbool hinteger hdouble => ?_⟩
  have hword : ¬ IsWord rest := fun ⟨negative, n, hmade, _⟩ => hinteger negative n hmade
  exact hparse (.string hbool hword hdouble)

/-- Whatever is read as an assignment can be sent, and which value it is depends on nothing but the
text behind the first equals sign. -/
theorem predictable : (∀ text, Reading text) ∧
    (∀ name, name ≠ "" → '=' ∉ name.toList → Typed name) ∧
      ∀ assignments, (∀ a ∈ assignments, ∃ text, parse text = .ok a) → Sendable assignments :=
  ⟨fun _ => ⟨fun _ => parse_eq_ok_iff, parse_eq_error_iff⟩, fun _ => typed,
    fun _ => sendable_of_parse⟩

/-- A value with an equals sign in it is a string. -/
theorem predictable_note : Typed "note" ∧ parse "note=a=b" = .ok ⟨"note", .string "a=b"⟩ ∧
    Sendable [⟨"note", .string "a=b"⟩] := by
  have hname := predictable.2.1 "note" (by decide) (by decide)
  have hbool : ∀ b : Bool, "a=b" ≠ toString b := by decide
  have hinteger (negative : Bool) (n : Nat) : ¬ IsInteger (Utf8.encode "a=b") negative n := by
    intro h
    obtain ⟨first, hfirst, hhead⟩ := h.exists_head
    obtain rfl := Option.some.inj hfirst
    revert hhead
    decide
  have hparse := hname.string "a=b" hbool hinteger (by decide)
  exact ⟨hname, hparse, predictable.2.2 _ (List.forall_mem_singleton.2 ⟨_, hparse⟩)⟩

end Vdc.Assignment
