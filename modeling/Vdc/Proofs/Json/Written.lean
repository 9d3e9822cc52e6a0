import Vdc.Proofs.Json.Grammar

/-!
# The texts that are written

Both forms a value is written in, the compact and the indented one, are texts of the value:
`textOf_render` and `textOf_indent`. A byte of a string is written as one piece, and the escapes of
the control characters without a letter of their own are the only ones in hex.
-/

namespace Vdc.Json

/-! ## Strings -/

/-- The piece of a string that a byte is written as. -/
def Piece.ofByte (b : UInt8) : Piece :=
  if b < 0x20 ∧ b ∉ ([0x08, 0x09, 0x0a, 0x0c, 0x0d] : List UInt8) then .codeUnit b.toNat
  else .byte b

/-- The pieces that bytes are written as spell them. -/
theorem Piece.toBytes?_map_ofByte (bytes : List UInt8) :
    toBytes? (bytes.map ofByte) = some bytes := by
  induction bytes with
  | nil => rfl
  | cons b rest ih =>
    rw [List.map_cons, ofByte]
    split
    · next hcontrol =>
      have hlt : b.toNat < 0x20 := UInt8.lt_iff_toNat_lt.1 hcontrol.1
      have hchar : ∀ n < 0x20, String.utf8EncodeChar (Char.ofNat n) = [UInt8.ofNat n] := by decide
      unfold toBytes?
      rw [if_neg (by omega), if_neg (by omega), ih, hchar _ hlt, UInt8.ofNat_toNat]
      rfl
    · rw [toBytes?, ih]
      rfl

/-- A byte inside a string is written as its piece. -/
theorem inside_escape_append {pieces : List Piece} {bytes : List UInt8} (h : Inside pieces bytes)
    (b : UInt8) : Inside (Piece.ofByte b :: pieces) (escape b ++ bytes) := by
  unfold escape
  split
  -- Seven bytes have escapes of their own; the other control characters are written in hex.
  iterate 7 exact .letter rfl h
  next hquote hbackslash h8 h9 h10 h12 h13 =>
  split
  · next hcontrol =>
    have hhex : ∀ n < 0x20, Hex.value? (0x30 + UInt8.ofNat n / 16) = some (n / 16) ∧
        Hex.value? (if UInt8.ofNat n % 16 < 10 then 0x30 + UInt8.ofNat n % 16
          else 0x57 + UInt8.ofNat n % 16) = some (n % 16) := by decide
    obtain ⟨hhigh, hlow⟩ := hhex b.toNat (UInt8.lt_iff_toNat_lt.1 hcontrol)
    rw [UInt8.ofNat_toNat] at hhigh hlow
    have hpiece : Piece.ofByte b = .codeUnit (((0 * 16 + 0) * 16 + b.toNat / 16) * 16
        + b.toNat % 16) := by
      have hvalue : ((0 * 16 + 0) * 16 + b.toNat / 16) * 16 + b.toNat % 16 = b.toNat := by omega
      rw [hvalue, Piece.ofByte, if_pos]
      simp_all
    rw [hpiece]
    exact .hex rfl rfl hhigh hlow h
  · next hplain =>
    have hpiece : Piece.ofByte b = .byte b := by
      rw [Piece.ofByte, if_neg fun h => hplain h.1]
    rw [hpiece]
    exact .byte hplain hquote hbackslash h

theorem stringText_quote (s : String) : StringText s (quote s) := by
  have hinside (bytes : List UInt8) : Inside (bytes.map Piece.ofByte) (bytes.flatMap escape) := by
    induction bytes with
    | nil => exact .nil
    | cons b rest ih => exact inside_escape_append ih b
  refine ⟨_, _, hinside (Utf8.encode s), ?_, rfl⟩
  rw [Piece.toString?, Piece.toBytes?_map_ofByte, Option.bind_some, Utf8.decode?_encode]

/-- A written string is one token. -/
theorem Lexer.yields_quote (s : String) : Yields (quote s) [.text (some s)] :=
  yields_of_stringText (stringText_quote s)

/-! ## Numbers -/

theorem numberText_toBytes {n : Numeral} {value : Number} (h : n.WellFormed)
    (hstrict : n.isStrict = true) (hvalue : Number.ofNumeral? n = some value) :
    NumberText value n.toBytes :=
  ⟨n, _, h, hstrict, .inl rfl, hvalue, n.toBytes_eq_spell⟩

theorem numberText_renderNumber {value : Number} (h : (Json.number value).IsPrintable) :
    NumberText value (renderNumber value) := by
  cases value with
  | integer k =>
    obtain ⟨n, hbytes, hwellFormed, hstrict, hinteger, hvalue, hzero⟩ :=
      Digits.exists_numeral_ofInt k
    have hnumber : Number.ofNumeral? n = some (.integer k) := by
      have hsign : (n.negative && k == 0) = false := by
        rw [Bool.and_eq_false_imp]
        exact fun hnegative => beq_eq_false_iff_ne.2 (hzero hnegative)
      have hrange : decide (-2 ^ 63 ≤ k ∧ k < 2 ^ 64) = true := decide_eq_true h
      rw [Number.ofNumeral?, hinteger, hvalue, hsign, hrange]
      rfl
    rw [renderNumber, ← hbytes]
    exact numberText_toBytes hwellFormed hstrict hnumber
  | real d =>
    cases d with
    | finite v =>
      obtain ⟨n, hbytes, hwellFormed, hstrict, hinteger, hvalue⟩ := v.exists_numeral
      have hnumber : Number.ofNumeral? n = some (.real (.finite v)) := by
        simp [Number.ofNumeral?, hinteger, hvalue, Double.isFinite]
      rw [renderNumber, ← hbytes]
      exact numberText_toBytes hwellFormed hstrict hnumber
    | infinite | nan => cases h

/-! ## The compact form -/

mutual

/-- The compact form of a value is a text of it. -/
theorem textOf_render : ∀ {json : Json}, json.IsPrintable → TextOf json json.render
  | .null, _ => .null
  | .boolean true, _ => .true
  | .boolean false, _ => .false
  | .number _, h => .number (numberText_renderNumber h)
  | .text s, _ => .text (stringText_quote s)
  | .array _, h => .array (itemsText_renderItems h)
  | .object _, h => .object (entriesText_renderEntries h)

theorem itemsText_renderItems : ∀ {items : List Json}, ArePrintable items →
    ItemsText items (renderItems items)
  | [], _ => .nil (List.forall_mem_nil _)
  | [_], h => .single (textOf_render h.1)
  | _ :: _ :: _, h => .cons (textOf_render h.1) (itemsText_renderItems h.2)

theorem entriesText_renderEntries : ∀ {entries : List (String × Json)}, EntriesPrintable entries →
    EntriesText entries (renderEntries entries)
  | [], _ => .nil (List.forall_mem_nil _)
  | [(name, _)], h => .single (.text (stringText_quote name)) (textOf_render h.1)
  | (name, _) :: _ :: _, h =>
    .cons (.text (stringText_quote name)) (textOf_render h.1) (entriesText_renderEntries h.2)

end

/-- The lexer finds the tokens of a value in its compact form. -/
theorem tokens?_render {json : Json} (h : json.IsPrintable) :
    tokens? json.render = some json.tokens :=
  tokens?_of_textOf (textOf_render h)

/-! ## The indented form -/

theorem isBlank_newline (level : Nat) : IsBlank (newline level) := by
  intro b hb
  rcases List.mem_cons.1 hb with rfl | hb
  · exact .inr (.inr (.inl rfl))
  · exact .inl (List.eq_of_mem_replicate hb)

/-- Whitespace before a text. -/
theorem TextOf.after {json : Json} {before bytes : List UInt8} (hbefore : IsBlank before)
    (h : TextOf json bytes) : TextOf json (before ++ bytes) :=
  List.append_nil (before ++ bytes) ▸ .padded hbefore h (List.forall_mem_nil _)

/-- Whitespace behind a text. -/
theorem TextOf.before {json : Json} {bytes after : List UInt8} (h : TextOf json bytes)
    (hafter : IsBlank after) : TextOf json (bytes ++ after) :=
  .padded (List.forall_mem_nil _) h hafter

/-- A key at the start of a line. -/
theorem textOf_line (level : Nat) (name : String) :
    TextOf (.text name) (newline (level + 1) ++ quote name) :=
  .after (isBlank_newline (level + 1)) (.text (stringText_quote name))

mutual

/-- The indented form of a value is a text of it. -/
theorem textOf_indent : ∀ {json : Json} (level : Nat), json.IsPrintable →
    TextOf json (json.indent level)
  | .null, _, _ => .null
  | .boolean true, _, _ => .true
  | .boolean false, _, _ => .false
  | .number _, _, h => .number (numberText_renderNumber h)
  | .text s, _, _ => .text (stringText_quote s)
  | .array [], _, _ => .array (.nil (List.forall_mem_nil _))
  | .array (_ :: _), level, h => by
    obtain ⟨inside, hinside, htext⟩ := exists_itemsText level
      (.after (isBlank_newline (level + 1)) (textOf_indent (level + 1) h.1)) h.2
    rw [indent, hinside]
    exact .array htext
  | .object [], _, _ => .object (.nil (List.forall_mem_nil _))
  | .object ((name, _) :: _), level, h => by
    obtain ⟨inside, hinside, htext⟩ := exists_entriesText level (textOf_line level name)
      (.after (List.forall_mem_singleton.2 (.inl rfl)) (textOf_indent (level + 1) h.1)) h.2
    rw [indent]
    simp only [List.append_assoc, List.cons_append, List.nil_append] at hinside ⊢
    rw [hinside]
    exact .object htext

/-- The items after the first one close the array. -/
theorem exists_itemsText : ∀ {rest : List Json} {item : Json} {bytes : List UInt8} (level : Nat),
    TextOf item bytes → ArePrintable rest →
    ∃ inside, bytes ++ indentItems level rest = inside ++ [0x5d] ∧ ItemsText (item :: rest) inside
  | [], _, bytes, level, h, _ =>
    ⟨bytes ++ newline level, (List.append_assoc _ _ _).symm,
      .single (h.before (isBlank_newline level))⟩
  | _ :: _, _, bytes, level, h, hrest => by
    obtain ⟨inside, hinside, htext⟩ := exists_itemsText level
      (.after (isBlank_newline (level + 1)) (textOf_indent (level + 1) hrest.1)) hrest.2
    refine ⟨bytes ++ 0x2c :: inside, ?_, .cons h htext⟩
    rw [indentItems, hinside, List.append_assoc, List.cons_append]

/-- The entries after the first one close the object. -/
theorem exists_entriesText : ∀ {rest : List (String × Json)} {name : String} {value : Json}
    {key bytes : List UInt8} (level : Nat), TextOf (.text name) key → TextOf value bytes →
    EntriesPrintable rest →
    ∃ inside, key ++ 0x3a :: bytes ++ indentEntries level rest = inside ++ [0x7d] ∧
      EntriesText ((name, value) :: rest) inside
  | [], _, _, _, _, level, hkey, h, _ => by
    refine ⟨_, ?_, .single hkey (h.before (isBlank_newline level))⟩
    simp [indentEntries]
  | (next, _) :: _, _, _, _, _, level, hkey, h, hrest => by
    obtain ⟨inside, hinside, htext⟩ := exists_entriesText level (textOf_line level next)
      (.after (List.forall_mem_singleton.2 (.inl rfl)) (textOf_indent (level + 1) hrest.1)) hrest.2
    refine ⟨_, ?_, .cons hkey h htext⟩
    rw [indentEntries]
    simp only [List.append_assoc, List.cons_append, List.nil_append] at hinside ⊢
    rw [hinside]

end

end Vdc.Json
