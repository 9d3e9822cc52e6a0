import Vdc.Proofs.Json.Tokens

/-!
# The texts of a value

`Json.TextOf` is the grammar of JSON: the texts of a value, with any whitespace between the tokens,
any escapes in the strings and any spelling of the numbers. A number beyond the range of doubles and
a string that is not Unicode are no texts of any value here.

`tokens?_of_textOf` says that the lexer finds the tokens of a value in every text of it. The proof
follows the grammar: each rule says what the lexer makes of a text of its form, given what it makes
of the parts.
-/

namespace Vdc.Json

/-! ## The grammar -/

/-- Whitespace. -/
def IsBlank (bytes : List UInt8) : Prop :=
  ∀ b ∈ bytes, b = 0x20 ∨ b = 0x09 ∨ b = 0x0a ∨ b = 0x0d

/-- The inside of a string and the pieces it consists of: bytes that stand for themselves, escapes
of one letter, and escapes of four hex digits. -/
inductive Inside : List Piece → List UInt8 → Prop
  | nil : Inside [] []
  | byte {b : UInt8} {pieces : List Piece} {bytes : List UInt8} (hcontrol : ¬ b < 0x20)
      (hquote : b ≠ 0x22) (hbackslash : b ≠ 0x5c) (h : Inside pieces bytes) :
      Inside (.byte b :: pieces) (b :: bytes)
  | letter {b letter : UInt8} {pieces : List Piece} {bytes : List UInt8}
      (hletter : unescape? letter = some b) (h : Inside pieces bytes) :
      Inside (.byte b :: pieces) (0x5c :: letter :: bytes)
  | hex {a b c d : UInt8} {u v w x : Nat} {pieces : List Piece} {bytes : List UInt8}
      (ha : Hex.value? a = some u) (hb : Hex.value? b = some v) (hc : Hex.value? c = some w)
      (hd : Hex.value? d = some x) (h : Inside pieces bytes) :
      Inside (.codeUnit (((u * 16 + v) * 16 + w) * 16 + x) :: pieces)
        (0x5c :: 0x75 :: a :: b :: c :: d :: bytes)

/-- The texts of a string. -/
def StringText (s : String) (bytes : List UInt8) : Prop :=
  ∃ pieces inside, Inside pieces inside ∧ Piece.toString? pieces = some s ∧
    bytes = 0x22 :: (inside ++ [0x22])

/-- The texts of a number. -/
def NumberText (value : Number) (bytes : List UInt8) : Prop :=
  ∃ (n : Numeral) (letter : UInt8), n.WellFormed ∧ n.isStrict = true ∧
    Numeral.IsLetter letter ∧ Number.ofNumeral? n = some value ∧ bytes = n.spell letter

mutual

/-- The texts of a value. -/
inductive TextOf : Json → List UInt8 → Prop
  | null : TextOf .null [0x6e, 0x75, 0x6c, 0x6c]
  | true : TextOf (.boolean true) [0x74, 0x72, 0x75, 0x65]
  | false : TextOf (.boolean false) [0x66, 0x61, 0x6c, 0x73, 0x65]
  | number {value : Number} {bytes : List UInt8} (h : NumberText value bytes) :
      TextOf (.number value) bytes
  | text {s : String} {bytes : List UInt8} (h : StringText s bytes) : TextOf (.text s) bytes
  | array {items : List Json} {bytes : List UInt8} (h : ItemsText items bytes) :
      TextOf (.array items) (0x5b :: (bytes ++ [0x5d]))
  | object {entries : List (String × Json)} {bytes : List UInt8} (h : EntriesText entries bytes) :
      TextOf (.object entries) (0x7b :: (bytes ++ [0x7d]))
  | padded {json : Json} {before bytes after : List UInt8} (hbefore : IsBlank before)
      (h : TextOf json bytes) (hafter : IsBlank after) : TextOf json (before ++ bytes ++ after)

/-- The texts of items with commas between them. -/
inductive ItemsText : List Json → List UInt8 → Prop
  | nil {bytes : List UInt8} (h : IsBlank bytes) : ItemsText [] bytes
  | single {item : Json} {bytes : List UInt8} (h : TextOf item bytes) : ItemsText [item] bytes
  | cons {item next : Json} {rest : List Json} {bytes more : List UInt8} (h : TextOf item bytes)
      (hrest : ItemsText (next :: rest) more) :
      ItemsText (item :: next :: rest) (bytes ++ 0x2c :: more)

/-- The texts of entries with commas between them. A name may have whitespace around it as values
may. -/
inductive EntriesText : List (String × Json) → List UInt8 → Prop
  | nil {bytes : List UInt8} (h : IsBlank bytes) : EntriesText [] bytes
  | single {name : String} {value : Json} {key bytes : List UInt8} (hkey : TextOf (.text name) key)
      (h : TextOf value bytes) : EntriesText [(name, value)] (key ++ 0x3a :: bytes)
  | cons {name : String} {value : Json} {next : String × Json} {rest : List (String × Json)}
      {key bytes more : List UInt8} (hkey : TextOf (.text name) key) (h : TextOf value bytes)
      (hrest : EntriesText (next :: rest) more) :
      EntriesText ((name, value) :: next :: rest) (key ++ 0x3a :: (bytes ++ 0x2c :: more))

end

mutual

/-- What has a text can be written again. -/
theorem isPrintable_of_textOf : ∀ {json : Json} {bytes : List UInt8}, TextOf json bytes →
    json.IsPrintable
  | _, _, .null | _, _, .true | _, _, .false | _, _, .text _ => trivial
  | _, _, .number h => by
    obtain ⟨n, _, -, -, -, hvalue, -⟩ := h
    exact isPrintable_ofNumeral? hvalue
  | _, _, .array h => arePrintable_of_itemsText h
  | _, _, .object h => entriesPrintable_of_entriesText h
  | _, _, .padded _ h _ => isPrintable_of_textOf h

theorem arePrintable_of_itemsText : ∀ {items : List Json} {bytes : List UInt8},
    ItemsText items bytes → ArePrintable items
  | _, _, .nil _ => trivial
  | _, _, .single h => ⟨isPrintable_of_textOf h, trivial⟩
  | _, _, .cons h hrest => ⟨isPrintable_of_textOf h, arePrintable_of_itemsText hrest⟩

theorem entriesPrintable_of_entriesText : ∀ {entries : List (String × Json)} {bytes : List UInt8},
    EntriesText entries bytes → EntriesPrintable entries
  | _, _, .nil _ => trivial
  | _, _, .single _ h => ⟨isPrintable_of_textOf h, trivial⟩
  | _, _, .cons _ h hrest => ⟨isPrintable_of_textOf h, entriesPrintable_of_entriesText hrest⟩

end

/-! ## What the lexer makes of the parts -/

namespace Lexer

/-- Whitespace ends what stands before it and is nothing by itself. -/
theorem step_of_blank {l : Lexer} {ts : List Token} {b : UInt8}
    (hb : b = 0x20 ∨ b = 0x09 ∨ b = 0x0a ∨ b = 0x0d) (h : l.Reads ts) :
    l.step b = some ⟨ts, .between⟩ := by
  rcases h with rfl | ⟨found, taken, token, rfl, htoken, rfl⟩
  · rcases hb with rfl | rfl | rfl | rfl <;> rfl
  · rcases hb with rfl | rfl | rfl | rfl <;>
      simp [step, isNumeralByte, Digits.isDigit, htoken, start]

theorem run_blank (found : List Token) {bytes : List UInt8} (h : IsBlank bytes) :
    run ⟨found, .between⟩ bytes = some ⟨found, .between⟩ := by
  induction bytes with
  | nil => rfl
  | cons b rest ih =>
    obtain ⟨hb, hrest⟩ := List.forall_mem_cons.1 h
    rw [run, List.foldlM_cons, step_of_blank hb (.inl rfl)]
    exact ih hrest

theorem yields_of_blank {bytes : List UInt8} (h : IsBlank bytes) : Yields bytes [] :=
  yields_of_run fun found => run_blank found h

theorem Yields.pad {before bytes after : List UInt8} {ts : List Token} (hbefore : IsBlank before)
    (h : Yields bytes ts) (hafter : IsBlank after) : Yields (before ++ bytes ++ after) ts := by
  intro found
  obtain ⟨l, hrun, hreads⟩ := h found
  rw [run_append, run_append, run_blank found hbefore, Option.bind_some, hrun, Option.bind_some]
  cases after with
  | nil => exact ⟨l, rfl, hreads⟩
  | cons b rest =>
    obtain ⟨hb, hrest⟩ := List.forall_mem_cons.1 hafter
    refine ⟨⟨ts.reverse ++ found, .between⟩, ?_, .inl rfl⟩
    rw [run, List.foldlM_cons, step_of_blank hb hreads]
    exact run_blank _ hrest

/-- The inside of a string is taken piece by piece. -/
theorem run_inside (found : List Token) {pieces : List Piece} {bytes : List UInt8}
    (h : Inside pieces bytes) : ∀ taken : List Piece, run ⟨found, .text taken⟩ bytes =
      some ⟨found, .text (pieces.reverse ++ taken)⟩ := by
  have hcons (l : Lexer) (b : UInt8) (rest : List UInt8) :
      l.run (b :: rest) = (l.step b).bind (·.run rest) := List.foldlM_cons
  induction h with
  | nil => exact fun _ => rfl
  | @byte b pieces bytes hcontrol hquote hbackslash _ ih =>
    intro taken
    have hstep : step ⟨found, .text taken⟩ b = some ⟨found, .text (.byte b :: taken)⟩ := by
      simp [step, hquote, hbackslash, hcontrol]
    rw [hcons, hstep, Option.bind_some, ih]
    simp
  | @letter b letter pieces bytes hletter _ ih =>
    intro taken
    have hne : letter ≠ 0x75 := by
      rintro rfl
      cases hletter
    have hstep : step ⟨found, .escape taken⟩ letter = some ⟨found, .text (.byte b :: taken)⟩ := by
      simp [step, hne, hletter]
    have hescape : step ⟨found, .text taken⟩ 0x5c = some ⟨found, .escape taken⟩ := rfl
    rw [hcons, hescape, Option.bind_some, hcons, hstep, Option.bind_some, ih]
    simp
  | @hex a b c d u v w x pieces bytes ha hb hc hd _ ih =>
    intro taken
    have hrun : run ⟨found, .text taken⟩ (0x5c :: 0x75 :: a :: b :: c :: d :: bytes) =
        run ⟨found, .text (.codeUnit (((u * 16 + v) * 16 + w) * 16 + x) :: taken)⟩ bytes := by
      simp [hcons, step, ha, hb, hc, hd]
    rw [hrun, ih]
    simp

/-- A string between quotes is one token. -/
theorem yields_of_stringText {s : String} {bytes : List UInt8} (h : StringText s bytes) :
    Yields bytes [.text (some s)] := by
  obtain ⟨pieces, inside, hinside, hs, rfl⟩ := h
  refine yields_of_run fun found => ?_
  have hopen : run ⟨found, .between⟩ (0x22 :: (inside ++ [0x22])) =
      (run ⟨found, .text []⟩ inside).bind (·.run [0x22]) := run_append ⟨found, .text []⟩ _ _
  rw [hopen, run_inside found hinside, Option.bind_some, List.append_nil]
  simp [run, step, hs]

mutual

/-- A text of a value is read as its tokens. -/
theorem yields_of_textOf : ∀ {json : Json} {bytes : List UInt8}, TextOf json bytes →
    Yields bytes json.tokens
  | _, _, .null | _, _, .true | _, _, .false => yields_of_run fun _ => rfl
  | _, _, .number h => by
    obtain ⟨n, letter, hwellFormed, hstrict, hletter, hvalue, rfl⟩ := h
    rw [tokens, ← hvalue]
    exact yields_spell hletter hwellFormed hstrict
  | _, _, .text h => yields_of_stringText h
  | _, _, .array h =>
    .cons punctuates_openArray ((yields_of_itemsText h).append punctuates_closeArray yields_nil)
  | _, _, .object h =>
    .cons punctuates_openObject
      ((yields_of_entriesText h).append punctuates_closeObject yields_nil)
  | _, _, .padded hbefore h hafter => (yields_of_textOf h).pad hbefore hafter

theorem yields_of_itemsText : ∀ {items : List Json} {bytes : List UInt8}, ItemsText items bytes →
    Yields bytes (itemTokens items)
  | _, _, .nil h => yields_of_blank h
  | _, _, .single h => yields_of_textOf h
  | _, _, .cons h hrest => (yields_of_textOf h).append punctuates_comma (yields_of_itemsText hrest)

theorem yields_of_entriesText : ∀ {entries : List (String × Json)} {bytes : List UInt8},
    EntriesText entries bytes → Yields bytes (entryTokens entries)
  | _, _, .nil h => yields_of_blank h
  | _, _, .single hkey h => (yields_of_textOf hkey).append punctuates_colon (yields_of_textOf h)
  | _, _, .cons hkey h hrest =>
    (yields_of_textOf hkey).append punctuates_colon
      ((yields_of_textOf h).append punctuates_comma (yields_of_entriesText hrest))

end

end Lexer

/-- The lexer finds the tokens of a value in its texts. -/
theorem tokens?_of_textOf {json : Json} {bytes : List UInt8} (h : TextOf json bytes) :
    tokens? bytes = some json.tokens := by
  obtain ⟨l, hrun, hreads⟩ := Lexer.yields_of_textOf h []
  rw [tokens?, hrun, Option.bind_some, Lexer.finish_of_reads hreads]
  simp

end Vdc.Json
