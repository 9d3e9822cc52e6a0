import Mathlib.Data.List.Basic
import Mathlib.Data.List.Induction
import Vdc.Proofs.Json.Written

/-!
# The text of a sequence of tokens

A text that has tokens consists of their lexemes with whitespace between them:
`lexemes_of_tokens?`. The lexer is followed byte by byte. What it has taken are lexemes of the tokens
it has found and the beginning of one that is under way, of which `Lexer.Underway` tells what is
already there.

A text with the tokens of a value is then a text of the value, `textOf_of_lexemes`, since the
punctuation among the tokens divides the text as the grammar does.
-/

namespace Vdc.Json

/-! ## Lexemes -/

/-- The spellings of a token. -/
inductive Lexeme : Token → List UInt8 → Prop
  | openObject : Lexeme .openObject [0x7b]
  | closeObject : Lexeme .closeObject [0x7d]
  | openArray : Lexeme .openArray [0x5b]
  | closeArray : Lexeme .closeArray [0x5d]
  | colon : Lexeme .colon [0x3a]
  | comma : Lexeme .comma [0x2c]
  | null : Lexeme .null [0x6e, 0x75, 0x6c, 0x6c]
  | true : Lexeme (.boolean true) [0x74, 0x72, 0x75, 0x65]
  | false : Lexeme (.boolean false) [0x66, 0x61, 0x6c, 0x73, 0x65]
  | number {n : Numeral} {letter : UInt8} (h : n.WellFormed) (hstrict : n.isStrict = true)
      (hletter : Numeral.IsLetter letter) :
      Lexeme (.number (Number.ofNumeral? n)) (n.spell letter)
  | text {pieces : List Piece} {inside : List UInt8} (h : Inside pieces inside) :
      Lexeme (.text (Piece.toString? pieces)) (0x22 :: (inside ++ [0x22]))

/-- The texts of some tokens, with whitespace before each of them and at the end. -/
inductive Lexemes : List Token → List UInt8 → Prop
  | nil {bytes : List UInt8} (h : IsBlank bytes) : Lexemes [] bytes
  | cons {token : Token} {rest : List Token} {before lexeme more : List UInt8}
      (hbefore : IsBlank before) (h : Lexeme token lexeme) (hrest : Lexemes rest more) :
      Lexemes (token :: rest) (before ++ (lexeme ++ more))

theorem IsBlank.append {a b : List UInt8} (ha : IsBlank a) (hb : IsBlank b) : IsBlank (a ++ b) :=
  List.forall_mem_append.2 ⟨ha, hb⟩

namespace Lexemes

variable {ts us : List Token} {token : Token} {bytes after lexeme : List UInt8}

/-- Whitespace at the end. -/
theorem before (h : Lexemes ts bytes) (hafter : IsBlank after) : Lexemes ts (bytes ++ after) := by
  induction h with
  | nil h => exact .nil (h.append hafter)
  | cons hbefore h _ ih =>
    rw [List.append_assoc, List.append_assoc]
    exact .cons hbefore h ih

/-- One token more. -/
theorem snoc (h : Lexemes ts bytes) (htoken : Lexeme token lexeme) :
    Lexemes (ts ++ [token]) (bytes ++ lexeme) := by
  induction h with
  | @nil blank h =>
    have hsingle : Lexemes [token] (blank ++ (lexeme ++ [])) :=
      .cons h htoken (.nil (List.forall_mem_nil _))
    rwa [List.append_nil] at hsingle
  | cons hbefore h _ ih =>
    rw [List.append_assoc, List.append_assoc]
    exact .cons hbefore h ih

/-- Punctuation among the tokens stands in the text. -/
theorem exists_split {b : UInt8} (hb : ∀ lexeme, Lexeme token lexeme → lexeme = [b])
    (h : Lexemes (ts ++ token :: us) bytes) :
    ∃ front more, bytes = front ++ b :: more ∧ Lexemes ts front ∧ Lexemes us more := by
  induction ts generalizing bytes with
  | nil =>
    cases h with
    | @cons _ _ before lexeme more hbefore htoken hrest =>
      obtain rfl := hb lexeme htoken
      exact ⟨before, more, rfl, .nil hbefore, hrest⟩
  | cons first ts ih =>
    cases h with
    | @cons _ _ before lexeme more hbefore hfirst hrest =>
      obtain ⟨front, more, rfl, hts, hus⟩ := ih hrest
      refine ⟨before ++ (lexeme ++ front), more, ?_, .cons hbefore hfirst hts, hus⟩
      simp only [List.append_assoc]

end Lexemes

/-! ## The lexer -/

theorem Inside.snoc {pieces : List Piece} {piece : Piece} {inside bytes : List UInt8}
    (h : Inside pieces inside) (hpiece : Inside [piece] bytes) :
    Inside (pieces ++ [piece]) (inside ++ bytes) := by
  induction h with
  | nil => exact hpiece
  | byte hcontrol hquote hbackslash _ ih => exact .byte hcontrol hquote hbackslash ih
  | letter hletter _ ih => exact .letter hletter ih
  | hex ha hb hc hd _ ih => exact .hex ha hb hc hd ih

namespace Lexer

/-- What a lexer has taken of the token under way. -/
inductive Underway : Mode → List UInt8 → Prop
  | between : Underway .between []
  | word {taken left : List UInt8} {token : Token} (h : Lexeme token (taken ++ left)) :
      Underway (.word left token) taken
  | numeral {taken : List UInt8} : Underway (.numeral taken) taken.reverse
  | text {taken : List Piece} {inside : List UInt8} (h : Inside taken.reverse inside) :
      Underway (.text taken) (0x22 :: inside)
  | escape {taken : List Piece} {inside : List UInt8} (h : Inside taken.reverse inside) :
      Underway (.escape taken) (0x22 :: (inside ++ [0x5c]))
  | codeUnit {taken : List Piece} {inside digits : List UInt8} {values : List Nat}
      (h : Inside taken.reverse inside) (hvalues : digits.map Hex.value? = values.map some) :
      Underway (.codeUnit taken digits.length (values.foldl (fun n d => n * 16 + d) 0))
        (0x22 :: (inside ++ 0x5c :: 0x75 :: digits))

/-- A lexer has taken some bytes: those of the tokens found, and of the token under way. -/
def HasTaken (l : Lexer) (bytes : List UInt8) : Prop :=
  ∃ front current, bytes = front ++ current ∧ Lexemes l.found.reverse front ∧
    Underway l.mode current

variable {found : List Token} {front : List UInt8} {token : Token}

theorem hasTaken_between (h : Lexemes found.reverse front) :
    HasTaken ⟨found, .between⟩ front :=
  ⟨front, [], (List.append_nil front).symm, h, .between⟩

theorem hasTaken_token {lexeme : List UInt8} (h : Lexemes found.reverse front)
    (htoken : Lexeme token lexeme) : HasTaken ⟨token :: found, .between⟩ (front ++ lexeme) :=
  hasTaken_between (List.reverse_cons ▸ h.snoc htoken)

theorem hasTaken_blank {b : UInt8} (hb : b = 0x20 ∨ b = 0x09 ∨ b = 0x0a ∨ b = 0x0d)
    (h : Lexemes found.reverse front) : HasTaken ⟨found, .between⟩ (front ++ [b]) :=
  hasTaken_between (h.before (List.forall_mem_singleton.2 hb))

/-- A byte that does not belong to a token under way. -/
theorem hasTaken_start {b : UInt8} {l : Lexer} (hfound : Lexemes found.reverse front)
    (h : start found b = some l) : l.HasTaken (front ++ [b]) := by
  unfold start at h
  split at h
  case h_15 =>
    split at h
    · obtain rfl := Option.some.inj h
      exact ⟨front, [b], rfl, hfound, .numeral⟩
    · cases h
  all_goals obtain rfl := Option.some.inj h
  iterate 4 exact hasTaken_blank (by decide) hfound
  · exact hasTaken_token hfound .openObject
  · exact hasTaken_token hfound .closeObject
  · exact hasTaken_token hfound .openArray
  · exact hasTaken_token hfound .closeArray
  · exact hasTaken_token hfound .colon
  · exact hasTaken_token hfound .comma
  · exact ⟨front, [0x22], rfl, hfound, .text .nil⟩
  · exact ⟨front, [0x6e], rfl, hfound, .word .null⟩
  · exact ⟨front, [0x74], rfl, hfound, .word .true⟩
  · exact ⟨front, [0x66], rfl, hfound, .word .false⟩

theorem lexeme_of_numeralToken? {bytes : List UInt8} (h : numeralToken? bytes = some token) :
    Lexeme token bytes := by
  unfold numeralToken? at h
  split at h
  · next n hscan =>
    split at h
    · next hstrict =>
      obtain rfl := Option.some.inj h
      obtain ⟨hwellFormed, letter, hletter, rfl⟩ := Numeral.exists_spell_of_scan hscan
      exact .number hwellFormed hstrict hletter
    · cases h
  · cases h

/-- The last of the four digits of a code unit. -/
theorem inside_of_digits {digits : List UInt8} {values : List Nat} {b : UInt8} {d : Nat}
    (hvalues : digits.map Hex.value? = values.map some) (hlength : digits.length = 3)
    (hd : Hex.value? b = some d) :
    Inside [.codeUnit (values.foldl (fun n d => n * 16 + d) 0 * 16 + d)]
      (0x5c :: 0x75 :: (digits ++ [b])) := by
  obtain ⟨x, y, z, rfl⟩ := List.length_eq_three.1 hlength
  obtain ⟨u, v, w, rfl⟩ : ∃ u v w, values = [u, v, w] := by
    refine List.length_eq_three.1 ?_
    simpa using (congrArg List.length hvalues).symm
  simp only [List.map_cons, List.map_nil, List.cons.injEq, and_true] at hvalues
  obtain ⟨hx, hy, hz⟩ := hvalues
  have hunit := Inside.hex hx hy hz hd .nil
  simpa using hunit

/-- One byte is taken. -/
theorem hasTaken_step {l l' : Lexer} {bytes : List UInt8} {b : UInt8} (hl : l.HasTaken bytes)
    (h : l.step b = some l') : l'.HasTaken (bytes ++ [b]) := by
  obtain ⟨found, mode⟩ := l
  obtain ⟨front, current, rfl, hfound, hcurrent⟩ := hl
  rw [List.append_assoc]
  cases hcurrent with
  | between => exact hasTaken_start hfound h
  | @word taken left token hword =>
    simp only [step] at h
    split at h
    · cases h
    · split at h
      · next hlast =>
        obtain rfl := Option.some.inj h
        exact hasTaken_token hfound (hlast ▸ hword)
      · cases h
    · split at h
      · next next left _ hnext =>
        obtain rfl := Option.some.inj h
        refine ⟨front, _, rfl, hfound, .word ?_⟩
        rwa [hnext, List.append_assoc]
      · cases h
  | @numeral taken =>
    simp only [step] at h
    split at h
    · obtain rfl := Option.some.inj h
      exact ⟨front, _, rfl, hfound, List.reverse_cons ▸ .numeral⟩
    · obtain ⟨token, htoken, hstart⟩ := Option.bind_eq_some_iff.1 h
      rw [← List.append_assoc]
      refine hasTaken_start ?_ hstart
      rw [List.reverse_cons]
      exact hfound.snoc (lexeme_of_numeralToken? htoken)
  | @text taken inside hinside =>
    simp only [step] at h
    split at h
    · next hquote =>
      obtain rfl := Option.some.inj h
      exact hasTaken_token hfound (hquote ▸ .text hinside)
    · next hquote =>
      split at h
      · next hbackslash =>
        obtain rfl := Option.some.inj h
        exact ⟨front, _, rfl, hfound, hbackslash ▸ .escape hinside⟩
      · next hbackslash =>
        split at h
        · cases h
        · next hcontrol =>
          obtain rfl := Option.some.inj h
          refine ⟨front, 0x22 :: (inside ++ [b]), rfl, hfound, .text ?_⟩
          rw [List.reverse_cons]
          exact hinside.snoc (.byte hcontrol hquote hbackslash .nil)
  | @escape taken inside hinside =>
    simp only [step] at h
    split at h
    · next hu =>
      obtain rfl := Option.some.inj h
      refine ⟨front, _, ?_, hfound, @Underway.codeUnit taken inside [] [] hinside rfl⟩
      simp [hu]
    · obtain ⟨c, hc, rfl⟩ := Option.map_eq_some_iff.1 h
      refine ⟨front, 0x22 :: (inside ++ [0x5c, b]), by simp, hfound, .text ?_⟩
      rw [List.reverse_cons]
      exact hinside.snoc (.letter hc .nil)
  | @codeUnit taken inside digits values hinside hvalues =>
    obtain ⟨d, hd, rfl⟩ := Option.map_eq_some_iff.1 h
    split
    · next hlength =>
      refine ⟨front, 0x22 :: (inside ++ 0x5c :: 0x75 :: (digits ++ [b])), by simp, hfound, .text ?_⟩
      rw [List.reverse_cons]
      exact hinside.snoc (inside_of_digits hvalues hlength hd)
    · refine ⟨front, 0x22 :: (inside ++ 0x5c :: 0x75 :: (digits ++ [b])), by simp, hfound, ?_⟩
      have hmore : (digits ++ [b]).map Hex.value? = (values ++ [d]).map some := by
        simp [hvalues, hd]
      simpa using Underway.codeUnit hinside hmore

theorem hasTaken_run {bytes : List UInt8} {l : Lexer} (h : run ⟨[], .between⟩ bytes = some l) :
    l.HasTaken bytes := by
  induction bytes using List.reverseRecOn generalizing l with
  | nil =>
    obtain rfl := Option.some.inj h
    exact hasTaken_between (.nil (List.forall_mem_nil _))
  | append_singleton bytes b ih =>
    rw [run_append] at h
    obtain ⟨last, hlast, hstep⟩ := Option.bind_eq_some_iff.1 h
    refine hasTaken_step (ih hlast) ?_
    simpa [run] using hstep

end Lexer

/-- A text with some tokens consists of their lexemes. -/
theorem lexemes_of_tokens? {bytes : List UInt8} {ts : List Token} (h : tokens? bytes = some ts) :
    Lexemes ts bytes := by
  obtain ⟨⟨found, mode⟩, hrun, hfinish⟩ := Option.bind_eq_some_iff.1 h
  obtain ⟨front, current, rfl, hfound, hcurrent⟩ := Lexer.hasTaken_run hrun
  cases hcurrent with
  | between =>
    obtain rfl := Option.some.inj hfinish
    rwa [List.append_nil]
  | numeral =>
    obtain ⟨token, htoken, rfl⟩ := Option.map_eq_some_iff.1 hfinish
    rw [List.reverse_cons]
    exact hfound.snoc (Lexer.lexeme_of_numeralToken? htoken)
  | word | text | escape | codeUnit => cases hfinish

/-! ## Values -/

theorem isBlank_of_lexemes {bytes : List UInt8} (h : Lexemes [] bytes) : IsBlank bytes := by
  cases h with
  | nil h => exact h

theorem stringText_of_lexeme {s : String} {lexeme : List UInt8}
    (h : Lexeme (.text (some s)) lexeme) : StringText s lexeme := by
  generalize htoken : Token.text (some s) = token at h
  cases h with
  | text hinside => exact ⟨_, _, hinside, (Token.text.inj htoken).symm, rfl⟩
  | _ => cases htoken

theorem numberText_of_lexeme {value : Number} {lexeme : List UInt8}
    (h : Lexeme (.number (some value)) lexeme) : NumberText value lexeme := by
  generalize htoken : Token.number (some value) = token at h
  cases h with
  | number hwellFormed hstrict hletter =>
    exact ⟨_, _, hwellFormed, hstrict, hletter, (Token.number.inj htoken).symm, rfl⟩
  | _ => cases htoken

/-- A value of one token, with whitespace around it. -/
theorem textOf_of_single {json : Json} {token : Token} {bytes : List UInt8}
    (htext : ∀ lexeme, Lexeme token lexeme → TextOf json lexeme) (h : Lexemes [token] bytes) :
    TextOf json bytes := by
  cases h with
  | cons hbefore htoken hrest =>
    rw [← List.append_assoc]
    exact .padded hbefore (htext _ htoken) (isBlank_of_lexemes hrest)

theorem textOf_of_text {s : String} {bytes : List UInt8} (h : Lexemes [.text (some s)] bytes) :
    TextOf (.text s) bytes :=
  textOf_of_single (fun _ hlexeme => .text (stringText_of_lexeme hlexeme)) h

/-- What stands between brackets, with whitespace around them. -/
theorem exists_enclosed {first last : Token} {b c : UInt8} {ts : List Token} {bytes : List UInt8}
    (hfirst : ∀ lexeme, Lexeme first lexeme → lexeme = [b])
    (hlast : ∀ lexeme, Lexeme last lexeme → lexeme = [c])
    (h : Lexemes (first :: (ts ++ [last])) bytes) : ∃ before inside after,
      bytes = before ++ b :: (inside ++ [c]) ++ after ∧ IsBlank before ∧ Lexemes ts inside ∧
        IsBlank after := by
  obtain ⟨before, more, rfl, hbefore, hmore⟩ := @Lexemes.exists_split [] _ _ _ b hfirst h
  obtain ⟨inside, after, rfl, hinside, hafter⟩ := Lexemes.exists_split hlast hmore
  refine ⟨before, inside, after, ?_, isBlank_of_lexemes hbefore, hinside,
    isBlank_of_lexemes hafter⟩
  simp

mutual

/-- A text with the tokens of a value is a text of it. -/
theorem textOf_of_lexemes : ∀ {json : Json} {bytes : List UInt8}, json.isReadable = true →
    Lexemes json.tokens bytes → TextOf json bytes
  | .null, _, _, h => textOf_of_single (by rintro _ ⟨⟩; exact .null) h
  | .boolean true, _, _, h => textOf_of_single (by rintro _ ⟨⟩; exact .true) h
  | .boolean false, _, _, h => textOf_of_single (by rintro _ ⟨⟩; exact .false) h
  | .number _, _, _, h =>
    textOf_of_single (fun _ hlexeme => .number (numberText_of_lexeme hlexeme)) h
  | .text _, _, _, h => textOf_of_text h
  | .array _, _, hreadable, h => by
    obtain ⟨_, _, _, rfl, hbefore, hinside, hafter⟩ :=
      exists_enclosed (by rintro _ ⟨⟩; rfl) (by rintro _ ⟨⟩; rfl) h
    exact .padded hbefore (.array (itemsText_of_lexemes hreadable hinside)) hafter
  | .object _, _, hreadable, h => by
    obtain ⟨_, _, _, rfl, hbefore, hinside, hafter⟩ :=
      exists_enclosed (by rintro _ ⟨⟩; rfl) (by rintro _ ⟨⟩; rfl) h
    exact .padded hbefore (.object (entriesText_of_lexemes hreadable hinside)) hafter

theorem itemsText_of_lexemes : ∀ {items : List Json} {bytes : List UInt8},
    areReadable items = true → Lexemes (itemTokens items) bytes → ItemsText items bytes
  | [], _, _, h => .nil (isBlank_of_lexemes h)
  | [_], _, hreadable, h =>
    .single (textOf_of_lexemes ((Bool.and_eq_true _ _).mp hreadable).1 h)
  | _ :: _ :: _, _, hreadable, h => by
    obtain ⟨hitem, hrest⟩ := (Bool.and_eq_true _ _).mp hreadable
    obtain ⟨_, _, rfl, hfront, hmore⟩ := Lexemes.exists_split (by rintro _ ⟨⟩; rfl) h
    exact .cons (textOf_of_lexemes hitem hfront) (itemsText_of_lexemes hrest hmore)

theorem entriesText_of_lexemes : ∀ {entries : List (String × Json)} {bytes : List UInt8},
    entriesReadable entries = true → Lexemes (entryTokens entries) bytes → EntriesText entries bytes
  | [], _, _, h => .nil (isBlank_of_lexemes h)
  | [(name, _)], _, hreadable, h => by
    obtain ⟨_, _, rfl, hkey, hvalue⟩ :=
      @Lexemes.exists_split [.text (some name)] _ _ _ 0x3a (by rintro _ ⟨⟩; rfl) h
    exact .single (textOf_of_text hkey)
      (textOf_of_lexemes ((Bool.and_eq_true _ _).mp hreadable).1 hvalue)
  | (name, _) :: _ :: _, _, hreadable, h => by
    obtain ⟨hvalue, hrest⟩ := (Bool.and_eq_true _ _).mp hreadable
    obtain ⟨_, _, rfl, hkey, hmore⟩ :=
      @Lexemes.exists_split [.text (some name)] _ _ _ 0x3a (by rintro _ ⟨⟩; rfl) h
    obtain ⟨_, _, rfl, hfront, hmore⟩ := Lexemes.exists_split (by rintro _ ⟨⟩; rfl) hmore
    exact .cons (textOf_of_text hkey) (textOf_of_lexemes hvalue hfront)
      (entriesText_of_lexemes hrest hmore)

end

end Vdc.Json
