import Vdc.Json.Printer
import Vdc.Json.Token
import Vdc.Proofs.Number.Numeral

/-!
# The tokens of a value

`Json.tokens` lists the tokens of a value. `Lexer.Yields` says what the lexer finds in some bytes
wherever they stand: the lemmas below put it together from parts with punctuation between them.
Only a numeral does not end by itself: the lexer is still in the middle of it when its last byte was
taken. `Lexer.Reads` covers both cases, and punctuation leads on from either.
-/

namespace Vdc.Json

/-! ## Values with a text -/

mutual

/-- A value has a text that it can be read back from: integers of 64 bits, finite numbers, and
nothing unreadable. -/
def IsPrintable : Json → Prop
  | .number (.integer n) => -2 ^ 63 ≤ n ∧ n < 2 ^ 64
  | .number (.real d) => d.isFinite = true
  | .array items => ArePrintable items
  | .object entries => EntriesPrintable entries
  | .unreadable => False
  | _ => True

/-- All items have a text. -/
def ArePrintable : List Json → Prop
  | [] => True
  | item :: rest => IsPrintable item ∧ ArePrintable rest

/-- The values of all entries have a text. -/
def EntriesPrintable : List (String × Json) → Prop
  | [] => True
  | (_, value) :: rest => IsPrintable value ∧ EntriesPrintable rest

end

/-- The number a numeral denotes can be written again. -/
theorem isPrintable_ofNumeral? {n : Numeral} {value : Number}
    (h : Number.ofNumeral? n = some value) : (number value).IsPrintable := by
  unfold Number.ofNumeral? at h
  split at h
  · next hinteger =>
    obtain rfl := Option.some.inj h
    rw [Bool.and_eq_true, decide_eq_true_iff] at hinteger
    exact hinteger.2
  · split at h
    · next hfinite =>
      obtain rfl := Option.some.inj h
      exact hfinite
    · cases h

mutual

/-- The tokens of a value. -/
def tokens : Json → List Token
  | .null => [.null]
  | .boolean b => [.boolean b]
  | .number n => [.number (some n)]
  | .text s => [.text (some s)]
  | .array items => .openArray :: (itemTokens items ++ [.closeArray])
  | .object entries => .openObject :: (entryTokens entries ++ [.closeObject])
  | .unreadable => []

/-- The tokens of items with commas between them. -/
def itemTokens : List Json → List Token
  | [] => []
  | [item] => tokens item
  | item :: rest => tokens item ++ .comma :: itemTokens rest

/-- The tokens of entries with commas between them. -/
def entryTokens : List (String × Json) → List Token
  | [] => []
  | [(key, value)] => .text (some key) :: .colon :: tokens value
  | (key, value) :: rest =>
    .text (some key) :: .colon :: (tokens value ++ .comma :: entryTokens rest)

end

namespace Lexer

/-! ## Between tokens -/

/-- A lexer has read some tokens, in reverse; the last may be a numeral that could still go on. -/
def Reads (l : Lexer) (ts : List Token) : Prop :=
  l = ⟨ts, .between⟩ ∨ ∃ found taken token, l = ⟨found, .numeral taken⟩ ∧
    numeralToken? taken.reverse = some token ∧ ts = token :: found

theorem finish_of_reads {l : Lexer} {ts : List Token} (h : l.Reads ts) :
    l.finish = some ts.reverse := by
  rcases h with rfl | ⟨found, taken, token, rfl, htoken, rfl⟩
  · rfl
  · simp only [finish, htoken, Option.map_some]

/-- Some bytes are read as some tokens, wherever they stand. -/
def Yields (bytes : List UInt8) (ts : List Token) : Prop :=
  ∀ found, ∃ l, run ⟨found, .between⟩ bytes = some l ∧ l.Reads (ts.reverse ++ found)

/-- A byte that ends a numeral and is a token of its own. -/
structure Punctuates (b : UInt8) (token : Token) : Prop where
  isNumeralByte_eq : isNumeralByte b = false
  start_eq : ∀ found, start found b = some ⟨token :: found, .between⟩

theorem punctuates_openArray : Punctuates 0x5b .openArray := ⟨rfl, fun _ => rfl⟩
theorem punctuates_closeArray : Punctuates 0x5d .closeArray := ⟨rfl, fun _ => rfl⟩
theorem punctuates_openObject : Punctuates 0x7b .openObject := ⟨rfl, fun _ => rfl⟩
theorem punctuates_closeObject : Punctuates 0x7d .closeObject := ⟨rfl, fun _ => rfl⟩
theorem punctuates_comma : Punctuates 0x2c .comma := ⟨rfl, fun _ => rfl⟩
theorem punctuates_colon : Punctuates 0x3a .colon := ⟨rfl, fun _ => rfl⟩

theorem step_of_reads {l : Lexer} {ts : List Token} {b : UInt8} {token : Token} (h : l.Reads ts)
    (hb : Punctuates b token) : l.step b = some ⟨token :: ts, .between⟩ := by
  rcases h with rfl | ⟨found, taken, token', rfl, htoken, rfl⟩
  · exact hb.start_eq ts
  · simp [step, hb.isNumeralByte_eq, htoken, hb.start_eq]

theorem yields_nil : Yields [] [] := fun _ => ⟨_, rfl, .inl rfl⟩

theorem yields_of_run {bytes : List UInt8} {ts : List Token}
    (h : ∀ found, run ⟨found, .between⟩ bytes = some ⟨ts.reverse ++ found, .between⟩) :
    Yields bytes ts := fun found => ⟨_, h found, .inl rfl⟩

/-- Punctuation stands between what is read before it and what is read after it. -/
theorem Yields.append {bytes rest : List UInt8} {ts us : List Token} {b : UInt8} {token : Token}
    (h : Yields bytes ts) (hb : Punctuates b token) (hrest : Yields rest us) :
    Yields (bytes ++ b :: rest) (ts ++ token :: us) := by
  intro found
  obtain ⟨l, hrun, hreads⟩ := h found
  obtain ⟨l', hrun', hreads'⟩ := hrest (token :: (ts.reverse ++ found))
  refine ⟨l', ?_, by simpa using hreads'⟩
  rw [run_append, hrun, Option.bind_some, run, List.foldlM_cons, step_of_reads hreads hb]
  exact hrun'

theorem Yields.cons {rest : List UInt8} {us : List Token} {b : UInt8} {token : Token}
    (hb : Punctuates b token) (hrest : Yields rest us) : Yields (b :: rest) (token :: us) :=
  yields_nil.append hb hrest

/-! ## Numerals -/

theorem start_of_numeral (found : List Token) {b : UInt8}
    (h : (Digits.isDigit b || b == 0x2d) = true) : start found b = some ⟨found, .numeral [b]⟩ := by
  unfold start
  split
  all_goals first | exact absurd h (by decide) | exact if_pos h

/-- Bytes of a numeral are taken one after the other. -/
theorem run_numeral (found : List Token) {bytes : List UInt8}
    (h : ∀ b ∈ bytes, isNumeralByte b = true) (taken : List UInt8) :
    run ⟨found, .numeral taken⟩ bytes = some ⟨found, .numeral (bytes.reverse ++ taken)⟩ := by
  induction bytes generalizing taken with
  | nil => rfl
  | cons b rest ih =>
    have hstep : step ⟨found, .numeral taken⟩ b = some ⟨found, .numeral (b :: taken)⟩ := by
      simp [step, h b List.mem_cons_self]
    rw [run, List.foldlM_cons, hstep]
    exact (ih (fun b hb => h b (List.mem_cons_of_mem _ hb)) (b :: taken)).trans (by simp)

theorem isNumeralByte_of_mem {n : Numeral} {letter : UInt8} (hletter : Numeral.IsLetter letter)
    (h : n.WellFormed) : ∀ b ∈ n.spell letter, isNumeralByte b = true := by
  have hdigit {b : UInt8} (hb : Digits.isDigit b = true) : isNumeralByte b = true := by
    simp [isNumeralByte, hb]
  have hsign {sign : Option UInt8} (hs : Numeral.IsSign sign) : ∀ b ∈ sign.toList,
      isNumeralByte b = true := by
    intro b hb
    rcases hs b (Option.mem_toList.1 hb) with rfl | rfl <;> rfl
  obtain ⟨sign, whole, fraction, exponent⟩ := n
  obtain ⟨hs, hwhole, hfraction, hexponent⟩ := h
  intro b hb
  simp only [Numeral.spell, List.mem_append] at hb
  rcases hb with hb | hb | hb | hb
  · exact hsign hs b hb
  · exact hdigit (hwhole b hb)
  · cases fraction with
    | none => cases hb
    | some ds =>
      rcases List.mem_cons.1 hb with rfl | hb
      · rfl
      · exact hdigit (hfraction ds rfl b hb)
  · cases exponent with
    | none => cases hb
    | some e =>
      obtain ⟨hs, hds⟩ := hexponent e rfl
      rcases List.mem_cons.1 hb with rfl | hb
      · rcases hletter with rfl | rfl <;> rfl
      · exact (List.mem_append.1 hb).elim (hsign hs b) fun hb => hdigit (hds b hb)

/-- A numeral of the strict grammar is read as the number it denotes. -/
theorem yields_spell {n : Numeral} {letter : UInt8} (hletter : Numeral.IsLetter letter)
    (h : n.WellFormed) (hstrict : n.isStrict = true) :
    Yields (n.spell letter) [.number (Number.ofNumeral? n)] := by
  intro found
  have htoken : numeralToken? (n.spell letter) = some (.number (Number.ofNumeral? n)) := by
    simp [numeralToken?, Numeral.scan_spell hletter h, hstrict]
  have hbytes := isNumeralByte_of_mem hletter h
  obtain ⟨b, rest, heq, hb⟩ := Numeral.exists_head h hstrict letter
  rw [heq] at htoken hbytes ⊢
  refine ⟨⟨found, .numeral (rest.reverse ++ [b])⟩, ?_, .inr ⟨found, _, _, rfl, ?_, rfl⟩⟩
  · have hstep : step ⟨found, .between⟩ b = some ⟨found, .numeral [b]⟩ := start_of_numeral found hb
    rw [run, List.foldlM_cons, hstep]
    exact run_numeral found (fun b hb => hbytes b (List.mem_cons_of_mem _ hb)) [b]
  · simpa using htoken

end Lexer

end Vdc.Json
