import Vdc.Json.Parser
import Vdc.Proofs.Json.Written

/-!
# JSON values read back

The parser makes of the tokens of a value that value, `ofTokens?_tokens`. Every text of a value is
therefore parsed as it, `parse_of_textOf`, whoever wrote it. Reading the text gives the value or
nothing, and nothing exactly if it nests too deep: `read_of_textOf`, and `read_render` for the
compact form.

How deep a text nests can be told from its tokens alone, by counting the containers that are open.
`textNesting_render` says that this is how deep the value nests.
-/

namespace Vdc.Json

namespace Parser

/-- A parser that takes the first token of a value inside the open containers. -/
def Awaits (p : Parser) (levels : List Level) : Prop :=
  ∀ token, token ≠ .closeArray → p.step token = begin levels token

theorem awaits_value (levels : List Level) : (Parser.value levels).Awaits levels :=
  fun _ _ => rfl

theorem awaits_item (levels : List Level) : (Parser.item levels).Awaits levels := by
  intro token htoken
  cases token with
  | closeArray => exact absurd rfl htoken
  | _ => rcases levels with _ | ⟨_ | _ | _, _⟩ <;> rfl

theorem run_cons (p : Parser) (token : Token) (rest : List Token) :
    p.run (token :: rest) = (p.step token).bind (·.run rest) :=
  List.foldlM_cons

theorem run_singleton (p : Parser) (token : Token) : p.run [token] = p.step token := by
  rw [run_cons]
  cases p.step token <;> rfl

mutual

/-- The tokens of a value lead to the complete value. -/
theorem run_tokens : ∀ {json : Json} {p : Parser} {levels : List Level}, json.IsPrintable →
    p.Awaits levels → p.run json.tokens = complete json levels
  | .null, p, _, _, hp => (run_singleton p _).trans (hp _ (by simp))
  | .boolean _, p, _, _, hp => (run_singleton p _).trans (hp _ (by simp))
  | .number _, p, _, _, hp => (run_singleton p _).trans (hp _ (by simp))
  | .text _, p, _, _, hp => (run_singleton p _).trans (hp _ (by simp))
  | .array items, p, levels, h, hp => by
    rw [tokens, run_cons, hp _ (by simp), begin, Option.bind_some]
    by_cases hitems : items = []
    · rw [hitems]
      exact run_singleton _ _
    · rw [run_append, run_itemTokens [] h hitems (awaits_item _), Option.bind_some, run_singleton,
        step]
      simp
  | .object entries, p, levels, h, hp => by
    rw [tokens, run_cons, hp _ (by simp), begin, Option.bind_some]
    by_cases hentries : entries = []
    · rw [hentries]
      exact run_singleton _ _
    · rw [run_append, run_entryTokens [] levels true h hentries, Option.bind_some, run_singleton,
        step]
      simp [closeObject]

theorem run_itemTokens : ∀ {items : List Json} (before : List Json) {p : Parser}
    {levels : List Level}, ArePrintable items → items ≠ [] → p.Awaits (.array before :: levels) →
    p.run (itemTokens items) = some (.separator (.array (items.reverse ++ before) :: levels))
  | [], _, _, _, _, hne, _ => absurd rfl hne
  | [_], _, _, _, h, _, hp => run_tokens h.1 hp
  | first :: next :: rest, before, p, levels, h, _, hp => by
    have hrest := run_itemTokens (first :: before) h.2 (List.cons_ne_nil next rest)
      (awaits_value (.array (first :: before) :: levels))
    have htokens : itemTokens (first :: next :: rest) =
        tokens first ++ .comma :: itemTokens (next :: rest) := rfl
    rw [htokens, run_append, run_tokens h.1 hp, complete, Option.bind_some, run_cons, step,
      Option.bind_some, hrest]
    simp

theorem run_entryTokens : ∀ {entries : List (String × Json)} (before : List (String × Json))
    (levels : List Level) (mayClose : Bool), EntriesPrintable entries → entries ≠ [] →
    (Parser.key mayClose (.object (some before) :: levels)).run (entryTokens entries) =
      some (.separator (.object (some (entries.reverse ++ before)) :: levels))
  | [], _, _, _, _, hne => absurd rfl hne
  | [(name, json)], before, levels, mayClose, h, _ => by
    have hvalue := run_tokens h.1 (awaits_value (.member (some before) (some name) :: levels))
    rw [entryTokens, run_cons, step, Option.bind_some, run_cons, step, Option.bind_some, hvalue]
    rfl
  | (name, json) :: next :: rest, before, levels, mayClose, h, _ => by
    have hvalue := run_tokens h.1 (awaits_value (.member (some before) (some name) :: levels))
    have hrest := run_entryTokens ((name, json) :: before) levels false h.2
      (List.cons_ne_nil next rest)
    have htokens : entryTokens ((name, json) :: next :: rest) = .text (some name) :: .colon ::
        (tokens json ++ .comma :: entryTokens (next :: rest)) := rfl
    rw [htokens, run_cons, step, Option.bind_some, run_cons, step, Option.bind_some, run_append,
      hvalue, complete, Option.bind_some, run_cons, step, Option.bind_some, insert, hrest]
    simp

end

end Parser

/-- The tokens of a value are parsed as it. -/
theorem ofTokens?_tokens {json : Json} (h : json.IsPrintable) :
    ofTokens? json.tokens = some json := by
  rw [ofTokens?, Parser.run_tokens h (Parser.awaits_value [])]
  rfl

/-! ## Nesting -/

/-- The most containers that are open at once, counted on from those open and the most so far. -/
def deepest : Nat → Nat → List Token → Nat
  | _, most, [] => most
  | depth, most, .openArray :: rest | depth, most, .openObject :: rest =>
    deepest (depth + 1) (max most (depth + 1)) rest
  | depth, most, .closeArray :: rest | depth, most, .closeObject :: rest =>
    deepest (depth - 1) most rest
  | depth, most, _ :: rest => deepest depth most rest

/-- How many arrays and objects of a text stand inside one another, if it is made of tokens. -/
def textNesting (bytes : List UInt8) : Option Nat :=
  (tokens? bytes).map (deepest 0 0)

mutual

theorem deepest_tokens : ∀ {json : Json} {depth most : Nat} (rest : List Token),
    json.IsPrintable → depth ≤ most →
    deepest depth most (json.tokens ++ rest) = deepest depth (max most (depth + json.nesting)) rest
  | .null, depth, most, _, _, hle => by simp [tokens, deepest, nesting, Nat.max_eq_left hle]
  | .boolean _, depth, most, _, _, hle => by simp [tokens, deepest, nesting, Nat.max_eq_left hle]
  | .number _, depth, most, _, _, hle => by simp [tokens, deepest, nesting, Nat.max_eq_left hle]
  | .text _, depth, most, _, _, hle => by simp [tokens, deepest, nesting, Nat.max_eq_left hle]
  | .array items, depth, most, rest, h, hle => by
    have hitems := deepest_itemTokens (.closeArray :: rest) h (Nat.le_max_right most (depth + 1))
    have hmost : max (max most (depth + 1)) (depth + 1 + nestingItems items) =
        max most (depth + (1 + nestingItems items)) := by omega
    rw [tokens, List.cons_append, List.append_assoc, deepest, List.singleton_append, hitems,
      deepest, hmost, nesting, Nat.add_sub_cancel]
  | .object entries, depth, most, rest, h, hle => by
    have hentries :=
      deepest_entryTokens (.closeObject :: rest) h (Nat.le_max_right most (depth + 1))
    have hmost : max (max most (depth + 1)) (depth + 1 + nestingEntries entries) =
        max most (depth + (1 + nestingEntries entries)) := by omega
    rw [tokens, List.cons_append, List.append_assoc, deepest, List.singleton_append, hentries,
      deepest, hmost, nesting, Nat.add_sub_cancel]

theorem deepest_itemTokens : ∀ {items : List Json} {depth most : Nat} (rest : List Token),
    ArePrintable items → depth ≤ most →
    deepest depth most (itemTokens items ++ rest) =
      deepest depth (max most (depth + nestingItems items)) rest
  | [], depth, most, rest, _, hle => by simp [itemTokens, nestingItems, Nat.max_eq_left hle]
  | [item], depth, most, rest, h, hle => by
    rw [itemTokens, deepest_tokens rest h.1 hle, nestingItems, nestingItems, Nat.max_zero]
  | first :: next :: items, depth, most, rest, h, hle => by
    have htokens : itemTokens (first :: next :: items) =
        tokens first ++ .comma :: itemTokens (next :: items) := rfl
    have hmost : max (max most (depth + nesting first)) (depth + nestingItems (next :: items)) =
        max most (depth + max (nesting first) (nestingItems (next :: items))) := by omega
    rw [htokens, List.append_assoc, deepest_tokens _ h.1 hle, List.cons_append, deepest,
      deepest_itemTokens rest h.2 (Nat.le_trans hle (Nat.le_max_left _ _)), hmost]
    · rfl
    all_goals simp

theorem deepest_entryTokens : ∀ {entries : List (String × Json)} {depth most : Nat}
    (rest : List Token), EntriesPrintable entries → depth ≤ most →
    deepest depth most (entryTokens entries ++ rest) =
      deepest depth (max most (depth + nestingEntries entries)) rest
  | [], depth, most, rest, _, hle => by simp [entryTokens, nestingEntries, Nat.max_eq_left hle]
  | [(name, json)], depth, most, rest, h, hle => by
    have hskip : deepest depth most (entryTokens [(name, json)] ++ rest) =
        deepest depth most (tokens json ++ rest) := by simp [entryTokens, deepest]
    rw [hskip, deepest_tokens rest h.1 hle, nestingEntries, nestingEntries, Nat.max_zero]
  | (name, json) :: next :: entries, depth, most, rest, h, hle => by
    have hskip : deepest depth most (entryTokens ((name, json) :: next :: entries) ++ rest) =
        deepest depth most (tokens json ++ .comma :: (entryTokens (next :: entries) ++ rest)) := by
      simp [entryTokens, deepest]
    have hcomma (most : Nat) :
        deepest depth most (.comma :: (entryTokens (next :: entries) ++ rest)) =
          deepest depth most (entryTokens (next :: entries) ++ rest) := by simp [deepest]
    have hmost : max (max most (depth + nesting json)) (depth + nestingEntries (next :: entries)) =
        max most (depth + max (nesting json) (nestingEntries (next :: entries))) := by omega
    rw [hskip, deepest_tokens _ h.1 hle, hcomma,
      deepest_entryTokens rest h.2 (Nat.le_trans hle (Nat.le_max_left _ _)), hmost]
    rfl

end

/-- The text of a value nests as deep as the value. -/
theorem textNesting_render {json : Json} (h : json.IsPrintable) :
    textNesting json.render = some json.nesting := by
  have hdeepest := deepest_tokens [] h (Nat.le_refl 0)
  rw [List.append_nil, deepest, Nat.zero_max, Nat.zero_add] at hdeepest
  rw [textNesting, tokens?_render h, Option.map_some, hdeepest]

/-! ## Reading -/

mutual

theorem isReadable_of_isPrintable : ∀ {json : Json}, json.IsPrintable → json.isReadable = true
  | .null, _ | .boolean _, _ | .number _, _ | .text _, _ => rfl
  | .array _, h => areReadable_of_arePrintable h
  | .object _, h => entriesReadable_of_entriesPrintable h

theorem areReadable_of_arePrintable : ∀ {items : List Json}, ArePrintable items →
    areReadable items = true
  | [], _ => rfl
  | _ :: _, h => by
    rw [areReadable, isReadable_of_isPrintable h.1, areReadable_of_arePrintable h.2, Bool.and_true]

theorem entriesReadable_of_entriesPrintable : ∀ {entries : List (String × Json)},
    EntriesPrintable entries → entriesReadable entries = true
  | [], _ => rfl
  | _ :: _, h => by
    rw [entriesReadable, isReadable_of_isPrintable h.1, entriesReadable_of_entriesPrintable h.2,
      Bool.and_true]

end

section Texts

variable {json : Json} {bytes : List UInt8}

/-- Every text of a value is parsed as it. -/
theorem parse_of_textOf (h : TextOf json bytes) : parse bytes = some json := by
  rw [parse, tokens?_of_textOf h, Option.bind_some, ofTokens?_tokens (isPrintable_of_textOf h)]

/-- A text of a value reads as it, unless it nests too deep. -/
theorem read_of_textOf (h : TextOf json bytes) :
    read bytes = if json.nesting ≤ maxNesting then some json else none := by
  rw [read, parse_of_textOf h]
  by_cases hnesting : json.nesting ≤ maxNesting <;>
    simp [Option.filter, isReadable_of_isPrintable (isPrintable_of_textOf h), hnesting]

theorem read_render (h : json.IsPrintable) :
    read json.render = if json.nesting ≤ maxNesting then some json else none :=
  read_of_textOf (textOf_render h)

/-- The indented form of a value, with a line break at its end, is parsed as the value. -/
theorem parse_indent (h : json.IsPrintable) : parse (json.indent 0 ++ [0x0a]) = some json :=
  parse_of_textOf ((textOf_indent 0 h).before (isBlank_newline 0))

end Texts

end Vdc.Json
