import Vdc.Proofs.Json.Lexemes
import Vdc.Proofs.Json.RoundTrip

/-!
# What is read

`Json.read_eq_some_iff`: what is read are exactly the texts of values that do not nest too deep. One
direction is that every text of a value is read as it. For the other the parser is followed token by
token: it is where it is because it has taken just the tokens of what it holds, `Parser.Spent`. Only
what is readable is told by its tokens. What is not stays so to the end of the run, where
`Json.read` refuses it.
-/

namespace Vdc.Json

/-! ## All parts -/

theorem arePrintable_iff {items : List Json} :
    ArePrintable items ↔ ∀ item ∈ items, item.IsPrintable := by
  induction items with
  | nil => simp [ArePrintable]
  | cons item rest ih => rw [ArePrintable, ih, List.forall_mem_cons]

theorem entriesPrintable_iff {entries : List (String × Json)} :
    EntriesPrintable entries ↔ ∀ entry ∈ entries, entry.2.IsPrintable := by
  induction entries with
  | nil => simp [EntriesPrintable]
  | cons entry rest ih => rw [EntriesPrintable, ih, List.forall_mem_cons]

theorem areReadable_iff {items : List Json} :
    areReadable items = true ↔ ∀ item ∈ items, item.isReadable = true := by
  induction items with
  | nil => simp [areReadable]
  | cons item rest ih => rw [areReadable, Bool.and_eq_true, ih, List.forall_mem_cons]

theorem entriesReadable_iff {entries : List (String × Json)} :
    entriesReadable entries = true ↔ ∀ entry ∈ entries, entry.2.isReadable = true := by
  induction entries with
  | nil => simp [entriesReadable]
  | cons entry rest ih => rw [entriesReadable, Bool.and_eq_true, ih, List.forall_mem_cons]

/-! ## The last part -/

/-- The tokens of an item and the comma after it. -/
def itemComma (item : Json) : List Token := tokens item ++ [.comma]

/-- The tokens of an entry and the comma after it. -/
def entryComma (entry : String × Json) : List Token :=
  .text (some entry.1) :: .colon :: (tokens entry.2 ++ [.comma])

theorem itemTokens_append_singleton (items : List Json) (last : Json) :
    itemTokens (items ++ [last]) = items.flatMap itemComma ++ tokens last := by
  induction items with
  | nil => rfl
  | cons item rest ih =>
    have hcons : itemTokens (item :: (rest ++ [last])) =
        tokens item ++ .comma :: itemTokens (rest ++ [last]) := by
      cases rest <;> rfl
    rw [List.cons_append, hcons, ih, List.flatMap_cons, itemComma]
    simp

theorem entryTokens_append_singleton (entries : List (String × Json)) (name : String)
    (value : Json) : entryTokens (entries ++ [(name, value)]) =
      entries.flatMap entryComma ++ .text (some name) :: .colon :: tokens value := by
  induction entries with
  | nil => rfl
  | cons entry rest ih =>
    have hcons : entryTokens (entry :: (rest ++ [(name, value)])) = .text (some entry.1) ::
        .colon :: (tokens entry.2 ++ .comma :: entryTokens (rest ++ [(name, value)])) := by
      cases rest <;> rfl
    rw [List.cons_append, hcons, ih, List.flatMap_cons, entryComma]
    simp

/-! ## Readable parts -/

/-- The entries of an open object are known and readable. -/
def EntriesKnown (entries : Option (List (String × Json))) : Prop :=
  ∃ list, entries = some list ∧ ∀ entry ∈ list, entry.2.isReadable = true

/-- What an open container holds so far is readable. -/
def Level.IsReadable : Level → Prop
  | .array items => ∀ item ∈ items, item.isReadable = true
  | .object entries => EntriesKnown entries
  | .member entries name => EntriesKnown entries ∧ ∃ key, name = some key

/-- What a parser has read so far is readable. -/
def Parser.IsReadable : Parser → Prop
  | .value levels | .item levels | .key _ levels | .colon levels | .separator levels =>
    ∀ level ∈ levels, level.IsReadable
  | .done json => json.isReadable = true

namespace Parser

variable {levels : List Level} {value : Json} {token : Token} {p p' : Parser}

theorem isReadable_of_closeObject {entries : Option (List (String × Json))}
    (h : (closeObject entries).isReadable = true) : EntriesKnown entries := by
  cases entries with
  | none => cases h
  | some list =>
    exact ⟨list, rfl, fun entry hentry =>
      entriesReadable_iff.1 h entry (List.mem_reverse.2 hentry)⟩

theorem isReadable_of_complete (h : complete value levels = some p) (hp : p.IsReadable) :
    value.isReadable = true ∧ ∀ level ∈ levels, level.IsReadable := by
  unfold complete at h
  split at h
  · obtain rfl := Option.some.inj h
    exact ⟨hp, List.forall_mem_nil _⟩
  · obtain rfl := Option.some.inj h
    obtain ⟨hlevel, hrest⟩ := List.forall_mem_cons.1 hp
    obtain ⟨hvalue, hitems⟩ := List.forall_mem_cons.1 hlevel
    exact ⟨hvalue, List.forall_mem_cons.2 ⟨hitems, hrest⟩⟩
  · next entries name levels =>
    obtain rfl := Option.some.inj h
    obtain ⟨⟨list, hlist, hreadable⟩, hrest⟩ := List.forall_mem_cons.1 hp
    obtain ⟨before, key, rfl, rfl, rfl⟩ : ∃ before key, entries = some before ∧ name = some key ∧
        list = (key, value) :: before := by
      cases entries with
      | none => cases hlist
      | some before =>
        cases name with
        | none => cases hlist
        | some key => exact ⟨before, key, rfl, rfl, (Option.some.inj hlist).symm⟩
    obtain ⟨hvalue, hbefore⟩ := List.forall_mem_cons.1 hreadable
    exact ⟨hvalue, List.forall_mem_cons.2 ⟨⟨⟨before, rfl, hbefore⟩, key, rfl⟩, hrest⟩⟩
  · cases h

theorem isReadable_of_begin (h : begin levels token = some p) (hp : p.IsReadable) :
    ∀ level ∈ levels, level.IsReadable := by
  unfold begin at h
  split at h
  iterate 6 exact (isReadable_of_complete h hp).2
  · obtain rfl := Option.some.inj h
    exact (List.forall_mem_cons.1 hp).2
  · obtain rfl := Option.some.inj h
    exact (List.forall_mem_cons.1 hp).2
  · cases h

/-- A part that is unreadable stays so. -/
theorem isReadable_of_step (h : p.step token = some p') (hp' : p'.IsReadable) : p.IsReadable := by
  have harray {items : List Json} {levels : List Level}
      (h : complete (.array items.reverse) levels = some p') :
      ∀ level ∈ Level.array items :: levels, level.IsReadable := by
    obtain ⟨hitems, hlevels⟩ := isReadable_of_complete h hp'
    exact List.forall_mem_cons.2 ⟨fun item hitem =>
      areReadable_iff.1 hitems item (List.mem_reverse.2 hitem), hlevels⟩
  have hobject {entries : Option (List (String × Json))} {levels : List Level}
      (h : complete (closeObject entries) levels = some p') :
      ∀ level ∈ Level.object entries :: levels, level.IsReadable := by
    obtain ⟨hentries, hlevels⟩ := isReadable_of_complete h hp'
    exact List.forall_mem_cons.2 ⟨isReadable_of_closeObject hentries, hlevels⟩
  unfold step at h
  split at h
  · exact isReadable_of_begin h hp'
  · exact harray h
  · exact isReadable_of_begin h hp'
  · obtain rfl := Option.some.inj h
    obtain ⟨hlevel, hrest⟩ := List.forall_mem_cons.1 hp'
    exact List.forall_mem_cons.2 ⟨hlevel.1, hrest⟩
  · exact hobject h
  · obtain rfl := Option.some.inj h
    exact hp'
  · obtain rfl := Option.some.inj h
    exact hp'
  · exact harray h
  · obtain rfl := Option.some.inj h
    exact hp'
  · exact hobject h
  · cases h

end Parser

/-! ## Tokens that were taken -/

/-- The tokens that open a container and stand before what comes next in it. -/
def Level.opening : Level → List Token
  | .array items => .openArray :: items.reverse.flatMap itemComma
  | .object entries => .openObject :: (entries.getD []).reverse.flatMap entryComma
  | .member entries name =>
    .openObject :: ((entries.getD []).reverse.flatMap entryComma ++ [.text name, .colon])

namespace Parser

variable {levels : List Level} {value : Json} {token : Token} {p p' : Parser}

/-- The tokens that open some containers. -/
def opening (levels : List Level) : List Token := levels.reverse.flatMap Level.opening

theorem opening_cons (level : Level) (levels : List Level) :
    opening (level :: levels) = opening levels ++ level.opening := by
  simp [opening]

/-- The tokens a parser has taken when it is in a state. -/
inductive Spent : Parser → List Token → Prop
  | value (levels : List Level) : Spent (.value levels) (opening levels)
  | item (levels : List Level) :
      Spent (.item (.array [] :: levels)) (opening (.array [] :: levels))
  | firstKey (levels : List Level) :
      Spent (.key true (.object (some []) :: levels)) (opening (.object (some []) :: levels))
  | key (entries : Option (List (String × Json))) (levels : List Level) :
      Spent (.key false (.object entries :: levels)) (opening (.object entries :: levels))
  | colon (entries : Option (List (String × Json))) (name : Option String) (levels : List Level) :
      Spent (.colon (.member entries name :: levels))
        (opening (.object entries :: levels) ++ [.text name])
  | afterItem (item : Json) (items : List Json) (levels : List Level) :
      Spent (.separator (.array (item :: items) :: levels))
        (opening (.array items :: levels) ++ tokens item)
  | afterEntry (name : String) (value : Json) (entries : List (String × Json))
      (levels : List Level) :
      Spent (.separator (.object (some ((name, value) :: entries)) :: levels))
        (opening (.member (some entries) (some name) :: levels) ++ tokens value)
  | done (json : Json) : Spent (.done json) (tokens json)

theorem spent_complete (h : complete value levels = some p) (hp : p.IsReadable) :
    Spent p (opening levels ++ tokens value) := by
  have hlevels := (isReadable_of_complete h hp).2
  unfold complete at h
  split at h
  · obtain rfl := Option.some.inj h
    exact .done value
  · obtain rfl := Option.some.inj h
    exact .afterItem _ _ _
  · obtain rfl := Option.some.inj h
    obtain ⟨⟨⟨list, rfl, -⟩, key, rfl⟩, -⟩ := List.forall_mem_cons.1 hlevels
    exact .afterEntry _ _ _ _
  · cases h

theorem spent_begin (h : begin levels token = some p) (hp : p.IsReadable) :
    Spent p (opening levels ++ [token]) := by
  unfold begin at h
  split at h
  · exact spent_complete h hp
  · exact spent_complete h hp
  · exact spent_complete h hp
  · cases (isReadable_of_complete h hp).1
  · exact spent_complete h hp
  · cases (isReadable_of_complete h hp).1
  · obtain rfl := Option.some.inj h
    exact opening_cons (.array []) levels ▸ .item levels
  · obtain rfl := Option.some.inj h
    exact opening_cons (.object (some [])) levels ▸ .firstKey levels
  · cases h

/-- One token is taken. -/
theorem spent_step {ts : List Token} (hspent : Spent p ts) (h : p.step token = some p')
    (hp' : p'.IsReadable) : Spent p' (ts ++ [token]) := by
  cases hspent with
  | value levels => exact spent_begin h hp'
  | item levels =>
    by_cases htoken : token = .closeArray
    · subst htoken
      have hclosed := spent_complete h hp'
      rwa [opening_cons, List.append_assoc]
    · rw [awaits_item _ token htoken] at h
      exact spent_begin h hp'
  | firstKey levels =>
    cases token with
    | text name =>
      obtain rfl := Option.some.inj h
      exact .colon _ _ _
    | closeObject =>
      have hclosed := spent_complete h hp'
      rwa [opening_cons, List.append_assoc]
    | _ => cases h
  | key entries levels =>
    cases token with
    | text name =>
      obtain rfl := Option.some.inj h
      exact .colon _ _ _
    | _ => cases h
  | colon entries name levels =>
    cases token with
    | colon =>
      obtain rfl := Option.some.inj h
      have hvalue := Spent.value (.member entries name :: levels)
      rw [opening_cons] at hvalue ⊢
      simpa [Level.opening] using hvalue
    | _ => cases h
  | afterItem item items levels =>
    cases token with
    | comma =>
      obtain rfl := Option.some.inj h
      have hvalue := Spent.value (.array (item :: items) :: levels)
      rw [opening_cons] at hvalue ⊢
      simpa [Level.opening, itemComma] using hvalue
    | closeArray =>
      have hclosed := spent_complete h hp'
      rw [tokens, List.reverse_cons, itemTokens_append_singleton] at hclosed
      rw [opening_cons]
      simpa [Level.opening] using hclosed
    | _ => cases h
  | afterEntry name value entries levels =>
    cases token with
    | comma =>
      obtain rfl := Option.some.inj h
      have hkey := Spent.key (some ((name, value) :: entries)) levels
      rw [opening_cons] at hkey ⊢
      simpa [Level.opening, entryComma] using hkey
    | closeObject =>
      have hclosed := spent_complete h hp'
      rw [closeObject, tokens, List.reverse_cons, entryTokens_append_singleton] at hclosed
      rw [opening_cons]
      simpa [Level.opening] using hclosed
    | _ => cases h
  | done json => cases h

theorem spent_run {us : List Token} : ∀ {p p' : Parser} {ts : List Token}, p.run us = some p' →
    p'.IsReadable → p.IsReadable ∧ (Spent p ts → Spent p' (ts ++ us)) := by
  induction us with
  | nil =>
    intro p p' ts h hp'
    obtain rfl := Option.some.inj h
    exact ⟨hp', fun hspent => (List.append_nil ts).symm ▸ hspent⟩
  | cons token rest ih =>
    intro p p' ts h hp'
    rw [run, List.foldlM_cons] at h
    obtain ⟨next, hstep, hrun⟩ := Option.bind_eq_some_iff.1 h
    obtain ⟨hnext, hspent⟩ := @ih next p' (ts ++ [token]) hrun hp'
    rw [List.append_assoc] at hspent
    exact ⟨isReadable_of_step hstep hnext, fun h => hspent (spent_step h hstep hnext)⟩

end Parser

/-- Only the tokens of a value are parsed as it. -/
theorem tokens_of_ofTokens? {ts : List Token} {json : Json} (h : ofTokens? ts = some json)
    (hreadable : json.isReadable = true) : ts = json.tokens := by
  obtain ⟨p, hrun, hresult⟩ := Option.bind_eq_some_iff.1 h
  cases p with
  | done value =>
    obtain rfl := Option.some.inj hresult
    have hspent := (Parser.spent_run hrun hreadable).2 (Parser.Spent.value [])
    generalize hts : Parser.opening [] ++ ts = spent at hspent
    cases hspent with
    | done => exact hts
  | _ => cases hresult

/-! ## Texts -/

variable {bytes : List UInt8} {json : Json}

/-- What is parsed is a text of the value if every part of it was readable. -/
theorem textOf_of_parse (h : parse bytes = some json) (hreadable : json.isReadable = true) :
    TextOf json bytes := by
  obtain ⟨ts, htokens, hvalue⟩ := Option.bind_eq_some_iff.1 h
  obtain rfl := tokens_of_ofTokens? hvalue hreadable
  exact textOf_of_lexemes hreadable (lexemes_of_tokens? htokens)

/-- What is read are the texts of values that do not nest too deep. -/
theorem read_eq_some_iff :
    read bytes = some json ↔ TextOf json bytes ∧ json.nesting ≤ maxNesting := by
  constructor
  · intro h
    obtain ⟨hparse, hfilter⟩ := Option.filter_eq_some_iff.1 h
    obtain ⟨hreadable, hnesting⟩ := (Bool.and_eq_true _ _).mp hfilter
    exact ⟨textOf_of_parse hparse hreadable, of_decide_eq_true hnesting⟩
  · rintro ⟨htext, hnesting⟩
    rw [read_of_textOf htext, if_pos hnesting]

/-- What is read from a text can be written again. -/
theorem isPrintable_of_read (h : read bytes = some json) : json.IsPrintable :=
  isPrintable_of_textOf (read_eq_some_iff.1 h).1

end Vdc.Json
