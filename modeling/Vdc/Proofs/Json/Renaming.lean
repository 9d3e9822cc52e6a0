import Vdc.Proofs.Json.Cutting
import Vdc.Proofs.Json.RoundTrip

/-!
# Renaming an entry

The parser keeps the names of entries and takes no notice of what they are. So if another string is
put in the place of the name of one entry of the outermost object, the text is read as before, with
that one name changed: `Renamed.read_eq`. Every entry can be renamed so, `exists_renamed`.

For the first, `Parser.Follows` lists the states in which a parser can be that has come past the
name, each as a function of the name, and `Parser.uniform_step` says that every token leads from one
to another or is refused, whatever the name. For the second, `Parser.has_of_step` follows an entry
back to the token of its name.
-/

namespace Vdc.Json

/-! ## On from a name -/

/-- The entries of an object as they depend on the name of one of them, which comes after `earlier`,
both in reverse. If another name is unreadable there are none any more. -/
inductive Follows (earlier : List (String × Json)) :
    (String → Option (List (String × Json))) → Prop
  | kept (later : List (String × Json)) (value : Json) :
      Follows earlier fun name => some (later ++ (name, value) :: earlier)
  | lost : Follows earlier fun _ => none

/-- The outermost container as it depends on the name of one of its entries, which is under way or
complete. -/
inductive Level.Follows (earlier : List (String × Json)) : (String → Level) → Prop
  | pending : Follows earlier fun name => .member (some earlier) (some name)
  | object {entries : String → Option (List (String × Json))} (h : Json.Follows earlier entries) :
      Follows earlier fun name => .object (entries name)
  | member {entries : String → Option (List (String × Json))} (h : Json.Follows earlier entries)
      (next : Option String) : Follows earlier fun name => .member (entries name) next

namespace Parser

/-- A parser as it depends on the name of one entry of the outermost object. -/
inductive Follows (earlier : List (String × Json)) : (String → Parser) → Prop
  | value (upper : List Level) {base : String → Level} (h : Level.Follows earlier base) :
      Follows earlier fun name => .value (upper ++ [base name])
  | item (upper : List Level) {base : String → Level} (h : Level.Follows earlier base) :
      Follows earlier fun name => .item (upper ++ [base name])
  | key (mayClose : Bool) (upper : List Level) {base : String → Level}
      (h : Level.Follows earlier base) :
      Follows earlier fun name => .key mayClose (upper ++ [base name])
  | colon (upper : List Level) {base : String → Level} (h : Level.Follows earlier base) :
      Follows earlier fun name => .colon (upper ++ [base name])
  | separator (upper : List Level) {base : String → Level} (h : Level.Follows earlier base) :
      Follows earlier fun name => .separator (upper ++ [base name])
  | done {entries : String → Option (List (String × Json))} (h : Json.Follows earlier entries) :
      Follows earlier fun name => .done (closeObject (entries name))

/-- Whether the parser goes on, and how, does not depend on the name. -/
def Uniform (earlier : List (String × Json)) (next : String → Option Parser) : Prop :=
  (∀ name, next name = none) ∨ ∃ p, Follows earlier p ∧ ∀ name, next name = some (p name)

section

variable {earlier : List (String × Json)} {base : String → Level} {p : String → Parser}

theorem uniform_none {next : String → Option Parser} (h : ∀ name, next name = none) :
    Uniform earlier next := .inl h

theorem uniform_some (h : Follows earlier p) : Uniform earlier fun name => some (p name) :=
  .inr ⟨p, h, fun _ => rfl⟩

theorem follows_insert {entries : String → Option (List (String × Json))}
    (h : Json.Follows earlier entries) (next : Option String) (value : Json) :
    Json.Follows earlier fun name => insert (entries name) next value := by
  cases h with
  | kept later first =>
    cases next with
    | none => exact .lost
    | some next => exact .kept ((next, value) :: later) first
  | lost => exact .lost

theorem uniform_complete (value : Json) (upper : List Level) (hbase : Level.Follows earlier base) :
    Uniform earlier fun name => complete value (upper ++ [base name]) := by
  cases upper with
  | nil =>
    cases hbase with
    | pending => exact uniform_some (.separator [] (.object (.kept [] value)))
    | object => exact uniform_none fun _ => rfl
    | member h next => exact uniform_some (.separator [] (.object (follows_insert h next value)))
  | cons level upper =>
    cases level with
    | array items => exact uniform_some (.separator (.array (value :: items) :: upper) hbase)
    | object => exact uniform_none fun _ => rfl
    | member entries next =>
      exact uniform_some (.separator (.object (insert entries next value) :: upper) hbase)

theorem uniform_begin (token : Token) (upper : List Level) (hbase : Level.Follows earlier base) :
    Uniform earlier fun name => begin (upper ++ [base name]) token := by
  cases token with
  | openArray => exact uniform_some (.item (.array [] :: upper) hbase)
  | openObject => exact uniform_some (.key true (.object (some []) :: upper) hbase)
  | null | boolean => exact uniform_complete _ upper hbase
  | number value | text value => cases value <;> exact uniform_complete _ upper hbase
  | closeArray | closeObject | colon | comma => exact uniform_none fun _ => rfl

theorem uniform_item (token : Token) (upper : List Level) (hbase : Level.Follows earlier base) :
    Uniform earlier fun name => (Parser.item (upper ++ [base name])).step token := by
  by_cases hclose : token = .closeArray
  · rw [hclose]
    cases upper with
    | nil => cases hbase <;> exact uniform_none fun _ => rfl
    | cons level upper =>
      cases level with
      | array items => exact uniform_complete _ upper hbase
      | object | member => exact uniform_none fun _ => rfl
  · have hbegin : (fun name => (Parser.item (upper ++ [base name])).step token) =
        fun name => begin (upper ++ [base name]) token :=
      funext fun name => awaits_item _ token hclose
    rw [hbegin]
    exact uniform_begin token upper hbase

theorem uniform_key (token : Token) (mayClose : Bool) (upper : List Level)
    (hbase : Level.Follows earlier base) :
    Uniform earlier fun name => (Parser.key mayClose (upper ++ [base name])).step token := by
  cases upper with
  | nil =>
    cases hbase with
    | object h =>
      cases token with
      | text next => exact uniform_some (.colon [] (.member h next))
      | closeObject =>
        cases mayClose with
        | true => exact uniform_some (.done h)
        | false => exact uniform_none fun _ => rfl
      | _ => exact uniform_none fun _ => by cases mayClose <;> rfl
    | pending | member => exact uniform_none fun _ => by cases mayClose <;> cases token <;> rfl
  | cons level upper =>
    cases level with
    | object entries =>
      cases token with
      | text next => exact uniform_some (.colon (.member entries next :: upper) hbase)
      | closeObject =>
        cases mayClose with
        | true => exact uniform_complete _ upper hbase
        | false => exact uniform_none fun _ => rfl
      | _ => exact uniform_none fun _ => by cases mayClose <;> rfl
    | array | member => exact uniform_none fun _ => by cases mayClose <;> cases token <;> rfl

theorem uniform_separator (token : Token) (upper : List Level)
    (hbase : Level.Follows earlier base) :
    Uniform earlier fun name => (Parser.separator (upper ++ [base name])).step token := by
  cases upper with
  | nil =>
    cases hbase with
    | object h =>
      cases token with
      | comma => exact uniform_some (.key false [] (.object h))
      | closeObject => exact uniform_some (.done h)
      | _ => exact uniform_none fun _ => rfl
    | pending | member => exact uniform_none fun _ => by cases token <;> rfl
  | cons level upper =>
    cases level with
    | array items =>
      cases token with
      | comma => exact uniform_some (.value (.array items :: upper) hbase)
      | closeArray => exact uniform_complete _ upper hbase
      | _ => exact uniform_none fun _ => rfl
    | object entries =>
      cases token with
      | comma => exact uniform_some (.key false (.object entries :: upper) hbase)
      | closeObject => exact uniform_complete _ upper hbase
      | _ => exact uniform_none fun _ => rfl
    | member => exact uniform_none fun _ => by cases token <;> rfl

/-- One token leads on alike whatever the name is. -/
theorem uniform_step (token : Token) (hp : Follows earlier p) :
    Uniform earlier fun name => (p name).step token := by
  cases hp with
  | value upper h => exact uniform_begin token upper h
  | item upper h => exact uniform_item token upper h
  | key mayClose upper h => exact uniform_key token mayClose upper h
  | colon upper h =>
    cases token with
    | colon => exact uniform_some (.value upper h)
    | _ => exact uniform_none fun _ => rfl
  | separator upper h => exact uniform_separator token upper h
  | done => exact uniform_none fun _ => rfl

theorem uniform_run (tokens : List Token) (hp : Follows earlier p) :
    Uniform earlier fun name => (p name).run tokens := by
  induction tokens generalizing p with
  | nil => exact uniform_some hp
  | cons token rest ih =>
    rcases uniform_step token hp with hnone | ⟨next, hnext, hstep⟩
    · have hrun (name : String) : (p name).run (token :: rest) = none := by
        rw [run_cons, show (p name).step token = none from hnone name]
        rfl
      exact uniform_none hrun
    · have hrun (name : String) : (p name).run (token :: rest) = (next name).run rest := by
        rw [run_cons, show (p name).step token = some (next name) from hstep name]
        rfl
      simpa only [hrun] using ih hnext

end

end Parser

/-! ## Back to a name -/

/-- An open container has an entry of this name after `earlier`, or is about to. -/
def Level.Has (earlier : List (String × Json)) (name : String) : Level → Prop
  | .array _ => False
  | .object entries => ∃ later value, entries = some (later ++ (name, value) :: earlier)
  | .member entries next => (entries = some earlier ∧ next = some name) ∨
      ∃ later value, entries = some (later ++ (name, value) :: earlier)

/-- The outermost of some open containers does. -/
def LastHas (earlier : List (String × Json)) (name : String) : List Level → Prop
  | [] => False
  | level :: levels => (levels = [] ∧ level.Has earlier name) ∨ LastHas earlier name levels

/-- A complete value has an entry of this name after `earlier`. -/
def HasEntry (earlier : List (String × Json)) (name : String) (json : Json) : Prop :=
  ∃ later value, json = .object (earlier.reverse ++ (name, value) :: later)

namespace Parser

variable {earlier : List (String × Json)} {name : String} {levels : List Level} {p p' : Parser}
  {token : Token}

/-- The outermost object that a parser is in the middle of, or has read, does. -/
def Has (earlier : List (String × Json)) (name : String) : Parser → Prop
  | .value levels | .item levels | .key _ levels | .colon levels | .separator levels =>
    LastHas earlier name levels
  | .done json => json.HasEntry earlier name

/-- A complete value has the entry itself, as the outermost one, or stands inside what has it. -/
theorem lastHas_of_complete {value : Json} (h : complete value levels = some p')
    (hhas : p'.Has earlier name) :
    (levels = [] ∧ value.HasEntry earlier name) ∨ LastHas earlier name levels := by
  unfold complete at h
  split at h
  · obtain rfl := Option.some.inj h
    exact .inl ⟨rfl, hhas⟩
  · obtain rfl := Option.some.inj h
    rcases hhas with ⟨-, hlevel⟩ | hlevels
    · exact hlevel.elim
    · exact .inr (.inr hlevels)
  · next entries next levels =>
    obtain rfl := Option.some.inj h
    refine .inr (hhas.imp_left (And.imp_right ?_))
    rintro ⟨later, first, heq⟩
    cases entries with
    | none => cases heq
    | some entries =>
      cases next with
      | none => cases heq
      | some next =>
        have hentries : (next, value) :: entries = later ++ (name, first) :: earlier :=
          Option.some.inj heq
        -- The entry is the one that was just completed, or it was there.
        cases later with
        | nil =>
          obtain ⟨hentry, rfl⟩ := List.cons.inj hentries
          exact .inl ⟨rfl, congrArg some (Prod.mk.inj hentry).1⟩
        | cons _ later => exact .inr ⟨later, first, congrArg some (List.cons.inj hentries).2⟩
  · cases h

theorem lastHas_of_plain {value : Json} (h : complete value levels = some p')
    (hhas : p'.Has earlier name) (hvalue : ∀ entries, value ≠ .object entries) :
    LastHas earlier name levels := by
  rcases lastHas_of_complete h hhas with ⟨-, later, first, heq⟩ | hlevels
  · exact absurd heq (hvalue _)
  · exact hlevels

theorem lastHas_of_begin (h : begin levels token = some p') (hhas : p'.Has earlier name) :
    LastHas earlier name levels := by
  unfold begin at h
  split at h
  case h_7 =>
    obtain rfl := Option.some.inj h
    rcases hhas with ⟨-, hlevel⟩ | hlevels
    · exact hlevel.elim
    · exact hlevels
  case h_8 =>
    obtain rfl := Option.some.inj h
    rcases hhas with ⟨-, later, first, heq⟩ | hlevels
    · simp at heq
    · exact hlevels
  case h_9 => cases h
  all_goals exact lastHas_of_plain h hhas (by simp)

theorem lastHas_of_closeArray {items : List Json}
    (h : complete (.array items.reverse) levels = some p') (hhas : p'.Has earlier name) :
    LastHas earlier name (.array items :: levels) :=
  .inr (lastHas_of_plain h hhas (by simp))

theorem lastHas_of_closeObject {entries : Option (List (String × Json))}
    (h : complete (closeObject entries) levels = some p') (hhas : p'.Has earlier name) :
    LastHas earlier name (.object entries :: levels) := by
  refine (lastHas_of_complete h hhas).imp_left (And.imp_right ?_)
  rintro ⟨later, first, heq⟩
  cases entries with
  | none => cases heq
  | some entries =>
    have hreverse : entries.reverse = earlier.reverse ++ (name, first) :: later :=
      Json.object.inj heq
    refine ⟨later.reverse, first, congrArg some ?_⟩
    rw [← List.reverse_reverse entries, hreverse]
    simp

/-- If the outermost object has an entry after a token, it had it before, or the token is the name
of the entry. -/
theorem has_of_step (h : p.step token = some p') (hhas : p'.Has earlier name) :
    p.Has earlier name ∨
      ∃ mayClose, p = .key mayClose [.object (some earlier)] ∧ token = .text (some name) := by
  unfold step at h
  split at h
  · exact .inl (lastHas_of_begin h hhas)
  · exact .inl (lastHas_of_closeArray h hhas)
  · exact .inl (lastHas_of_begin h hhas)
  · next mayClose entries levels next =>
    obtain rfl := Option.some.inj h
    rcases hhas with ⟨rfl, ⟨rfl, rfl⟩ | hentries⟩ | hlevels
    · exact .inr ⟨mayClose, rfl, rfl⟩
    · exact .inl (.inl ⟨rfl, hentries⟩)
    · exact .inl (.inr hlevels)
  · exact .inl (lastHas_of_closeObject h hhas)
  · obtain rfl := Option.some.inj h
    exact .inl hhas
  · obtain rfl := Option.some.inj h
    exact .inl hhas
  · exact .inl (lastHas_of_closeArray h hhas)
  · obtain rfl := Option.some.inj h
    exact .inl hhas
  · exact .inl (lastHas_of_closeObject h hhas)
  · cases h

theorem has_of_run {tokens : List Token} (h : p.run tokens = some p')
    (hhas : p'.Has earlier name) : p.Has earlier name ∨ ∃ before later mayClose,
      tokens = before ++ .text (some name) :: later ∧
        p.run before = some (.key mayClose [.object (some earlier)]) := by
  induction tokens generalizing p with
  | nil =>
    obtain rfl := Option.some.inj h
    exact .inl hhas
  | cons token rest ih =>
    rw [run_cons] at h
    obtain ⟨next, hnext, hrun⟩ := Option.bind_eq_some_iff.1 h
    rcases ih hrun with hhas | ⟨before, later, mayClose, rfl, hbefore⟩
    · rcases has_of_step hnext hhas with hhas | ⟨mayClose, rfl, rfl⟩
      · exact .inl hhas
      · exact .inr ⟨[], rest, mayClose, rfl, rfl⟩
    · refine .inr ⟨token :: before, later, mayClose, rfl, ?_⟩
      rw [run_cons, hnext]
      exact hbefore

theorem complete_ne_key (value : Json) (levels upper : List Level) (mayClose : Bool) :
    complete value levels ≠ some (.key mayClose upper) := by
  unfold complete
  split <;> simp

/-- A name never comes right after a number. -/
theorem step_number_ne_key (p : Parser) (value : Option Number) (mayClose : Bool)
    (levels : List Level) : p.step (.number value) ≠ some (.key mayClose levels) := by
  have hbegin (upper : List Level) : begin upper (.number value) ≠ some (.key mayClose levels) := by
    cases value <;> exact complete_ne_key _ upper levels mayClose
  cases p with
  | value upper => exact hbegin upper
  | item upper =>
    rw [awaits_item upper _ (by simp)]
    exact hbegin upper
  | key _ upper | separator upper => rcases upper with _ | ⟨_ | _ | _, _⟩ <;> simp [step]
  | colon | done => simp [step]

theorem getLast?_ne_number {tokens : List Token} {mayClose : Bool}
    (h : p.run tokens = some (.key mayClose levels)) (value : Option Number) :
    tokens.getLast? ≠ some (.number value) := by
  intro hlast
  obtain ⟨front, rfl⟩ := List.getLast?_eq_some_iff.1 hlast
  rw [run_append] at h
  obtain ⟨last, -, hstep⟩ := Option.bind_eq_some_iff.1 h
  rw [run_singleton] at hstep
  exact step_number_ne_key last value mayClose levels hstep

end Parser

/-! ## Renaming in a text -/

/-- Some bytes are the beginning of an object with these entries, in reverse, up to where the next
name comes. -/
def Opens (before : List UInt8) (earlier : List (String × Json)) : Prop :=
  ∃ found mayClose, Lexer.run ⟨[], .between⟩ before = some ⟨found, .between⟩ ∧
    (Parser.value []).run found.reverse = some (.key mayClose [.object (some earlier)])

/-- Two texts differ in the spelling of the name of one entry of the outermost object, which is
`old` in the one and `new` in the other. -/
inductive Renamed (old new : String) : List UInt8 → List UInt8 → Prop
  | intro {before spelling spelling' rest : List UInt8} {earlier : List (String × Json)}
      (hbefore : Opens before earlier) (hold : Spells spelling old) (hnew : Spells spelling' new) :
      Renamed old new (before ++ (spelling ++ rest)) (before ++ (spelling' ++ rest))

section

variable {before bytes bytes' : List UInt8} {earlier entries : List (String × Json)}
  {old new : String}

theorem entriesReadable_rename (front back : List (String × Json)) (value : Json)
    (name name' : String) : entriesReadable (front ++ (name, value) :: back) =
      entriesReadable (front ++ (name', value) :: back) := by
  induction front with
  | nil => rfl
  | cons entry front ih =>
    rw [List.cons_append, List.cons_append, entriesReadable, entriesReadable, ih]

theorem nestingEntries_rename (front back : List (String × Json)) (value : Json)
    (name name' : String) : nestingEntries (front ++ (name, value) :: back) =
      nestingEntries (front ++ (name', value) :: back) := by
  induction front with
  | nil => rfl
  | cons entry front ih =>
    rw [List.cons_append, List.cons_append, nestingEntries, nestingEntries, ih]

/-- After a name only the parser's state when it has taken the name matters. -/
theorem parse_of_opens (h : Opens before earlier) {spelling : List UInt8} {name : String}
    (hname : Spells spelling name) (rest : List UInt8) :
    parse (before ++ (spelling ++ rest)) = (tokens? rest).bind fun tokens =>
      ((Parser.colon [.member (some earlier) (some name)]).run tokens).bind Parser.result? := by
  obtain ⟨found, mayClose, hlex, hparse⟩ := h
  have htokens : tokens? (before ++ (spelling ++ rest)) =
      (tokens? rest).map fun tokens => found.reverse ++ .text (some name) :: tokens := by
    rw [tokens?_append hlex, tokens?_append_spelling hname, Option.map_map]
    rfl
  rw [parse, htokens, Option.bind_map]
  congr 1
  funext tokens
  rw [Function.comp_apply, ofTokens?, Parser.run_append, hparse, Option.bind_some, Parser.run_cons]
  rfl

/-- Two such texts have the same value but for the one name, or the same value, no object. -/
theorem Renamed.parse (h : Renamed old new bytes bytes') :
    (∃ front value back, Json.parse bytes = some (.object (front ++ (old, value) :: back)) ∧
      Json.parse bytes' = some (.object (front ++ (new, value) :: back))) ∨
    (Json.parse bytes = Json.parse bytes' ∧
      ∀ entries, Json.parse bytes ≠ some (.object entries)) := by
  obtain @⟨_, _, _, rest, earlier, hbefore, hold, hnew⟩ := h
  rw [parse_of_opens hbefore hold, parse_of_opens hbefore hnew]
  cases tokens? rest with
  | none => exact .inr ⟨rfl, fun _ => nofun⟩
  | some tokens =>
    have hfollows : Parser.Follows earlier fun name =>
        .colon ([] ++ [.member (some earlier) (some name)]) := .colon [] .pending
    simp only [Option.bind_some]
    rcases Parser.uniform_run tokens hfollows with hnone | ⟨next, hnext, hrun⟩
    · have hnone (name : String) :
          (Parser.colon [.member (some earlier) (some name)]).run tokens = none := hnone name
      rw [hnone, hnone]
      exact .inr ⟨rfl, fun _ => nofun⟩
    · have hrun (name : String) :
          (Parser.colon [.member (some earlier) (some name)]).run tokens = some (next name) :=
        hrun name
      rw [hrun, hrun]
      cases hnext with
      | done h =>
        cases h with
        | kept later value =>
          refine .inl ⟨earlier.reverse, value, later.reverse, ?_, ?_⟩ <;>
            simp [Parser.result?, Parser.closeObject]
        | lost => exact .inr ⟨rfl, fun _ => nofun⟩
      | _ => exact .inr ⟨rfl, fun _ => nofun⟩

/-- A text is read as before, with the one name changed. -/
theorem Renamed.read_eq (h : Renamed old new bytes bytes')
    (hread : read bytes = some (.object entries)) :
    ∃ front value back, entries = front ++ (old, value) :: back ∧
      read bytes' = some (.object (front ++ (new, value) :: back)) := by
  obtain ⟨hparse, hfilter⟩ := Option.filter_eq_some_iff.1 hread
  obtain ⟨front, value, back, hold, hnew⟩ :=
    h.parse.resolve_right fun hsame => hsame.2 entries hparse
  obtain rfl : entries = front ++ (old, value) :: back :=
    Json.object.inj (Option.some.inj (hparse.symm.trans hold))
  refine ⟨front, value, back, rfl, Option.filter_eq_some_iff.2 ⟨hnew, ?_⟩⟩
  rwa [isReadable, nesting, entriesReadable_rename front back value new old,
    nestingEntries_rename front back value new old]

/-- Every entry of the object that a text is read as can be renamed. -/
theorem exists_renamed (h : read bytes = some (.object entries)) (hold : old ∈ entries.map (·.1))
    (new : String) : ∃ bytes', Renamed old new bytes bytes' := by
  obtain ⟨⟨name, value⟩, hentry, rfl⟩ := List.mem_map.1 hold
  obtain ⟨front, back, rfl⟩ := List.append_of_mem hentry
  obtain ⟨hparse, -⟩ := Option.filter_eq_some_iff.1 h
  obtain ⟨tokens, htokens, hvalue⟩ := Option.bind_eq_some_iff.1 hparse
  obtain ⟨p, hrun, hresult⟩ := Option.bind_eq_some_iff.1 hvalue
  have hhas : p.Has front.reverse name := by
    cases p with
    | done json =>
      obtain rfl := Option.some.inj hresult
      exact ⟨back, value, by rw [List.reverse_reverse]⟩
    | _ => cases hresult
  obtain ⟨before, later, mayClose, rfl, hbefore⟩ :=
    (Parser.has_of_run hrun hhas).resolve_left id
  obtain ⟨start, spelling, rest, rfl, hstart, hspelling⟩ :=
    exists_spells htokens (Parser.getLast?_ne_number hbefore)
  have hopens : Opens start front.reverse :=
    ⟨before.reverse, mayClose, hstart, by rwa [List.reverse_reverse]⟩
  exact ⟨_, .intro hopens hspelling (spells_quote new)⟩

end

end Vdc.Json
