import Mathlib.Data.List.Induction
import Vdc.Proofs.Json.Written

/-!
# A text in two parts

The lexer only ever adds to the tokens it has found and never looks at them again, so what it makes
of a text after some tokens is what it makes of that text alone, with those tokens before it:
`tokens?_append`. Conversely the first tokens of a text are those of a beginning of it,
`Lexer.passes_of_suffix`, since one byte ends at most a numeral and then one token,
`Lexer.found_of_step`.

Together the two give a string among the tokens its place in the text, `exists_spells`.
-/

namespace Vdc.Json

namespace Lexer

variable {found earlier : List Token} {bytes : List UInt8} {b : UInt8} {l l' : Lexer}

/-! ## Adding to what was found -/

/-- The same lexer with some tokens found before its own. -/
def after (l : Lexer) (found : List Token) : Lexer := ⟨l.found ++ found, l.mode⟩

theorem start_append (earlier found : List Token) (b : UInt8) :
    start (earlier ++ found) b = (start earlier b).map (·.after found) := by
  unfold start
  split
  case h_15 => split <;> rfl
  all_goals rfl

/-- What was found has no influence on how a lexer goes on. -/
theorem step_after (l : Lexer) (found : List Token) (b : UInt8) :
    (l.after found).step b = (l.step b).map (·.after found) := by
  obtain ⟨earlier, mode⟩ := l
  cases mode with
  | between => exact start_append earlier found b
  | word left token =>
    simp only [step, after]
    split
    · rfl
    · split <;> rfl
    · split <;> rfl
  | numeral taken =>
    simp only [step, after]
    split
    · rfl
    · rw [Option.map_bind]
      congr 1
      funext token
      exact start_append (token :: earlier) found b
  | text taken =>
    simp only [step, after]
    repeat' split
    all_goals rfl
  | escape taken =>
    simp only [step, after]
    split
    · rfl
    · rw [Option.map_map]
      rfl
  | codeUnit taken digits value =>
    simp only [step, after, Option.map_map]
    congr 1
    funext d
    simp only [Function.comp_apply]
    split <;> rfl

theorem run_after (l : Lexer) (found : List Token) (bytes : List UInt8) :
    (l.after found).run bytes = (l.run bytes).map (·.after found) := by
  induction bytes generalizing l with
  | nil => rfl
  | cons b rest ih =>
    have hcons (l : Lexer) : l.run (b :: rest) = (l.step b).bind (·.run rest) := List.foldlM_cons
    rw [hcons, hcons, step_after, Option.bind_map, Option.map_bind]
    congr 1
    funext next
    exact ih next

theorem finish_after (l : Lexer) (found : List Token) :
    (l.after found).finish = l.finish.map (found.reverse ++ ·) := by
  obtain ⟨earlier, mode⟩ := l
  cases mode with
  | between => simp [finish, after]
  | numeral taken => simp [finish, after, Function.comp_def]
  | _ => rfl

end Lexer

/-- After a part that ends between two tokens the rest of a text is read as if it stood alone. -/
theorem tokens?_append {before : List UInt8} {found : List Token}
    (h : Lexer.run ⟨[], .between⟩ before = some ⟨found, .between⟩) (rest : List UInt8) :
    tokens? (before ++ rest) = (tokens? rest).map (found.reverse ++ ·) := by
  have hafter : Lexer.run ⟨found, .between⟩ rest =
      (Lexer.run ⟨[], .between⟩ rest).map (·.after found) :=
    Lexer.run_after ⟨[], .between⟩ found rest
  rw [tokens?, Lexer.run_append, h, Option.bind_some, hafter, Option.bind_map, tokens?,
    Option.map_bind]
  congr 1
  funext l
  exact Lexer.finish_after l found

namespace Lexer

variable {found earlier : List Token} {bytes : List UInt8} {b : UInt8} {l l' : Lexer}

/-! ## Beginnings of a text -/

/-- A byte that begins a token is one or leads into one. -/
theorem found_of_start (h : start found b = some l) :
    l.found = found ∨ ∃ token, l = ⟨token :: found, .between⟩ := by
  unfold start at h
  split at h
  case h_15 =>
    split at h
    · obtain rfl := Option.some.inj h
      exact .inl rfl
    · cases h
  all_goals
    obtain rfl := Option.some.inj h
    first
    | exact .inl rfl
    | exact .inr ⟨_, rfl⟩

/-- A byte may end a numeral, and then may end a token or be one. -/
theorem found_of_step (h : l.step b = some l') :
    ∃ found, (found = l.found ∨ l.Reads found) ∧
      (l'.found = found ∨ ∃ token, l' = ⟨token :: found, .between⟩) := by
  obtain ⟨found, mode⟩ := l
  cases mode with
  | between => exact ⟨found, .inl rfl, found_of_start h⟩
  | word left token =>
    refine ⟨found, .inl rfl, ?_⟩
    simp only [step] at h
    split at h
    · cases h
    · split at h
      · exact .inr ⟨token, (Option.some.inj h).symm⟩
      · cases h
    · split at h
      · obtain rfl := Option.some.inj h
        exact .inl rfl
      · cases h
  | numeral taken =>
    simp only [step] at h
    split at h
    · obtain rfl := Option.some.inj h
      exact ⟨found, .inl rfl, .inl rfl⟩
    · obtain ⟨token, htoken, hstart⟩ := Option.bind_eq_some_iff.1 h
      exact ⟨token :: found, .inr (.inr ⟨found, taken, token, rfl, htoken, rfl⟩),
        found_of_start hstart⟩
  | text taken =>
    refine ⟨found, .inl rfl, ?_⟩
    simp only [step] at h
    split at h
    · exact .inr ⟨_, (Option.some.inj h).symm⟩
    · split at h
      · obtain rfl := Option.some.inj h
        exact .inl rfl
      · split at h
        · cases h
        · obtain rfl := Option.some.inj h
          exact .inl rfl
  | escape taken =>
    refine ⟨found, .inl rfl, .inl ?_⟩
    simp only [step] at h
    split at h
    · obtain rfl := Option.some.inj h
      rfl
    · obtain ⟨c, -, rfl⟩ := Option.map_eq_some_iff.1 h
      rfl
  | codeUnit taken digits value =>
    refine ⟨found, .inl rfl, .inl ?_⟩
    obtain ⟨d, -, rfl⟩ := Option.map_eq_some_iff.1 h
    split <;> rfl

/-- On its way over some bytes the lexer comes past a point where it has read just these tokens. -/
def Passes (bytes : List UInt8) (earlier : List Token) (l : Lexer) : Prop :=
  ∃ before rest here, bytes = before ++ rest ∧ run ⟨[], .between⟩ before = some here ∧
    here.Reads earlier ∧ here.run rest = some l

theorem passes_of_reads (h : run ⟨[], .between⟩ bytes = some l) (hreads : l.Reads earlier) :
    Passes bytes earlier l :=
  ⟨bytes, [], l, (List.append_nil bytes).symm, h, hreads, rfl⟩

theorem Passes.step (h : Passes bytes earlier l) (hstep : l.step b = some l') :
    Passes (bytes ++ [b]) earlier l' := by
  obtain ⟨before, rest, here, rfl, hbefore, hreads, hrest⟩ := h
  refine ⟨before, rest ++ [b], here, List.append_assoc _ _ _, hbefore, hreads, ?_⟩
  rw [run_append, hrest, Option.bind_some, run, List.foldlM_cons, hstep]
  rfl

/-- The first tokens of a text are those of a beginning of it. -/
theorem passes_of_suffix (h : run ⟨[], .between⟩ bytes = some l) (hearlier : earlier <:+ l.found) :
    Passes bytes earlier l := by
  induction bytes using List.reverseRecOn generalizing l with
  | nil =>
    obtain rfl := Option.some.inj h
    obtain rfl := List.suffix_nil.1 hearlier
    exact passes_of_reads rfl (.inl rfl)
  | append_singleton bytes b ih =>
    have hrun := h
    rw [run_append] at hrun
    obtain ⟨last, hlast, hrun⟩ := Option.bind_eq_some_iff.1 hrun
    have hstep : last.step b = some l := by simpa [run] using hrun
    obtain ⟨found, hfound, hnext⟩ := found_of_step hstep
    -- Tokens that stand before the byte were passed before it; a numeral that it ends was read.
    have hbefore (hsuffix : earlier <:+ found) : Passes bytes earlier last := by
      rcases hfound with rfl | rfl | ⟨known, taken, token, rfl, htoken, rfl⟩
      · exact ih hlast hsuffix
      · exact ih hlast hsuffix
      · rcases List.suffix_cons_iff.1 hsuffix with rfl | hknown
        · exact passes_of_reads hlast (.inr ⟨known, taken, token, rfl, htoken, rfl⟩)
        · exact ih hlast hknown
    rcases hnext with heq | ⟨token, rfl⟩
    · exact (hbefore (heq ▸ hearlier)).step hstep
    · rcases List.suffix_cons_iff.1 hearlier with rfl | hsuffix
      · exact passes_of_reads h (.inl rfl)
      · exact (hbefore hsuffix).step hstep

theorem numeralToken?_eq_number {token : Token} (h : numeralToken? bytes = some token) :
    ∃ value, token = .number value := by
  unfold numeralToken? at h
  split at h
  · split at h
    · exact ⟨_, (Option.some.inj h).symm⟩
    · cases h
  · cases h

/-- Nothing is under way after a token other than a number. -/
theorem eq_of_reads (h : l.Reads found) (hfound : ∀ value, found.head? ≠ some (.number value)) :
    l = ⟨found, .between⟩ := by
  rcases h with rfl | ⟨known, taken, token, rfl, htoken, rfl⟩
  · rfl
  · obtain ⟨value, rfl⟩ := numeralToken?_eq_number htoken
    exact absurd rfl (hfound value)

end Lexer

/-! ## The place of a string -/

/-- Some bytes are read as one token, this string. -/
def Spells (spelling : List UInt8) (s : String) : Prop :=
  Lexer.run ⟨[], .between⟩ spelling = some ⟨[.text (some s)], .between⟩

theorem spells_quote (s : String) : Spells (quote s) s := by
  obtain ⟨l, hrun, hreads⟩ := Lexer.yields_quote s []
  rw [Spells, hrun, Lexer.eq_of_reads hreads (by simp)]
  rfl

theorem tokens?_append_spelling {spelling : List UInt8} {s : String} (h : Spells spelling s)
    (rest : List UInt8) : tokens? (spelling ++ rest) = (tokens? rest).map (.text (some s) :: ·) :=
  tokens?_append h rest

/-- A string after some tokens, the last of which is no number, is spelled by a part of the text. -/
theorem exists_spells {bytes : List UInt8} {earlier later : List Token} {s : String}
    (h : tokens? bytes = some (earlier ++ .text (some s) :: later))
    (hearlier : ∀ value, earlier.getLast? ≠ some (.number value)) :
    ∃ before spelling rest, bytes = before ++ (spelling ++ rest) ∧
      Lexer.run ⟨[], .between⟩ before = some ⟨earlier.reverse, .between⟩ ∧ Spells spelling s := by
  obtain ⟨l, hrun, hfinish⟩ := Option.bind_eq_some_iff.1 h
  have hsuffix : .text (some s) :: earlier.reverse <:+ l.found := by
    unfold Lexer.finish at hfinish
    split at hfinish
    · refine ⟨later.reverse, ?_⟩
      rw [← List.reverse_reverse l.found, Option.some.inj hfinish]
      simp
    · next taken _ =>
      obtain ⟨token, htoken, heq⟩ := Option.map_eq_some_iff.1 hfinish
      obtain ⟨value, rfl⟩ := Lexer.numeralToken?_eq_number htoken
      have hreverse : .number value :: l.found =
          later.reverse ++ .text (some s) :: earlier.reverse := by
        rw [← List.reverse_reverse (.number value :: l.found), heq]
        simp
      rcases List.append_eq_cons_iff.1 hreverse.symm with ⟨-, hfirst⟩ | ⟨rest, -, hfound⟩
      · cases (List.cons.inj hfirst).1
      · exact ⟨rest, hfound.symm⟩
    · cases hfinish
  obtain ⟨front, rest, here, rfl, hfront, hreads, -⟩ := Lexer.passes_of_suffix hrun hsuffix
  obtain rfl := Lexer.eq_of_reads hreads (by simp)
  obtain ⟨before, spelling, start, rfl, hbefore, hreads, hspelling⟩ :=
    Lexer.passes_of_suffix hfront (List.suffix_cons (.text (some s)) earlier.reverse)
  obtain rfl := Lexer.eq_of_reads hreads (by simpa using hearlier)
  refine ⟨before, spelling, rest, List.append_assoc _ _ _, hbefore, ?_⟩
  have hafter : Lexer.run ⟨earlier.reverse, .between⟩ spelling =
      (Lexer.run ⟨[], .between⟩ spelling).map (·.after earlier.reverse) :=
    Lexer.run_after ⟨[], .between⟩ earlier.reverse spelling
  rw [hafter] at hspelling
  obtain ⟨⟨found, mode⟩, halone, heq⟩ := Option.map_eq_some_iff.1 hspelling
  obtain ⟨hfound, rfl⟩ := Lexer.mk.inj heq
  obtain rfl : found = [.text (some s)] := List.append_cancel_right hfound
  exact halone

end Vdc.Json
