/-!
# Texts in parts

A text is split at every occurrence of a separator, so it has one part more than it has separators.
The parts with separators between them are the text again (`intercalate_split`), and no part holds
a separator (`not_mem_of_mem_split`).
-/

namespace Vdc.Parts

variable {α : Type} [DecidableEq α]

/-- The parts between the separators of a text. -/
def split (separator : α) : List α → List (List α)
  | [] => [[]]
  | a :: rest =>
    if a = separator then [] :: split separator rest
    else
      match split separator rest with
      | first :: others => (a :: first) :: others
      | [] => [[a]]

/-- The part of a text before the first separator, and what follows that. -/
def splitFirst? (separator : α) (text : List α) : Option (List α × List α) :=
  match split separator text with
  | first :: _ :: _ => some (first, text.drop (first.length + 1))
  | _ => none

/-- The part of a text after the last separator, and what precedes that. -/
def splitLast? (separator : α) (text : List α) : Option (List α × List α) :=
  (splitFirst? separator text.reverse).map fun (last, before) => (before.reverse, last.reverse)

theorem split_ne_nil (separator : α) (text : List α) : split separator text ≠ [] := by
  cases text with
  | nil => simp [split]
  | cons a rest =>
    rw [split]
    split
    · simp
    · split <;> simp

theorem intercalate_split (separator : α) (text : List α) :
    [separator].intercalate (split separator text) = text := by
  induction text with
  | nil => simp [split, List.intercalate]
  | cons a rest ih =>
    have hne := split_ne_nil separator rest
    cases hs : split separator rest with
    | nil => exact absurd hs hne
    | cons first others =>
      rw [hs] at ih
      rw [split, hs]
      by_cases h : a = separator
      · simp only [h, ite_true]
        rw [← ih]
        cases others <;> simp [List.intercalate]
      · simp only [h, ite_false]
        rw [← ih]
        cases others <;> simp [List.intercalate]

theorem not_mem_of_mem_split {separator : α} {text part : List α}
    (h : part ∈ split separator text) : separator ∉ part := by
  induction text generalizing part with
  | nil => simp_all [split]
  | cons a rest ih =>
    rw [split] at h
    split at h
    · rcases List.mem_cons.mp h with rfl | h
      · simp
      · exact ih h
    · rename_i hne
      split at h
      · rename_i first others hs
        rcases List.mem_cons.mp h with rfl | h
        · have := ih (hs ▸ List.mem_cons_self : first ∈ split separator rest)
          simp [Ne.symm hne, this]
        · exact ih (hs ▸ List.mem_cons_of_mem _ h)
      · simp_all [Ne.symm hne]

theorem split_append_cons {separator : α} {part : List α} (h : separator ∉ part)
    (rest : List α) :
    split separator (part ++ separator :: rest) = part :: split separator rest := by
  induction part with
  | nil => simp [split]
  | cons a part ih =>
    simp only [List.mem_cons, not_or] at h
    simp [split, Ne.symm h.1, ih h.2]

theorem split_eq_singleton {separator : α} {part : List α} (h : separator ∉ part) :
    split separator part = [part] := by
  induction part with
  | nil => rfl
  | cons a part ih =>
    simp only [List.mem_cons, not_or] at h
    simp [split, Ne.symm h.1, ih h.2]

end Vdc.Parts
