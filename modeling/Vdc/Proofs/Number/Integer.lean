import Vdc.Number.Integer
import Vdc.Proofs.Number.Digits
import Vdc.Proofs.Text.Utf8

/-!
# Integers read back

An integer is written as digits with a sign in front of them or without, `IsInteger`. Reading takes
the digits from the left and gives up as soon as the number leaves its range. As more digits never
make a number smaller, what is in range at the end was in range all along, so a text is read exactly
if it is an integer and in range: `natOfText?_eq_ok_iff` and `intOfText?_eq_ok_iff`.
-/

namespace Vdc

namespace Digits

theorem le_append (n : Nat) (ds : List UInt8) : n ≤ append n ds := by
  rw [append_eq]
  exact Nat.le_add_right_of_le (Nat.le_mul_of_pos_right n (Nat.pow_pos (by decide)))

/-- Some bytes are the digits of a number, perhaps with zeros in front. -/
structure Make (ds : List UInt8) (n : Nat) : Prop where
  ne_nil : ds ≠ []
  isDigit : ∀ b ∈ ds, isDigit b = true
  value_eq : value ds = n

theorem not_make_cons {b : UInt8} (hb : isDigit b = false) (rest : List UInt8) (n : Nat) :
    ¬ Make (b :: rest) n := by
  intro h
  rw [h.isDigit b List.mem_cons_self] at hb
  cases hb

/-- Digits are read from the left exactly if the number that they make is in range. -/
theorem within_eq_ok_iff {fault : IntegerFault} {limit n k : Nat} {ds : List UInt8}
    (hn : n ≤ limit) : within limit fault n ds = .ok k ↔
      (∀ b ∈ ds, isDigit b = true) ∧ append n ds = k ∧ k ≤ limit := by
  induction ds generalizing n with
  | nil =>
    simp only [within, append, List.foldl_nil, Except.ok.injEq]
    constructor
    · rintro rfl
      exact ⟨List.forall_mem_nil _, rfl, hn⟩
    · exact fun h => h.2.1
  | cons b rest ih =>
    have hstep : append n (b :: rest) = append (n * 10 + (b.toNat - 0x30)) rest := rfl
    rw [within, hstep, List.forall_mem_cons]
    by_cases hb : isDigit b = true
    · by_cases hrange : limit < n * 10 + (b.toNat - 0x30)
      · have hlarge := le_append (n * 10 + (b.toNat - 0x30)) rest
        rw [hb, if_neg (by simp), if_pos hrange]
        simp only [reduceCtorEq, false_iff]
        rintro ⟨-, rfl, hlimit⟩
        omega
      · rw [hb, if_neg (by simp), if_neg hrange, ih (by omega)]
        simp only [true_and]
    · rw [if_pos (by simpa using hb)]
      simp only [reduceCtorEq, hb, false_and]

theorem within_zero_eq_ok_iff {fault : IntegerFault} {limit n : Nat} {ds : List UInt8}
    (hne : ds ≠ []) : within limit fault 0 ds = .ok n ↔ Make ds n ∧ n ≤ limit := by
  rw [within_eq_ok_iff (Nat.zero_le limit), ← value_eq, ← and_assoc]
  exact and_congr_left' ⟨fun h => ⟨hne, h.1, h.2⟩, fun h => ⟨h.isDigit, h.value_eq⟩⟩

theorem make_ofNat (n : Nat) : Make (ofNat n) n :=
  ⟨ofNat_ne_nil n, isDigit_of_mem_ofNat n, value_ofNat n⟩

/-- A number is written with the digits that `ofNat` gives. -/
theorem encode_toString (n : Nat) : Utf8.encode (toString n) = ofNat n := by
  have hdigit : ∀ d < 10, String.utf8EncodeChar (Nat.digitChar d) = [0x30 + d.toUInt8] := by
    decide
  have hdigits (n : Nat) : (Nat.toDigits 10 n).flatMap String.utf8EncodeChar = ofNat n := by
    induction n using Nat.strongRecOn with
    | ind n ih =>
      rcases Nat.lt_or_ge n 10 with h | h
      · rw [Nat.toDigits_of_lt_base h, ofNat_of_lt h, List.flatMap_singleton, hdigit n h]
      · rw [Nat.toDigits_of_base_le (by decide) h, ofNat_of_le h, List.flatMap_append,
          List.flatMap_singleton, ih (n / 10) (by omega), hdigit (n % 10) (by omega)]
  rw [Utf8.encode_eq_flatMap, Nat.toString_eq_repr, Nat.toList_repr, hdigits]

end Digits

/-- Some bytes are an integer of some size: digits, with a sign in front of them or without. -/
inductive IsInteger : List UInt8 → Bool → Nat → Prop
  | unsigned {ds : List UInt8} {n : Nat} (h : Digits.Make ds n) : IsInteger ds false n
  | plus {ds : List UInt8} {n : Nat} (h : Digits.Make ds n) : IsInteger (0x2b :: ds) false n
  | minus {ds : List UInt8} {n : Nat} (h : Digits.Make ds n) : IsInteger (0x2d :: ds) true n

namespace IsInteger

variable {bytes rest : List UInt8} {n : Nat}

theorem not_nil {negative : Bool} : ¬ IsInteger [] negative n
  | .unsigned h => h.ne_nil rfl

/-- An integer begins with a digit or a sign. -/
theorem exists_head {negative : Bool} (h : IsInteger bytes negative n) :
    ∃ b, bytes.head? = some b ∧ (Digits.isDigit b = true ∨ b = 0x2b ∨ b = 0x2d) := by
  cases h with
  | unsigned h =>
    cases bytes with
    | nil => exact absurd rfl h.ne_nil
    | cons b rest => exact ⟨b, rfl, .inl (h.isDigit b List.mem_cons_self)⟩
  | plus h => exact ⟨_, rfl, .inr (.inl rfl)⟩
  | minus h => exact ⟨_, rfl, .inr (.inr rfl)⟩

theorem minus_iff : IsInteger bytes true n ↔ ∃ ds, bytes = 0x2d :: ds ∧ Digits.Make ds n := by
  constructor
  · intro h
    cases h with
    | minus h => exact ⟨_, rfl, h⟩
  · rintro ⟨ds, rfl, h⟩
    exact .minus h

theorem plus_iff : IsInteger (0x2b :: rest) false n ↔ Digits.Make rest n := by
  constructor
  · rintro (h | h)
    · exact absurd h (Digits.not_make_cons (by decide) rest n)
    · exact h
  · exact .plus

/-- Without a plus sign there are only digits. -/
theorem unsigned_iff (h : bytes.head? ≠ some 0x2b) :
    IsInteger bytes false n ↔ Digits.Make bytes n := by
  constructor
  · rintro (hmake | _)
    · exact hmake
    · exact absurd rfl h
  · exact .unsigned

/-- What has a minus sign is not read without one. -/
theorem not_minus (h : IsInteger bytes false n) (n' : Nat) : ¬ IsInteger bytes true n' := by
  intro hminus
  obtain ⟨ds, rfl, -⟩ := minus_iff.1 hminus
  rw [unsigned_iff (by simp)] at h
  exact Digits.not_make_cons (by decide) ds n h

end IsInteger

/-- A plus sign is taken off if there is anything behind it. -/
theorem natOfText?_cons (limit : Nat) (b : UInt8) (rest : List UInt8) :
    natOfText? limit (b :: rest) = Digits.within limit .tooLarge 0
      (if b = 0x2b ∧ rest ≠ [] then rest else b :: rest) := by
  cases rest with
  | nil => rw [if_neg (fun h => h.2 rfl), natOfText?]
  | cons c rest =>
    by_cases hb : b = 0x2b
    · rw [if_pos ⟨hb, List.cons_ne_nil c rest⟩, natOfText?, if_pos hb]
      exact List.cons_ne_nil c rest
    · rw [if_neg (fun h => hb h.1), natOfText?, if_neg hb]
      exact List.cons_ne_nil c rest

/-- A minus sign is taken off if there is anything behind it. Without one it is a natural number
that is read. -/
theorem intOfText?_cons (low high : Nat) (b : UInt8) (rest : List UInt8) :
    intOfText? low high (b :: rest) =
      if b = 0x2d ∧ rest ≠ [] then
        (Digits.within low .tooSmall 0 rest).map fun n : Nat => -(n : Int)
      else (natOfText? high (b :: rest)).map Int.ofNat := by
  cases rest with
  | nil => rw [if_neg (fun h => h.2 rfl), natOfText?, intOfText?]
  | cons c rest =>
    have hne := List.cons_ne_nil c rest
    rw [natOfText?_cons, intOfText?]
    · by_cases hplus : b = 0x2b
      · subst hplus
        rw [if_pos rfl, if_neg (fun h => absurd h.1 (by decide)), if_pos ⟨rfl, hne⟩]
      · rw [if_neg hplus]
        by_cases hminus : b = 0x2d
        · rw [if_pos hminus, if_pos ⟨hminus, hne⟩]
          cases Digits.within low .tooSmall 0 (c :: rest) <;> rfl
        · rw [if_neg hminus, if_neg (fun h => hminus h.1), if_neg (fun h => hplus h.1)]
    · exact hne

/-- A natural number is read exactly if it is one without a minus sign, and in range. -/
theorem natOfText?_eq_ok_iff {limit n : Nat} {bytes : List UInt8} :
    natOfText? limit bytes = .ok n ↔ IsInteger bytes false n ∧ n ≤ limit := by
  cases bytes with
  | nil =>
    simp only [natOfText?, reduceCtorEq, IsInteger.not_nil, false_and]
  | cons b rest =>
    rw [natOfText?_cons]
    by_cases hplus : b = 0x2b ∧ rest ≠ []
    · obtain ⟨rfl, hrest⟩ := hplus
      rw [if_pos ⟨rfl, hrest⟩, Digits.within_zero_eq_ok_iff hrest, IsInteger.plus_iff]
    · rw [if_neg hplus, Digits.within_zero_eq_ok_iff (List.cons_ne_nil b rest)]
      by_cases hb : b = 0x2b
      · -- The sign stands alone, and there are no digits either way.
        obtain rfl : rest = [] := Decidable.not_not.1 fun hrest => hplus ⟨hb, hrest⟩
        subst hb
        rw [IsInteger.plus_iff]
        exact and_congr_left' ⟨fun h => absurd h (Digits.not_make_cons (by decide) [] n),
          fun h => absurd rfl h.ne_nil⟩
      · rw [IsInteger.unsigned_iff (by simpa using hb)]

/-- An integer is read exactly if it is one, and in the range for its sign. -/
theorem intOfText?_eq_ok_iff {low high : Nat} {k : Int} {bytes : List UInt8} :
    intOfText? low high bytes = .ok k ↔
      (∃ n, (IsInteger bytes false n ∧ n ≤ high) ∧ (n : Int) = k) ∨
        ∃ n, (IsInteger bytes true n ∧ n ≤ low) ∧ -(n : Int) = k := by
  have hmap {read : Except IntegerFault Nat} {f : Nat → Int} :
      read.map f = .ok k ↔ ∃ n, read = .ok n ∧ f n = k := by
    cases read <;> simp [Except.map]
  cases bytes with
  | nil =>
    simp only [intOfText?, reduceCtorEq, false_iff, not_or, not_exists]
    exact ⟨fun n h => IsInteger.not_nil h.1.1, fun n h => IsInteger.not_nil h.1.1⟩
  | cons b rest =>
    rw [intOfText?_cons]
    by_cases hminus : b = 0x2d ∧ rest ≠ []
    · obtain ⟨rfl, hrest⟩ := hminus
      have hunsigned (n : Nat) : ¬ IsInteger (0x2d :: rest) false n := by
        rw [IsInteger.unsigned_iff (by simp)]
        exact Digits.not_make_cons (by decide) rest n
      rw [if_pos ⟨rfl, hrest⟩, hmap]
      simp only [Digits.within_zero_eq_ok_iff hrest, hunsigned, IsInteger.minus_iff, false_and,
        exists_false, false_or, List.cons.injEq, true_and, exists_eq_left']
    · have hsigned (n : Nat) : ¬ IsInteger (b :: rest) true n := by
        rw [IsInteger.minus_iff]
        rintro ⟨ds, hcons, hmake⟩
        obtain ⟨rfl, rfl⟩ := List.cons.inj hcons
        exact hminus ⟨rfl, hmake.ne_nil⟩
      simp only [if_neg hminus, hmap, natOfText?_eq_ok_iff, hsigned, false_and, exists_false,
        or_false, Int.ofNat_eq_natCast]

/-- The digits of a number in range are read as that number. -/
theorem natOfText?_toString {limit n : Nat} (h : n ≤ limit) :
    natOfText? limit (Utf8.encode (toString n)) = .ok n := by
  rw [Digits.encode_toString]
  exact natOfText?_eq_ok_iff.2 ⟨.unsigned (Digits.make_ofNat n), h⟩

end Vdc
