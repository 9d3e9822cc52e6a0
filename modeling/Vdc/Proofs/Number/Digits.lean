import Vdc.Number.Numeral

/-!
# Decimal digits

`Digits.ofNat` writes a number without leading zeros and `Digits.value` reads it back. Zeros that
are trimmed from the end are a power of ten.
-/

namespace Vdc.Digits

theorem isDigit_add {n : Nat} (h : n < 10) : isDigit (0x30 + n.toUInt8) = true := by
  have hall : ∀ n < 10, isDigit (0x30 + Nat.toUInt8 n) = true := by decide
  exact hall n h

theorem toNat_add {n : Nat} (h : n < 10) : (0x30 + n.toUInt8).toNat - 0x30 = n := by
  have hall : ∀ n < 10, (0x30 + Nat.toUInt8 n).toNat - 0x30 = n := by decide
  exact hall n h

theorem ofNat_of_lt {n : Nat} (h : n < 10) : ofNat n = [0x30 + n.toUInt8] := by
  rw [ofNat, if_pos h]

theorem ofNat_of_le {n : Nat} (h : 10 ≤ n) :
    ofNat n = ofNat (n / 10) ++ [0x30 + (n % 10).toUInt8] := by
  rw [ofNat, if_neg (by omega)]

theorem ofNat_ne_nil (n : Nat) : ofNat n ≠ [] := by
  rw [ofNat]
  split <;> simp

theorem isDigit_of_mem_ofNat (n : Nat) : ∀ b ∈ ofNat n, isDigit b = true := by
  induction n using Nat.strongRecOn with
  | ind n ih =>
    intro b hb
    rcases Nat.lt_or_ge n 10 with h | h
    · rw [ofNat_of_lt h, List.mem_singleton] at hb
      rw [hb]
      exact isDigit_add h
    · rw [ofNat_of_le h, List.mem_append, List.mem_singleton] at hb
      rcases hb with hb | rfl
      · exact ih (n / 10) (by omega) b hb
      · exact isDigit_add (by omega)

/-- A number is written without zeros in front. -/
theorem head?_ofNat {n : Nat} (h : 0 < n) : (ofNat n).head? ≠ some 0x30 := by
  induction n using Nat.strongRecOn with
  | ind n ih =>
    rcases Nat.lt_or_ge n 10 with hn | hn
    · have hall : ∀ n < 10, 0 < n → (0x30 + Nat.toUInt8 n) ≠ 0x30 := by decide
      rw [ofNat_of_lt hn, List.head?_cons, ne_eq, Option.some.injEq]
      exact hall n hn h
    · have hhead := ih (n / 10) (by omega) (by omega)
      rw [ofNat_of_le hn]
      cases hfront : ofNat (n / 10) with
      | nil => exact absurd hfront (ofNat_ne_nil _)
      | cons b rest => rwa [hfront] at hhead

/-! ## Values -/

theorem value_nil : value [] = 0 := value_eq []

theorem value_append (a b : List UInt8) : value (a ++ b) = value a * 10 ^ b.length + value b := by
  rw [value_eq, value_eq, value_eq, ← append_eq, append, append, append, List.foldl_append]

theorem value_singleton (b : UInt8) : value [b] = b.toNat - 0x30 := by
  rw [value_eq]
  simp [append]

theorem value_replicate_zero (count : Nat) : value (List.replicate count 0x30) = 0 := by
  induction count with
  | zero => exact value_nil
  | succ count ih =>
    rw [List.replicate_succ, ← List.singleton_append, value_append, ih, value_singleton]
    simp

/-- What is written for a number reads as it. -/
theorem value_ofNat (n : Nat) : value (ofNat n) = n := by
  induction n using Nat.strongRecOn with
  | ind n ih =>
    rcases Nat.lt_or_ge n 10 with h | h
    · rw [ofNat_of_lt h, value_singleton, toNat_add h]
    · rw [ofNat_of_le h, value_append, ih (n / 10) (by omega), value_singleton,
        toNat_add (by omega), List.length_singleton]
      omega

/-! ## Trimmed zeros -/

/-- What is trimmed from some digits are zeros. -/
theorem append_trim (ds : List UInt8) :
    (trim ds).2 ++ List.replicate (trim ds).1 0x30 = ds := by
  have hzeros : ds.reverse.takeWhile (· == 0x30) =
      List.replicate (ds.reverse.takeWhile (· == 0x30)).length 0x30 := by
    refine List.eq_replicate_of_mem fun b hb => ?_
    simpa using List.all_eq_true.1 List.all_takeWhile b hb
  have hsplit : (ds.reverse.dropWhile (· == 0x30)).reverse ++
      (ds.reverse.takeWhile (· == 0x30)).reverse = ds := by
    rw [← List.reverse_append, List.takeWhile_append_dropWhile, List.reverse_reverse]
  have htake : ∀ front back, front ++ back = ds → ds.take (ds.length - back.length) = front := by
    rintro front back rfl
    simp
  have hfront := htake _ _ hsplit
  rw [List.length_reverse] at hfront
  rw [trim]
  dsimp only
  rw [hfront, ← List.reverse_replicate, ← hzeros]
  exact hsplit

/-- Not all digits of a positive number are trimmed. -/
theorem trim_ofNat_ne_nil {n : Nat} (h : 0 < n) : (trim (ofNat n)).2 ≠ [] := by
  intro hnil
  have hsplit := append_trim (ofNat n)
  rw [hnil, List.nil_append] at hsplit
  have hvalue := value_ofNat n
  rw [← hsplit, value_replicate_zero] at hvalue
  omega

end Vdc.Digits
