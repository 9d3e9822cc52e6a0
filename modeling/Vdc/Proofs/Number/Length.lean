import Vdc.Proofs.Number.Digits
import Vdc.Proofs.Number.Rounding

/-!
# How long the text of a number is

A number below `10 ^ k` is written with `k` digits at most. The text of a finite double has a bound
as well, `Double.Finite.length_toText_le`. It is far from sharp, since nothing is used of the
digits but that the decimals among which the shortest one is sought are not too large; what counts
is that no double makes a text grow without limit.
-/

namespace Vdc

namespace Digits

theorem length_ofNat_le {n k : Nat} (hk : 0 < k) (hn : n < 10 ^ k) : (ofNat n).length ≤ k := by
  induction k generalizing n with
  | zero => omega
  | succ k ih =>
    rcases Nat.lt_or_ge n 10 with hsmall | hlarge
    · rw [ofNat_of_lt hsmall, List.length_singleton]
      omega
    · have hk : 0 < k := by
        rcases Nat.eq_zero_or_pos k with rfl | hpos
        · simp at hn
          omega
        · exact hpos
      have hfront : n / 10 < 10 ^ k := by
        rw [Nat.pow_succ] at hn
        omega
      rw [ofNat_of_le hlarge, List.length_append, List.length_singleton]
      exact Nat.succ_le_succ (ih hk hfront)

theorem length_trim (ds : List UInt8) : (trim ds).1 + (trim ds).2.length = ds.length := by
  have hsplit := congrArg List.length (append_trim ds)
  rw [List.length_append, List.length_replicate] at hsplit
  omega

end Digits

namespace Decimal

/-- Plain notation, in the range in which it is used, is not much longer than the digits. -/
theorem length_plain_le (ds : List UInt8) {power : Int} (hlow : -5 ≤ power + ds.length - 1)
    (hhigh : power + ds.length - 1 < 16) : (plain ds power).length ≤ ds.length + 18 := by
  cases power with
  | ofNat zeros =>
    simp only [plain, List.length_append, List.length_replicate, List.length_cons, List.length_nil]
    rw [Int.ofNat_eq_natCast] at hhigh
    omega
  | negSucc n =>
    rw [Int.negSucc_eq] at hlow
    simp only [plain]
    by_cases hplaces : n + 1 < ds.length
    · rw [if_pos hplaces, List.length_append, List.length_cons, List.length_take, List.length_drop]
      omega
    · rw [if_neg hplaces]
      simp only [List.length_cons, List.length_append, List.length_replicate]
      omega

theorem length_scientific_le (ds : List UInt8) {lead : Int} (hlead : lead.natAbs < 10 ^ 5) :
    (scientific ds lead).length ≤ ds.length + 8 := by
  have hexponent := Digits.length_ofNat_le (k := 5) (by decide) hlead
  unfold scientific
  split
  all_goals
    simp only [List.length_append, List.length_cons, List.length_nil]
    omega

/-- The text of a decimal is not much longer than its digits, unless its exponent is very large. -/
theorem length_toText_le {d : Decimal} {k : Nat} (hk : 0 < k) (hdigits : d.digits < 10 ^ k)
    (hexponent : d.exponent.natAbs + k < 10 ^ 5) : d.toText.length ≤ k + 18 := by
  have hlength := Digits.length_ofNat_le hk hdigits
  have htrim := Digits.length_trim (Digits.ofNat d.digits)
  unfold toText
  split
  · simp only [List.length_cons, List.length_nil]
    omega
  · generalize Digits.trim (Digits.ofNat d.digits) = trimmed at htrim
    obtain ⟨zeros, ds⟩ := trimmed
    dsimp only at htrim ⊢
    split
    · next hrange =>
      have hplain := length_plain_le ds hrange.1 hrange.2
      omega
    · have hlead : (d.exponent + zeros + ds.length - 1).natAbs < 10 ^ 5 := by omega
      have hscientific := length_scientific_le ds hlead
      omega

end Decimal

namespace Double

/-! ## The decimals of a double -/

theorem Finite.magnitude_lt (v : Finite) : v.magnitude < 2 ^ (53 + v.scale) := by
  rw [magnitude, Nat.pow_add]
  exact Nat.mul_lt_mul_of_pos_right v.mantissa_lt (Nat.two_pow_pos v.scale)

theorem Finite.magnitude_mul_lt (v : Finite) (k : Nat) : v.magnitude * 10 ^ k < 10 ^ (700 + k) := by
  have hscaled : ∀ j, 53 + v.scale ≤ 3 * j → v.magnitude * 10 ^ k < 10 ^ (j + k) := by
    intro j hj
    have hbound : v.magnitude < 10 ^ j := Nat.lt_of_lt_of_le v.magnitude_lt
      (Nat.le_trans (Nat.pow_le_pow_right (by decide) hj) (two_pow_le_ten_pow j))
    rw [Nat.pow_add]
    exact Nat.mul_lt_mul_of_pos_right hbound (Nat.pow_pos (by decide))
  -- There are 53 bits and a scale of 2045 at most, and three bits are less than a digit.
  have hscale := v.scale_le
  exact hscaled 700 (by omega)

/-- The digits of a neighbour on a grid have a bound, if the grid is not too fine. -/
theorem digits_lt_of_onGrid {v : Finite} {exponent : Int} {d : Decimal} {k : Nat}
    (h : onGrid v exponent = some d) (hexponent : -k ≤ exponent) :
    d.digits < 10 ^ (701 + k) ∧ d.exponent = exponent := by
  have hquotient : (overPowerOfTen v.magnitude exponent).1 /
      (overPowerOfTen v.magnitude exponent).2 < 10 ^ (700 + k) := by
    refine Nat.lt_of_le_of_lt (Nat.div_le_self _ _) ?_
    cases exponent with
    | ofNat e =>
      have hle : v.magnitude ≤ v.magnitude * 10 ^ k :=
        Nat.le_mul_of_pos_right _ (Nat.pow_pos (by decide))
      exact Nat.lt_of_le_of_lt hle (v.magnitude_mul_lt k)
    | negSucc e =>
      have hle : e + 1 ≤ k := by
        rw [Int.negSucc_eq] at hexponent
        omega
      refine Nat.lt_of_le_of_lt ?_ (v.magnitude_mul_lt k)
      exact Nat.mul_le_mul_left _ (Nat.pow_le_pow_right (by decide) hle)
  have hnext : (overPowerOfTen v.magnitude exponent).1 /
      (overPowerOfTen v.magnitude exponent).2 + 1 < 10 ^ (701 + k) := by
    have hten : 10 ^ (701 + k) = 10 ^ (700 + k) * 10 := by
      rw [Nat.add_right_comm 700 1 k, Nat.pow_succ]
    have hpos : 0 < 10 ^ (700 + k) := Nat.pow_pos (by decide)
    rw [hten]
    omega
  have hlower := Nat.lt_of_succ_lt hnext
  simp only [onGrid] at h
  split at h
  · split at h
    · obtain rfl := Option.some.inj h
      exact ⟨hlower, rfl⟩
    · obtain rfl := Option.some.inj h
      exact ⟨hnext, rfl⟩
  · obtain rfl := Option.some.inj h
    exact ⟨hlower, rfl⟩
  · obtain rfl := Option.some.inj h
    exact ⟨hnext, rfl⟩
  · cases h

/-- The leading digit of a double is not far from the point. -/
theorem leadingExponent_range (v : Finite) (hpos : 0 < v.magnitude) :
    -324 ≤ leadingExponent v.magnitude ∧ leadingExponent v.magnitude ≤ 309 := by
  have hlog : v.magnitude.log2 < 53 + v.scale :=
    (Nat.log2_lt (Nat.ne_of_gt hpos)).2 v.magnitude_lt
  have hscale := v.scale_le
  simp only [leadingExponent]
  generalize v.magnitude.log2 = log at hlog
  split <;> omega

theorem digits_lt_of_shortest (v : Finite) {k : Nat} (hk : 700 + 1074 ≤ k) :
    (shortest v).digits < 10 ^ k ∧ (shortest v).exponent.natAbs ≤ 1074 := by
  have hfewer : ∀ {n j : Nat}, n < 10 ^ j → j ≤ k → n < 10 ^ k := fun hn hj =>
    Nat.lt_of_lt_of_le hn (Nat.pow_le_pow_right (by decide) hj)
  have hfive : ∀ j, v.magnitude * 5 ^ j < 10 ^ (700 + j) := fun j =>
    Nat.lt_of_le_of_lt (Nat.mul_le_mul_left _ (Nat.pow_le_pow_left (by decide) j))
      (v.magnitude_mul_lt j)
  rw [shortest]
  split
  · exact ⟨Nat.pow_pos (by decide), by decide⟩
  · next hmantissa =>
    have hpos : 0 < v.magnitude :=
      Nat.mul_pos (Nat.pos_of_ne_zero hmantissa) (Nat.two_pow_pos v.scale)
    obtain ⟨hlow, hhigh⟩ := leadingExponent_range v hpos
    dsimp only
    cases hfound : (List.range 17).findSome? fun (n : Nat) =>
        onGrid v (leadingExponent v.magnitude - (n : Int)) with
    -- If no grid serves, it is the exact decimal of the double, with 1074 places.
    | none => exact ⟨hfewer (hfive 1074) hk, Nat.le_refl 1074⟩
    | some d =>
      obtain ⟨n, hn, hgrid⟩ := List.exists_of_findSome?_eq_some hfound
      rw [List.mem_range] at hn
      obtain ⟨hdigits, hexponent⟩ := digits_lt_of_onGrid (k := 340) hgrid (by omega)
      refine ⟨hfewer hdigits (by omega), ?_⟩
      rw [Option.getD_some, hexponent]
      clear hdigits hfewer hfive
      omega

/-- The text of a double has a bound. -/
theorem Finite.length_toText_le (v : Finite) : v.toText.length ≤ 1793 := by
  have hlength : ∀ k, 700 + 1074 ≤ k → k < 10 ^ 4 → (shortest v).toText.length ≤ k + 18 := by
    intro k hk hlt
    obtain ⟨hdigits, hexponent⟩ := digits_lt_of_shortest v hk
    exact Decimal.length_toText_le (by omega) hdigits (by clear hdigits; omega)
  have htext := hlength 1774 (by decide) (by decide)
  rw [toText]
  split
  · exact Nat.succ_le_succ htext
  · exact Nat.le_succ_of_le htext

end Double

end Vdc
