import Vdc.Number.Shortest

/-!
# What a decimal rounds to

`Double.ofDecimal` depends on the value of a decimal only: the ways around very large and very small
exponents lead where the exact quotient leads, `ofDecimal_eq_ofRatio`, so zeros may be moved between
the digits and the exponent, `ofDecimal_mul_pow`. The shortest decimal of a double rounds to that
double, `ofDecimal_shortest`: each candidate was tried, and the exact expansion that is left if none
is found stands for a number of steps that fits a mantissa.

An integer of 64 bits is far within the range of doubles, `isFinite_ofInt`.
-/

namespace Vdc.Double

/-! ## Quotients -/

/-- Rounding depends on the quotient only. -/
theorem divideToEven_mul (num den : Nat) {k : Nat} (hk : 0 < k) :
    divideToEven (num * k) (den * k) = divideToEven num den := by
  have hdiv : num * k / (den * k) = num / den := Nat.mul_div_mul_right num den hk
  have hmod : num * k % (den * k) = num % den * k := Nat.mul_mod_mul_right k num den
  have hlt : den * k < 2 * (num % den * k) ↔ den < 2 * (num % den) := by
    rw [← Nat.mul_assoc]
    exact Nat.mul_lt_mul_right hk
  have heq : 2 * (num % den * k) = den * k ↔ 2 * (num % den) = den := by
    rw [← Nat.mul_assoc]
    exact Nat.mul_left_inj (Nat.ne_of_gt hk)
  simp only [divideToEven, hdiv, hmod, hlt, heq]

theorem ofSteps_mul (negative : Bool) (num den : Nat) {k : Nat} (hk : 0 < k) :
    ofSteps negative (num * k) (den * k) = ofSteps negative num den := by
  have hdiv : num * k / (den * k) = num / den := Nat.mul_div_mul_right num den hk
  have hround : divideToEven (num * k) (den * k * 2 ^ scaleFor (num / den)) =
      divideToEven num (den * 2 ^ scaleFor (num / den)) := by
    rw [Nat.mul_right_comm, divideToEven_mul _ _ hk]
  simp only [ofSteps, hdiv, hround]

theorem ofRatio_mul (negative : Bool) (num den : Nat) {k : Nat} (hk : 0 < k) :
    ofRatio negative (num * k) (den * k) = ofRatio negative num den := by
  rw [ofRatio, Nat.mul_right_comm, ofSteps_mul negative _ _ hk, ofRatio]

/-- Equal quotients round alike. -/
theorem ofRatio_congr (negative : Bool) {num den num' den' : Nat} (hden : 0 < den)
    (hden' : 0 < den') (h : num * den' = num' * den) :
    ofRatio negative num den = ofRatio negative num' den' := by
  rw [← ofRatio_mul negative num den hden', h, Nat.mul_comm den den',
    ofRatio_mul negative num' den' hden]

/-! ## Out of range -/

theorem pack_of_scale_lt {negative : Bool} {mantissa scale : Nat} (h : 2045 < scale) :
    pack negative mantissa scale = .infinite negative := by
  rw [pack, dif_neg]
  omega

/-- A quotient that is too large becomes infinite. -/
theorem ofRatio_of_large {negative : Bool} {num e : Nat} (he : 1100 ≤ e) (h : 2 ^ e ≤ num) :
    ofRatio negative num 1 = .infinite negative := by
  have hsteps : 2 ^ (e + 1074) ≤ num * 2 ^ 1074 := by
    rw [Nat.pow_add]
    exact Nat.mul_le_mul_right _ h
  have hscale : 2045 < scaleFor (num * 2 ^ 1074 / 1) := by
    rw [Nat.div_one]
    generalize num * 2 ^ 1074 = steps at hsteps
    have hne : steps ≠ 0 := Nat.ne_of_gt (Nat.lt_of_lt_of_le (Nat.two_pow_pos _) hsteps)
    have hlog : e + 1074 ≤ steps.log2 := (Nat.le_log2 hne).2 hsteps
    have hlarge : ¬ steps < 2 ^ 53 := fun hlt => by
      have := (Nat.log2_lt hne).2 hlt
      omega
    rw [scaleFor, if_neg hlarge]
    omega
  simp only [ofRatio, ofSteps]
  split
  · exact pack_of_scale_lt (Nat.lt_succ_of_lt hscale)
  · exact pack_of_scale_lt hscale

/-- A quotient below half a step becomes zero. -/
theorem ofRatio_of_small {negative : Bool} {num den : Nat} (h : 2 * (num * 2 ^ 1074) < den) :
    ofRatio negative num den = zero negative := by
  rw [ofRatio]
  generalize num * 2 ^ 1074 = steps at h
  have hdiv : steps / den = 0 := Nat.div_eq_of_lt (by omega)
  have hmod : steps % den = steps := Nat.mod_eq_of_lt (by omega)
  have hround : divideToEven steps den = 0 := by
    rw [divideToEven, hdiv, hmod, if_neg (by omega)]
  simp only [ofSteps, hdiv, scaleFor]
  rw [if_pos (Nat.two_pow_pos 53), Nat.pow_zero, Nat.mul_one, hround]
  rfl

theorem ofRatio_zero (negative : Bool) {den : Nat} (h : 0 < den) :
    ofRatio negative 0 den = zero negative := by
  refine ofRatio_of_small ?_
  generalize 2 ^ 1074 = unit
  rw [Nat.zero_mul]
  exact h

/-! ## In range -/

/-- A number of steps in range is close to a finite double. -/
theorem isFinite_ofSteps {negative : Bool} {steps e : Nat} (he : e ≤ 2097) (h : steps < 2 ^ e) :
    (ofSteps negative steps 1).isFinite = true := by
  have hpack : ∀ {mantissa scale : Nat}, mantissa < 2 ^ 53 → scale ≤ 2045 →
      (scale = 0 ∨ 2 ^ 52 ≤ mantissa) → (pack negative mantissa scale).isFinite = true := by
    intro mantissa scale hlt hle hnormal
    rw [pack, dif_pos ⟨hlt, hle, hnormal⟩]
    rfl
  by_cases hsmall : steps < 2 ^ 53
  · have hround : divideToEven steps 1 = steps := by simp [divideToEven, Nat.mod_one]
    simp only [ofSteps, scaleFor, Nat.div_one, if_pos hsmall, Nat.pow_zero, Nat.mul_one, hround]
    rw [if_neg (Nat.ne_of_lt hsmall)]
    exact hpack hsmall (Nat.zero_le _) (.inl rfl)
  · have hne : steps ≠ 0 := by rintro rfl; exact hsmall (Nat.two_pow_pos 53)
    have hlow : 53 ≤ steps.log2 := (Nat.le_log2 hne).2 (Nat.le_of_not_lt hsmall)
    have hhigh : steps.log2 < e := (Nat.log2_lt hne).2 h
    obtain ⟨scale, hscale⟩ : ∃ scale, steps.log2 = 52 + scale := ⟨steps.log2 - 52, by omega⟩
    have hfloor : 2 ^ 52 ≤ steps / 2 ^ scale := by
      rw [Nat.le_div_iff_mul_le (Nat.two_pow_pos _), ← Nat.pow_add, ← hscale]
      exact Nat.log2_self_le hne
    have hceil : steps / 2 ^ scale < 2 ^ 53 := by
      rw [Nat.div_lt_iff_lt_mul (Nat.two_pow_pos _), ← Nat.pow_add,
        show 53 + scale = steps.log2 + 1 by omega]
      exact Nat.lt_log2_self
    have hround : divideToEven steps (2 ^ scale) = steps / 2 ^ scale ∨
        divideToEven steps (2 ^ scale) = steps / 2 ^ scale + 1 := by
      rw [divideToEven]
      split
      · exact .inr rfl
      · exact .inl rfl
    have hfor : scaleFor steps = scale := by rw [scaleFor, if_neg hsmall]; omega
    simp only [ofSteps, Nat.div_one, Nat.one_mul, hfor]
    split
    · exact hpack (by decide) (by omega) (.inr (Nat.le_refl _))
    · exact hpack (by omega) (by omega) (.inr (by omega))

/-! ## Decimals -/

/-- A power of ten is more than a power of eight. -/
theorem two_pow_le_ten_pow (e : Nat) : 2 ^ (3 * e) ≤ 10 ^ e := by
  rw [Nat.pow_mul]
  exact Nat.pow_le_pow_left (by decide) e

/-- A decimal rounds to what its exact quotient rounds to. -/
theorem ofDecimal_eq_ofRatio (negative : Bool) (digits : Nat) (exponent : Int) :
    ofDecimal negative digits exponent =
      ofRatio negative (digits * 10 ^ exponent.toNat) (10 ^ (-exponent).toNat) := by
  -- Besides zero, two more cases are decided without a quotient: a power of ten that is infinite
  -- with any digits, and one so small that not even the longest digits come up to half a step.
  by_cases hdigits : digits = 0
  · rw [hdigits, Nat.zero_mul]
    exact Eq.trans (if_pos rfl) (ofRatio_zero negative (Nat.pow_pos (by omega))).symm
  cases exponent with
  | ofNat e =>
    have hpos : (Int.ofNat e).toNat = e := rfl
    have hneg : (-Int.ofNat e).toNat = 0 := Int.toNat_neg_natCast e
    rw [hpos, hneg, Nat.pow_zero]
    simp only [ofDecimal, hdigits, if_false]
    split
    · next hlarge =>
      refine (ofRatio_of_large (e := 3 * e) (by omega) ?_).symm
      calc 2 ^ (3 * e) ≤ 10 ^ e := two_pow_le_ten_pow e
        _ ≤ digits * 10 ^ e := Nat.le_mul_of_pos_left _ (by omega)
    · rfl
  | negSucc e =>
    have hpos : (Int.negSucc e).toNat = 0 := rfl
    have hneg : (-Int.negSucc e).toNat = e + 1 := rfl
    rw [hpos, hneg, Nat.pow_zero, Nat.mul_one]
    simp only [ofDecimal, hdigits, if_false]
    split
    · next hsmall =>
      refine (ofRatio_of_small ?_).symm
      have hdigits : digits < 2 ^ (3 * (e - 400)) :=
        Nat.lt_of_lt_of_le Nat.lt_log2_self (Nat.pow_le_pow_right (by decide) hsmall)
      calc 2 * (digits * 2 ^ 1074) < 2 * (2 ^ (3 * (e - 400)) * 2 ^ 1074) :=
            Nat.mul_lt_mul_of_pos_left
              (Nat.mul_lt_mul_of_pos_right hdigits (Nat.two_pow_pos 1074)) (by decide)
        _ = 2 ^ (1 + (3 * (e - 400) + 1074)) := by rw [Nat.pow_add, Nat.pow_add, Nat.pow_one]
        _ ≤ 2 ^ (3 * (e + 1)) := Nat.pow_le_pow_right (by decide) (by omega)
        _ ≤ 10 ^ (e + 1) := two_pow_le_ten_pow (e + 1)
    · rfl

/-- Zeros may be moved between the digits and the exponent. -/
theorem ofDecimal_mul_pow (negative : Bool) (digits zeros : Nat) (exponent : Int) :
    ofDecimal negative (digits * 10 ^ zeros) exponent =
      ofDecimal negative digits (exponent + zeros) := by
  rw [ofDecimal_eq_ofRatio, ofDecimal_eq_ofRatio]
  refine ofRatio_congr negative (Nat.pow_pos (by omega)) (Nat.pow_pos (by omega)) ?_
  have hexponent : zeros + exponent.toNat + (-(exponent + zeros)).toNat =
      (exponent + zeros).toNat + (-exponent).toNat := by omega
  rw [Nat.mul_assoc, Nat.mul_assoc, Nat.mul_assoc, ← Nat.pow_add, ← Nat.pow_add, ← Nat.pow_add,
    ← hexponent, Nat.add_assoc]

/-- The integers that a text keeps apart from other numbers are close to finite doubles. -/
theorem isFinite_ofInt {n : Int} (hlow : -2 ^ 63 ≤ n) (hhigh : n < 2 ^ 64) :
    (ofInt n).isFinite = true := by
  have habs : n.natAbs < 2 ^ 64 := by omega
  rw [ofInt, ofDecimal_eq_ofRatio]
  change (ofSteps _ (n.natAbs * 10 ^ 0 * 2 ^ 1074) 1).isFinite = true
  have hsteps : ∀ k, n.natAbs * 10 ^ 0 * 2 ^ k < 2 ^ (64 + k) := by
    intro k
    rw [Nat.pow_zero, Nat.mul_one, Nat.pow_add]
    exact Nat.mul_lt_mul_of_pos_right habs (Nat.two_pow_pos k)
  exact isFinite_ofSteps (by omega) (hsteps 1074)

/-! ## The shortest decimal -/

/-- A number of steps that is a double rounds to it. -/
theorem ofSteps_magnitude (v : Finite) : ofSteps v.negative v.magnitude 1 = .finite v := by
  obtain ⟨negative, mantissa, scale, hlt, hle, hnormal⟩ := v
  have hscale : scaleFor (mantissa * 2 ^ scale) = scale := by
    rcases Nat.eq_zero_or_pos scale with rfl | hpos
    · rw [Nat.pow_zero, Nat.mul_one, scaleFor, if_pos hlt]
    · have hlow : 2 ^ 52 ≤ mantissa := hnormal.resolve_left (Nat.ne_of_gt hpos)
      have hsteps : 2 ^ (52 + scale) ≤ mantissa * 2 ^ scale := by
        rw [Nat.pow_add]
        exact Nat.mul_le_mul_right _ hlow
      have hne : mantissa * 2 ^ scale ≠ 0 :=
        Nat.ne_of_gt (Nat.lt_of_lt_of_le (Nat.two_pow_pos _) hsteps)
      have hlog : (mantissa * 2 ^ scale).log2 = 52 + scale := by
        refine (Nat.log2_eq_iff hne).2 ⟨hsteps, ?_⟩
        rw [Nat.add_right_comm, Nat.pow_add]
        exact Nat.mul_lt_mul_of_pos_right hlt (Nat.two_pow_pos _)
      have hlarge : ¬ mantissa * 2 ^ scale < 2 ^ 53 := by
        refine Nat.not_lt.2 (Nat.le_trans (Nat.pow_le_pow_right (by decide) ?_) hsteps)
        omega
      rw [scaleFor, if_neg hlarge, hlog]
      omega
  -- With the scale found again, the division comes out even.
  have hround : divideToEven (mantissa * 2 ^ scale) (1 * 2 ^ scale) = mantissa := by
    rw [divideToEven_mul _ _ (Nat.two_pow_pos scale)]
    simp [divideToEven, Nat.mod_one]
  simp only [Finite.magnitude, ofSteps, Nat.div_one, hscale, hround]
  rw [if_neg (Nat.ne_of_lt hlt), pack, dif_pos ⟨hlt, hle, hnormal⟩]

/-- The exact expansion of a double rounds to it. -/
theorem readsAs_exactDecimal (v : Finite) : readsAs v (exactDecimal v) = true := by
  have hten (k : Nat) : 5 ^ k * 2 ^ k = 10 ^ k := (Nat.mul_pow 5 2 k).symm
  have hpos (k : Nat) : 0 < 10 ^ k := Nat.pow_pos (by decide)
  have hratio (digits : Nat) : ofDecimal v.negative digits (-1074) =
      ofRatio v.negative digits (10 ^ 1074) := by
    rw [ofDecimal_eq_ofRatio]
    have hup : (-1074 : Int).toNat = 0 := rfl
    have hdown : (- -1074 : Int).toNat = 1074 := rfl
    rw [hup, hdown, Nat.pow_zero, Nat.mul_one]
  have hscaled {k : Nat} (hk : 0 < k) : ofSteps v.negative (v.magnitude * k) k = .finite v := by
    have hmul := ofSteps_mul v.negative v.magnitude 1 hk
    rw [Nat.one_mul] at hmul
    rw [hmul, ofSteps_magnitude]
  have hsteps : ofRatio v.negative (v.magnitude * 5 ^ 1074) (10 ^ 1074) = .finite v := by
    rw [ofRatio, Nat.mul_assoc, hten 1074]
    exact hscaled (hpos 1074)
  rw [readsAs, exactDecimal, hratio, hsteps]
  exact beq_self_eq_true _

/-- A neighbour on a decimal grid is taken only if it rounds to the double. -/
theorem readsAs_of_onGrid {v : Finite} {exponent : Int} {d : Decimal}
    (h : onGrid v exponent = some d) : readsAs v d = true := by
  simp only [onGrid] at h
  split at h
  · next hdown hup =>
    split at h
    · rw [← Option.some.inj h]
      exact hdown
    · rw [← Option.some.inj h]
      exact hup
  · next hdown _ =>
    rw [← Option.some.inj h]
    exact hdown
  · next _ hup =>
    rw [← Option.some.inj h]
    exact hup
  · cases h

/-- The shortest decimal of a double rounds to it. -/
theorem ofDecimal_shortest (v : Finite) :
    ofDecimal v.negative (shortest v).digits (shortest v).exponent = .finite v := by
  rw [shortest]
  split
  · next hzero =>
    obtain ⟨negative, mantissa, scale, hlt, hle, hnormal⟩ := v
    dsimp only at hzero
    subst hzero
    obtain rfl : scale = 0 := hnormal.resolve_right (by decide)
    rfl
  · have hreads : readsAs v (((List.range 17).findSome? fun (n : Nat) =>
        onGrid v (leadingExponent v.magnitude - (n : Int))).getD (exactDecimal v)) = true := by
      cases hfound : (List.range 17).findSome? fun (n : Nat) =>
          onGrid v (leadingExponent v.magnitude - (n : Int)) with
      | none => exact readsAs_exactDecimal v
      | some d =>
        obtain ⟨n, -, hgrid⟩ := List.exists_of_findSome?_eq_some hfound
        exact readsAs_of_onGrid hgrid
    exact eq_of_beq hreads

end Vdc.Double
