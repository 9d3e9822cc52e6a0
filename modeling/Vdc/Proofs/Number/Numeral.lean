import Vdc.Proofs.Number.Digits
import Vdc.Proofs.Number.Rounding

/-!
# Numerals read back

`Numeral.scan` takes a text apart and `Numeral.spell` puts the parts together again, with either
letter before the exponent: `Numeral.scan_spell` and `Numeral.exists_spell_of_scan`. Doubles and
integers are written as numerals of the strict grammar, `Double.Finite.exists_numeral` and
`Digits.exists_numeral_ofInt`; that of a double always has a point or an exponent, and rounds to the
double.
-/

namespace Vdc

namespace Numeral

/-! ## Putting numerals together -/

/-- A fraction with its point. -/
def fractionBytes : Option (List UInt8) → List UInt8
  | none => []
  | some ds => 0x2e :: ds

/-- An exponent with its letter. -/
def exponentBytes : Option (Option UInt8 × List UInt8) → List UInt8
  | none => []
  | some (sign, ds) => 0x65 :: (sign.toList ++ ds)

/-- An exponent with its letter, which may be a capital one. -/
def exponentText (letter : UInt8) (exponent : Option (Option UInt8 × List UInt8)) : List UInt8 :=
  exponent.elim [] fun e => letter :: (e.1.toList ++ e.2)

/-- The text of a numeral with this letter before its exponent. -/
def spell (letter : UInt8) (n : Numeral) : List UInt8 :=
  n.sign.toList ++ (n.whole ++ (fractionBytes n.fraction ++ exponentText letter n.exponent))

/-- The text of a numeral. -/
def toBytes (n : Numeral) : List UInt8 :=
  n.sign.toList ++ (n.whole ++ (fractionBytes n.fraction ++ exponentBytes n.exponent))

/-- A sign is a plus or a minus. -/
def IsSign (sign : Option UInt8) : Prop :=
  ∀ b ∈ sign, b = 0x2b ∨ b = 0x2d

/-- The parts of a numeral are made of what they are scanned for. -/
structure WellFormed (n : Numeral) : Prop where
  sign : IsSign n.sign
  whole : ∀ b ∈ n.whole, Digits.isDigit b = true
  fraction : ∀ ds ∈ n.fraction, ∀ b ∈ ds, Digits.isDigit b = true
  exponent : ∀ e ∈ n.exponent, IsSign e.1 ∧ ∀ b ∈ e.2, Digits.isDigit b = true

/-- Nothing with a property stands at the front. -/
def Lacks (p : UInt8 → Prop) (bytes : List UInt8) : Prop :=
  ∀ b ∈ bytes.head?, ¬ p b

theorem lacks_nil (p : UInt8 → Prop) : Lacks p [] := by
  simp [Lacks]

theorem scanSign_append {sign : Option UInt8} {rest : List UInt8} (hsign : IsSign sign)
    (hrest : Lacks (fun b => b = 0x2b ∨ b = 0x2d) rest) :
    scanSign (sign.toList ++ rest) = (sign, rest) := by
  cases sign with
  | some b => simp [scanSign, hsign b rfl]
  | none =>
    cases rest with
    | nil => rfl
    | cons b rest => simp [scanSign, hrest b rfl]

theorem scanDigits_append {ds rest : List UInt8} (hds : ∀ b ∈ ds, Digits.isDigit b = true)
    (hrest : Lacks (Digits.isDigit · = true) rest) : scanDigits (ds ++ rest) = (ds, rest) := by
  have htake : rest.takeWhile Digits.isDigit = [] ∧ rest.dropWhile Digits.isDigit = rest := by
    cases rest with
    | nil => exact ⟨rfl, rfl⟩
    | cons b rest => simp [hrest b rfl]
  rw [scanDigits, List.takeWhile_append_of_pos hds, List.dropWhile_append_of_pos hds, htake.1,
    htake.2, List.append_nil]

theorem toBytes_eq_spell (n : Numeral) : n.toBytes = n.spell 0x65 := by
  obtain ⟨sign, whole, fraction, exponent⟩ := n
  cases exponent <;> rfl

/-- The letters that may stand before an exponent. -/
def IsLetter (letter : UInt8) : Prop := letter = 0x65 ∨ letter = 0x45

section

variable {letter : UInt8}

theorem lacks_exponentText (p : UInt8 → Prop) (h : ¬ p letter)
    (exponent : Option (Option UInt8 × List UInt8)) : Lacks p (exponentText letter exponent) := by
  cases exponent with
  | none => simp [Lacks, exponentText]
  | some e => simpa [Lacks, exponentText] using h

theorem lacks_fractionBytes (p : UInt8 → Prop) (hpoint : ¬ p 0x2e) (hletter : ¬ p letter)
    (fraction : Option (List UInt8)) (exponent : Option (Option UInt8 × List UInt8)) :
    Lacks p (fractionBytes fraction ++ exponentText letter exponent) := by
  cases fraction with
  | none => exact lacks_exponentText p hletter exponent
  | some ds => simpa [Lacks, fractionBytes] using hpoint

end

/-- Digits are no signs. -/
theorem lacks_sign_of_digits {ds rest : List UInt8} (hds : ∀ b ∈ ds, Digits.isDigit b = true)
    (hrest : Lacks (fun b => b = 0x2b ∨ b = 0x2d) rest) :
    Lacks (fun b => b = 0x2b ∨ b = 0x2d) (ds ++ rest) := by
  cases ds with
  | nil => exact hrest
  | cons d ds =>
    intro b hb
    obtain rfl : d = b := by simpa using hb
    rintro (rfl | rfl) <;> exact absurd (hds _ List.mem_cons_self) (by decide)

/-- The text of a numeral is taken apart into its parts. -/
theorem scan_spell {n : Numeral} {letter : UInt8} (hletter : IsLetter letter)
    (h : n.WellFormed) : scan (n.spell letter) = some n := by
  obtain ⟨sign, whole, fraction, exponent⟩ := n
  obtain ⟨hsign, hwhole, hfraction, hexponent⟩ := h
  have hpoint : letter ≠ 0x2e := by rcases hletter with rfl | rfl <;> decide
  have hdigit : ¬ Digits.isDigit letter = true := by rcases hletter with rfl | rfl <;> decide
  have hplus : ¬ (letter = 0x2b ∨ letter = 0x2d) := by rcases hletter with rfl | rfl <;> decide
  have hscanFraction : scanFraction (fractionBytes fraction ++ exponentText letter exponent) =
      (fraction, exponentText letter exponent) := by
    cases fraction with
    | none =>
      cases exponent with
      | none => rfl
      | some e => exact if_neg hpoint
    | some ds =>
      have hds := scanDigits_append (hfraction ds rfl) (lacks_exponentText _ hdigit exponent)
      simp [fractionBytes, scanFraction, hds]
  have hscanExponent : scanExponent (exponentText letter exponent) = (exponent, []) := by
    cases exponent with
    | none => rfl
    | some e =>
      obtain ⟨sign, ds⟩ := e
      obtain ⟨hsign, hds⟩ := hexponent (sign, ds) rfl
      have hlacks := lacks_sign_of_digits hds (lacks_nil _)
      have hdigits := scanDigits_append hds (lacks_nil _)
      have hmark : letter = 0x65 ∨ letter = 0x45 := hletter
      rw [List.append_nil] at hlacks hdigits
      simp [exponentText, scanExponent, hmark, scanSign_append hsign hlacks, hdigits]
  have hlacks := lacks_sign_of_digits hwhole
    (lacks_fractionBytes _ (by decide) hplus fraction exponent)
  have hdigits := scanDigits_append hwhole
    (lacks_fractionBytes (Digits.isDigit · = true) (by decide) hdigit fraction exponent)
  simp only [spell, scan, scanSign_append hsign hlacks, hdigits, hscanFraction, hscanExponent]
  rfl

/-! ## Taking numerals apart -/

theorem scanSign_spec (bytes : List UInt8) : IsSign (scanSign bytes).1 ∧
    (scanSign bytes).1.toList ++ (scanSign bytes).2 = bytes := by
  cases bytes with
  | nil => exact ⟨nofun, rfl⟩
  | cons b rest =>
    by_cases hb : b = 0x2b ∨ b = 0x2d
    · simp [scanSign, hb, IsSign]
    · simp [scanSign, hb, IsSign]

theorem scanDigits_spec (bytes : List UInt8) :
    (∀ b ∈ (scanDigits bytes).1, Digits.isDigit b = true) ∧
      (scanDigits bytes).1 ++ (scanDigits bytes).2 = bytes :=
  ⟨List.all_eq_true.1 List.all_takeWhile, List.takeWhile_append_dropWhile⟩

theorem scanFraction_spec (bytes : List UInt8) :
    (∀ ds ∈ (scanFraction bytes).1, ∀ b ∈ ds, Digits.isDigit b = true) ∧
      fractionBytes (scanFraction bytes).1 ++ (scanFraction bytes).2 = bytes := by
  cases bytes with
  | nil => exact ⟨nofun, rfl⟩
  | cons b rest =>
    obtain ⟨hdigits, hrest⟩ := scanDigits_spec rest
    by_cases hb : b = 0x2e
    · simpa [scanFraction, hb, fractionBytes, hrest] using hdigits
    · simp [scanFraction, hb, fractionBytes]

theorem scanExponent_spec (bytes : List UInt8) :
    (∀ e ∈ (scanExponent bytes).1, IsSign e.1 ∧ ∀ b ∈ e.2, Digits.isDigit b = true) ∧
      ∃ letter, IsLetter letter ∧
        exponentText letter (scanExponent bytes).1 ++ (scanExponent bytes).2 = bytes := by
  cases bytes with
  | nil => exact ⟨nofun, 0x65, .inl rfl, rfl⟩
  | cons b rest =>
    obtain ⟨hsign, hrest⟩ := scanSign_spec rest
    obtain ⟨hdigits, hrest'⟩ := scanDigits_spec (scanSign rest).2
    by_cases hb : b = 0x65 ∨ b = 0x45
    · refine ⟨?_, b, hb, ?_⟩
      · simpa [scanExponent, hb, hsign] using hdigits
      · simp [scanExponent, hb, exponentText, hrest, hrest']
    · exact ⟨by simp [scanExponent, hb], 0x65, .inl rfl, by simp [scanExponent, hb, exponentText]⟩

/-- What is scanned is the text of the numeral. -/
theorem exists_spell_of_scan {bytes : List UInt8} {n : Numeral} (h : scan bytes = some n) :
    n.WellFormed ∧ ∃ letter, IsLetter letter ∧ bytes = n.spell letter := by
  obtain ⟨hsign, hrest⟩ := scanSign_spec bytes
  obtain ⟨hwhole, hrest'⟩ := scanDigits_spec (scanSign bytes).2
  simp only [scan] at h
  generalize (scanDigits (scanSign bytes).2).2 = later at h hrest'
  obtain ⟨hfraction, hlater⟩ := scanFraction_spec later
  generalize (scanFraction later).2 = last at h hlater
  obtain ⟨hexponent, letter, hletter, hlast⟩ := scanExponent_spec last
  split at h
  · next hempty =>
    obtain rfl := Option.some.inj h
    rw [List.isEmpty_iff.1 hempty, List.append_nil] at hlast
    refine ⟨⟨hsign, hwhole, hfraction, hexponent⟩, letter, hletter, ?_⟩
    rw [spell, hlast, hlater, hrest', hrest]
  · cases h

/-- A numeral of the strict grammar begins with a digit or a minus. -/
theorem exists_head {n : Numeral} (h : n.WellFormed) (hstrict : n.isStrict = true)
    (letter : UInt8) :
    ∃ b rest, n.spell letter = b :: rest ∧ (Digits.isDigit b || b == 0x2d) = true := by
  obtain ⟨sign, whole, fraction, exponent⟩ := n
  obtain ⟨hsign, hwhole, -, -⟩ := h
  simp only [isStrict, Bool.and_eq_true] at hstrict
  obtain ⟨⟨⟨⟨hplus, hne⟩, -⟩, -⟩, -⟩ := hstrict
  cases sign with
  | some b =>
    refine ⟨b, _, rfl, ?_⟩
    rcases hsign b rfl with rfl | rfl
    · cases hplus
    · rfl
  | none =>
    cases whole with
    | nil => cases hne
    | cons d ds => exact ⟨d, _, rfl, by simp [hwhole d List.mem_cons_self]⟩

end Numeral

/-! ## Doubles -/

/-- Some bytes are a strict numeral without a sign that is no integer and rounds to what
`digits * 10 ^ exponent` rounds to. -/
structure Numeral.Spells (n : Numeral) (bytes : List UInt8) (digits : Nat) (exponent : Int) : Prop
    where
  toBytes_eq : n.toBytes = bytes
  sign_eq : n.sign = none
  wellFormed : n.WellFormed
  isStrict : n.isStrict = true
  isInteger_eq : n.isInteger = false
  ofDecimal_eq : ∀ negative, Double.ofDecimal negative (Digits.value n.digits) n.power =
    Double.ofDecimal negative digits exponent

namespace Decimal

theorem wellFormed_of_unsigned {whole : List UInt8} {fraction : Option (List UInt8)}
    {exponent : Option (Option UInt8 × List UInt8)} (hwhole : ∀ b ∈ whole, Digits.isDigit b = true)
    (hfraction : ∀ ds ∈ fraction, ∀ b ∈ ds, Digits.isDigit b = true)
    (hexponent : ∀ e ∈ exponent, Numeral.IsSign e.1 ∧ ∀ b ∈ e.2, Digits.isDigit b = true) :
    Numeral.WellFormed ⟨none, whole, fraction, exponent⟩ :=
  ⟨by simp [Numeral.IsSign], hwhole, hfraction, hexponent⟩

theorem isStrict_of_unsigned {whole : List UInt8} {fraction : Option (List UInt8)}
    {exponent : Option (Option UInt8 × List UInt8)} (hne : whole ≠ [])
    (hhead : whole.length = 1 ∨ whole.head? ≠ some 0x30) (hfraction : ∀ ds ∈ fraction, ds ≠ [])
    (hexponent : ∀ e ∈ exponent, e.2 ≠ []) :
    Numeral.isStrict ⟨none, whole, fraction, exponent⟩ = true := by
  cases fraction <;> cases exponent <;> simp_all [Numeral.isStrict]

theorem isDigit_of_mem_replicate {count : Nat} :
    ∀ b ∈ List.replicate count (0x30 : UInt8), Digits.isDigit b = true := by
  intro b hb
  rw [List.eq_of_mem_replicate hb]
  rfl

/-- A single zero, before the point or behind it. -/
theorem isDigit_of_mem_zero : ∀ ds ∈ some [(0x30 : UInt8)], ∀ b ∈ ds, Digits.isDigit b = true := by
  rintro _ ⟨⟩
  exact @isDigit_of_mem_replicate 1

/-- The exponent that scientific notation ends with. -/
def exponentPart (lead : Int) : Option UInt8 × List UInt8 :=
  (some (if lead < 0 then 0x2d else 0x2b), Digits.ofNat lead.natAbs)

theorem wellFormed_exponentPart (lead : Int) : ∀ e ∈ some (exponentPart lead),
    Numeral.IsSign e.1 ∧ ∀ b ∈ e.2, Digits.isDigit b = true := by
  rintro _ ⟨⟩
  refine ⟨?_, Digits.isDigit_of_mem_ofNat _⟩
  rintro _ ⟨⟩
  by_cases h : lead < 0
  · exact .inr (if_pos h)
  · exact .inl (if_neg h)

theorem exponentPart_ne_nil (lead : Int) : ∀ e ∈ some (exponentPart lead), e.2 ≠ [] := by
  rintro _ ⟨⟩
  exact Digits.ofNat_ne_nil _

/-- The written exponent is read with its sign. -/
theorem power_of_exponentPart (sign : Option UInt8) (whole : List UInt8)
    (fraction : Option (List UInt8)) (lead : Int) :
    Numeral.power ⟨sign, whole, fraction, some (exponentPart lead)⟩ =
      lead - (fraction.getD []).length := by
  simp only [Numeral.power, exponentPart, Digits.value_ofNat]
  by_cases h : lead < 0
  · rw [if_pos h, if_pos (by rfl)]
    omega
  · rw [if_neg h, if_neg (by decide)]
    omega

section

variable {ds : List UInt8} (hds : ∀ b ∈ ds, Digits.isDigit b = true) (hne : ds ≠ [])

include hds hne

/-- Digits and zeros before the point. -/
theorem exists_spells_plain_ofNat (hhead : ds.head? ≠ some 0x30) (zeros : Nat) :
    ∃ n : Numeral, n.Spells (plain ds zeros) (Digits.value ds) zeros := by
  refine ⟨⟨none, ds ++ List.replicate zeros 0x30, some [0x30], none⟩, ?_, rfl, ?_, ?_, rfl, ?_⟩
  · simp [Numeral.toBytes, Numeral.fractionBytes, Numeral.exponentBytes, plain]
  · refine wellFormed_of_unsigned (fun b hb => ?_) isDigit_of_mem_zero (by simp)
    exact (List.mem_append.1 hb).elim (hds b) (isDigit_of_mem_replicate b)
  · refine isStrict_of_unsigned (by simp [hne]) (.inr ?_) (by simp) (by simp)
    cases ds with
    | nil => exact absurd rfl hne
    | cons d ds => exact hhead
  · intro negative
    have hvalue : Digits.value (ds ++ List.replicate zeros 0x30 ++ [0x30]) =
        Digits.value ds * 10 ^ (zeros + 1) := by
      have hzeros : List.replicate zeros (0x30 : UInt8) ++ [0x30] =
          List.replicate (zeros + 1) 0x30 := List.replicate_succ'.symm
      rw [List.append_assoc, hzeros, Digits.value_append, Digits.value_replicate_zero,
        List.length_replicate, Nat.add_zero]
    have hpower : (0 : Int) - ([0x30] : List UInt8).length + (zeros + 1 : Nat) = zeros := by
      simp only [List.length_singleton]
      omega
    simp only [Numeral.digits, Numeral.power, Option.getD_some]
    rw [hvalue, Double.ofDecimal_mul_pow, hpower]

/-- Digits on both sides of the point. -/
theorem exists_spells_plain_of_lt (hhead : ds.head? ≠ some 0x30) {n : Nat}
    (hplaces : n + 1 < ds.length) :
    ∃ numeral : Numeral, numeral.Spells (plain ds (Int.negSucc n)) (Digits.value ds)
      (Int.negSucc n) := by
  have hwhole : ds.take (ds.length - (n + 1)) ≠ [] := by
    rw [ne_eq, List.take_eq_nil_iff]
    rintro (h | rfl)
    · omega
    · exact hne rfl
  have hfraction : ds.drop (ds.length - (n + 1)) ≠ [] := by
    rw [ne_eq, List.drop_eq_nil_iff]
    omega
  refine ⟨⟨none, ds.take (ds.length - (n + 1)), some (ds.drop (ds.length - (n + 1))), none⟩,
    ?_, rfl, ?_, ?_, rfl, ?_⟩
  · simp [Numeral.toBytes, Numeral.fractionBytes, Numeral.exponentBytes, plain, hplaces]
  · refine wellFormed_of_unsigned (fun b hb => hds b (List.mem_of_mem_take hb)) ?_ (by simp)
    rintro _ ⟨⟩ b hb
    exact hds b (List.mem_of_mem_drop hb)
  · refine isStrict_of_unsigned hwhole (.inr ?_) (by simpa using hfraction) (by simp)
    rwa [List.head?_take, if_neg (by omega)]
  · intro negative
    have hpower : (0 : Int) - (ds.drop (ds.length - (n + 1))).length = Int.negSucc n := by
      rw [List.length_drop]
      omega
    simp only [Numeral.digits, Numeral.power, Option.getD_some, List.take_append_drop, hpower]

/-- Zeros and all digits behind the point. -/
theorem exists_spells_plain_of_le {n : Nat} (hplaces : ds.length ≤ n + 1) :
    ∃ numeral : Numeral, numeral.Spells (plain ds (Int.negSucc n)) (Digits.value ds)
      (Int.negSucc n) := by
  have hshort : ¬ n + 1 < ds.length := Nat.not_lt.2 hplaces
  refine ⟨⟨none, [0x30], some (List.replicate (n + 1 - ds.length) 0x30 ++ ds), none⟩,
    ?_, rfl, ?_, ?_, rfl, ?_⟩
  · simp [Numeral.toBytes, Numeral.fractionBytes, Numeral.exponentBytes, plain, hshort]
  · refine wellFormed_of_unsigned (isDigit_of_mem_zero _ rfl) ?_ (by simp)
    rintro _ ⟨⟩ b hb
    exact (List.mem_append.1 hb).elim (isDigit_of_mem_replicate b) (hds b)
  · exact isStrict_of_unsigned (by simp) (.inl rfl) (by simp [hne]) (by simp)
  · intro negative
    have hvalue : Digits.value ([0x30] ++ (List.replicate (n + 1 - ds.length) 0x30 ++ ds)) =
        Digits.value ds := by
      have hzeros : [0x30] ++ List.replicate (n + 1 - ds.length) (0x30 : UInt8) =
          List.replicate (n + 1 - ds.length + 1) 0x30 := rfl
      rw [← List.append_assoc, hzeros, Digits.value_append, Digits.value_replicate_zero,
        Nat.zero_mul, Nat.zero_add]
    have hpower : (0 : Int) - (List.replicate (n + 1 - ds.length) (0x30 : UInt8) ++ ds).length =
        Int.negSucc n := by
      rw [List.length_append, List.length_replicate]
      omega
    simp only [Numeral.digits, Numeral.power, Option.getD_some, hvalue, hpower]

/-- One digit before the point and an exponent. -/
theorem exists_spells_scientific (power : Int) :
    ∃ n : Numeral, n.Spells (scientific ds (power + ds.length - 1)) (Digits.value ds) power := by
  obtain ⟨d, tail, rfl⟩ := List.exists_cons_of_ne_nil hne
  cases tail with
  | nil =>
    refine ⟨⟨none, [d], none, some (exponentPart (power + 1 - 1))⟩, ?_, rfl, ?_, ?_, rfl, ?_⟩
    · simp [Numeral.toBytes, Numeral.fractionBytes, Numeral.exponentBytes, scientific, exponentPart]
    · exact wellFormed_of_unsigned hds (by simp) (wellFormed_exponentPart _)
    · exact isStrict_of_unsigned (by simp) (.inl rfl) (by simp) (exponentPart_ne_nil _)
    · intro negative
      have hpower := power_of_exponentPart none [d] none (power + 1 - 1)
      simp only [Numeral.digits, Option.getD_none, List.length_nil, List.append_nil] at hpower ⊢
      rw [hpower]
      simp
  | cons d' rest =>
    -- All digits but the first stand behind the point, and the exponent makes up for them.
    have hlead : power + (d :: d' :: rest).length - 1 - ((d' :: rest).length : Int) = power := by
      simp only [List.length_cons]
      omega
    generalize power + (d :: d' :: rest).length - 1 = lead at hlead ⊢
    refine ⟨⟨none, [d], some (d' :: rest), some (exponentPart lead)⟩, ?_, rfl, ?_, ?_, rfl, ?_⟩
    · simp [Numeral.toBytes, Numeral.fractionBytes, Numeral.exponentBytes, scientific, exponentPart]
    · refine wellFormed_of_unsigned (fun b hb => ?_) ?_ (wellFormed_exponentPart lead)
      · exact hds b (List.mem_cons.2 (.inl (List.mem_singleton.1 hb)))
      · rintro _ ⟨⟩ b hb
        exact hds b (List.mem_cons_of_mem d hb)
    · exact isStrict_of_unsigned (by simp) (.inl rfl) (by simp) (exponentPart_ne_nil lead)
    · intro negative
      have hpower := power_of_exponentPart none [d] (some (d' :: rest)) lead
      simp only [Numeral.digits, Option.getD_some, List.singleton_append] at hpower ⊢
      rw [hpower, hlead]

/-- Digits are written as a numeral whatever their power of ten, plain or scientific. -/
theorem exists_spells_of_digits (hhead : ds.head? ≠ some 0x30) (power : Int) :
    ∃ n : Numeral, n.Spells
      (if -5 ≤ power + ds.length - 1 ∧ power + ds.length - 1 < 16 then plain ds power
        else scientific ds (power + ds.length - 1)) (Digits.value ds) power := by
  split
  · cases power with
    | ofNat zeros => exact exists_spells_plain_ofNat hds hne hhead zeros
    | negSucc n =>
      rcases Nat.lt_or_ge (n + 1) ds.length with hplaces | hplaces
      · exact exists_spells_plain_of_lt hds hne hhead hplaces
      · exact exists_spells_plain_of_le hds hne hplaces
  · exact exists_spells_scientific hds hne power

end

theorem exists_spells_zero (exponent : Int) :
    ∃ n : Numeral, n.Spells [0x30, 0x2e, 0x30] 0 exponent := by
  refine ⟨⟨none, [0x30], some [0x30], none⟩, rfl, rfl, ?_, rfl, rfl, fun negative => ?_⟩
  · exact wellFormed_of_unsigned (isDigit_of_mem_zero _ rfl) isDigit_of_mem_zero (by simp)
  · have hvalue : Digits.value [0x30, 0x30] = 0 := Digits.value_replicate_zero 2
    have hdigits : Double.ofDecimal negative (Digits.value [0x30, 0x30]) (-1) =
        Double.zero negative := by
      rw [hvalue]
      exact if_pos rfl
    exact hdigits.trans (if_pos rfl).symm

/-- Every decimal is written as a numeral that has its value. -/
theorem exists_spells (d : Decimal) : ∃ n : Numeral, n.Spells d.toText d.digits d.exponent := by
  rw [toText]
  by_cases hzero : d.digits = 0
  · rw [if_pos hzero, hzero]
    exact exists_spells_zero d.exponent
  rw [if_neg hzero]
  have hpos : 0 < d.digits := Nat.pos_of_ne_zero hzero
  have hsplit := Digits.append_trim (Digits.ofNat d.digits)
  have hne := Digits.trim_ofNat_ne_nil hpos
  generalize Digits.trim (Digits.ofNat d.digits) = trimmed at hsplit hne ⊢
  obtain ⟨zeros, ds⟩ := trimmed
  dsimp only at hsplit hne ⊢
  have hds : ∀ b ∈ ds, Digits.isDigit b = true := fun b hb =>
    Digits.isDigit_of_mem_ofNat d.digits b (hsplit ▸ List.mem_append_left _ hb)
  have hhead : ds.head? ≠ some 0x30 := by
    have hfirst := Digits.head?_ofNat hpos
    rw [← hsplit] at hfirst
    cases ds with
    | nil => exact absurd rfl hne
    | cons b rest => exact hfirst
  have hvalue : Digits.value ds * 10 ^ zeros = d.digits := by
    have hwhole := congrArg Digits.value hsplit
    rwa [Digits.value_append, Digits.value_replicate_zero, List.length_replicate, Nat.add_zero,
      Digits.value_ofNat] at hwhole
  -- The zeros that were trimmed are in the exponent now, which rounds to the same.
  obtain ⟨n, hn⟩ := exists_spells_of_digits hds hne hhead (d.exponent + zeros)
  refine ⟨n, { hn with ofDecimal_eq := fun negative => ?_ }⟩
  rw [hn.ofDecimal_eq, ← Double.ofDecimal_mul_pow, hvalue]

end Decimal

/-- A finite double is written as a numeral of the strict grammar that is no integer and rounds to
the double. -/
theorem Double.Finite.exists_numeral (v : Double.Finite) :
    ∃ n : Numeral, n.toBytes = v.toText ∧ n.WellFormed ∧ n.isStrict = true ∧ n.isInteger = false ∧
      n.toDouble = .finite v := by
  obtain ⟨n, hn⟩ := Decimal.exists_spells (Double.shortest v)
  obtain ⟨sign, whole, fraction, exponent⟩ := n
  obtain rfl : sign = none := hn.sign_eq
  have hround := (hn.ofDecimal_eq v.negative).trans (Double.ofDecimal_shortest v)
  have hbytes : whole ++ (Numeral.fractionBytes fraction ++ Numeral.exponentBytes exponent) =
      (Double.shortest v).toText := hn.toBytes_eq
  have hwellFormed := hn.wellFormed
  have hstrict := hn.isStrict
  cases hnegative : v.negative with
  | false =>
    rw [hnegative] at hround
    refine ⟨⟨none, whole, fraction, exponent⟩, ?_, hwellFormed, hstrict, hn.isInteger_eq, hround⟩
    simpa [Double.Finite.toText, hnegative, Numeral.toBytes] using hbytes
  | true =>
    rw [hnegative] at hround
    refine ⟨⟨some 0x2d, whole, fraction, exponent⟩, ?_, ?_, hstrict, hn.isInteger_eq, hround⟩
    · simpa [Double.Finite.toText, hnegative, Numeral.toBytes] using hbytes
    · exact { hwellFormed with sign := by simp [Numeral.IsSign] }

/-! ## Integers -/

/-- An integer is written as a numeral of the strict grammar that stands for it. -/
theorem Digits.exists_numeral_ofInt (k : Int) :
    ∃ n : Numeral, n.toBytes = Digits.ofInt k ∧ n.WellFormed ∧ n.isStrict = true ∧
      n.isInteger = true ∧ n.toInt = k ∧ (n.negative = true → k ≠ 0) := by
  have hdigits := Digits.isDigit_of_mem_ofNat k.natAbs
  have hstrict :
      (Digits.ofNat k.natAbs).length = 1 ∨ (Digits.ofNat k.natAbs).head? ≠ some 0x30 := by
    rcases Nat.eq_zero_or_pos k.natAbs with h | h
    · exact .inl (by rw [h, Digits.ofNat_of_lt (by decide), List.length_singleton])
    · exact .inr (Digits.head?_ofNat h)
  have hunsigned : Numeral.isStrict ⟨none, Digits.ofNat k.natAbs, none, none⟩ = true :=
    Decimal.isStrict_of_unsigned (Digits.ofNat_ne_nil k.natAbs) hstrict (by simp) (by simp)
  by_cases hk : k < 0
  · refine ⟨⟨some 0x2d, Digits.ofNat k.natAbs, none, none⟩, ?_, ?_, hunsigned, rfl, ?_, ?_⟩
    · simp [Numeral.toBytes, Numeral.fractionBytes, Numeral.exponentBytes, Digits.ofInt, hk]
    · exact ⟨by simp [Numeral.IsSign], hdigits, by simp, by simp⟩
    · simp only [Numeral.toInt, Numeral.negative, Digits.value_ofNat, beq_self_eq_true, if_true]
      omega
    · omega
  · refine ⟨⟨none, Digits.ofNat k.natAbs, none, none⟩, ?_, ?_, hunsigned, rfl, ?_, ?_⟩
    · simp [Numeral.toBytes, Numeral.fractionBytes, Numeral.exponentBytes, Digits.ofInt, hk]
    · exact Decimal.wellFormed_of_unsigned hdigits (by simp) (by simp)
    · have hsign : (none == some (0x2d : UInt8)) = false := rfl
      simp only [Numeral.toInt, Numeral.negative, Digits.value_ofNat, hsign, Bool.false_eq_true,
        if_false]
      omega
    · intro h
      cases h

end Vdc
