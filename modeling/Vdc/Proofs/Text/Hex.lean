import Vdc.Proofs.Text.Utf8
import Vdc.Text.Hex

/-!
# What hex digits spell

Some characters spell some bytes if they are hex digits of either case, two for every byte, the high
half first. Reading finds exactly what is spelled (`decode?_eq_some_iff`), and writing in upper case
is the spelling with every letter in upper case (`toList_text_upper`).
-/

namespace Vdc.Hex

/-- A character is the digit for a number, in either case. -/
def IsDigitOf (c : Char) (n : Nat) : Prop :=
  "0123456789ABCDEF".toList[n]? = some c ∨ "0123456789abcdef".toList[n]? = some c

instance (c : Char) (n : Nat) : Decidable (IsDigitOf c n) :=
  inferInstanceAs (Decidable (_ ∨ _))

/-- The hex digits of both cases. -/
def digits : List Char := "0123456789ABCDEFabcdef".toList

/-- Some characters spell some bytes, two digits each. -/
inductive Spells : List Char → List UInt8 → Prop
  | nil : Spells [] []
  | cons {high low : Char} {byte : UInt8} {text : List Char} {bytes : List UInt8}
      (hhigh : IsDigitOf high (byte.toNat / 16)) (hlow : IsDigitOf low (byte.toNat % 16))
      (h : Spells text bytes) : Spells (high :: low :: text) (byte :: bytes)

/-! ## Single digits -/

theorem IsDigitOf.lt {c : Char} {n : Nat} (h : IsDigitOf c n) : n < 16 := by
  rcases h with h | h
  · exact (List.getElem?_eq_some_iff.1 h).1
  · exact (List.getElem?_eq_some_iff.1 h).1

/-- What holds of the sixteen digits of both cases holds of every digit. -/
theorem IsDigitOf.elim {P : Char → Nat → Prop} {c : Char} {n : Nat} (h : IsDigitOf c n)
    (hupper : ∀ p ∈ "0123456789ABCDEF".toList.zipIdx, P p.1 p.2)
    (hlower : ∀ p ∈ "0123456789abcdef".toList.zipIdx, P p.1 p.2) : P c n := by
  rcases h with h | h
  · exact hupper (c, n) (List.mk_mem_zipIdx_iff_getElem?.2 h)
  · exact hlower (c, n) (List.mk_mem_zipIdx_iff_getElem?.2 h)

theorem IsDigitOf.mem_digits {c : Char} {n : Nat} (h : IsDigitOf c n) : c ∈ digits :=
  h.elim (P := fun c _ => c ∈ digits) (by decide) (by decide)

theorem exists_isDigitOf {c : Char} (h : c ∈ digits) : ∃ n, IsDigitOf c n := by
  have hall : digits.all fun c => decide (∃ n ∈ List.range 16, IsDigitOf c n) := by decide
  obtain ⟨n, -, hn⟩ := of_decide_eq_true (List.all_eq_true.1 hall c h)
  exact ⟨n, hn⟩

/-- A digit is one byte, which is read as its number. -/
theorem IsDigitOf.map_value? {c : Char} {n : Nat} (h : IsDigitOf c n) :
    (String.utf8EncodeChar c).map value? = [some n] :=
  h.elim (P := fun c n => (String.utf8EncodeChar c).map value? = [some n]) (by decide) (by decide)

theorem lt_of_value? {b : UInt8} {n : Nat} (h : value? b = some n) : b.toNat < 128 := by
  have hhigh : ∀ k < 128, value? (UInt8.ofNat (k + 128)) = none := by decide
  have hbyte := b.toNat_lt
  refine Nat.lt_of_not_le fun hlarge => ?_
  have hnone := hhigh (b.toNat - 128) (by omega)
  rw [Nat.sub_add_cancel hlarge, UInt8.ofNat_toNat, h] at hnone
  cases hnone

/-- Only digits are read as numbers; every other character begins with a byte that is none. -/
theorem isDigitOf_of_value? {c : Char} {b : UInt8} {rest : List UInt8} {n : Nat}
    (hc : String.utf8EncodeChar c = b :: rest) (hb : value? b = some n) :
    rest = [] ∧ IsDigitOf c n := by
  have hascii : ∀ k < 128, ∀ n ∈ value? (UInt8.ofNat k), IsDigitOf (Char.ofNat k) n := by decide
  have hlow := lt_of_value? hb
  rcases Utf8.byte_or_high_of_cons hc with ⟨hrest, -, rfl⟩ | hhigh
  · exact ⟨hrest, hascii b.toNat hlow n (by rwa [UInt8.ofNat_toNat])⟩
  · exact absurd hhigh (Nat.not_le_of_lt hlow)

/-! ## Reading -/

/-- A text that begins with a byte that is a digit begins with the character that is the digit. -/
theorem exists_cons_of_value? {text : List Char} {b : UInt8} {rest : List UInt8} {n : Nat}
    (htext : text.flatMap String.utf8EncodeChar = b :: rest) (hb : value? b = some n) :
    ∃ c later, text = c :: later ∧ IsDigitOf c n ∧
      later.flatMap String.utf8EncodeChar = rest := by
  cases text with
  | nil => cases htext
  | cons c later =>
    rw [List.flatMap_cons] at htext
    cases hc : String.utf8EncodeChar c with
    | nil => exact absurd hc String.utf8EncodeChar_ne_nil
    | cons first more =>
      rw [hc, List.cons_append] at htext
      obtain ⟨rfl, hrest⟩ := List.cons.inj htext
      obtain ⟨rfl, hdigit⟩ := isDigitOf_of_value? hc hb
      exact ⟨c, later, rfl, hdigit, hrest⟩

theorem eq_nil_of_decode? {text : List UInt8} (h : decode? text = some []) : text = [] := by
  match text with
  | [] => rfl
  | [_] => cases h
  | a :: b :: rest =>
    simp only [decode?, Option.bind_eq_bind, Option.bind_eq_some_iff, Option.pure_def] at h
    obtain ⟨_, _, _, _, _, _, hcons⟩ := h
    cases hcons

/-- A byte is read from two digits. -/
theorem exists_cons_cons_of_decode? {text : List UInt8} {byte : UInt8} {bytes : List UInt8}
    (h : decode? text = some (byte :: bytes)) : ∃ a b rest high low, text = a :: b :: rest ∧
      value? a = some high ∧ value? b = some low ∧ byte = UInt8.ofNat (high * 16 + low) ∧
      decode? rest = some bytes := by
  match text with
  | [] => cases h
  | [_] => cases h
  | a :: b :: rest =>
    simp only [decode?, Option.bind_eq_bind, Option.bind_eq_some_iff, Option.pure_def,
      Option.some.injEq] at h
    obtain ⟨high, hhigh, low, hlow, bytes', hrest, hcons⟩ := h
    obtain ⟨rfl, rfl⟩ := List.cons.inj hcons
    exact ⟨a, b, rest, high, low, rfl, hhigh, hlow, rfl, hrest⟩

/-- Two digits are halves of the byte that is read from them. -/
theorem halves {high low : Nat} (hhigh : high < 16) (hlow : low < 16) :
    (UInt8.ofNat (high * 16 + low)).toNat / 16 = high ∧
      (UInt8.ofNat (high * 16 + low)).toNat % 16 = low := by
  rw [UInt8.toNat_ofNat']
  omega

theorem spells_of_decode? {text : List Char} {bytes : List UInt8}
    (h : decode? (text.flatMap String.utf8EncodeChar) = some bytes) : Spells text bytes := by
  induction bytes generalizing text with
  | nil =>
    have hnil := eq_nil_of_decode? h
    cases text with
    | nil => exact .nil
    | cons c rest =>
      rw [List.flatMap_cons, List.append_eq_nil_iff] at hnil
      exact absurd hnil.1 String.utf8EncodeChar_ne_nil
  | cons byte bytes ih =>
    obtain ⟨a, b, rest, high, low, htext, ha, hb, rfl, hrest⟩ := exists_cons_cons_of_decode? h
    obtain ⟨c, later, rfl, hc, hlater⟩ := exists_cons_of_value? htext ha
    obtain ⟨d, last, rfl, hd, hlast⟩ := exists_cons_of_value? hlater hb
    obtain ⟨hhigh, hlow⟩ := halves hc.lt hd.lt
    exact .cons (hhigh.symm ▸ hc) (hlow.symm ▸ hd) (ih (hlast.symm ▸ hrest))

/-- A text is read as the bytes that it spells, and as nothing else. -/
theorem decode?_eq_some_iff {text : String} {bytes : List UInt8} :
    decode? (Utf8.encode text) = some bytes ↔ Spells text.toList bytes := by
  rw [Utf8.encode_eq_flatMap]
  refine ⟨spells_of_decode?, fun h => ?_⟩
  generalize text.toList = chars at h
  induction h with
  | nil => rfl
  | @cons high low byte text bytes hhigh hlow h ih =>
    obtain ⟨a, ha, hvalue⟩ := List.map_eq_singleton_iff.1 hhigh.map_value?
    obtain ⟨b, hb, hvalue'⟩ := List.map_eq_singleton_iff.1 hlow.map_value?
    have hbyte : byte.toNat / 16 * 16 + byte.toNat % 16 = byte.toNat := by omega
    rw [List.flatMap_cons, List.flatMap_cons, ha, hb, List.singleton_append,
      List.singleton_append, decode?, hvalue, hvalue', ih]
    change some (UInt8.ofNat (byte.toNat / 16 * 16 + byte.toNat % 16) :: bytes) = _
    rw [hbyte, UInt8.ofNat_toNat]

namespace Spells

variable {text : List Char} {bytes bytes' : List UInt8}

/-- The same characters do not spell different bytes. -/
theorem unique (h : Spells text bytes) (h' : Spells text bytes') : bytes = bytes' := by
  rw [← String.toList_ofList (l := text)] at h h'
  exact Option.some.inj ((decode?_eq_some_iff.2 h).symm.trans (decode?_eq_some_iff.2 h'))

theorem length_eq (h : Spells text bytes) : text.length = 2 * bytes.length := by
  induction h with
  | nil => rfl
  | cons _ _ _ ih =>
    simp only [List.length_cons]
    omega

theorem mem_digits (h : Spells text bytes) : ∀ c ∈ text, c ∈ digits := by
  induction h with
  | nil => exact List.forall_mem_nil _
  | cons hhigh hlow _ ih =>
    exact List.forall_mem_cons.2
      ⟨hhigh.mem_digits, List.forall_mem_cons.2 ⟨hlow.mem_digits, ih⟩⟩

end Spells

/-- Bytes are spelled by an even number of digits, whichever they are. -/
theorem exists_spells_iff {text : List Char} {size : Nat} :
    (∃ bytes, bytes.length = size ∧ Spells text bytes) ↔
      text.length = 2 * size ∧ ∀ c ∈ text, c ∈ digits := by
  constructor
  · rintro ⟨bytes, rfl, h⟩
    exact ⟨h.length_eq, h.mem_digits⟩
  · rintro ⟨hlength, hdigits⟩
    induction size generalizing text with
    | zero =>
      obtain rfl := List.eq_nil_of_length_eq_zero hlength
      exact ⟨[], rfl, .nil⟩
    | succ size ih =>
      match text with
      | [] => cases hlength
      | [c] =>
        rw [List.length_singleton] at hlength
        omega
      | c :: d :: rest =>
        obtain ⟨hc, hrest⟩ := List.forall_mem_cons.1 hdigits
        obtain ⟨hd, hrest⟩ := List.forall_mem_cons.1 hrest
        obtain ⟨high, hhigh⟩ := exists_isDigitOf hc
        obtain ⟨low, hlow⟩ := exists_isDigitOf hd
        have hlater : rest.length = 2 * size := by
          simp only [List.length_cons] at hlength
          omega
        obtain ⟨bytes, rfl, hspells⟩ := ih hlater hrest
        obtain ⟨hhigh', hlow'⟩ := halves hhigh.lt hlow.lt
        exact ⟨UInt8.ofNat (high * 16 + low) :: bytes, rfl,
          .cons (hhigh'.symm ▸ hhigh) (hlow'.symm ▸ hlow) hspells⟩

/-! ## Writing -/

theorem toList_text_upper_cons (byte : UInt8) (bytes : List UInt8) :
    (text (upper (byte :: bytes))).toList =
      Char.ofNat (digit 0x41 (byte.toNat / 16)).toNat ::
        Char.ofNat (digit 0x41 (byte.toNat % 16)).toNat :: (text (upper bytes)).toList := by
  simp only [text, upper, encode, String.toList_ofList, List.flatMap_cons, List.map_cons,
    List.cons_append, List.nil_append]

/-- The bytes of what is written are its digits. -/
theorem encode_text_upper (bytes : List UInt8) :
    Utf8.encode (text (upper bytes)) = upper bytes := by
  have hdigit : ∀ n < 16, String.utf8EncodeChar (Char.ofNat (digit 0x41 n).toNat) =
      [digit 0x41 n] := by decide
  rw [Utf8.encode_eq_flatMap]
  induction bytes with
  | nil => rfl
  | cons byte bytes ih =>
    have hbyte := byte.toNat_lt
    have hupper : upper (byte :: bytes) =
        digit 0x41 (byte.toNat / 16) :: digit 0x41 (byte.toNat % 16) :: upper bytes := rfl
    rw [toList_text_upper_cons, List.flatMap_cons, List.flatMap_cons, ih, hdigit _ (by omega),
      hdigit _ (by omega), hupper]
    rfl

/-- What is written for some bytes spells them. -/
theorem spells_text_upper (bytes : List UInt8) : Spells (text (upper bytes)).toList bytes := by
  have hdigit : ∀ n < 16, IsDigitOf (Char.ofNat (digit 0x41 n).toNat) n := by decide
  induction bytes with
  | nil => exact .nil
  | cons byte bytes ih =>
    have hbyte := byte.toNat_lt
    rw [toList_text_upper_cons]
    exact .cons (hdigit _ (by omega)) (hdigit _ (by omega)) ih

/-- What is written for some bytes is whatever spells them, in upper case. -/
theorem toList_text_upper {chars : List Char} {bytes : List UInt8} (h : Spells chars bytes) :
    (text (upper bytes)).toList = chars.map Char.toUpper := by
  have hdigit {c : Char} {n : Nat} (h : IsDigitOf c n) :
      Char.ofNat (digit 0x41 n).toNat = c.toUpper :=
    h.elim (P := fun c n => Char.ofNat (digit 0x41 n).toNat = c.toUpper) (by decide) (by decide)
  induction h with
  | nil => rfl
  | cons hhigh hlow _ ih =>
    rw [toList_text_upper_cons, hdigit hhigh, hdigit hlow, ih, List.map_cons, List.map_cons]

end Vdc.Hex
