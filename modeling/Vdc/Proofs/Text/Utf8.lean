import Vdc.Text.Utf8

/-!
# The bytes of texts

A text is the bytes of its characters one after another, `encode_eq_flatMap`. The first byte of a
character tells whether it is the only one, `byte_or_high_of_cons`.

Texts are ordered by their characters, and their UTF-8 forms are in the same order byte by byte:
`encode_lt`. A character with a greater code has the greater bytes at the first place where the two
differ, whatever follows them.
-/

namespace Vdc.Utf8

theorem encode_eq_flatMap (s : String) : encode s = s.toList.flatMap String.utf8EncodeChar := by
  have h := @String.utf8Encode_toList s
  rw [List.utf8Encode] at h
  simp [encode, ← h]

/-- A character is one byte that is its code, or begins with a byte that has the high bit set. -/
theorem byte_or_high_of_cons {c : Char} {b : UInt8} {rest : List UInt8}
    (h : String.utf8EncodeChar c = b :: rest) :
    (rest = [] ∧ b.toNat < 128 ∧ Char.ofNat b.toNat = c) ∨ 128 ≤ b.toNat := by
  revert h
  fun_cases String.utf8EncodeChar c with
  | case1 code hsmall =>
    intro h
    obtain ⟨rfl, rfl⟩ := List.cons.inj h
    have hcode : (UInt8.ofNat code).toNat = code := by
      rw [UInt8.toNat_ofNat']
      omega
    rw [hcode]
    exact .inl ⟨rfl, by omega, Char.ofNat_toNat c⟩
  | case2 | case3 | case4 =>
    intro h
    obtain ⟨rfl, -⟩ := List.cons.inj h
    right
    rw [UInt8.toNat_ofNat']
    omega

/-- One list of bytes is before another if its first byte is, or is the same and the rest is. -/
theorem cons_lt_cons_iff_toNat {a b : UInt8} {s t : List UInt8} :
    a :: s < b :: t ↔ a.toNat < b.toNat ∨ a.toNat = b.toNat ∧ s < t := by
  rw [List.cons_lt_cons_iff, UInt8.lt_iff_toNat_lt, UInt8.toNat_inj]

theorem utf8EncodeChar_append_lt {c d : Char} (h : c < d) (s t : List UInt8) :
    String.utf8EncodeChar c ++ s < String.utf8EncodeChar d ++ t := by
  have hcodes : c.val.toNat < d.val.toNat := h
  have hbound : ∀ c : Char, c.val.toNat < 0x110000 := by
    intro c
    have hvalid := c.valid
    simp only [UInt32.isValidChar, Nat.isValidChar] at hvalid
    omega
  have hc := hbound c
  have hd := hbound d
  -- The bytes hold the digits of the code in base 64.
  have hdigits : ∀ n : Nat, n / 4096 = n / 64 / 64 ∧ n / 262144 = n / 64 / 64 / 64 := by
    intro n
    omega
  fun_cases String.utf8EncodeChar c <;> fun_cases String.utf8EncodeChar d <;>
    simp only [List.cons_append, List.nil_append, cons_lt_cons_iff_toNat, UInt8.toNat_ofNat',
      hdigits] <;>
    simp (disch := omega) only [Nat.mod_eq_of_lt]
  all_goals omega

/-- The bytes of texts are in the order of the texts. -/
theorem encode_lt {s t : String} (h : s < t) : encode s < encode t := by
  have hchars : ∀ {a b : List Char}, a < b →
      a.flatMap String.utf8EncodeChar < b.flatMap String.utf8EncodeChar := by
    intro a b hlt
    induction hlt with
    | @nil d b =>
      rw [List.flatMap_nil, List.flatMap_cons]
      cases hd : String.utf8EncodeChar d with
      | nil => exact absurd hd String.utf8EncodeChar_ne_nil
      | cons first rest => exact List.nil_lt_cons _ _
    | @rel c a d b hlt =>
      rw [List.flatMap_cons, List.flatMap_cons]
      exact utf8EncodeChar_append_lt hlt _ _
    | @cons c a b hlt ih =>
      rw [List.flatMap_cons, List.flatMap_cons]
      exact List.append_left_lt ih
  rw [encode_eq_flatMap, encode_eq_flatMap]
  exact hchars h

end Vdc.Utf8
