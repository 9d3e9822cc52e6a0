/-!
# Text as bytes

Everything a session exchanges is bytes, and every string in it is UTF-8. A string and its bytes
determine each other, so the two views may be changed freely: `decode?_encode` and
`encode_of_decode?` are the two directions.
-/

namespace Vdc.Utf8

/-- The UTF-8 form of a string. -/
def encode (s : String) : List UInt8 :=
  s.toUTF8.data.toList

/-- The string with this UTF-8 form, if the bytes are one. -/
def decode? (bytes : List UInt8) : Option String :=
  String.fromUTF8? ⟨bytes.toArray⟩

@[simp] theorem decode?_encode (s : String) : decode? (encode s) = some s := by
  have h : (⟨(encode s).toArray⟩ : ByteArray) = s.toUTF8 := by simp [encode]
  simp only [decode?, h, String.fromUTF8?]
  exact dif_pos s.isValidUTF8

theorem encode_of_decode? {bytes : List UInt8} {s : String} (h : decode? bytes = some s) :
    encode s = bytes := by
  unfold decode? String.fromUTF8? at h
  split at h
  · cases h; simp [encode, String.fromUTF8]
  · cases h

end Vdc.Utf8
