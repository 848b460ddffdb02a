import Mailroom.Bytes

/-!
# Text as bytes

A text travels as its UTF-8 bytes. Writing is total; reading answers with the one text whose bytes
these are, or with nothing.
-/

namespace Mailroom.Utf8

def encode (s : String) : Bytes := s.toByteArray.data.toList

/-- The text with these bytes, if there is one. -/
def decode? (s : Bytes) : Option String := String.fromUTF8? ⟨s.toArray⟩

/-- The bytes of one character, its code point given as a number. -/
def encodeCodePoint (n : Nat) : Bytes := String.utf8EncodeChar (Char.ofNat n)

@[simp]
theorem decode?_encode (s : String) : decode? (encode s) = some s := by
  have h : (⟨(encode s).toArray⟩ : ByteArray) = s.toByteArray := by simp [encode]
  rw [decode?, String.fromUTF8?, h, dif_pos s.isValidUTF8]
  rfl

theorem encode_of_decode? {b : Bytes} {s : String} (h : decode? b = some s) : encode s = b := by
  rw [decode?, String.fromUTF8?] at h
  split at h
  · cases h; simp [encode, String.fromUTF8]
  · cases h

theorem decode?_eq_some_iff {b : Bytes} {s : String} : decode? b = some s ↔ b = encode s :=
  ⟨fun h => (encode_of_decode? h).symm, fun h => h ▸ decode?_encode s⟩

end Mailroom.Utf8
