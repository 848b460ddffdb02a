import Mailroom.Transfer

/-!
# Base64 read back

Encoding gives ASCII bytes in groups of four, and decoding them gives the encoded bytes again. The
data of a chunk is such a text.
-/

namespace Mailroom

namespace Utf8

theorem encodeCodePoint_of_ascii {n : Nat} (small : n < 128) :
    encodeCodePoint n = [UInt8.ofNat n] := by
  have all : ∀ n, n < 128 → encodeCodePoint n = [UInt8.ofNat n] := by decide +kernel
  exact all n small

/-- Bytes below 128 are the text that has them as its characters. -/
theorem encode_ofList_of_ascii {s : Bytes} (ascii : ∀ b ∈ s, b < 128) :
    encode (String.ofList (s.map fun b => Char.ofNat b.toNat)) = s := by
  have bytes : (s.map fun b => Char.ofNat b.toNat).flatMap String.utf8EncodeChar = s := by
    induction s with
    | nil => rfl
    | cons b s ih =>
      have small : b < 128 := ascii b List.mem_cons_self
      have first : String.utf8EncodeChar (Char.ofNat b.toNat) = [UInt8.ofNat b.toNat] :=
        encodeCodePoint_of_ascii small
      have others := ih fun b later => ascii b (List.mem_cons_of_mem _ later)
      rw [List.map_cons, List.flatMap_cons, first, others, UInt8.ofNat_toNat]
      rfl
  rw [encode, String.toByteArray_ofList, List.utf8Encode, bytes]
  simp

theorem exists_decode?_of_ascii {s : Bytes} (ascii : ∀ b ∈ s, b < 128) :
    ∃ text, decode? s = some text :=
  ⟨_, decode?_eq_some_iff.mpr (encode_ofList_of_ascii ascii).symm⟩

end Utf8

namespace Base64

theorem value_symbol {n : Nat} (small : n < 64) (offset : Nat) :
    value offset (symbol n) = .ok n := by
  have all : ∀ n, n < 64 → value? (symbol n) = some n := by decide
  rw [value, all n small]

theorem symbol_ne_equals {n : Nat} (small : n < 64) : symbol n ≠ Ascii.equals := by
  have all : ∀ n, n < 64 → symbol n ≠ Ascii.equals := by decide
  exact all n small

theorem symbol_lt {n : Nat} (small : n < 64) : symbol n < 128 := by
  have all : ∀ n, n < 64 → symbol n < 128 := by decide
  exact all n small

section Groups

variable (a b c : UInt8)

theorem firstSymbol_lt : a.toNat / 4 < 64 := by
  have bound := a.toNat_lt
  omega

theorem secondSymbol_lt : a.toNat % 4 * 16 + b.toNat / 16 < 64 := by
  have bound := b.toNat_lt
  omega

theorem thirdSymbol_lt : b.toNat % 16 * 4 + c.toNat / 64 < 64 := by
  have bound := c.toNat_lt
  omega

theorem fourthSymbol_lt : c.toNat % 64 < 64 := by omega

theorem firstByte_of_symbols :
    firstByte (a.toNat / 4) (a.toNat % 4 * 16 + b.toNat / 16) = a := by
  have bound := b.toNat_lt
  have whole : a.toNat / 4 * 4 + (a.toNat % 4 * 16 + b.toNat / 16) / 16 = a.toNat := by omega
  rw [firstByte, whole, UInt8.ofNat_toNat]

theorem secondByte_of_symbols :
    secondByte (a.toNat % 4 * 16 + b.toNat / 16) (b.toNat % 16 * 4 + c.toNat / 64) = b := by
  have bound := b.toNat_lt
  have bound' := c.toNat_lt
  have whole : (a.toNat % 4 * 16 + b.toNat / 16) % 16 * 16 +
      (b.toNat % 16 * 4 + c.toNat / 64) / 4 = b.toNat := by omega
  rw [secondByte, whole, UInt8.ofNat_toNat]

theorem thirdByte_of_symbols :
    thirdByte (b.toNat % 16 * 4 + c.toNat / 64) (c.toNat % 64) = c := by
  have bound := c.toNat_lt
  have whole : (b.toNat % 16 * 4 + c.toNat / 64) % 4 * 64 + c.toNat % 64 = c.toNat := by omega
  rw [thirdByte, whole, UInt8.ofNat_toNat]

end Groups

/-- The last group of what is encoded, when one or two bytes are left for it or three. -/
theorem decodeLast_group (offset : Nat) (a b c : UInt8) :
    decodeLast offset (encode [a]) = .ok [a] ∧ decodeLast offset (encode [a, b]) = .ok [a, b] ∧
      decodeLast offset (encode [a, b, c]) = .ok [a, b, c] := by
  have first := firstSymbol_lt a
  have second := secondSymbol_lt a b
  have third := thirdSymbol_lt b c
  have fourth := fourthSymbol_lt c
  have half : a.toNat % 4 * 16 < 64 := by omega
  have half' : b.toNat % 16 * 4 < 64 := by omega
  refine ⟨?_, ?_, ?_⟩
  · have clear : a.toNat % 4 * 16 % 16 = 0 := by omega
    have whole := firstByte_of_symbols a 0
    rw [UInt8.toNat_zero, Nat.zero_div, Nat.add_zero] at whole
    simp [encode, decodeLast, value_symbol, first, half, clear, whole, bind, Except.bind]
  · have clear : b.toNat % 16 * 4 % 4 = 0 := by omega
    have whole := firstByte_of_symbols a b
    have whole' := secondByte_of_symbols a b 0
    rw [UInt8.toNat_zero, Nat.zero_div, Nat.add_zero] at whole'
    simp [encode, decodeLast, value_symbol, first, second, half', symbol_ne_equals, clear, whole,
      whole', bind, Except.bind]
  · simp [encode, decodeLast, value_symbol, first, second, third, fourth, symbol_ne_equals,
      firstByte_of_symbols, secondByte_of_symbols, thirdByte_of_symbols, bind, Except.bind]

theorem decodeGroups_encode (offset : Nat) (s : Bytes) :
    decodeGroups offset (encode s) = .ok s := by
  induction s using encode.induct generalizing offset with
  | case1 => rfl
  | case2 a => exact (decodeLast_group offset a 0 0).1
  | case3 a b => exact (decodeLast_group offset a b 0).2.1
  | case4 a b c r ih =>
    cases more : encode r with
    | nil =>
      have nothing : r = [] := by
        have same := ih 0
        rw [more] at same
        cases same
        rfl
      subst nothing
      exact (decodeLast_group offset a b c).2.2
    | cons e t =>
      have tail := ih (offset + 4)
      rw [more] at tail
      rw [encode, more, decodeGroups]
      simp only [value_symbol (firstSymbol_lt a), value_symbol (secondSymbol_lt a b),
        value_symbol (thirdSymbol_lt b c), value_symbol (fourthSymbol_lt c), tail, bind,
        Except.bind, firstByte_of_symbols, secondByte_of_symbols, thirdByte_of_symbols]

theorem length_encode_mod (s : Bytes) : (encode s).length % 4 = 0 := by
  induction s using encode.induct with
  | case1 => rfl
  | case2 a => simp [encode]
  | case3 a b => simp [encode]
  | case4 a b c r ih =>
    simp only [encode, List.length_cons]
    omega

theorem decode_encode (s : Bytes) : decode (encode s) = .ok s := by
  have whole := length_encode_mod s
  have noStray : strayEnd? (encode s) = none := by
    rw [strayEnd?]
    cases (encode s).getLast? with
    | none => rfl
    | some b => simp [whole]
  rw [decode, noStray]
  exact decodeGroups_encode 0 s

theorem encode_ascii (s : Bytes) : ∀ b ∈ encode s, b < 128 := by
  have padding : Ascii.equals < 128 := by decide
  induction s using encode.induct with
  | case1 => simp [encode]
  | case2 a =>
    have second : a.toNat % 4 * 16 < 64 := by omega
    simp [encode, symbol_lt, firstSymbol_lt a, second, padding]
  | case3 a b =>
    have third : b.toNat % 16 * 4 < 64 := by omega
    simp [encode, symbol_lt, firstSymbol_lt a, secondSymbol_lt a b, third, padding]
  | case4 a b c r ih =>
    simpa [encode, symbol_lt, firstSymbol_lt a, secondSymbol_lt a b, thirdSymbol_lt b c,
      fourthSymbol_lt c] using ih

end Base64

namespace Transfer

theorem utf8_encodeData (data : Bytes) : Utf8.encode (encodeData data) = Base64.encode data := by
  obtain ⟨text, decoded⟩ := Utf8.exists_decode?_of_ascii (Base64.encode_ascii data)
  rw [encodeData, decoded, Option.getD_some]
  exact Utf8.encode_of_decode? decoded

/-- Bytes survive their way through the text of a chunk. -/
theorem decodeData_encodeData (data : Bytes) : decodeData (encodeData data) = .ok data := by
  rw [decodeData, utf8_encodeData, Base64.decode_encode]

end Transfer

end Mailroom
