import Mailroom.Proofs.Results
import Mailroom.Proofs.Text.Base64

/-!
# Base64 has one spelling

What can be decoded is what encoding writes, so bytes have one text and no other. By its form such a
text is a row of whole groups, of which the last can be padded: the padding is there and nowhere
else, all other symbols are of the alphabet, and the bits before padding that belong to no byte are
zero.
-/

namespace Mailroom

namespace Base64

/-- The texts that are base64, by their form. -/
inductive Canonical : Bytes → Prop where
  | nil : Canonical []
  /-- Four bits of the second symbol belong to no byte. -/
  | one {x y : Nat} : x < 64 → y < 64 → y % 16 = 0 →
      Canonical [symbol x, symbol y, Ascii.equals, Ascii.equals]
  /-- Two bits of the third symbol belong to no byte. -/
  | two {x y z : Nat} : x < 64 → y < 64 → z < 64 → z % 4 = 0 →
      Canonical [symbol x, symbol y, symbol z, Ascii.equals]
  | group {x y z w : Nat} {r : Bytes} : x < 64 → y < 64 → z < 64 → w < 64 → Canonical r →
      Canonical (symbol x :: symbol y :: symbol z :: symbol w :: r)

/-- A symbol is the only one that has its value. -/
theorem value?_eq_some {n : Nat} {b : UInt8} (found : value? b = some n) :
    n < 64 ∧ b = symbol n := by
  have all : ∀ i : Fin 256, ∀ n, value? (UInt8.ofNat i) = some n →
      n < 64 ∧ UInt8.ofNat i = symbol n := by decide +kernel
  have here := all ⟨b.toNat, b.toNat_lt⟩ n
  rw [UInt8.ofNat_toNat] at here
  exact here found

/-- To go on with the value of a byte it has to be a symbol. -/
theorem symbol_of_bind {α : Type} {offset : Nat} {b : UInt8} {f : Nat → Except Fault α} {a : α}
    (read : (value offset b >>= f) = .ok a) : ∃ n, n < 64 ∧ b = symbol n ∧ f n = .ok a := by
  obtain ⟨n, valued, read⟩ := bind_eq_ok.mp read
  rw [value] at valued
  split at valued
  · next found =>
    cases valued
    obtain ⟨small, same⟩ := value?_eq_some found
    exact ⟨n, small, same, read⟩
  · cases valued

section Groups

variable {x y z w : Nat}

theorem toNat_firstByte (first : x < 64) (second : y < 64) :
    (firstByte x y).toNat = x * 4 + y / 16 :=
  UInt8.toNat_ofNat_of_lt (show _ < 256 by omega)

theorem toNat_secondByte (third : z < 64) : (secondByte y z).toNat = y % 16 * 16 + z / 4 :=
  UInt8.toNat_ofNat_of_lt (show _ < 256 by omega)

theorem toNat_thirdByte (fourth : w < 64) : (thirdByte z w).toNat = z % 4 * 64 + w :=
  UInt8.toNat_ofNat_of_lt (show _ < 256 by omega)

theorem encode_one (first : x < 64) (second : y < 64) (clear : y % 16 = 0) :
    encode [firstByte x y] = [symbol x, symbol y, Ascii.equals, Ascii.equals] := by
  have upper : (x * 4 + y / 16) / 4 = x := by omega
  have lower : (x * 4 + y / 16) % 4 * 16 = y := by omega
  rw [encode, toNat_firstByte first second, upper, lower]

theorem encode_two (first : x < 64) (second : y < 64) (third : z < 64) (clear : z % 4 = 0) :
    encode [firstByte x y, secondByte y z] = [symbol x, symbol y, symbol z, Ascii.equals] := by
  have upper : (x * 4 + y / 16) / 4 = x := by omega
  have middle : (x * 4 + y / 16) % 4 * 16 + (y % 16 * 16 + z / 4) / 16 = y := by omega
  have lower : (y % 16 * 16 + z / 4) % 16 * 4 = z := by omega
  rw [encode, toNat_firstByte first second, toNat_secondByte third, upper, middle, lower]

theorem encode_group (first : x < 64) (second : y < 64) (third : z < 64) (fourth : w < 64)
    (r : Bytes) :
    encode (firstByte x y :: secondByte y z :: thirdByte z w :: r) =
      symbol x :: symbol y :: symbol z :: symbol w :: encode r := by
  have upper : (x * 4 + y / 16) / 4 = x := by omega
  have middle : (x * 4 + y / 16) % 4 * 16 + (y % 16 * 16 + z / 4) / 16 = y := by omega
  have middle' : (y % 16 * 16 + z / 4) % 16 * 4 + (z % 4 * 64 + w) / 64 = z := by omega
  have lower : (z % 4 * 64 + w) % 64 = w := by omega
  rw [encode, toNat_firstByte first second, toNat_secondByte third, toNat_thirdByte fourth, upper,
    middle, middle', lower]

end Groups

/-- A last group that is decoded is the encoding of its bytes. -/
theorem eq_encode_of_decodeLast {offset : Nat} {s data : Bytes} (short : s.length ≤ 4)
    (read : decodeLast offset s = .ok data) : s = encode data := by
  fun_cases decodeLast offset s with
  | case1 =>
    cases read
    rfl
  | case2 a | case3 a b =>
    simp [decodeLast, bind_eq_ok] at read
  | case4 a b c =>
    by_cases padded : c = Ascii.equals
    all_goals simp [decodeLast, bind_eq_ok, padded] at read
  | case5 a b c d r =>
    obtain rfl : r = [] := by
      simp only [List.length_cons] at short
      exact List.eq_nil_of_length_eq_zero (by omega)
    obtain ⟨x, first, aIs, read⟩ := symbol_of_bind read
    obtain ⟨y, second, bIs, read⟩ := symbol_of_bind read
    rw [aIs, bIs]
    split at read
    · next padded =>
      split at read
      · cases read
      · next padded' =>
        split at read
        · cases read
        · next clear =>
          cases read
          rw [encode_one first second (Decidable.of_not_not clear), padded,
            Decidable.of_not_not padded']
    · obtain ⟨z, third, cIs, read⟩ := symbol_of_bind read
      rw [cIs]
      split at read
      · next padded =>
        split at read
        · cases read
        · next clear =>
          cases read
          rw [encode_two first second third (Decidable.of_not_not clear), padded]
      · obtain ⟨w, fourth, dIs, read⟩ := symbol_of_bind read
        cases read
        rw [dIs, encode_group first second third fourth, encode]

theorem eq_encode_of_decodeGroups {offset : Nat} {s data : Bytes}
    (read : decodeGroups offset s = .ok data) : s = encode data := by
  induction offset, s using decodeGroups.induct generalizing data with
  | case1 offset a b c d e r ih =>
    rw [decodeGroups] at read
    obtain ⟨x, first, aIs, read⟩ := symbol_of_bind read
    obtain ⟨y, second, bIs, read⟩ := symbol_of_bind read
    obtain ⟨z, third, cIs, read⟩ := symbol_of_bind read
    obtain ⟨w, fourth, dIs, read⟩ := symbol_of_bind read
    obtain ⟨rest, more, read⟩ := bind_eq_ok.mp read
    cases read
    rw [aIs, bIs, cIs, dIs, encode_group first second third fourth, ← ih more]
  | case2 offset s single =>
    rw [decodeGroups.eq_def] at read
    split at read
    · next a b c d e r => exact absurd rfl (single a b c d e r)
    · have short : s.length ≤ 4 := by
        rcases s with _ | ⟨a, _ | ⟨b, _ | ⟨c, _ | ⟨d, _ | ⟨e, r⟩⟩⟩⟩⟩
        case cons.cons.cons.cons.cons => exact absurd rfl (single a b c d e r)
        all_goals simp
      exact eq_encode_of_decodeLast short read

/-- Encoding and decoding undo each other. -/
theorem decode_eq_ok {s data : Bytes} : decode s = .ok data ↔ s = encode data := by
  constructor
  · intro read
    rw [decode] at read
    split at read
    · cases read
    · exact eq_encode_of_decodeGroups read
  · rintro rfl
    exact decode_encode data

/-- What encoding writes has the form of base64, and all that has this form is written for some
bytes. -/
theorem canonical_iff {s : Bytes} : Canonical s ↔ ∃ data, s = encode data := by
  constructor
  · intro canonical
    induction canonical with
    | nil => exact ⟨[], rfl⟩
    | @one x y first second clear => exact ⟨_, (encode_one first second clear).symm⟩
    | @two x y z first second third clear => exact ⟨_, (encode_two first second third clear).symm⟩
    | @group x y z w r first second third fourth _ ih =>
      obtain ⟨data, rfl⟩ := ih
      exact ⟨_, (encode_group first second third fourth data).symm⟩
  · rintro ⟨data, rfl⟩
    induction data using encode.induct with
    | case1 => exact .nil
    | case2 a => exact .one (firstSymbol_lt a) (by omega) (by omega)
    | case3 a b => exact .two (firstSymbol_lt a) (secondSymbol_lt a b) (by omega) (by omega)
    | case4 a b c r ih =>
      exact .group (firstSymbol_lt a) (secondSymbol_lt a b) (thirdSymbol_lt b c) (fourthSymbol_lt c)
        ih

end Base64

namespace Transfer

/-- Bytes have one text as the data of a chunk. What can be read is base64 with its padding, and
nothing else can be read. -/
theorem chunk_data_has_one_text (text : String) (data : Bytes) :
    decodeData (encodeData data) = .ok data ∧
      (decodeData text = .ok data ↔ text = encodeData data) ∧
      ((∃ data, decodeData text = .ok data) ↔ Base64.Canonical (Utf8.encode text)) := by
  refine ⟨decodeData_encodeData data, ?_, ?_⟩
  · constructor
    · intro read
      have same : Utf8.encode text = Utf8.encode (encodeData data) := by
        rw [utf8_encodeData]
        exact Base64.decode_eq_ok.mp read
      have decoded := congrArg Utf8.decode? same
      rwa [Utf8.decode?_encode, Utf8.decode?_encode, Option.some_inj] at decoded
    · rintro rfl
      exact decodeData_encodeData data
  · simp only [decodeData, Base64.decode_eq_ok, Base64.canonical_iff]

end Transfer

end Mailroom
