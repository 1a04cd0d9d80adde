import Asn1.Length
import Asn1.Proofs.Octets

/-!
Lengths are read back from their shortest form. Longer forms are read too, but
they show by their size.
-/

namespace Asn1.Length

/-- What fits into the digits that are read. -/
def limit : Nat := 256 ^ digitLimit

theorem digits_of_ne_zero {n : Nat} (h : n ≠ 0) : digits n = Octets.ofNat n := by
  rw [digits, if_neg h]

@[simp] theorem value_ofNat (n : Nat) : (ofNat n).value = n := by
  rw [ofNat]
  split <;> rfl

theorem length_digits (n : Nat) : (digits n).length = max 1 (Octets.digitCount 8 n) := by
  have hcount : Octets.digitCount 8 n = (Octets.ofNat n).length := by
    rw [Octets.digitCount_eq_length_digits (by decide), Octets.length_ofNat]
    rfl
  rw [hcount]
  by_cases h : n = 0
  · subst h
    simp [digits, Octets.ofNat_zero]
  · rw [digits_of_ne_zero h, Nat.max_eq_right (Octets.length_ofNat_pos h)]

/-- The bits of the number tell how many octets are written. -/
theorem length_encode (length : Length) : length.encode.length = length.encodedLength := by
  cases length with
  | short n => rfl
  | long n => rw [encode, encodedLength, List.length_cons, length_digits, Nat.add_comm]

theorem length_encode_ofNat (n : Nat) :
    (ofNat n).encode.length = if n < 128 then 1 else 1 + (Nat.digits 256 n).length := by
  rw [ofNat]
  split
  · rfl
  · rename_i hlong
    rw [encode, List.length_cons, digits_of_ne_zero (by omega), Octets.length_ofNat, Nat.add_comm]

/-- The octets of a length and what they are read as. A long form may have more digits than its
number needs. -/
inductive Spells : Octets → Length → Prop
  | short {first : UInt8} (h : first.toNat < 128) : Spells [first] (.short first.toNat)
  | long {first : UInt8} {digits : Octets} (hcount : first.toNat = 128 + digits.length)
      (hsome : 1 ≤ digits.length) (hlimit : digits.length ≤ 8) :
      Spells (first :: digits) (.long (Nat.ofDigits 256 (digits.reverse.map UInt8.toNat)))

theorem Spells.decode {written : Octets} {length : Length} (h : Spells written length)
    (offset : Nat) (rest : Octets) :
    Length.decode offset (written ++ rest) = .ok (length, rest) := by
  cases h with
  | short hshort => simp only [List.singleton_append, Length.decode, if_pos hshort]
  | @long first digits hcount hsome hlimit =>
    have hdigits : first.toNat - 128 = digits.length := by omega
    have henough : ¬ (digits ++ rest).length < digits.length := by
      rw [List.length_append]
      omega
    simp only [List.cons_append, Length.decode, hdigits, digitLimit]
    rw [if_neg (by omega), if_neg (by omega), if_neg (by omega), if_neg (by omega), if_neg henough,
      List.take_left, List.drop_left, Octets.toNat_eq_ofDigits]

theorem spells_of_decode {offset : Nat} {octets rest : Octets} {length : Length}
    (h : decode offset octets = .ok (length, rest)) :
    ∃ written, octets = written ++ rest ∧ Spells written length := by
  cases octets with
  | nil => simp [decode] at h
  | cons first tail =>
    simp only [decode] at h
    split at h
    · rename_i hshort
      cases h
      exact ⟨[first], rfl, .short hshort⟩
    · split at h
      · cases h
      · split at h
        · cases h
        · split at h
          · cases h
          · rename_i hlimit
            split at h
            · cases h
            · cases h
              have htaken : (tail.take (first.toNat - 128)).length = first.toNat - 128 := by
                rw [List.length_take]
                omega
              simp only [digitLimit] at hlimit
              refine ⟨first :: tail.take (first.toNat - 128), by simp, ?_⟩
              rw [Octets.toNat_eq_ofDigits]
              exact .long (by omega) (by omega) (by omega)

theorem decode_eq_ok_iff (offset : Nat) (octets rest : Octets) (length : Length) :
    decode offset octets = .ok (length, rest) ↔
      ∃ written, octets = written ++ rest ∧ Spells written length := by
  constructor
  · exact spells_of_decode
  · rintro ⟨written, rfl, hspells⟩
    exact hspells.decode offset rest

/-- A number that fits is spelled by what is written for it. -/
theorem spells_encode {n : Nat} (h : n < limit) : Spells (ofNat n).encode (ofNat n) := by
  rw [ofNat]
  split
  · rename_i hshort
    have hfirst : (UInt8.ofNat n).toNat = n := by
      rw [UInt8.toNat_ofNat']
      omega
    have hspells : Spells [UInt8.ofNat n] (.short (UInt8.ofNat n).toNat) :=
      .short (by omega)
    rwa [hfirst] at hspells
  · rename_i hlong
    have hsome : 0 < (Octets.ofNat n).length := Octets.length_ofNat_pos (by omega)
    have hlimit : (Octets.ofNat n).length ≤ 8 := Octets.length_ofNat_le h
    have hfirst : (UInt8.ofNat (128 + (Octets.ofNat n).length)).toNat =
        128 + (Octets.ofNat n).length := by
      rw [UInt8.toNat_ofNat']
      omega
    have hspells := Spells.long hfirst hsome hlimit
    rw [encode, digits_of_ne_zero (by omega)]
    rwa [← Octets.toNat_eq_ofDigits, Octets.toNat_ofNat] at hspells

theorem decode_encode {n : Nat} (h : n < limit) (offset : Nat) (rest : Octets) :
    decode offset ((ofNat n).encode ++ rest) = .ok (ofNat n, rest) :=
  (spells_encode h).decode offset rest

theorem Spells.value_lt {written : Octets} {length : Length} (h : Spells written length) :
    length.value < limit := by
  cases h with
  | short hshort =>
    simp only [value, limit, digitLimit]
    omega
  | @long first digits hcount hsome hlimit =>
    rw [← Octets.toNat_eq_ofDigits]
    calc
      Octets.toNat digits < 256 ^ digits.length := Octets.toNat_lt digits
      _ ≤ limit := Nat.pow_le_pow_right (by omega) hlimit

/-- Of the octets that spell a number, those that are written for it are told by their count. -/
theorem Spells.eq_encode_iff {written : Octets} {length : Length} (h : Spells written length) :
    written = (ofNat length.value).encode ↔
      written.length = (ofNat length.value).encodedLength := by
  rw [← length_encode]
  constructor
  · exact congrArg List.length
  · intro hcount
    cases h with
    | short hshort => simp [value, ofNat, hshort, encode]
    | @long first digits hfirst hsome hlimit =>
      rw [← Octets.toNat_eq_ofDigits] at hcount ⊢
      rw [List.length_cons, value, length_encode_ofNat] at hcount
      split at hcount
      · omega
      · rename_i hlarge
        have hdigits : digits = Octets.ofNat (Octets.toNat digits) := by
          apply Octets.eq_ofNat_of_length
          rw [Octets.length_ofNat]
          omega
        rw [value, ofNat, if_neg hlarge, encode, digits_of_ne_zero (by omega), ← hdigits, ← hfirst,
          UInt8.ofNat_toNat]

theorem value_lt_of_decode {offset : Nat} {octets body : Octets} {length : Length}
    (h : decode offset octets = .ok (length, body)) : length.value < limit := by
  obtain ⟨_, _, hspells⟩ := spells_of_decode h
  exact hspells.value_lt

/-- A length is read from a front of the octets, no matter where they lie and
what follows. -/
theorem front_of_decode {offset : Nat} {octets body : Octets} {length : Length}
    (h : decode offset octets = .ok (length, body)) :
    ∃ written, octets = written ++ body ∧
      ∀ offset' rest, decode offset' (written ++ rest) = .ok (length, rest) := by
  obtain ⟨written, hoctets, hspells⟩ := spells_of_decode h
  exact ⟨written, hoctets, hspells.decode⟩

/-- A length that takes no more octets than it has to was written in the shortest
form. -/
theorem encode_of_decode {offset : Nat} {octets body : Octets} {length : Length}
    (h : decode offset octets = .ok (length, body))
    (hminimal : octets.length - body.length = (ofNat length.value).encodedLength) :
    octets = (ofNat length.value).encode ++ body := by
  obtain ⟨written, rfl, hspells⟩ := spells_of_decode h
  rw [List.length_append, Nat.add_sub_cancel] at hminimal
  rw [← hspells.eq_encode_iff.2 hminimal]

/-- A number of 64 bits is written with no more digits than it has and read back in front of
anything. The octets that are read are those of the two forms, and their count alone shows whether
they are the ones that are written. -/
theorem read_as_spelled (offset : Nat) :
    (∀ n rest, n < 2 ^ 64 →
      decode offset ((ofNat n).encode ++ rest) = .ok (ofNat n, rest) ∧ (ofNat n).value = n ∧
        ((ofNat n).encode.length = 1 ↔ n < 128) ∧
        (128 ≤ n → (ofNat n).encode.length = 1 + (Nat.digits 256 n).length)) ∧
    (∀ octets length rest, decode offset octets = .ok (length, rest) ↔
      ∃ written, octets = written ++ rest ∧ Spells written length) ∧
    ∀ written length, Spells written length → length.value < 2 ^ 64 ∧
      (written = (ofNat length.value).encode ↔
        written.length = (ofNat length.value).encodedLength) := by
  have hlimit : limit = 2 ^ 64 := rfl
  rw [← hlimit]
  refine ⟨?_, ?_, ?_⟩
  · intro n rest hn
    have hlength := length_encode_ofNat n
    refine ⟨decode_encode hn offset rest, value_ofNat n, ?_, ?_⟩
    · rw [hlength]
      split
      · rename_i hshort
        simp [hshort]
      · rename_i hlong
        have hdigits : 0 < (Nat.digits 256 n).length := by
          rw [← Octets.length_ofNat]
          exact Octets.length_ofNat_pos (by omega)
        omega
    · intro hlong
      rw [hlength, if_neg (Nat.not_lt.2 hlong)]
  · intro octets length rest
    exact decode_eq_ok_iff offset octets rest length
  · intro written length hspells
    exact ⟨hspells.value_lt, hspells.eq_encode_iff⟩

/-- The largest number, and one with a digit more than it needs. -/
theorem largest_and_padded_read :
    decode 3 ((ofNat 18446744073709551615).encode ++ [0x05]) =
        .ok (ofNat 18446744073709551615, [0x05]) ∧
      decode 3 [0x82, 0x00, 0x7F, 0x05] = .ok (.long 127, [0x05]) ∧
      [0x82, 0x00, 0x7F] ≠ (ofNat 127).encode := by
  obtain ⟨hencode, hdecode, hcount⟩ := read_as_spelled 3
  have hspells : Spells [0x82, 0x00, 0x7F] (.long 127) :=
    @Spells.long 0x82 [0x00, 0x7F] rfl (by decide) (by decide)
  refine ⟨(hencode _ _ (by decide)).1, (hdecode _ _ _).2 ⟨_, rfl, hspells⟩, ?_⟩
  have hlonger : [0x82, 0x00, 0x7F].length ≠ (ofNat 127).encodedLength := by decide
  intro heq
  exact hlonger ((hcount _ _ hspells).2.1 heq)

end Asn1.Length
