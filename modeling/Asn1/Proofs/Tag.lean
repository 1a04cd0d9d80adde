import Asn1.Proofs.Base128
import Asn1.Tag.Codec

/-!
Every tag has one encoding: it is read back in front of anything, and a tag that
was read was written that way.
-/

namespace Asn1

namespace TagClass

theorem code_lt (cls : TagClass) : cls.code < 4 := by
  cases cls <;> simp [code]

theorem code_ofCode {code : Nat} (h : code < 4) : (ofCode code).code = code := by
  match code, h with
  | 0, _ => rfl
  | 1, _ => rfl
  | 2, _ => rfl
  | 3, _ => rfl

end TagClass

namespace Tag

theorem numberLimit_eq : numberLimit = 4294967295 := rfl

theorem numberLimit_groups : numberLimit % 128 = 127 := rfl

theorem number_le_limit (tag : Tag) : tag.number.toNat ≤ numberLimit := by
  have := tag.number.toNat_lt
  simp only [numberLimit_eq]
  omega

theorem toNat_identifier (tag : Tag) {low : Nat} (h : low < 32) :
    (tag.identifier low).toNat = tag.cls.code * 64 + (if tag.constructed then 32 else 0) + low := by
  have := tag.cls.code_lt
  rw [identifier, UInt8.toNat_ofNat']
  split <;> omega

@[simp] theorem sameIdentity_refl (tag : Tag) : tag.sameIdentity tag = true := by
  simp [sameIdentity]

theorem eq_of_sameIdentity {a b : Tag} (h : a.sameIdentity b = true)
    (hform : a.constructed = b.constructed) : a = b := by
  obtain ⟨cls, constructed, number⟩ := a
  simp only [sameIdentity, Bool.and_eq_true, beq_iff_eq] at h
  simp only at hform
  rw [h.1, hform, h.2]

@[simp] theorem withConstructed_self (tag : Tag) :
    tag.withConstructed tag.constructed = tag := rfl

/-- The parts of the first octet, whatever number it goes with. -/
private theorem identifier_parts (tag : Tag) {low : Nat} (h : low < 32) :
    TagClass.ofCode ((tag.identifier low).toNat / 64) = tag.cls ∧
      ((tag.identifier low).toNat / 32 % 2 == 1) = tag.constructed ∧
      (tag.identifier low).toNat % 32 = low := by
  have hcode := tag.cls.code_lt
  rw [toNat_identifier tag h]
  refine ⟨?_, ?_, ?_⟩
  · have hclass : (tag.cls.code * 64 + (if tag.constructed then 32 else 0) + low) / 64 =
        tag.cls.code := by
      split <;> omega
    rw [hclass, TagClass.ofCode_code]
  · cases tag.constructed
    · have : (tag.cls.code * 64 + low) / 32 % 2 = 0 := by omega
      simp [this]
    · have : (tag.cls.code * 64 + 32 + low) / 32 % 2 = 1 := by omega
      simp [this]
  · split <;> omega

theorem decode_encode (tag : Tag) (offset : Nat) (rest : Octets) :
    decode offset (tag.encode ++ rest) = .ok (tag, rest) := by
  by_cases hlow : tag.number.toNat ≤ lowLimit
  · have hsmall : tag.number.toNat < 31 := by simp only [lowLimit] at hlow; omega
    obtain ⟨hcls, hconstructed, hnumber⟩ :=
      identifier_parts tag (Nat.lt_trans hsmall (by decide))
    rw [encode, if_pos hlow, List.singleton_append, decode, hcls, hconstructed, hnumber,
      if_pos hsmall, UInt32.ofNat_toNat]
  · obtain ⟨hcls, hconstructed, hnumber⟩ := identifier_parts tag (by decide : 31 < 32)
    rw [encode, if_neg hlow, List.cons_append, decode, hcls, hconstructed, hnumber,
      if_neg (by omega), Base128.decode_encode tag.number_le_limit]
    simp only [if_neg hlow, UInt32.ofNat_toNat]

/-- The first octet is made of its parts. -/
private theorem identifier_of_parts (first : UInt8) (number : UInt32) :
    identifier ⟨TagClass.ofCode (first.toNat / 64), first.toNat / 32 % 2 == 1, number⟩
      (first.toNat % 32) = first := by
  have hfirst := first.toNat_lt
  apply UInt8.toNat_inj.1
  rw [toNat_identifier _ (by omega)]
  simp only [TagClass.code_ofCode (by omega : first.toNat / 64 < 4), beq_iff_eq]
  split <;> omega

theorem encode_of_decode {offset : Nat} {octets rest : Octets} {tag : Tag}
    (h : decode offset octets = .ok (tag, rest)) : octets = tag.encode ++ rest := by
  cases octets with
  | nil => simp [decode] at h
  | cons first tail =>
    simp only [decode] at h
    split at h
    · rename_i hsmall
      cases h
      have hnumber : (UInt32.ofNat (first.toNat % 32)).toNat = first.toNat % 32 := by
        rw [UInt32.toNat_ofNat']
        omega
      have hlow : first.toNat % 32 ≤ lowLimit := by simp only [lowLimit]; omega
      simp only [encode, hnumber, if_pos hlow, identifier_of_parts, List.singleton_append]
    · rename_i hlarge
      split at h
      · cases h
      · rename_i number rest' hgroups
        obtain ⟨htail, hlimit⟩ := Base128.encode_of_decode numberLimit_groups hgroups
        split at h
        · cases h
        · rename_i hhigh
          cases h
          have hnumber : (UInt32.ofNat number).toNat = number := by
            rw [UInt32.toNat_ofNat']
            simp only [numberLimit_eq] at hlimit
            omega
          have hlow : first.toNat % 32 = 31 := by omega
          have hidentifier := identifier_of_parts first (UInt32.ofNat number)
          rw [hlow] at hidentifier
          simp only [encode, hnumber, if_neg hhigh, hidentifier, List.cons_append, ← htail]

/-- The bits of the number tell how many octets are written. -/
theorem length_encode (tag : Tag) : tag.encode.length = tag.encodedLength := by
  rw [encode, encodedLength]
  split
  · rfl
  · rename_i hhigh
    simp only [lowLimit] at hhigh
    rw [List.length_cons, Base128.length_encode (by omega), Nat.add_comm]

/-- A first octet without a number of its own goes in front of a number above 30. -/
theorem encode_eq_cons_iff {first : UInt8} (hlong : first.toNat % 32 = 31) (tag : Tag)
    (groups : Octets) :
    tag.encode = first :: groups ↔
      tag.cls = TagClass.ofCode (first.toNat / 64) ∧
        tag.constructed = (first.toNat / 32 % 2 == 1) ∧
        lowLimit < tag.number.toNat ∧ groups = Base128.encode tag.number.toNat := by
  constructor
  · intro h
    rw [encode] at h
    split at h
    · rename_i hlow
      simp only [lowLimit] at hlow
      obtain ⟨rfl, -⟩ := List.cons.inj h
      have hnumber := (identifier_parts tag (by omega : tag.number.toNat < 32)).2.2
      omega
    · rename_i hhigh
      obtain ⟨rfl, rfl⟩ := List.cons.inj h
      obtain ⟨hcls, hconstructed, -⟩ := identifier_parts tag (by decide : 31 < 32)
      exact ⟨hcls.symm, hconstructed.symm, Nat.lt_of_not_le hhigh, rfl⟩
  · rintro ⟨hcls, hconstructed, hhigh, rfl⟩
    have hidentifier := identifier_of_parts first tag.number
    rw [← hcls, ← hconstructed, hlong] at hidentifier
    rw [encode, if_neg (Nat.not_le.2 hhigh), hidentifier]

/-- The groups of a long tag number: minimal ones of a number between 31 and the limit, and no
others. -/
theorem decode_long_iff {first : UInt8} (hlong : first.toNat % 32 = 31) (offset : Nat)
    (octets rest : Octets) (number : Nat) :
    (∃ tag, decode offset (first :: octets) = .ok (tag, rest) ∧ tag.number.toNat = number) ↔
      ∃ groups, octets = groups ++ rest ∧ Base128.Minimal groups ∧
        Base128.value groups = number ∧ lowLimit < number ∧ number ≤ numberLimit := by
  constructor
  · rintro ⟨tag, hread, rfl⟩
    have hoctets := encode_of_decode hread
    cases hencode : tag.encode with
    | nil =>
      rw [encode] at hencode
      split at hencode <;> cases hencode
    | cons first' groups =>
      rw [hencode, List.cons_append] at hoctets
      obtain ⟨rfl, rfl⟩ := List.cons.inj hoctets
      obtain ⟨-, -, hhigh, hgroups⟩ := (encode_eq_cons_iff hlong tag groups).1 hencode
      obtain ⟨hminimal, hvalue⟩ := (Base128.eq_encode_iff groups _).1 hgroups
      exact ⟨groups, rfl, hminimal, hvalue, hhigh, tag.number_le_limit⟩
  · rintro ⟨groups, rfl, hminimal, hvalue, hhigh, hlimit⟩
    have hnumber : (UInt32.ofNat number).toNat = number := by
      simp only [numberLimit_eq] at hlimit
      rw [UInt32.toNat_ofNat']
      omega
    let tag : Tag :=
      ⟨TagClass.ofCode (first.toNat / 64), first.toNat / 32 % 2 == 1, UInt32.ofNat number⟩
    have hencode : tag.encode = first :: groups := by
      refine (encode_eq_cons_iff hlong tag groups).2 ⟨rfl, rfl, ?_, ?_⟩
      · rw [hnumber]
        exact hhigh
      · rw [hnumber, Base128.eq_encode_iff]
        exact ⟨hminimal, hvalue⟩
    refine ⟨tag, ?_, hnumber⟩
    rw [← List.cons_append, ← hencode]
    exact decode_encode tag offset rest

/-- A tag is read back in front of anything, and what a tag is read from is what is written for
it. No long form is read whose groups begin with a zero, nor one of a number below 31 or beyond
32 bits. -/
theorem read_back_from_its_only_encoding (offset : Nat) :
    (∀ tag rest, decode offset (tag.encode ++ rest) = .ok (tag, rest) ∧
      tag.encode.length = tag.encodedLength) ∧
    (∀ octets tag rest, decode offset octets = .ok (tag, rest) → octets = tag.encode ++ rest) ∧
    ∀ (first : UInt8) octets rest number, first.toNat % 32 = 31 →
      ((∃ tag, decode offset (first :: octets) = .ok (tag, rest) ∧ tag.number.toNat = number) ↔
        ∃ groups, octets = groups ++ rest ∧ Base128.Minimal groups ∧
          Base128.value groups = number ∧ 31 ≤ number ∧ number < 2 ^ 32) := by
  refine ⟨?_, ?_, ?_⟩
  · intro tag rest
    exact ⟨decode_encode tag offset rest, length_encode tag⟩
  · intro octets tag rest h
    exact encode_of_decode h
  · intro first octets rest number hlong
    have hrange : (lowLimit < number ∧ number ≤ numberLimit) ↔
        (31 ≤ number ∧ number < 2 ^ 32) := by
      simp only [lowLimit, numberLimit_eq]
      omega
    simp only [decode_long_iff hlong, hrange]

theorem largest_number_read_back :
    decode 2 ((⟨.priv, true, 4294967295⟩ : Tag).encode ++ [0x05]) =
        .ok (⟨.priv, true, 4294967295⟩, [0x05]) ∧
      [0x9F, 0x1F, 0x00] = (⟨.context, false, 31⟩ : Tag).encode ++ [0x00] ∧
      ∃ tag, decode 0 [0x7F, 0x81, 0x49, 0x02] = .ok (tag, [0x02]) ∧ tag.number.toNat = 201 := by
  refine ⟨?_, ?_, ?_⟩
  · exact ((read_back_from_its_only_encoding 2).1 _ _).1
  · exact (read_back_from_its_only_encoding 0).2.1 _ _ _ (by decide)
  · refine ((read_back_from_its_only_encoding 0).2.2 0x7F _ _ 201 (by decide)).2 ?_
    have hminimal : Base128.Minimal [0x81, 0x49] :=
      ⟨by decide, [0x81], 0x49, rfl, by simp, by decide⟩
    exact ⟨[0x81, 0x49], rfl, hminimal, by decide, by decide, by decide⟩

end Tag

end Asn1
