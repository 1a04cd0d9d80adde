import Asn1.Proofs.Value.Reachable
import Mathlib.Data.Nat.Bitwise

/-!
The constructed bit of an encoding, and whether the value tells it. A value that has a tag of its
own does, and so does an ANY. A CHOICE tells what the value that it holds tells, although the tag
of the alternative may have been put around that value.
-/

namespace Asn1

/-- The mask of bit 6 finds the digit that decoding reads. -/
theorem Tag.constructedMask_iff (octet : UInt8) :
    octet &&& 0x20 ≠ 0 ↔ (octet.toNat / 32 % 2 == 1) = true := by
  have hmasked : (octet &&& 0x20).toNat = (octet.toNat.testBit 5).toNat * 2 ^ 5 := by
    rw [UInt8.toNat_and]
    exact Nat.and_two_pow octet.toNat 5
  rw [ne_eq, ← UInt8.toNat_inj, hmasked, Nat.testBit_eq_decide_div_mod_eq, beq_iff_eq]
  by_cases hset : octet.toNat / 2 ^ 5 % 2 = 1 <;> simp_all

/-- The first octet of a tag shows whether it is constructed. -/
theorem Tag.constructed_of_decode {octets rest : Octets} {tag : Tag} {offset : Nat}
    (h : Tag.decode offset octets = .ok (tag, rest)) :
    ∃ first more, octets = first :: more ∧ (first &&& 0x20 ≠ 0 ↔ tag.constructed = true) := by
  cases octets with
  | nil => cases h
  | cons first more =>
    refine ⟨first, more, rfl, ?_⟩
    rw [constructedMask_iff]
    simp only [decode] at h
    split at h
    · cases h
      rfl
    · split at h
      · cases h
      · split at h
        · cases h
        · cases h
          rfl

namespace Value

/-- The value says that its encoding is primitive, but its encoding is not: it is a CHOICE, and the
tag of the alternative goes around the primitive encoding of what is held. -/
inductive Hides : Policy → Value → Prop where
  | wrapped {policy : Policy} {alternatives : List Field} {index : Nat} {field : Field}
      {tagging : Tagging} {part : Value} {own : Option Policy}
      (hfield : alternatives[index]? = some field)
      (htagging : field.tagging (own.getD policy) = some tagging)
      (hmode : tagging.modeFor part = .explicit) (hpart : part.isConstructed = false) :
      Hides policy (.choice alternatives (some ⟨index, part⟩) own)
  | handedOn {policy : Policy} {alternatives : List Field} {index : Nat} {field : Field}
      {part : Value} {own : Option Policy} (hfield : alternatives[index]? = some field)
      (htagging : field.tagging (own.getD policy) = none) (hpart : Hides (own.getD policy) part) :
      Hides policy (.choice alternatives (some ⟨index, part⟩) own)

theorem hides_untagged {policy : Policy} {alternatives : List Field} {index : Nat} {field : Field}
    {part : Value} {own : Option Policy} (hfield : alternatives[index]? = some field)
    (htagging : field.tagging (own.getD policy) = none) :
    Hides policy (.choice alternatives (some ⟨index, part⟩) own) ↔
      Hides (own.getD policy) part := by
  constructor
  · rintro (⟨hfield', htagging', -, -⟩ | ⟨-, -, hpart⟩)
    · rw [hfield] at hfield'
      cases hfield'
      rw [htagging] at htagging'
      cases htagging'
    · exact hpart
  · exact .handedOn hfield htagging

theorem hides_tagged {policy : Policy} {alternatives : List Field} {index : Nat} {field : Field}
    {tagging : Tagging} {part : Value} {own : Option Policy}
    (hfield : alternatives[index]? = some field)
    (htagging : field.tagging (own.getD policy) = some tagging) :
    Hides policy (.choice alternatives (some ⟨index, part⟩) own) ↔
      tagging.modeFor part = .explicit ∧ part.isConstructed = false := by
  constructor
  · rintro (⟨hfield', htagging', hmode, hpart⟩ | ⟨hfield', htagging', -⟩)
    · rw [hfield] at hfield'
      cases hfield'
      rw [htagging] at htagging'
      cases htagging'
      exact ⟨hmode, hpart⟩
    · rw [hfield] at hfield'
      cases hfield'
      rw [htagging] at htagging'
      cases htagging'
  · rintro ⟨hmode, hpart⟩
    exact .wrapped hfield htagging hmode hpart

/-- The tag that is written is constructed if the value says so or hides it. -/
theorem constructed_of_encoding {policy : Policy} {value : Value}
    (hintact : value.Throughout Intact) {encoding : Encoding}
    (h : value.encoding policy = .ok encoding) :
    ∃ tag, rawTag? encoding.octets = some tag ∧
      (tag.constructed = true ↔ value.isConstructed = true ∨ value.Hides policy) := by
  induction value using contains_induction generalizing policy encoding with
  | h value ih =>
    cases value with
    | leaf | record | elements | tagged =>
      obtain ⟨tag, content, rfl⟩ := (hasOwnTag_of_encoding h).1 rfl
      refine ⟨tag, rawTag?_encode tag content, ?_⟩
      rw [(tag?_of_encoding h).2, iff_self_or]
      rintro ⟨⟩
    | choice alternatives selection own =>
      obtain ⟨index, part, field, raw, rfl, hfield, hraw, rfl⟩ := encoding_choice.1 h
      obtain ⟨bare, wrapped, hbare, hwrap, rfl⟩ := Field.encode_eq_ok_iff.1 hraw
      rw [isConstructed]
      rcases Field.wrap_eq_ok_iff.1 hwrap with ⟨hnone, rfl⟩ | ⟨tagging, htagging, happly⟩
      · rw [hides_untagged hfield hnone]
        have hpart := ih part .selected (hintact.part .selected) hbare
        exact hpart
      · rw [hides_tagged hfield htagging]
        rcases Tagging.apply_eq_ok_iff.1 happly with
          ⟨hmode, rfl⟩ | ⟨hmode, tag, content, hsplit, rfl⟩
        · refine ⟨_, rawTag?_encode _ _, ?_⟩
          rw [hmode]
          simp [Tagging.tag]
        · obtain ⟨tag', content', rfl⟩ :=
            (hasOwnTag_of_encoding hbare).1 (Tagging.hasOwnTag_of_implicit hmode)
          cases hsplit
          refine ⟨_, rawTag?_encode _ _, ?_⟩
          rw [(tag?_of_encoding hbare).2, hmode]
          simp [Tagging.tag]
    | any raw =>
      obtain ⟨hsome, rfl⟩ := encoding_any.1 h
      rcases hintact.self with hnone | ⟨tlv, hread⟩
      · exact absurd hnone hsome
      · have htag := rawTag?_of_read hread
        refine ⟨tlv.tag, htag, ?_⟩
        rw [isConstructed, htag, iff_self_or]
        rintro ⟨⟩

theorem Hides.isConstructed_eq {policy : Policy} {value : Value} (h : value.Hides policy) :
    value.isConstructed = false := by
  induction h with
  | wrapped _ _ _ hpart => exact hpart
  | handedOn _ _ _ ih => exact ih

/-- A value that can be come by tells the constructed bit of its encoding, unless it hides it. If
it does, the bit is set and the value says that it is not. -/
theorem constructed_bit_told_unless_hidden {value : Value} (h : value.Reachable) {policy : Policy}
    {octets : Octets} (hencode : value.encode policy = .ok octets) :
    ∃ first rest, octets = first :: rest ∧
      (¬ value.Hides policy → (value.isConstructed = true ↔ first &&& 0x20 ≠ 0)) ∧
      (value.Hides policy → value.isConstructed = false ∧ first &&& 0x20 ≠ 0) := by
  obtain ⟨encoding, hencoding, rfl⟩ := encode_eq_ok_iff.1 hencode
  obtain ⟨tag, hraw, htold⟩ := constructed_of_encoding h.intact hencoding
  rw [rawTag?] at hraw
  split at hraw
  · rename_i hdecode
    cases hraw
    obtain ⟨first, rest, hoctets, hbit⟩ := Tag.constructed_of_decode hdecode
    have hwire := hbit.trans htold
    refine ⟨first, rest, hoctets, ?_, ?_⟩
    · intro hopen
      rw [hwire, or_iff_left hopen]
    · intro hhides
      exact ⟨hhides.isConstructed_eq, hwire.2 (.inr hhides)⟩
  · cases hraw

/-- An OCTET STRING under an explicit tag, in a CHOICE and again under a tag. -/
theorem tagged_choice_tells_constructed_bit :
    (Value.tagged ⟨.application, 1, .implicit⟩
      (.choice [⟨"x", some 0, some .explicit, false, "octets"⟩]
        (some ⟨0, .leaf (.octetString [0x07])⟩) none) none).isConstructed = true ↔
      (0x61 : UInt8) &&& 0x20 ≠ 0 := by
  have hreachable : (Value.tagged ⟨.application, 1, .implicit⟩
      (.choice [⟨"x", some 0, some .explicit, false, "octets"⟩]
        (some ⟨0, .leaf (.octetString [0x07])⟩) none) none).Reachable :=
    .tagged (.selected (.leaf _))
  have hencode : (Value.tagged ⟨.application, 1, .implicit⟩
      (.choice [⟨"x", some 0, some .explicit, false, "octets"⟩]
        (some ⟨0, .leaf (.octetString [0x07])⟩) none) none).encode .der =
      .ok [0x61, 0x05, 0xA0, 0x03, 0x04, 0x01, 0x07] := by cbv
  obtain ⟨first, rest, hoctets, htold, -⟩ := constructed_bit_told_unless_hidden hreachable hencode
  cases hoctets
  apply htold
  rintro ⟨⟩

/-- The CHOICE alone takes the OCTET STRING for its own encoding. -/
theorem tagged_alternative_hides_constructed_bit :
    (Value.choice [⟨"x", some 0, some .explicit, false, "octets"⟩]
        (some ⟨0, .leaf (.octetString [0x07])⟩) none).Reachable ∧
      (Value.choice [⟨"x", some 0, some .explicit, false, "octets"⟩]
        (some ⟨0, .leaf (.octetString [0x07])⟩) none).encode .der =
        .ok [0xA0, 0x03, 0x04, 0x01, 0x07] ∧
      (0xA0 : UInt8) &&& 0x20 ≠ 0 ∧
      (Value.choice [⟨"x", some 0, some .explicit, false, "octets"⟩]
        (some ⟨0, .leaf (.octetString [0x07])⟩) none).isConstructed = false := by
  refine ⟨.selected (.leaf _), ?_, ?_, rfl⟩
  · cbv
  · decide

end Value

end Asn1
