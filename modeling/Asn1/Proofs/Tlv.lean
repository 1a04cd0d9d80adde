import Asn1.Proofs.Length
import Asn1.Proofs.Tag
import Asn1.Tlv.Stream

/-!
Elements are read back in front of anything. What is read depends neither on the
offset, which it only carries along, nor on what follows. The distinguished rules
read a part of what the basic ones do, the elements that `Tlv.encode` writes.
-/

namespace Asn1.Tlv

/-- An element put together from a tag, the octets of a length and a content. -/
theorem read_of_parts {rules : Rules} {tag : Tag} {written content : Octets} {length : Length}
    (hlength : ∀ offset rest, Length.decode offset (written ++ rest) = .ok (length, rest))
    (hvalue : length.value = content.length)
    (hminimal : rules = .distinguished →
      written.length = (Length.ofNat content.length).encodedLength)
    (offset : Nat) (rest : Octets) :
    read rules offset (tag.encode ++ written ++ (content ++ rest)) =
      .ok (⟨tag, offset, tag.encode ++ written, content⟩, rest) := by
  have hsize : (written ++ (content ++ rest)).length - (content ++ rest).length =
      written.length := by
    simp only [List.length_append]
    omega
  have hheader : (tag.encode ++ (written ++ (content ++ rest))).length - (content ++ rest).length =
      (tag.encode ++ written).length := by
    simp only [List.length_append]
    omega
  have hrules : ¬ (rules = .distinguished ∧
      written.length ≠ (Length.ofNat content.length).encodedLength) := by
    rintro ⟨hder, hlong⟩
    exact hlong (hminimal hder)
  have henough : ¬ (content ++ rest).length < content.length := by
    rw [List.length_append]
    omega
  rw [List.append_assoc, read, Tag.decode_encode]
  simp only [hlength, hvalue, hsize, hheader, if_neg hrules, if_neg henough]
  rw [← List.append_assoc tag.encode, List.take_left, List.take_left, List.drop_left]

/-- The parts of an element that was read. -/
theorem parts_of_read {rules : Rules} {offset : Nat} {octets rest : Octets} {tlv : Tlv}
    (h : read rules offset octets = .ok (tlv, rest)) :
    tlv.offset = offset ∧ ∃ written length,
      tlv.header = tlv.tag.encode ++ written ∧ octets = tlv.raw ++ rest ∧
      length.value = tlv.content.length ∧ tlv.content.length < Length.limit ∧
      (∀ offset' rest', Length.decode offset' (written ++ rest') = .ok (length, rest')) ∧
      (rules = .distinguished → written = (Length.ofNat tlv.content.length).encode) := by
  simp only [read] at h
  split at h
  · cases h
  · rename_i tag afterTag htag
    have hoctets := Tag.encode_of_decode htag
    split at h
    · cases h
    · rename_i length body hlength
      have hlimit := Length.value_lt_of_decode hlength
      obtain ⟨written, hafter, hwritten⟩ := Length.front_of_decode hlength
      split at h
      · cases h
      · rename_i hminimal
        split at h
        · cases h
        · rename_i hexceeds
          cases h
          have hcontent : (body.take length.value).length = length.value := by
            rw [List.length_take]
            omega
          have hheader : octets.take (octets.length - body.length) = tag.encode ++ written := by
            have hsize : octets.length - body.length = (tag.encode ++ written).length := by
              rw [hoctets, hafter]
              simp only [List.length_append]
              omega
            rw [hsize, hoctets, hafter, ← List.append_assoc, List.take_left]
          refine ⟨rfl, written, length, hheader, ?_, hcontent.symm,
            Nat.lt_of_le_of_lt (Nat.le_of_eq hcontent) hlimit, hwritten, ?_⟩
          · show octets = octets.take _ ++ body.take length.value ++ body.drop length.value
            rw [hheader, List.append_assoc _ _ (body.drop _), List.take_append_drop, hoctets,
              hafter, List.append_assoc]
          · intro hder
            have hshort := Length.encode_of_decode hlength
              (Decidable.byContradiction fun hlong => hminimal ⟨hder, hlong⟩)
            rw [hcontent]
            exact List.append_cancel_right (hafter ▸ hshort)

theorem raw_of_read {rules : Rules} {offset : Nat} {octets rest : Octets} {tlv : Tlv}
    (h : read rules offset octets = .ok (tlv, rest)) : octets = tlv.raw ++ rest := by
  obtain ⟨-, written, length, -, hoctets, -⟩ := parts_of_read h
  exact hoctets

theorem offset_of_read {rules : Rules} {offset : Nat} {octets rest : Octets} {tlv : Tlv}
    (h : read rules offset octets = .ok (tlv, rest)) : tlv.offset = offset :=
  (parts_of_read h).1

theorem ne_nil_of_read {rules : Rules} {offset : Nat} {octets rest : Octets} {tlv : Tlv}
    (h : read rules offset octets = .ok (tlv, rest)) : octets ≠ [] := by
  rintro rfl
  simp [read, Tag.decode] at h

/-- The same element is read wherever its octets lie, under the same rules or the
basic ones. -/
theorem read_again {rules rules' : Rules} {offset : Nat} {octets rest : Octets} {tlv : Tlv}
    (h : read rules offset octets = .ok (tlv, rest))
    (hrules : rules' = .distinguished → rules = .distinguished) (offset' : Nat) (rest' : Octets) :
    read rules' offset' (tlv.raw ++ rest') = .ok ({ tlv with offset := offset' }, rest') := by
  obtain ⟨-, written, length, hheader, -, hvalue, -, hwritten, hminimal⟩ := parts_of_read h
  have hread := @read_of_parts rules' tlv.tag _ _ _ hwritten hvalue
    (fun hder => by rw [hminimal (hrules hder), Length.length_encode]) offset' rest'
  rw [raw, hheader, List.append_assoc (tlv.tag.encode ++ written)]
  rw [hread, ← hheader]

/-- What follows an element does not change what is read. -/
theorem read_append {rules : Rules} {offset : Nat} {octets rest : Octets} {tlv : Tlv}
    (h : read rules offset octets = .ok (tlv, rest)) (more : Octets) :
    read rules offset (octets ++ more) = .ok (tlv, rest ++ more) := by
  obtain rfl := offset_of_read h
  rw [raw_of_read h, List.append_assoc]
  exact read_again h id tlv.offset (rest ++ more)

theorem read_encode {content : Octets} (h : content.length < Length.limit) (rules : Rules)
    (tag : Tag) (offset : Nat) (rest : Octets) :
    read rules offset (encode tag content ++ rest) =
      .ok (⟨tag, offset, headerOctets tag content.length, content⟩, rest) := by
  rw [encode, headerOctets, List.append_assoc (tag.encode ++ _)]
  exact read_of_parts (fun offset rest => Length.decode_encode h offset rest)
    (Length.value_ofNat _) (fun _ => Length.length_encode _) offset rest

theorem read_encode_alone {content : Octets} (h : content.length < Length.limit) (rules : Rules)
    (tag : Tag) (offset : Nat) :
    read rules offset (encode tag content) =
      .ok (⟨tag, offset, headerOctets tag content.length, content⟩, []) := by
  have hread := read_encode h rules tag offset []
  rw [List.append_nil] at hread
  exact hread

/-- Under the distinguished rules every element is in the form in which it is
written. -/
theorem header_of_read_distinguished {offset : Nat} {octets rest : Octets} {tlv : Tlv}
    (h : read .distinguished offset octets = .ok (tlv, rest)) :
    tlv.header = headerOctets tlv.tag tlv.content.length := by
  obtain ⟨-, written, length, hheader, -, -, -, -, hminimal⟩ := parts_of_read h
  rw [hheader, hminimal rfl, headerOctets]

/-- The octets are one element and nothing else. -/
def Complete (rules : Rules) (raw : Octets) : Prop :=
  ∃ tlv, read rules 0 raw = .ok (tlv, [])

theorem complete_encode {content : Octets} (h : content.length < Length.limit) (rules : Rules)
    (tag : Tag) : Complete rules (encode tag content) :=
  ⟨_, read_encode_alone h rules tag 0⟩

/-- What a complete element is read as at `offset`, in front of `rest`. -/
theorem Complete.read {rules : Rules} {raw : Octets} (h : Complete rules raw) (offset : Nat)
    (rest : Octets) :
    ∃ tlv, tlv.raw = raw ∧ tlv.offset = offset ∧
      Tlv.read rules offset (raw ++ rest) = .ok (tlv, rest) := by
  obtain ⟨tlv, hread⟩ := h
  have hraw := raw_of_read hread
  rw [List.append_nil] at hraw
  refine ⟨{ tlv with offset }, hraw.symm, rfl, ?_⟩
  rw [hraw]
  exact read_again hread id offset rest

/-- The parts of the element are those that its octets are read as. -/
def Legible (rules : Rules) (tlv : Tlv) : Prop :=
  read rules tlv.offset tlv.raw = .ok (tlv, [])

theorem legible_of_read {rules : Rules} {offset : Nat} {octets rest : Octets} {tlv : Tlv}
    (h : Tlv.read rules offset octets = .ok (tlv, rest)) : Legible rules tlv := by
  have hread := read_again h id offset []
  rw [List.append_nil, ← offset_of_read h] at hread
  exact hread

theorem Legible.read {rules : Rules} {tlv : Tlv} (h : Legible rules tlv) (rest : Octets) :
    Tlv.read rules tlv.offset (tlv.raw ++ rest) = .ok (tlv, rest) :=
  read_again h id tlv.offset rest

/-- At one place lies one element. -/
theorem Legible.unique {rules : Rules} {a b : Tlv} {rest rest' : Octets} (ha : Legible rules a)
    (hb : Legible rules b) (hoffset : a.offset = b.offset)
    (hoctets : a.raw ++ rest = b.raw ++ rest') : a = b ∧ rest = rest' := by
  have hread := ha.read rest
  rw [hoctets, hoffset, hb.read rest'] at hread
  injection hread with hpair
  obtain ⟨rfl, rfl⟩ := Prod.mk.inj hpair
  exact ⟨rfl, rfl⟩

theorem Legible.raw_ne_nil {rules : Rules} {tlv : Tlv} (h : Legible rules tlv) : tlv.raw ≠ [] :=
  ne_nil_of_read h

theorem Legible.raw_eq_encode {tlv : Tlv} (h : Legible .distinguished tlv) :
    tlv.raw = encode tlv.tag tlv.content := by
  rw [raw, header_of_read_distinguished h, encode]

theorem Legible.tag_and_content {rules : Rules} {tlv : Tlv} (h : Legible rules tlv) {tag : Tag}
    {content : Octets} (hlength : content.length < Length.limit)
    (hraw : tlv.raw = encode tag content) : tlv.tag = tag ∧ tlv.content = content := by
  have hread := read_encode_alone hlength rules tag tlv.offset
  rw [← hraw, h] at hread
  injection hread with hpair
  rw [(Prod.mk.inj hpair).1]
  exact ⟨rfl, rfl⟩

section Streams

@[simp] theorem stream_nil (rules : Rules) (offset : Nat) : stream rules offset [] = .done := by
  rw [stream]
  rfl

theorem stream_of_read {rules : Rules} {offset : Nat} {octets rest : Octets} {tlv : Tlv}
    (h : read rules offset octets = .ok (tlv, rest)) :
    stream rules offset octets = .next tlv (stream rules tlv.endOffset rest) := by
  have hsome : ¬ octets.isEmpty = true := by
    rw [List.isEmpty_iff]
    exact ne_nil_of_read h
  rw [stream, if_neg hsome]
  split
  · rename_i herror
    rw [h] at herror
    cases herror
  · rename_i hread
    rw [h] at hread
    cases hread
    rfl

theorem stream_of_last {rules : Rules} {offset : Nat} {octets : Octets} {tlv : Tlv}
    (h : read rules offset octets = .ok (tlv, [])) :
    stream rules offset octets = .next tlv .done := by
  rw [stream_of_read h, stream_nil]

theorem stream_of_error {rules : Rules} {offset : Nat} {octets : Octets} {error : Error}
    (hsome : ¬ octets.isEmpty = true) (h : read rules offset octets = .error error) :
    stream rules offset octets = .broken error := by
  rw [stream, if_neg hsome]
  split
  · rename_i herror
    rw [h] at herror
    cases herror
    rfl
  · rename_i hread
    rw [h] at hread
    cases hread

theorem eq_nil_of_stream_done {rules : Rules} {offset : Nat} {octets : Octets}
    (h : stream rules offset octets = .done) : octets = [] := by
  rw [stream] at h
  split at h
  · rename_i hempty
    exact List.isEmpty_iff.1 hempty
  · split at h <;> cases h

theorem read_of_stream_broken {rules : Rules} {offset : Nat} {octets : Octets} {error : Error}
    (h : stream rules offset octets = .broken error) :
    octets ≠ [] ∧ read rules offset octets = .error error := by
  rw [stream] at h
  split at h
  · cases h
  · rename_i hsome
    split at h
    · rename_i herror
      cases h
      exact ⟨mt List.isEmpty_iff.2 hsome, herror⟩
    · cases h

theorem read_of_stream_next {rules : Rules} {offset : Nat} {octets : Octets} {tlv : Tlv}
    {more : Stream} (h : stream rules offset octets = .next tlv more) :
    ∃ rest, read rules offset octets = .ok (tlv, rest) ∧
      more = stream rules tlv.endOffset rest := by
  rw [stream] at h
  split at h
  · cases h
  · split at h
    · cases h
    · rename_i tlv' rest hread
      cases h
      exact ⟨rest, hread, rfl⟩

/-- The octets, of which the first lies at `offset`, are these elements one after another. -/
inductive Splits (rules : Rules) : Nat → Octets → List Tlv → Prop where
  | nil (offset : Nat) : Splits rules offset [] []
  | cons {tlv : Tlv} {tlvs : List Tlv} {rest : Octets} (hlegible : tlv.Legible rules)
      (hrest : Splits rules tlv.endOffset rest tlvs) :
      Splits rules tlv.offset (tlv.raw ++ rest) (tlv :: tlvs)

theorem Splits.octets_eq {rules : Rules} {offset : Nat} {octets : Octets} {tlvs : List Tlv}
    (h : Splits rules offset octets tlvs) : octets = (tlvs.map raw).flatten := by
  induction h with
  | nil => rfl
  | cons _ _ ih => rw [ih, List.map_cons, List.flatten_cons]

/-- The stream of which these are all elements. -/
def Stream.ofList : List Tlv → Stream
  | [] => .done
  | tlv :: tlvs => .next tlv (ofList tlvs)

theorem stream_eq_ofList_iff {rules : Rules} {offset : Nat} {octets : Octets}
    {tlvs : List Tlv} :
    stream rules offset octets = .ofList tlvs ↔ Splits rules offset octets tlvs := by
  constructor
  · intro h
    induction tlvs generalizing offset octets with
    | nil =>
      rw [eq_nil_of_stream_done h]
      exact .nil offset
    | cons tlv tlvs ih =>
      obtain ⟨rest, hread, hmore⟩ := read_of_stream_next h
      rw [raw_of_read hread, ← offset_of_read hread]
      exact .cons (legible_of_read hread) (ih hmore.symm)
  · intro h
    induction h with
    | nil offset => exact stream_nil rules offset
    | @cons tlv _ rest hlegible _ ih =>
      rw [stream_of_read (hlegible.read rest), Stream.ofList]
      exact congrArg _ ih

end Streams

end Asn1.Tlv
