import Asn1.Proofs.Value.Decoded
import Asn1.Proofs.Value.Record
import Asn1.Proofs.Value.SingleElement
import Asn1.Value.Any

/-!
The values that can be come by: built from others, put into an ANY, or decoded. They are just
those in which every ANY holds one element or nothing. That needs to be known of all encodings
at once, as an ANY may be filled with the encoding of a value that has others in it.
-/

namespace Asn1

namespace Value

/-- A value that can be come by. No octets are so many that a length cannot tell their
number. -/
inductive Reachable : Value → Prop where
  | leaf (primitive : Primitive) : Reachable (.leaf primitive)
  | record {grouping : Grouping} {slots : List (Slot Value)} {own : Option Policy}
      (hslots : ∀ slot ∈ slots, ∀ part ∈ slot.content, Reachable part) :
      Reachable (.record grouping slots own)
  | elements {grouping : Grouping} {type : String} {items : List Value} {own : Option Policy}
      (hitems : ∀ item ∈ items, Reachable item) : Reachable (.elements grouping type items own)
  | unselected (alternatives : List Field) (own : Option Policy) :
      Reachable (.choice alternatives none own)
  | selected {alternatives : List Field} {index : Nat} {part : Value} {own : Option Policy}
      (hpart : Reachable part) : Reachable (.choice alternatives (some ⟨index, part⟩) own)
  | tagged {tagging : Tagging} {inner : Value} {own : Option Policy} (hinner : Reachable inner) :
      Reachable (.tagged tagging inner own)
  | emptyAny : Reachable (.any [])
  | ofOctets {raw : Octets} {value : Value} (h : anyOfOctets raw = .ok value) : Reachable value
  | ofValue {value : Value} {raw : Octets} (hvalue : Reachable value)
      (h : anyOfValue value = .ok (.any raw)) (hlength : raw.length < Length.limit) :
      Reachable (.any raw)
  | decoded {defs : Definitions} {template value : Value} {octets : Octets} {policy : Policy}
      (h : decode defs template octets policy = .ok value) : Reachable value
  | taggedDecoded {defs : Definitions} {template value : Value} {tagging : Tagging}
      {octets : Octets} {policy : Policy}
      (h : taggedDecode defs template tagging octets policy = .ok value) : Reachable value

theorem anyOfOctets_eq_ok_iff {raw : Octets} {value : Value} :
    anyOfOctets raw = .ok value ↔ Tlv.Complete .basic raw ∧ value = .any raw := by
  unfold anyOfOctets Tlv.Complete
  constructor
  · intro h
    split at h
    · cases h
    · rename_i tlv rest hread
      split at h
      · rename_i hrest
        cases h
        rw [List.isEmpty_iff.1 hrest] at hread
        exact ⟨⟨tlv, hread⟩, rfl⟩
      · cases h
  · rintro ⟨⟨tlv, hread⟩, rfl⟩
    rw [hread]
    rfl

theorem Decoded.intact {allowed : Policy → Prop} {value : Value} (h : value.Decoded allowed) :
    value.Intact := by
  cases value with
  | any => exact .inr h
  | leaf | record | elements | choice | tagged => trivial

theorem Reachable.intact {value : Value} (h : value.Reachable) : value.Throughout Intact := by
  induction h with
  | leaf => exact throughout_leaf.2 trivial
  | record _ ih => exact throughout_record.2 ⟨trivial, ih⟩
  | elements _ ih => exact throughout_elements.2 ⟨trivial, ih⟩
  | unselected => exact throughout_unselected.2 trivial
  | selected _ ih => exact throughout_selected.2 ⟨trivial, ih⟩
  | tagged _ ih => exact throughout_tagged.2 ⟨trivial, ih⟩
  | emptyAny => exact throughout_any.2 (.inl rfl)
  | ofOctets h =>
    obtain ⟨hcomplete, rfl⟩ := anyOfOctets_eq_ok_iff.1 h
    exact throughout_any.2 (.inr hcomplete)
  | ofValue _ h hlength ih =>
    obtain ⟨_, hencode, hraw⟩ := map_eq_ok_iff.1 h
    cases hraw
    obtain ⟨tlv, hread, -⟩ := element_of_encode ih hlength hencode
    exact throughout_any.2 (.inr ⟨tlv, hread⟩)
  | decoded h => exact (decoded_of_decode h).imp fun _ => Decoded.intact
  | taggedDecoded h => exact (decoded_of_taggedDecode h).imp fun _ => Decoded.intact

theorem reachable_iff {value : Value} : value.Reachable ↔ value.Throughout Intact := by
  refine ⟨Reachable.intact, ?_⟩
  induction value using contains_induction with
  | h value ih =>
    intro hintact
    cases value with
    | leaf => exact .leaf _
    | record =>
      exact .record fun slot hslot part hpart =>
        ih part (.slot hslot hpart) (hintact.part (.slot hslot hpart))
    | elements =>
      exact .elements fun item hitem => ih item (.item hitem) (hintact.part (.item hitem))
    | choice _ selection _ =>
      cases selection with
      | none => exact .unselected _ _
      | some => exact .selected (ih _ .selected (hintact.part .selected))
    | tagged => exact .tagged (ih _ .inner (hintact.part .inner))
    | any =>
      rcases hintact.self with rfl | hcomplete
      · exact .emptyAny
      · exact .ofOctets (anyOfOctets_eq_ok_iff.2 ⟨hcomplete, rfl⟩)

namespace Reachable

section Operations

variable {defs : Definitions}

theorem part {value part : Value} (h : value.Reachable) (hpart : Contains value part) :
    part.Reachable :=
  reachable_iff.2 (h.intact.part hpart)

theorem cleared {value : Value} (h : value.Reachable) : value.cleared.Reachable := by
  induction value using contains_induction with
  | h value ih =>
    cases value with
    | leaf => exact .leaf _
    | record =>
      apply Reachable.record
      intro slot hslot part hpart
      obtain ⟨_, -, rfl⟩ := List.mem_map.1 hslot
      cases hpart
    | elements =>
      apply Reachable.elements
      rintro _ ⟨⟩
    | choice => exact .unselected _ _
    | tagged _ inner => exact .tagged (ih inner .inner (h.part .inner))
    | any => exact .emptyAny

theorem setPolicy {value : Value} (h : value.Reachable) (own : Option Policy) :
    (value.setPolicy own).Reachable := by
  cases value with
  | leaf | any => exact h
  | record => exact .record fun _ hslot _ hpart => h.part (.slot hslot hpart)
  | elements => exact .elements fun _ hitem => h.part (.item hitem)
  | choice _ selection =>
    cases selection with
    | none => exact .unselected _ _
    | some => exact .selected (h.part .selected)
  | tagged => exact .tagged (h.part .inner)

theorem set {grouping : Grouping} {slots slots' : List (Slot Value)} {own : Option Policy}
    {index : Nat} {value : Value} (h : (Value.record grouping slots own).Reachable)
    (hvalue : value.Reachable) (hset : Record.set defs slots index value = .ok slots') :
    (Value.record grouping slots' own).Reachable := by
  obtain ⟨slot, -, -, rfl⟩ := Record.set_eq_ok_iff.1 hset
  refine .record ?_
  intro other hother part hpart
  rcases List.mem_or_eq_of_mem_set hother with hold | rfl
  · exact h.part (.slot hold hpart)
  · cases hpart
    exact hvalue

theorem clear {grouping : Grouping} {slots slots' : List (Slot Value)} {own : Option Policy}
    {index : Nat} (h : (Value.record grouping slots own).Reachable)
    (hclear : Record.clear slots index = .ok slots') :
    (Value.record grouping slots' own).Reachable := by
  obtain ⟨slot, -, rfl⟩ := Record.clear_eq_ok_iff.1 hclear
  refine .record ?_
  intro other hother part hpart
  rcases List.mem_or_eq_of_mem_set hother with hold | rfl
  · exact h.part (.slot hold hpart)
  · cases hpart

theorem push {grouping : Grouping} {type : String} {items items' : List Value}
    {own : Option Policy} {value : Value}
    (h : (Value.elements grouping type items own).Reachable) (hvalue : value.Reachable)
    (hpush : Elements.push defs type items value = .ok items') :
    (Value.elements grouping type items' own).Reachable := by
  obtain ⟨-, rfl⟩ := Elements.push_eq_ok_iff.1 hpush
  refine .elements ?_
  intro item hitem
  rcases List.mem_append.1 hitem with hold | hnew
  · exact h.part (.item hold)
  · rw [List.mem_singleton.1 hnew]
    exact hvalue

theorem select {alternatives : List Field} {own : Option Policy} {index : Nat} {value : Value}
    {selection : Selection Value} (hvalue : value.Reachable)
    (hselect : Choice.select defs alternatives index value = .ok selection) :
    (Value.choice alternatives (some selection) own).Reachable := by
  obtain ⟨field, -, -, rfl⟩ := Choice.select_eq_ok_iff.1 hselect
  exact .selected hvalue

end Operations

end Reachable

/-- What a value is encoded as is one element, and all ways to look at the value agree about
it. It is one under the distinguished rules as well, unless an ANY has been handed on. And
so every ANY that can be come by holds one element or nothing. -/
theorem encoded_as_one_element {value : Value} (h : value.Reachable) :
    (∀ policy octets, octets.length < Length.limit → value.encode policy = .ok octets →
      ∃ tlv, Tlv.read .basic 0 octets = .ok (tlv, []) ∧
        value.encodeParts policy = .ok (tlv.tag, tlv.content) ∧
        (∀ tag ∈ value.tag?, tag = tlv.tag) ∧
        (¬ value.ResolvesToAny → Tlv.read .distinguished 0 octets = .ok (tlv, []))) ∧
      ∀ raw, Relation.ReflTransGen Contains value (.any raw) →
        raw = [] ∨ Tlv.Complete .basic raw :=
  ⟨fun _ _ hlength hencode => element_of_encode h.intact hlength hencode,
    fun _ hany => h.intact _ hany⟩

/-- A CHOICE of an ANY, under an implicit tag that becomes an explicit one. -/
theorem tagged_any_encoded_as_one_element :
    ∃ tlv, Tlv.read .basic 0 [0x61, 0x03, 0x02, 0x01, 0x07] = .ok (tlv, []) ∧
      (Value.tagged ⟨.application, 1, .implicit⟩ (.choice [⟨"open", none, none, false, "open"⟩]
        (some ⟨0, .any [0x02, 0x01, 0x07]⟩) none) none).encodeParts .der =
        .ok (tlv.tag, tlv.content) := by
  have hany : (Value.any [0x02, 0x01, 0x07]).Reachable :=
    .ofOctets (anyOfOctets_eq_ok_iff.2 ⟨⟨_, rfl⟩, rfl⟩)
  have hvalue : (Value.tagged ⟨.application, 1, .implicit⟩
      (.choice [⟨"open", none, none, false, "open"⟩] (some ⟨0, .any [0x02, 0x01, 0x07]⟩) none)
      none).Reachable := .tagged (.selected hany)
  obtain ⟨tlv, hread, hparts, -⟩ :=
    (encoded_as_one_element hvalue).1 .der [0x61, 0x03, 0x02, 0x01, 0x07] (by decide) (by cbv)
  exact ⟨tlv, hread, hparts⟩

end Value

end Asn1
