import Asn1.Proofs.Value.Calls

/-!
How deep values lie in each other. Every SEQUENCE, SET, SEQUENCE OF or SET OF on the way down costs
the two octets that the shortest header takes, so octets hold no deeper values than half their
number.
-/

namespace Asn1

namespace Value

/-- A SEQUENCE, SET, SEQUENCE OF or SET OF. -/
def isComposite : Value → Bool
  | .record _ _ _ => true
  | .elements _ _ _ _ => true
  | _ => false

mutual

/-- The most SEQUENCEs, SETs, SEQUENCE OFs and SET OFs that lie one inside the other, the value
itself included. -/
def nesting : Value → Nat
  | .leaf _ => 0
  | .record _ slots _ => slotsNesting slots + 1
  | .elements _ _ items _ => itemsNesting items + 1
  | .choice _ none _ => 0
  | .choice _ (some ⟨_, value⟩) _ => value.nesting
  | .tagged _ inner _ => inner.nesting
  | .any _ => 0

def slotsNesting : List (Slot Value) → Nat
  | [] => 0
  | ⟨_, none⟩ :: rest => slotsNesting rest
  | ⟨_, some value⟩ :: rest => max value.nesting (slotsNesting rest)

def itemsNesting : List Value → Nat
  | [] => 0
  | item :: rest => max item.nesting (itemsNesting rest)

end

theorem slotsNesting_unset (fields : List Field) :
    slotsNesting (fields.map fun field => ⟨field, none⟩) = 0 := by
  induction fields with
  | nil => rfl
  | cons field rest ih => exact ih

end Value

/-- The octets below the tag. -/
def Source.content : Source → Octets
  | .element tlv => tlv.content
  | .below content => content.octets

theorem Source.octets_of_contentUnder {source : Source} {expected : Tag} {content : Content}
    (h : source.contentUnder expected = .ok content) : content.octets = source.content := by
  cases source with
  | element tlv =>
    obtain ⟨-, rfl⟩ := contentUnder_element.1 h
    rfl
  | below _ =>
    cases h
    rfl

theorem Source.weight_stream_le {source : Source} {expected : Tag} {content : Content}
    (h : source.contentUnder expected = .ok content) (rules : Rules) :
    (Tlv.stream rules content.offset content.octets).weight ≤ source.content.length := by
  rw [← octets_of_contentUnder h]
  exact Tlv.weight_stream_le rules content.offset content.octets

namespace Value

variable {defs : Definitions}

section Weight

variable {policy : Policy}

/-- The elements of a stream that are left weigh no more than all of them. -/
theorem FillsFirst.weight_le {fields left : List Field} {stream last : Tlv.Stream}
    {slots : List (Slot Value)} (h : FillsFirst defs policy fields stream slots left last) :
    last.weight ≤ stream.weight := by
  induction h with
  | none | unset | skipped => first | exact Nat.le_refl _ | assumption
  | filled _ _ _ ih => exact Nat.le_trans ih (Nat.le_add_left _ _)

theorem DecodesFirst.weight_le {type : String} {stream last : Tlv.Stream} {items : List Value}
    (h : DecodesFirst defs policy type stream items last) : last.weight ≤ stream.weight := by
  induction h with
  | none => exact Nat.le_refl _
  | next _ _ ih => exact Nat.le_trans ih (Nat.le_add_left _ _)

end Weight

mutual

theorem Decodes.nesting_le {depth : Nat} {policy : Policy} {template result : Value}
    {source : Source} (h : Decodes defs depth policy template source result) :
    2 * result.nesting ≤ source.content.length + 2 := by
  match h with
  | .leaf _ _ _ => exact Nat.zero_le _
  | .record hcontent _ hslots =>
    have hparts := hslots.nesting_le
    have hstream := Source.weight_stream_le hcontent
    rw [nesting]
    exact Nat.add_le_add_right (Nat.le_trans hparts (hstream _)) 2
  | .elements hcontent _ hitems =>
    have hparts := hitems.nesting_le
    have hstream := Source.weight_stream_le hcontent
    rw [nesting]
    exact Nat.add_le_add_right (Nat.le_trans hparts (hstream _)) 2
  | .choice _ hfield =>
    rw [nesting]
    exact hfield.nesting_le
  | .tagged hinner =>
    rw [nesting]
    exact hinner.nesting_le
  | .any => exact Nat.zero_le _

theorem DecodesUnder.nesting_le {policy : Policy} {tagging : Tagging} {inner result : Value}
    {source : Source} (h : DecodesUnder defs policy tagging inner source result) :
    2 * result.nesting ≤ source.content.length + 2 := by
  match h with
  | .explicit hcontent _ hwrapped hinner =>
    have hwithin := Content.weight_of_wrapped hwrapped
    have hbelow := hinner.nesting_le
    rw [Source.octets_of_contentUnder hcontent, Tlv.weight] at hwithin
    rw [Source.content] at hbelow
    omega
  | .implicit hcontent _ hinner =>
    rw [← Source.octets_of_contentUnder hcontent]
    exact hinner.nesting_le

theorem DecodesField.nesting_le {depth : Nat} {policy : Policy} {field : Field} {tlv : Tlv}
    {result : Value} (h : DecodesField defs depth policy field tlv result) :
    2 * result.nesting ≤ tlv.weight := by
  match h with
  | .untagged _ hvalue => exact hvalue.nesting_le
  | .tagged _ hvalue => exact hvalue.nesting_le

theorem DecodesSlots.nesting_le {policy : Policy} {fields : List Field} {stream : Tlv.Stream}
    {slots : List (Slot Value)} (h : DecodesSlots defs policy fields stream slots) :
    2 * slotsNesting slots ≤ stream.weight := by
  match h with
  | .done _ =>
    rw [slotsNesting_unset]
    exact Nat.zero_le _
  | .ignored _ => exact Nat.zero_le _
  | .filled _ hvalue hrest =>
    have := hvalue.nesting_le
    have := hrest.nesting_le
    rw [slotsNesting, Tlv.Stream.weight]
    omega
  | .skipped _ _ hrest => exact hrest.nesting_le

theorem DecodesItems.nesting_le {policy : Policy} {type : String} {stream : Tlv.Stream}
    {items : List Value} (h : DecodesItems defs policy type stream items) :
    2 * itemsNesting items ≤ stream.weight := by
  match h with
  | .done => exact Nat.zero_le _
  | @DecodesItems.next _ _ _ tlv rest item items hitem hrest =>
    have hitem : 2 * item.nesting ≤ tlv.weight := hitem.nesting_le
    have := hrest.nesting_le
    rw [itemsNesting, Tlv.Stream.weight]
    omega

end

/-- What is decoded from octets is nested no deeper than they have pairs. -/
theorem nesting_le_of_decode {value result : Value} {octets : Octets} {policy : Policy}
    (h : decode defs value octets policy = .ok result) : 2 * result.nesting ≤ octets.length := by
  obtain ⟨tlv, rest, hread, hresult, -⟩ := decode_eq_ok_iff.1 h
  have hroot : 2 * result.nesting ≤ tlv.weight := hresult.nesting_le
  have hoctets := Tlv.weight_le_of_read hread
  omega

theorem nesting_le_of_taggedDecode {value result : Value} {tagging : Tagging} {octets : Octets}
    {policy : Policy} (h : taggedDecode defs value tagging octets policy = .ok result) :
    2 * result.nesting ≤ octets.length := by
  obtain ⟨tlv, rest, hread, hresult, -⟩ := taggedDecode_eq_ok_iff.1 h
  have hroot : 2 * result.nesting ≤ tlv.weight := hresult.nesting_le
  have hoctets := Tlv.weight_le_of_read hread
  omega

end Value

namespace Call

/-- The octets that the call has to decode, below the tag if it has been read. A call that encodes
has none. -/
def octets : Call → Octets
  | .decode _ _ octets _ => octets
  | .taggedDecode _ _ _ octets _ => octets
  | .decoding _ _ _ _ source => source.content
  | .decodingUnder _ _ _ _ source => source.content
  | .encode _ _ => []
  | .taggedEncode _ _ _ => []
  | .encoding _ _ => []
  | .encodingUnder _ _ _ => []

theorem octets_encodingCall (field : Field) (policy : Policy) (value : Value) :
    (field.encodingCall policy value).octets = [] := by
  rw [Field.encodingCall]
  split <;> rfl

theorem octets_decodingCall (field : Field) (defs : Definitions) (depth : Nat)
    (policy : Policy) (tlv : Tlv) :
    (field.decodingCall defs depth policy tlv).octets = tlv.content := by
  rw [Field.decodingCall]
  split <;> rfl

theorem Passes.length_le {call part : Call} (h : call.Passes part) :
    part.octets.length ≤ call.octets.length := by
  cases h with
  | encode | taggedEncode | encoding | encodingUnder | decoding => exact Nat.le_refl _
  | decode hread | taggedDecode hread =>
    have hoctets := Tlv.weight_le_of_read hread
    rw [Tlv.weight] at hoctets
    simp only [octets, Source.content]
    omega
  | @explicit _ _ _ _ source _ tlv _ hcontent _ hwrapped =>
    have hwithin := Content.weight_of_wrapped hwrapped
    rw [Source.octets_of_contentUnder hcontent, Tlv.weight] at hwithin
    show tlv.content.length ≤ source.content.length
    omega
  | @implicit _ _ _ _ source content hcontent =>
    show content.octets.length ≤ source.content.length
    rw [Source.octets_of_contentUnder hcontent]

/-- A part of a composite has at least two octets fewer, those that its own header takes. What a
CHOICE holds has the same ones. -/
theorem Crosses.length_le_of_decoding {defs : Definitions} {depth : Nat} {policy : Policy}
    {value : Value} {source : Source} {index : Nat} {name : String} {part : Call}
    (h : (Call.decoding defs depth policy value source).Crosses index name part) :
    part.octets.length + (if value.isComposite then 2 else 0) ≤ source.content.length := by
  cases h with
  | decodingSlot hcontent hbefore =>
    have hstream := Source.weight_stream_le (Source.contentUnder_of_contentAs hcontent)
    have hleft := Nat.le_trans hbefore.weight_le (hstream _)
    rw [Tlv.Stream.weight, Tlv.weight] at hleft
    rw [octets_decodingCall, Value.isComposite, if_pos rfl]
    omega
  | decodingItem hcontent hbefore =>
    have hstream := Source.weight_stream_le (Source.contentUnder_of_contentAs hcontent)
    have hleft := Nat.le_trans hbefore.weight_le (hstream _)
    rw [Tlv.Stream.weight, Tlv.weight] at hleft
    rw [octets, Source.content, Value.isComposite, if_pos rfl]
    omega
  | decodingAlternative =>
    rw [octets_decodingCall]
    exact Nat.le_refl _

theorem Crosses.length_le {call part : Call} {index : Nat} {name : String}
    (h : call.Crosses index name part) : part.octets.length ≤ call.octets.length := by
  cases call with
  | decoding => exact Nat.le_of_add_right_le h.length_le_of_decoding
  | encoding =>
    cases h with
    | encodingItem => exact Nat.le_refl _
    | encodingSlot | encodingSelected =>
      rw [octets_encodingCall]
      exact Nat.le_refl _
  | encode | taggedEncode | decode | taggedDecode | encodingUnder | decodingUnder => cases h

/-- However far calls lead, they hand on no more octets than there are. -/
theorem Reaches.length_le {call last : Call} {path : List (Nat × String)}
    (h : call.Reaches path last) : last.octets.length ≤ call.octets.length := by
  induction h with
  | self => exact Nat.le_refl _
  | passed hpart _ ih => exact Nat.le_trans ih hpart.length_le
  | crossed hpart _ ih => exact Nat.le_trans ih hpart.length_le

/-- All calls inside a composite have at least two octets fewer than it has. -/
theorem Reaches.length_le_of_composite {defs : Definitions} {depth : Nat} {policy : Policy}
    {value : Value} {source : Source} {path : List (Nat × String)} {last : Call}
    (h : (Call.decoding defs depth policy value source).Reaches path last)
    (hcomposite : value.isComposite = true) (hinside : path ≠ []) :
    last.octets.length + 2 ≤ source.content.length := by
  cases h with
  | self => exact absurd rfl hinside
  | passed hpart =>
    cases hpart
    cases hcomposite
  | crossed hpart hlast =>
    have hfewer := hpart.length_le_of_decoding
    rw [if_pos hcomposite] at hfewer
    exact Nat.le_trans (Nat.add_le_add_right hlast.length_le 2) hfewer

end Call

end Asn1
