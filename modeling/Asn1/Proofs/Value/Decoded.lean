import Asn1.Proofs.Value.Accepts
import Asn1.Proofs.Value.Overrides
import Asn1.Proofs.Value.Parts

/-!
What decoding leaves behind at every depth: leaves as their own decoders made them, no gap
where a field is not optional, in every CHOICE something, and in every ANY one element.
-/

namespace Asn1

/-- What the stricter rules read as one element, the basic ones do too. -/
theorem Tlv.Legible.complete {rules : Rules} {tlv : Tlv} (h : tlv.Legible rules) :
    Complete .basic tlv.raw := by
  have hrules : Rules.basic = .distinguished → rules = .distinguished := nofun
  have hagain := read_again h hrules 0 []
  rw [List.append_nil] at hagain
  exact ⟨_, hagain⟩

namespace Value

variable {defs : Definitions} {allowed : Policy → Prop}

/-- What a value itself has from being decoded, as apart from the values inside it. The
policies that it may have been decoded under are those allowed. -/
def Decoded (allowed : Policy → Prop) : Value → Prop
  | .leaf primitive => ∃ policy template content, allowed policy ∧
    Primitive.decode template policy.rules content = .ok primitive
  | .record _ slots _ => ∀ slot ∈ slots, slot.content = none → slot.field.optional = true
  | .elements _ _ _ _ => True
  | .choice alternatives selection _ =>
    ∃ index value, selection = some ⟨index, value⟩ ∧ index < alternatives.length
  | .tagged _ _ _ => True
  | .any raw => Tlv.Complete .basic raw

mutual

theorem Decodes.throughout_decoded {depth : Nat} {policy : Policy} {template result : Value}
    {source : Source} (h : Decodes defs depth policy template source result)
    (hpolicy : allowed policy) (htemplate : template.OverridesSatisfy defs allowed)
    {rules : Rules} (hsource : source.Legible rules) : result.Throughout (Decoded allowed) := by
  match h with
  | .leaf _ _ hresult => exact throughout_leaf.2 ⟨policy, _, _, hpolicy, hresult⟩
  | .record _ _ hslots =>
    have hparts := hslots.throughout_decoded (htemplate.own hpolicy) htemplate.fields rfl
    exact throughout_record.2
      ⟨fun slot hslot => (hparts slot hslot).1, fun slot hslot => (hparts slot hslot).2⟩
  | .elements _ _ hitems =>
    exact throughout_elements.2 ⟨trivial,
      hitems.throughout_decoded (htemplate.own hpolicy) (htemplate.mentioned .item) rfl⟩
  | .choice hfirst hfield =>
    have hat := Field.getElem?_of_firstAccepting hfirst
    obtain ⟨hindex, -⟩ := List.getElem?_eq_some_iff.1 hat
    exact throughout_selected.2 ⟨⟨_, _, rfl, hindex⟩,
      hfield.throughout_decoded (htemplate.own hpolicy) (htemplate.alternative hat) hsource⟩
  | .tagged hinner =>
    exact throughout_tagged.2 ⟨trivial,
      hinner.throughout_decoded (htemplate.own hpolicy) (htemplate.mentioned .inner)⟩
  | .any => exact throughout_any.2 (Tlv.Legible.complete hsource)

theorem DecodesUnder.throughout_decoded {policy : Policy} {tagging : Tagging}
    {inner result : Value} {source : Source}
    (h : DecodesUnder defs policy tagging inner source result) (hpolicy : allowed policy)
    (hinner : inner.OverridesSatisfy defs allowed) : result.Throughout (Decoded allowed) := by
  match h with
  | .explicit _ _ hwrapped hvalue =>
    obtain ⟨-, -, hread⟩ := Content.wrapped_eq_ok_iff.1 hwrapped
    exact hvalue.throughout_decoded hpolicy hinner (Tlv.legible_of_read hread)
  | .implicit _ _ hvalue =>
    have hbelow {content : Content} : (Source.below content).Legible .basic := trivial
    exact hvalue.throughout_decoded hpolicy hinner hbelow

theorem DecodesField.throughout_decoded {depth : Nat} {policy : Policy} {field : Field}
    {tlv : Tlv} {result : Value} (h : DecodesField defs depth policy field tlv result)
    (hpolicy : allowed policy)
    (htemplate : (defs.template field.type).OverridesSatisfy defs allowed) {rules : Rules}
    (htlv : tlv.Legible rules) : result.Throughout (Decoded allowed) := by
  match h with
  | .untagged _ hvalue => exact hvalue.throughout_decoded hpolicy htemplate htlv
  | .tagged _ hvalue => exact hvalue.throughout_decoded hpolicy htemplate

theorem DecodesSlots.throughout_decoded {policy : Policy} {fields : List Field}
    {stream : Tlv.Stream} {slots : List (Slot Value)}
    (h : DecodesSlots defs policy fields stream slots) (hpolicy : allowed policy)
    (hfields : ∀ field ∈ fields, (defs.template field.type).OverridesSatisfy defs allowed)
    {rules : Rules} {offset : Nat} {octets : Octets}
    (hstream : stream = Tlv.stream rules offset octets) :
    ∀ slot ∈ slots, (slot.content = none → slot.field.optional = true) ∧
      ∀ part ∈ slot.content, part.Throughout (Decoded allowed) := by
  match h with
  | .done hoptional =>
    intro slot hslot
    obtain ⟨field, hfield, rfl⟩ := List.mem_map.1 hslot
    exact ⟨fun _ => hoptional field hfield, nofun⟩
  | .ignored _ => exact nofun
  | .filled _ hvalue hrest =>
    obtain ⟨hfield, hfields⟩ := List.forall_mem_cons.1 hfields
    obtain ⟨rest, hread, hmore⟩ := Tlv.read_of_stream_next hstream.symm
    refine List.forall_mem_cons.2 ⟨⟨nofun, ?_⟩, hrest.throughout_decoded hpolicy hfields hmore⟩
    rintro _ ⟨⟩
    exact hvalue.throughout_decoded hpolicy hfield (Tlv.legible_of_read hread)
  | .skipped _ hoptional hrest =>
    obtain ⟨-, hfields⟩ := List.forall_mem_cons.1 hfields
    exact List.forall_mem_cons.2
      ⟨⟨fun _ => hoptional, nofun⟩, hrest.throughout_decoded hpolicy hfields hstream⟩

theorem DecodesItems.throughout_decoded {policy : Policy} {type : String} {stream : Tlv.Stream}
    {items : List Value} (h : DecodesItems defs policy type stream items)
    (hpolicy : allowed policy) (htype : (defs.template type).OverridesSatisfy defs allowed)
    {rules : Rules} {offset : Nat} {octets : Octets}
    (hstream : stream = Tlv.stream rules offset octets) :
    ∀ item ∈ items, item.Throughout (Decoded allowed) := by
  match h with
  | .done => exact nofun
  | .next hitem hrest =>
    obtain ⟨rest, hread, hmore⟩ := Tlv.read_of_stream_next hstream.symm
    exact List.forall_mem_cons.2
      ⟨hitem.throughout_decoded hpolicy htype (Tlv.legible_of_read hread),
        hrest.throughout_decoded hpolicy htype hmore⟩

end

/-- The same of complete decodings, on which the policy that the value resolves bears. -/
theorem throughout_decoded_of_decode {template value : Value} {policy : Policy} {octets : Octets}
    (hpolicy : allowed policy) (htemplate : template.OverridesSatisfy defs allowed)
    (h : decode defs template octets policy = .ok value) : value.Throughout (Decoded allowed) := by
  obtain ⟨tlv, rest, hread, hvalue, -⟩ := decode_eq_ok_iff.1 h
  exact (decodes_cleared.1 hvalue).throughout_decoded (htemplate.own hpolicy) htemplate
    (Tlv.legible_of_read hread)

theorem throughout_decoded_of_taggedDecode {template value : Value} {tagging : Tagging}
    {policy : Policy} {octets : Octets} (hpolicy : allowed policy)
    (htemplate : template.OverridesSatisfy defs allowed)
    (h : taggedDecode defs template tagging octets policy = .ok value) :
    value.Throughout (Decoded allowed) := by
  obtain ⟨tlv, rest, hread, hvalue, -⟩ := taggedDecode_eq_ok_iff.1 h
  exact (hvalue.of_cleared (cleared_cleared template)).throughout_decoded
    (htemplate.own hpolicy) htemplate

/-- Where it does not matter which policies are met, any template will do. -/
theorem decoded_of_decode {template value : Value} {policy : Policy} {octets : Octets}
    (h : decode defs template octets policy = .ok value) :
    value.Throughout (Decoded fun _ => True) :=
  throughout_decoded_of_decode trivial (overridesSatisfy_of_all (fun _ => trivial) template) h

theorem decoded_of_taggedDecode {template value : Value} {tagging : Tagging} {policy : Policy}
    {octets : Octets} (h : taggedDecode defs template tagging octets policy = .ok value) :
    value.Throughout (Decoded fun _ => True) :=
  throughout_decoded_of_taggedDecode trivial
    (overridesSatisfy_of_all (fun _ => trivial) template) h

end Value

end Asn1
