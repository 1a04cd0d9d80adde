import Asn1.Proofs.Value.Accepts
import Asn1.Proofs.Value.Template

/-!
Values that hold what their fields and elements are declared to hold, overrides
included. Whatever is decoded is of that kind.
-/

namespace Asn1.Value

/-- Everything held has the type that its field, elements or alternative name, and so has
everything held further down. -/
inductive Typed (defs : Definitions) : Value → Prop where
  | leaf (primitive : Primitive) : Typed defs (.leaf primitive)
  | record {grouping : Grouping} {slots : List (Slot Value)} {own : Option Policy}
      (htypes : ∀ slot ∈ slots, ∀ value ∈ slot.content,
        value.cleared = (defs.template slot.field.type).cleared)
      (hslots : ∀ slot ∈ slots, ∀ value ∈ slot.content, Typed defs value) :
      Typed defs (.record grouping slots own)
  | elements {grouping : Grouping} {type : String} {items : List Value} {own : Option Policy}
      (htypes : ∀ item ∈ items, item.cleared = (defs.template type).cleared)
      (hitems : ∀ item ∈ items, Typed defs item) :
      Typed defs (.elements grouping type items own)
  | unselected {alternatives : List Field} {own : Option Policy} :
      Typed defs (.choice alternatives none own)
  | selected {alternatives : List Field} {index : Nat} {field : Field} {value : Value}
      {own : Option Policy} (hfield : alternatives[index]? = some field)
      (htype : value.cleared = (defs.template field.type).cleared) (hvalue : Typed defs value) :
      Typed defs (.choice alternatives (some ⟨index, value⟩) own)
  | tagged {tagging : Tagging} {inner : Value} {own : Option Policy} (hinner : Typed defs inner) :
      Typed defs (.tagged tagging inner own)
  | any (raw : Octets) : Typed defs (.any raw)

variable {defs : Definitions}

mutual

theorem Decodes.typed {depth : Nat} {policy : Policy} {template result : Value}
    {source : Source} (h : Decodes defs depth policy template source result) :
    result.Typed defs := by
  match h with
  | .leaf _ _ _ => exact .leaf _
  | .record _ _ hslots =>
    exact .record (fun slot hslot value hvalue => (hslots.typed slot hslot value hvalue).1)
      fun slot hslot value hvalue => (hslots.typed slot hslot value hvalue).2
  | .elements _ _ hitems =>
    exact .elements (fun item hitem => (hitems.typed item hitem).1)
      fun item hitem => (hitems.typed item hitem).2
  | .choice hfirst hfield =>
    obtain ⟨place, rfl, hat, -⟩ := Field.firstAccepting_eq_some_iff.1 hfirst
    rw [Nat.zero_add]
    exact .selected hat hfield.cleared_eq hfield.typed
  | .tagged hinner => exact .tagged hinner.typed
  | .any => exact .any _

theorem DecodesUnder.typed {policy : Policy} {tagging : Tagging} {inner result : Value}
    {source : Source} (h : DecodesUnder defs policy tagging inner source result) :
    result.Typed defs := by
  match h with
  | .explicit _ _ _ hinner => exact hinner.typed
  | .implicit _ _ hinner => exact hinner.typed

theorem DecodesField.typed {depth : Nat} {policy : Policy} {field : Field} {tlv : Tlv}
    {result : Value} (h : DecodesField defs depth policy field tlv result) :
    result.Typed defs := by
  match h with
  | .untagged _ hvalue => exact hvalue.typed
  | .tagged _ hvalue => exact hvalue.typed

theorem DecodesSlots.typed {policy : Policy} {fields : List Field} {stream : Tlv.Stream}
    {slots : List (Slot Value)} (h : DecodesSlots defs policy fields stream slots) :
    ∀ slot ∈ slots, ∀ value ∈ slot.content,
      value.cleared = (defs.template slot.field.type).cleared ∧ value.Typed defs := by
  match h with
  | .done _ => simp
  | .ignored _ => exact nofun
  | .filled _ hvalue hrest =>
    refine List.forall_mem_cons.2 ⟨?_, hrest.typed⟩
    rintro _ ⟨⟩
    exact ⟨hvalue.cleared_eq, hvalue.typed⟩
  | .skipped _ _ hrest => exact List.forall_mem_cons.2 ⟨nofun, hrest.typed⟩

theorem DecodesItems.typed {policy : Policy} {type : String} {stream : Tlv.Stream}
    {items : List Value} (h : DecodesItems defs policy type stream items) :
    ∀ item ∈ items, item.cleared = (defs.template type).cleared ∧ item.Typed defs := by
  match h with
  | .done => exact nofun
  | .next hitem hrest =>
    exact List.forall_mem_cons.2 ⟨⟨hitem.cleared_eq, hitem.typed⟩, hrest.typed⟩

end

end Asn1.Value
