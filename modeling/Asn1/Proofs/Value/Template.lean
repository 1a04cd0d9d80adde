import Asn1.Proofs.Primitive
import Asn1.Proofs.Tag
import Asn1.Proofs.Value.Decodes

/-!
What decoding starts from counts only without its content, and what it ends with has
the same type. Nor does the content change which tags a value accepts, or how a re-tag
goes on it.
-/

namespace Asn1

@[simp] theorem Grouping.constructed_tag (grouping : Grouping) :
    grouping.tag.constructed = true := by
  cases grouping <;> rfl

namespace Value

@[simp] theorem cleared_cleared (value : Value) : value.cleared.cleared = value.cleared := by
  match value with
  | .leaf primitive => rw [cleared, cleared, Primitive.cleared_cleared]
  | .record _ slots _ =>
    rw [cleared, cleared, List.map_map]
    rfl
  | .elements _ _ _ _ => rfl
  | .choice _ _ _ => rfl
  | .tagged _ inner _ => rw [cleared, cleared, cleared_cleared inner]
  | .any _ => rfl

@[simp] theorem policy?_cleared (value : Value) : value.cleared.policy? = value.policy? := by
  cases value <;> rfl

@[simp] theorem resolve_cleared (value : Value) (policy : Policy) :
    value.cleared.resolve policy = value.resolve policy := by
  rw [resolve, policy?_cleared, resolve]

theorem resolve_of_policy?_eq_none {value : Value} (h : value.policy? = none) (policy : Policy) :
    value.resolve policy = policy := by
  rw [resolve, h, Option.getD_none]

@[simp] theorem hasOwnTag_cleared (value : Value) :
    value.cleared.hasOwnTag = value.hasOwnTag := by
  cases value <;> rfl

end Value

namespace Tagging

@[simp] theorem modeFor_cleared (tagging : Tagging) (inner : Value) :
    tagging.modeFor inner.cleared = tagging.modeFor inner := by
  rw [modeFor, Value.hasOwnTag_cleared, modeFor]

theorem modeFor_of_cleared (tagging : Tagging) {a b : Value} (h : a.cleared = b.cleared) :
    tagging.modeFor a = tagging.modeFor b := by
  rw [← modeFor_cleared, h, modeFor_cleared]

theorem hasOwnTag_of_implicit {tagging : Tagging} {inner : Value}
    (h : tagging.modeFor inner = .implicit) : inner.hasOwnTag = true := by
  by_contra hnone
  simp [modeFor, hnone] at h

end Tagging

namespace Value

/-- The content decides about the bit only where there is no tag to carry it. -/
theorem isConstructed_cleared {value : Value} (h : value.hasOwnTag = true) :
    value.cleared.isConstructed = value.isConstructed := by
  match value with
  | .leaf primitive =>
    rw [cleared, isConstructed, isConstructed,
      Primitive.tag_of_cleared (Primitive.cleared_cleared primitive)]
  | .record _ _ _ => rfl
  | .elements _ _ _ _ => rfl
  | .choice _ _ _ => cases h
  | .tagged tagging inner _ =>
    rw [cleared, isConstructed, isConstructed, Tagging.modeFor_cleared]
    split
    · rfl
    · rename_i hmode
      exact isConstructed_cleared (Tagging.hasOwnTag_of_implicit hmode)
  | .any _ => cases h

end Value

namespace Tagging

@[simp] theorem outerTag_cleared (tagging : Tagging) (inner : Value) :
    tagging.outerTag inner.cleared = tagging.outerTag inner := by
  rw [outerTag, outerTag, modeFor_cleared]
  split
  · rfl
  · rename_i hmode
    rw [Value.isConstructed_cleared (hasOwnTag_of_implicit hmode)]

theorem accepts_eq_sameIdentity (tagging : Tagging) (inner : Value) (tag : Tag) :
    tagging.accepts tag = (tagging.outerTag inner).sameIdentity tag := by
  have hparts : ∀ constructed, tagging.accepts tag =
      (tagging.tag constructed).sameIdentity tag := by
    intro constructed
    rw [accepts, Tag.sameIdentity, Tagging.tag, Bool.beq_comm,
      Bool.beq_comm (a := tag.number)]
  rw [outerTag]
  split <;> exact hparts _

end Tagging

namespace Value

variable {defs : Definitions}

@[simp] theorem acceptsWithin_cleared (tag : Tag) (depth : Nat) (value : Value) :
    value.cleared.acceptsWithin defs tag depth = value.acceptsWithin defs tag depth := by
  cases value with
  | leaf primitive =>
    rw [cleared, acceptsWithin, acceptsWithin,
      Primitive.tag_of_cleared (Primitive.cleared_cleared primitive)]
  | record => rw [cleared, acceptsWithin, acceptsWithin]
  | elements => rw [cleared, acceptsWithin, acceptsWithin]
  | choice =>
    cases depth with
    | zero => rfl
    | succ depth => rw [cleared, acceptsWithin_choice, acceptsWithin_choice]
  | tagged => rw [cleared, acceptsWithin, acceptsWithin]
  | any => rw [cleared, acceptsWithin, acceptsWithin]

theorem acceptsWithin_of_cleared {a b : Value} (h : a.cleared = b.cleared) (tag : Tag)
    (depth : Nat) : a.acceptsWithin defs tag depth = b.acceptsWithin defs tag depth := by
  rw [← acceptsWithin_cleared, h, acceptsWithin_cleared]

/-- The content of what decoding starts from is not looked at. -/
theorem decodes_cleared {depth : Nat} {policy : Policy} {value result : Value} {source : Source} :
    Decodes defs depth policy value.cleared source result ↔
      Decodes defs depth policy value source result := by
  rw [← decodes_iff, ← decodes_iff]
  match value with
  | .leaf primitive =>
    have hcleared := Primitive.cleared_cleared primitive
    rw [cleared, decodeFrom_leaf, decodeFrom_leaf, Primitive.tag_of_cleared hcleared,
      Primitive.decode_of_cleared hcleared]
  | .record _ slots _ =>
    rw [cleared, decodeFrom_record, decodeFrom_record, List.map_map]
    rfl
  | .elements _ _ _ _ => rw [cleared, decodeFrom_elements, decodeFrom_elements]
  | .choice _ _ _ => rw [cleared, decodeFrom_choice, decodeFrom_choice]
  | .tagged _ inner _ =>
    have hinner {depth : Nat} {policy : Policy} {result : Value} {source : Source} :
        Decodes defs depth policy inner.cleared source result ↔
          Decodes defs depth policy inner source result := decodes_cleared
    rw [cleared, decodeFrom_tagged, decodeFrom_tagged]
    simp only [decodeUnder_eq_ok_iff, Tagging.outerTag_cleared, Tagging.modeFor_cleared,
      decodes_iff, hinner]
  | .any _ => rw [cleared, decodeFrom_any, decodeFrom_any]

theorem Decodes.of_cleared {depth : Nat} {policy : Policy} {a b result : Value} {source : Source}
    (h : Decodes defs depth policy a source result) (hcleared : a.cleared = b.cleared) :
    Decodes defs depth policy b source result := by
  rw [← decodes_cleared, ← hcleared]
  exact decodes_cleared.2 h

theorem DecodesUnder.of_cleared {policy : Policy} {tagging : Tagging} {a b result : Value}
    {source : Source} (h : DecodesUnder defs policy tagging a source result)
    (hcleared : a.cleared = b.cleared) : DecodesUnder defs policy tagging b source result := by
  have htag : tagging.outerTag a = tagging.outerTag b := by
    rw [← Tagging.outerTag_cleared, hcleared, Tagging.outerTag_cleared]
  have hmode := tagging.modeFor_of_cleared hcleared
  cases h with
  | explicit hcontent hexplicit hwrapped hinner =>
    exact .explicit (htag ▸ hcontent) (hmode ▸ hexplicit) hwrapped (hinner.of_cleared hcleared)
  | implicit hcontent himplicit hinner =>
    exact .implicit (htag ▸ hcontent) (hmode ▸ himplicit) (hinner.of_cleared hcleared)

theorem DecodesSlots.fields_eq {policy : Policy} {fields : List Field} {stream : Tlv.Stream}
    {slots : List (Slot Value)} (h : DecodesSlots defs policy fields stream slots) :
    slots.map (·.field) = fields := by
  match h with
  | .ignored _ => rfl
  | .done _ => simp [Function.comp_def]
  | .filled _ _ hrest => rw [List.map_cons, hrest.fields_eq]
  | .skipped _ _ hrest => rw [List.map_cons, hrest.fields_eq]

mutual

/-- What is decoded has the type it was decoded as. -/
theorem Decodes.cleared_eq {depth : Nat} {policy : Policy} {template result : Value}
    {source : Source} (h : Decodes defs depth policy template source result) :
    result.cleared = template.cleared := by
  match h with
  | .leaf _ _ hresult => rw [cleared, cleared, Primitive.cleared_of_decode hresult]
  | .record _ _ hslots =>
    have hfields := congrArg (List.map fun field => (⟨field, none⟩ : Slot Value))
      hslots.fields_eq
    simp only [List.map_map, Function.comp_def] at hfields
    rw [cleared, cleared, hfields]
  | .elements _ _ _ => rfl
  | .choice _ _ => rfl
  | .tagged hinner => rw [cleared, cleared, hinner.cleared_eq]
  | .any => rfl

theorem DecodesUnder.cleared_eq {policy : Policy} {tagging : Tagging} {inner result : Value}
    {source : Source} (h : DecodesUnder defs policy tagging inner source result) :
    result.cleared = inner.cleared := by
  match h with
  | .explicit _ _ _ hinner => exact hinner.cleared_eq
  | .implicit _ _ hinner => exact hinner.cleared_eq

end

theorem DecodesField.cleared_eq {depth : Nat} {policy : Policy} {field : Field} {tlv : Tlv}
    {result : Value} (h : DecodesField defs depth policy field tlv result) :
    result.cleared = (defs.template field.type).cleared := by
  cases h with
  | untagged _ hvalue => exact hvalue.cleared_eq
  | tagged _ hvalue => exact hvalue.cleared_eq

/-- A value without parts is decoded from an element that shows its tag. -/
theorem decode_leaf_eq_ok_iff {primitive : Primitive} {result : Value} {octets : Octets}
    {policy : Policy} :
    decode defs (.leaf primitive) octets policy = .ok result ↔
      ∃ tlv rest decoded, Tlv.read policy.rules 0 octets = .ok (tlv, rest) ∧
        (policy.strict = true → rest = []) ∧ tlv.tag = primitive.tag ∧
        primitive.decode policy.rules tlv.content = .ok decoded ∧ result = .leaf decoded := by
  rw [decode_eq_ok_iff]
  simp only [decodes_cleared]
  constructor
  · rintro ⟨tlv, rest, hread, hdecodes, hend⟩
    cases hdecodes with
    | leaf hcontent hform hresult =>
      obtain ⟨hsame, rfl⟩ := Source.contentUnder_element.1 hcontent
      have htag := Tag.eq_of_sameIdentity hsame ((Primitive.constructed_tag _).trans hform.symm)
      exact ⟨tlv, rest, _, hread, hend, htag.symm, hresult, rfl⟩
  · rintro ⟨tlv, rest, decoded, hread, hend, hshown, hresult, rfl⟩
    refine ⟨tlv, rest, hread, ?_, hend⟩
    refine .leaf (Source.contentUnder_element.2 ⟨?_, rfl⟩) ?_ hresult
    · rw [hshown, Tag.sameIdentity_refl]
    · exact (congrArg Tag.constructed hshown).trans (Primitive.constructed_tag _)

end Value

end Asn1
