import Asn1.Proofs.Value.Encoding
import Asn1.Proofs.Value.Parts

/-!
Which values can be encoded. It takes nothing that spans several values: each value asks
for something of its own, and no policy changes what that is.
-/

namespace Asn1.Value

/-- What a value itself asks for to be encoded, as apart from the values inside it. -/
def Ready : Value → Prop
  | .leaf primitive => ∃ content, primitive.encode = .ok content
  | .record _ slots _ => ∀ slot ∈ slots, slot.content = none → slot.field.optional = true
  | .elements _ _ _ _ => True
  | .choice alternatives selection _ =>
    ∃ index value, selection = some ⟨index, value⟩ ∧ index < alternatives.length
  | .tagged _ _ _ => True
  | .any raw => raw ≠ []

variable {policy : Policy}

theorem encodes_choice {alternatives : List Field} {selection : Option (Selection Value)}
    {own : Option Policy} :
    (Value.choice alternatives selection own).Encodes policy ↔
      ∃ index value, selection = some ⟨index, value⟩ ∧ index < alternatives.length ∧
        value.Encodes (own.getD policy) := by
  constructor
  · rintro ⟨_, hencoding⟩
    obtain ⟨index, value, field, raw, rfl, hfield, hraw, -⟩ := encoding_choice.1 hencoding
    obtain ⟨hindex, -⟩ := List.getElem?_eq_some_iff.1 hfield
    exact ⟨index, value, rfl, hindex, exists_encode_field_iff.1 ⟨raw, hraw⟩⟩
  · rintro ⟨index, value, rfl, hindex, hvalue⟩
    obtain ⟨raw, hraw⟩ := exists_encode_field_iff.2 hvalue
    exact ⟨.whole raw, encoding_choice.2
      ⟨index, value, _, raw, rfl, List.getElem?_eq_getElem hindex, hraw, rfl⟩⟩

theorem encodes_any {raw : Octets} : (Value.any raw).Encodes policy ↔ raw ≠ [] := by
  constructor
  · rintro ⟨_, hencoding⟩
    exact (encoding_any.1 hencoding).1
  · intro hsome
    exact ⟨.whole raw, encoding_any.2 ⟨hsome, rfl⟩⟩

/-- A value is ready, and so is everything it holds, exactly if it can be encoded. -/
theorem encodes_iff_throughout {value : Value} :
    value.Encodes policy ↔ value.Throughout Ready := by
  induction value using contains_induction generalizing policy with
  | h value ih =>
    cases value with
    | leaf => rw [encodes_leaf, throughout_leaf, Ready]
    | record _ slots own =>
      rw [encodes_record, throughout_record, Ready, ← forall₂_and]
      refine forall₂_congr fun slot hslot => and_congr_right fun _ => ?_
      exact forall₂_congr fun part hpart => ih part (.slot hslot hpart)
    | elements _ _ items own =>
      rw [encodes_elements, throughout_elements, Ready, true_and]
      exact forall₂_congr fun item hitem => ih item (.item hitem)
    | choice alternatives selection own =>
      rw [encodes_choice]
      rcases selection with _ | ⟨index, part⟩
      · simp [Ready]
      · have hpart : part.Encodes (own.getD policy) ↔ part.Throughout Ready := ih part .selected
        rw [throughout_selected, ← hpart]
        simp [Ready]
    | tagged _ inner own => rw [encodes_tagged, throughout_tagged, Ready, true_and, ih inner .inner]
    | any => rw [encodes_any, throughout_any, Ready]

end Asn1.Value
