import Asn1.Value.Basic
import Mathlib.Logic.Relation

/-!
The values inside a value, at every depth. A field that is not set and a CHOICE that holds
nothing contribute none.
-/

namespace Asn1.Value

/-- What a value holds directly. -/
inductive Contains : Value → Value → Prop where
  | slot {grouping : Grouping} {slots : List (Slot Value)} {own : Option Policy}
      {slot : Slot Value} {part : Value} (hslot : slot ∈ slots) (hpart : part ∈ slot.content) :
      Contains (.record grouping slots own) part
  | item {grouping : Grouping} {type : String} {items : List Value} {own : Option Policy}
      {part : Value} (hpart : part ∈ items) : Contains (.elements grouping type items own) part
  | selected {alternatives : List Field} {index : Nat} {part : Value} {own : Option Policy} :
      Contains (.choice alternatives (some ⟨index, part⟩) own) part
  | inner {tagging : Tagging} {part : Value} {own : Option Policy} :
      Contains (.tagged tagging part own) part

theorem Contains.sizeOf_lt {value part : Value} (h : Contains value part) :
    sizeOf part < sizeOf value := by
  cases h with
  | @slot _ slots _ slot _ hslot hpart =>
    obtain ⟨field, content⟩ := slot
    cases hpart
    have := List.sizeOf_lt_of_mem hslot
    simp only [Slot.mk.sizeOf_spec, Option.some.sizeOf_spec, record.sizeOf_spec] at this ⊢
    omega
  | item hpart =>
    have := List.sizeOf_lt_of_mem hpart
    simp only [elements.sizeOf_spec]
    omega
  | selected =>
    simp only [choice.sizeOf_spec, Option.some.sizeOf_spec, Selection.mk.sizeOf_spec]
    omega
  | inner =>
    simp only [tagged.sizeOf_spec]
    omega

/-- What holds of a value as soon as it holds of all its parts holds of every value. -/
theorem contains_induction {P : Value → Prop}
    (h : ∀ value, (∀ part, Contains value part → P part) → P value) (value : Value) : P value :=
  h value fun part _ => contains_induction h part
termination_by sizeOf value
decreasing_by exact Contains.sizeOf_lt (by assumption)

/-- The value and everything inside it. -/
def Throughout (P : Value → Prop) (value : Value) : Prop :=
  ∀ part, Relation.ReflTransGen Contains value part → P part

section Throughout

variable {P Q : Value → Prop}

theorem throughout_iff {value : Value} :
    value.Throughout P ↔ P value ∧ ∀ part, Contains value part → part.Throughout P := by
  constructor
  · intro h
    refine ⟨h value .refl, ?_⟩
    intro part hpart inside hinside
    exact h inside (.head hpart hinside)
  · rintro ⟨hself, hparts⟩ inside hinside
    rcases hinside.cases_head with rfl | ⟨part, hpart, hinside⟩
    · exact hself
    · exact hparts part hpart inside hinside

theorem throughout_iff_self {value : Value} (h : ∀ part, ¬ Contains value part) :
    value.Throughout P ↔ P value := by
  rw [throughout_iff]
  refine and_iff_left ?_
  intro part hpart
  exact absurd hpart (h part)

theorem Throughout.self {value : Value} (h : value.Throughout P) : P value := h value .refl

theorem Throughout.part {value part : Value} (h : value.Throughout P)
    (hpart : Contains value part) : part.Throughout P :=
  (throughout_iff.1 h).2 part hpart

theorem Throughout.imp {value : Value} (h : value.Throughout P) (himp : ∀ part, P part → Q part) :
    value.Throughout Q :=
  fun part hpart => himp part (h part hpart)

@[simp] theorem throughout_leaf {primitive : Primitive} :
    (Value.leaf primitive).Throughout P ↔ P (.leaf primitive) := by
  apply throughout_iff_self
  rintro _ ⟨⟩

@[simp] theorem throughout_record {grouping : Grouping} {slots : List (Slot Value)}
    {own : Option Policy} :
    (Value.record grouping slots own).Throughout P ↔
      P (.record grouping slots own) ∧
        ∀ slot ∈ slots, ∀ part ∈ slot.content, part.Throughout P := by
  rw [throughout_iff]
  refine and_congr_right fun _ => ?_
  constructor
  · intro h slot hslot part hpart
    exact h part (.slot hslot hpart)
  · rintro h _ (⟨hslot, hpart⟩ | _)
    exact h _ hslot _ hpart

@[simp] theorem throughout_elements {grouping : Grouping} {type : String} {items : List Value}
    {own : Option Policy} :
    (Value.elements grouping type items own).Throughout P ↔
      P (.elements grouping type items own) ∧ ∀ item ∈ items, item.Throughout P := by
  rw [throughout_iff]
  refine and_congr_right fun _ => ?_
  constructor
  · intro h item hitem
    exact h item (.item hitem)
  · rintro h _ (_ | hpart)
    exact h _ hpart

@[simp] theorem throughout_unselected {alternatives : List Field} {own : Option Policy} :
    (Value.choice alternatives none own).Throughout P ↔ P (.choice alternatives none own) := by
  apply throughout_iff_self
  rintro _ ⟨⟩

@[simp] theorem throughout_selected {alternatives : List Field} {index : Nat} {part : Value}
    {own : Option Policy} :
    (Value.choice alternatives (some ⟨index, part⟩) own).Throughout P ↔
      P (.choice alternatives (some ⟨index, part⟩) own) ∧ part.Throughout P := by
  rw [throughout_iff]
  refine and_congr_right fun _ => ?_
  constructor
  · intro h
    exact h part .selected
  · rintro h _ ⟨⟩
    exact h

@[simp] theorem throughout_tagged {tagging : Tagging} {inner : Value} {own : Option Policy} :
    (Value.tagged tagging inner own).Throughout P ↔
      P (.tagged tagging inner own) ∧ inner.Throughout P := by
  rw [throughout_iff]
  refine and_congr_right fun _ => ?_
  constructor
  · intro h
    exact h inner .inner
  · rintro h _ ⟨⟩
    exact h

@[simp] theorem throughout_any {raw : Octets} : (Value.any raw).Throughout P ↔ P (.any raw) := by
  apply throughout_iff_self
  rintro _ ⟨⟩

end Throughout

end Asn1.Value
