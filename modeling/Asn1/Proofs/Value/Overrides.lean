import Asn1.Proofs.Value.Canonical

/-!
The policies that are met on the way down from a value. They are the one it is used under
and the overrides in its schema, which is to say in its own type and in those that it leads to.
-/

namespace Asn1.Value

variable {defs : Definitions} {allowed : Policy → Prop}

theorem Mentions.field {grouping : Grouping} {slots : List (Slot Value)} {own : Option Policy}
    {field : Field} (h : field ∈ slots.map (·.field)) :
    Mentions defs (.record grouping slots own) (defs.template field.type) := by
  obtain ⟨slot, hslot, rfl⟩ := List.mem_map.1 h
  exact .slot hslot

/-- Every override in the schema is one of those allowed. -/
def OverridesSatisfy (defs : Definitions) (allowed : Policy → Prop) (value : Value) : Prop :=
  ∀ type, Relation.ReflTransGen (Mentions defs) value type → ∀ own ∈ type.policy?, allowed own

/-- There are no overrides in the schema. -/
def WithoutOverrides (defs : Definitions) (value : Value) : Prop :=
  ∀ type, Relation.ReflTransGen (Mentions defs) value type → type.policy? = none

namespace OverridesSatisfy

theorem mentioned {value type : Value} (h : value.OverridesSatisfy defs allowed)
    (hmentions : Mentions defs value type) : type.OverridesSatisfy defs allowed :=
  fun other hother => h other (.head hmentions hother)

theorem own {value : Value} (h : value.OverridesSatisfy defs allowed) {policy : Policy}
    (hpolicy : allowed policy) : allowed (value.resolve policy) := by
  have hvalue := h value .refl
  unfold resolve
  cases hown : value.policy? with
  | none => exact hpolicy
  | some own => exact hvalue own hown

theorem fields {grouping : Grouping} {slots : List (Slot Value)} {own : Option Policy}
    (h : (Value.record grouping slots own).OverridesSatisfy defs allowed) :
    ∀ field ∈ slots.map (·.field), (defs.template field.type).OverridesSatisfy defs allowed :=
  fun _ hfield => h.mentioned (.field hfield)

theorem alternative {alternatives : List Field} {selection : Option (Selection Value)}
    {own : Option Policy} {index : Nat} {field : Field}
    (h : (Value.choice alternatives selection own).OverridesSatisfy defs allowed)
    (hfield : alternatives[index]? = some field) :
    (defs.template field.type).OverridesSatisfy defs allowed :=
  h.mentioned (.alternative (List.mem_of_getElem? hfield))

end OverridesSatisfy

theorem overridesSatisfy_of_all (h : ∀ policy, allowed policy) (value : Value) :
    value.OverridesSatisfy defs allowed :=
  fun _ _ own _ => h own

namespace WithoutOverrides

theorem mentioned {value type : Value} (h : value.WithoutOverrides defs)
    (hmentions : Mentions defs value type) : type.WithoutOverrides defs :=
  fun other hother => h other (.head hmentions hother)

theorem resolve_eq {value : Value} (h : value.WithoutOverrides defs) (policy : Policy) :
    value.resolve policy = policy := by
  unfold resolve
  rw [h value .refl]
  rfl

theorem overridesSatisfy {value : Value} (h : value.WithoutOverrides defs) :
    value.OverridesSatisfy defs allowed := by
  intro type htype own hown
  rw [h type htype] at hown
  cases hown

/-- A type that carries no override has none in its schema if none is in the types it is
made of. -/
theorem intro {value : Value} (hown : value.policy? = none)
    (h : ∀ type, Mentions defs value type → type.WithoutOverrides defs) :
    value.WithoutOverrides defs := by
  intro type hreaches
  rcases hreaches.cases_head with rfl | ⟨next, hmentions, hreaches⟩
  · exact hown
  · exact h next hmentions type hreaches

theorem leaf (primitive : Primitive) : (Value.leaf primitive).WithoutOverrides defs :=
  intro rfl nofun

theorem emptyRecord {grouping : Grouping} {fields : List Field}
    (h : ∀ field ∈ fields, (defs.template field.type).WithoutOverrides defs) :
    (Value.emptyRecord grouping fields).WithoutOverrides defs := by
  apply intro rfl
  rintro _ (hslot | _)
  obtain ⟨field, hfield, rfl⟩ := List.mem_map.1 hslot
  exact h field hfield

end WithoutOverrides

end Asn1.Value
