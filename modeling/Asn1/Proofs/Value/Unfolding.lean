import Asn1.Proofs.Value.Interchangeable
import Asn1.Proofs.Value.Parts
import Mathlib.Data.List.Chain
import Mathlib.Data.List.Perm.Subperm

/-!
Types that unfold only so far. Element types lead to element types, and a comparison follows
them. Whether types meet again by way of fields does not matter to it.
-/

namespace Asn1

/-- A walk over more places than there are comes round. -/
theorem exists_round {α : Type} {step : α → α → Prop} {first : α} {rest places : List α}
    (hwalk : (first :: rest).IsChain step) (hplaces : ∀ place ∈ first :: rest, place ∈ places)
    (hlong : places.length ≤ rest.length) :
    ∃ place, Relation.ReflTransGen step first place ∧ Relation.TransGen step place place := by
  have hpairs : (first :: rest).Pairwise (Relation.TransGen step) :=
    (hwalk.imp fun _ _ hstep => .single hstep).pairwise
  have htwice : ∃ place ∈ first :: rest, Relation.TransGen step place place := by
    by_contra hnever
    have hdistinct : (first :: rest).Nodup := by
      refine hpairs.imp_of_mem ?_
      rintro place _ hplace - hback rfl
      exact hnever ⟨place, hplace, hback⟩
    have hfew := (hdistinct.subperm hplaces).length_le
    rw [List.length_cons] at hfew
    omega
  obtain ⟨place, hplace, hback⟩ := htwice
  refine ⟨place, ?_, hback⟩
  rcases List.mem_cons.1 hplace with rfl | hrest
  · exact .refl
  · exact (List.rel_of_pairwise_cons hpairs hrest).to_reflTransGen

namespace Value

/-- The names of the types that values of a type are made of. -/
def types : Value → List String
  | .leaf _ => []
  | .record _ slots _ => slots.map (·.field.type)
  | .elements _ type _ _ => [type]
  | .choice alternatives _ _ => alternatives.map (·.type)
  | .tagged _ inner _ => inner.types
  | .any _ => []

/-- The name of the element type, where there is one below the re-tags. -/
def elementType? : Value → Option String
  | .elements _ type _ _ => some type
  | .tagged _ inner _ => inner.elementType?
  | _ => none

theorem mem_types_of_elementType? {value : Value} {name : String}
    (h : value.elementType? = some name) : name ∈ value.types := by
  match value with
  | .elements _ _ _ _ =>
    cases h
    exact List.mem_singleton_self name
  | .tagged _ inner _ =>
    rw [types]
    exact mem_types_of_elementType? h

@[simp] theorem types_cleared (value : Value) : value.cleared.types = value.types := by
  match value with
  | .record _ slots _ =>
    rw [cleared, types, types, List.map_map]
    rfl
  | .tagged _ inner _ =>
    rw [cleared, types, types]
    exact types_cleared inner
  | .leaf _ | .elements _ _ _ _ | .choice _ _ _ | .any _ => rfl

/-- Values of the one type are made of values of the other. -/
def Uses (defs : Definitions) (name other : String) : Prop :=
  other ∈ (defs.template name).types

/-- The one type is a SEQUENCE OF or SET OF the other. -/
def Unfolds (defs : Definitions) (name other : String) : Prop :=
  (defs.template name).elementType? = some other

/-- No type that the value leads to unfolds to itself. -/
def NonRecursive (defs : Definitions) (value : Value) : Prop :=
  ∀ name ∈ value.types, ∀ type, Relation.ReflTransGen (Uses defs) name type →
    ¬ Relation.TransGen (Unfolds defs) type type

variable {defs : Definitions}

theorem Unfolds.uses {name other : String} (h : Unfolds defs name other) : Uses defs name other :=
  mem_types_of_elementType? h

namespace NonRecursive

theorem of_types {a b : Value} (h : a.NonRecursive defs) (htypes : b.types = a.types) :
    b.NonRecursive defs := by
  unfold NonRecursive
  rw [htypes]
  exact h

theorem of_cleared {a b : Value} (h : a.NonRecursive defs) (hcleared : b.cleared = a.cleared) :
    b.NonRecursive defs := by
  apply h.of_types
  rw [← types_cleared b, hcleared, types_cleared]

theorem template {value : Value} {name : String} (h : value.NonRecursive defs)
    (hname : name ∈ value.types) : (defs.template name).NonRecursive defs :=
  fun _ hother type htype => h name hname type (.head hother htype)

end NonRecursive

end Value

end Asn1
