import Asn1.Proofs.Value.Accepts
import Asn1.Proofs.Value.Encoding

/-!
What it takes for an encoding to be read back. The octets have to lead to the fields they
come from, and what the distinguished rules refuse must not be written under them.
-/

namespace Asn1

/-- An encoding of the value as this field begins with the tag. -/
def Field.Emits (field : Field) (policy : Policy) (value : Value) (tag : Tag) : Prop :=
  ∃ octets, field.encode 0 policy value (value.encoding policy) = .ok octets ∧
    Value.rawTag? octets = some tag

namespace Value

/-- The first field that is set, with its content. -/
def firstSet : List (Slot Value) → Option (Field × Value)
  | [] => none
  | ⟨_, none⟩ :: rest => firstSet rest
  | ⟨field, some value⟩ :: _ => some (field, value)

/-- No unset field would take the element of the set one that comes next. -/
def Routed (defs : Definitions) (policy : Policy) : List (Slot Value) → Prop
  | [] => True
  | ⟨field, none⟩ :: rest =>
    (∀ next value tag, firstSet rest = some (next, value) → next.Emits policy value tag →
      field.accepts? defs tag = some false) ∧ Routed defs policy rest
  | ⟨_, some _⟩ :: rest => Routed defs policy rest

/-- What it takes for a value to be read back, its types aside. Its element is read under
the rules of `reader`, and itself encoded under `policy`. -/
inductive Recoverable (defs : Definitions) : Rules → Policy → Value → Prop where
  | leaf {reader : Rules} {policy : Policy} {primitive : Primitive}
      (hpadded : primitive.PaddedUnder policy.rules) :
      Recoverable defs reader policy (.leaf primitive)
  | record {reader : Rules} {policy : Policy} {grouping : Grouping} {slots : List (Slot Value)}
      {own : Option Policy} (hrouted : Routed defs (own.getD policy) slots)
      (hslots : ∀ slot ∈ slots, ∀ value ∈ slot.content,
        Recoverable defs (own.getD policy).rules (own.getD policy) value) :
      Recoverable defs reader policy (.record grouping slots own)
  | elements {reader : Rules} {policy : Policy} {grouping : Grouping} {type : String}
      {items : List Value} {own : Option Policy} (hitems : ∀ item ∈ items,
        Recoverable defs (own.getD policy).rules (own.getD policy) item) :
      Recoverable defs reader policy (.elements grouping type items own)
  | unselected {reader : Rules} {policy : Policy} {alternatives : List Field}
      {own : Option Policy} :
      Recoverable defs reader policy (.choice alternatives none own)
  /-- An alternative without a tag of its own shares the element with the CHOICE. -/
  | selected {reader : Rules} {policy : Policy} {alternatives : List Field} {index : Nat}
      {field : Field} {value : Value} {own : Option Policy}
      (hfield : alternatives[index]? = some field)
      (hfirst : ∀ earlier ∈ alternatives.take index, ∀ tag,
        field.Emits (own.getD policy) value tag → earlier.accepts? defs tag = some false)
      (hvalue : Recoverable defs (if field.number.isSome then (own.getD policy).rules else reader)
        (own.getD policy) value) :
      Recoverable defs reader policy (.choice alternatives (some ⟨index, value⟩) own)
  | tagged {reader : Rules} {policy : Policy} {tagging : Tagging} {inner : Value}
      {own : Option Policy}
      (hinner : Recoverable defs (own.getD policy).rules (own.getD policy) inner) :
      Recoverable defs reader policy (.tagged tagging inner own)
  /-- An ANY holds one element as the basic rules have it; the distinguished ones are
  stricter about its length. -/
  | any {reader : Rules} {policy : Policy} {raw : Octets} (hraw : Tlv.Complete reader raw) :
      Recoverable defs reader policy (.any raw)

end Value

variable {defs : Definitions} {policy : Policy}

theorem Field.emits_of_encode {field : Field} {value : Value} {index : Nat} {octets : Octets}
    {tag : Tag} (h : field.encode index policy value (value.encoding policy) = .ok octets)
    (htag : Value.rawTag? octets = some tag) : field.Emits policy value tag := by
  obtain ⟨bare, wrapped, hwrapped⟩ := Field.encode_eq_ok_iff.1 h
  exact ⟨octets, Field.encode_eq_ok_iff.2 ⟨bare, wrapped, hwrapped⟩, htag⟩

namespace Value

theorem accepts_tag (tagging : Tagging) (constructed : Bool) :
    tagging.accepts (tagging.tag constructed) = true := by
  simp [Tagging.accepts, Tagging.tag]

section Numbered

/-- A tagged field emits its own number. -/
theorem accepts_of_emits {field : Field} {tagging : Tagging} {value : Value} {tag : Tag}
    (htagging : field.tagging policy = some tagging) (hemits : field.Emits policy value tag) :
    tagging.accepts tag = true := by
  obtain ⟨octets, hencode, htag⟩ := hemits
  obtain ⟨bare, wrapped, -, hwrap, rfl⟩ := Field.encode_eq_ok_iff.1 hencode
  rcases Field.wrap_eq_ok_iff.1 hwrap with ⟨hnone, -⟩ | ⟨_, hsome, happly⟩
  · rw [htagging] at hnone
    cases hnone
  · rw [htagging] at hsome
    cases hsome
    rcases Tagging.apply_eq_ok_iff.1 happly with ⟨-, rfl⟩ | ⟨-, _, _, -, rfl⟩ <;>
    · rw [Encoding.octets, rawTag?_encode] at htag
      cases htag
      exact accepts_tag tagging _

theorem mem_of_firstSet {slots : List (Slot Value)} {field : Field} {value : Value}
    (h : firstSet slots = some (field, value)) : field ∈ slots.map (·.field) := by
  induction slots with
  | nil => cases h
  | cons slot rest ih =>
    obtain ⟨first, content⟩ := slot
    cases content with
    | none => exact List.mem_cons_of_mem _ (ih h)
    | some =>
      cases h
      exact List.mem_cons_self

/-- Where all fields have context tags of different numbers, none is in another's way. -/
theorem routed_of_numbers {slots : List (Slot Value)}
    (hnumbers : ∀ slot ∈ slots, slot.field.number.isSome = true)
    (hdistinct : (slots.map (·.field)).Pairwise fun a b => a.number ≠ b.number) :
    Routed defs policy slots := by
  induction slots with
  | nil => trivial
  | cons slot rest ih =>
    obtain ⟨hslot, hslots⟩ := List.forall_mem_cons.1 hnumbers
    obtain ⟨hothers, hpairwise⟩ := List.pairwise_cons.1 hdistinct
    have hrest := ih hslots hpairwise
    obtain ⟨field, content⟩ := slot
    cases content with
    | some => exact hrest
    | none =>
      refine ⟨?_, hrest⟩
      intro next value tag hnext hemits
      have hmem := mem_of_firstSet hnext
      obtain ⟨nextSlot, hnextSlot, rfl⟩ := List.mem_map.1 hmem
      obtain ⟨number, hnumber⟩ := Option.isSome_iff_exists.1 hslot
      obtain ⟨other, hother⟩ := Option.isSome_iff_exists.1 (hslots nextSlot hnextSlot)
      have hdiffer := hothers _ hmem
      rw [hnumber, hother] at hdiffer
      have htagging : nextSlot.field.tagging policy =
          some ⟨.context, other, nextSlot.field.mode.getD policy.tagging⟩ := by
        rw [Field.tagging, hother]
        rfl
      have haccepts := accepts_of_emits htagging hemits
      simp only [Tagging.accepts, Bool.and_eq_true, beq_iff_eq] at haccepts
      rw [Field.accepts?, Field.acceptsWithin, Field.acceptsBy, hnumber]
      simp only [haccepts.1, haccepts.2, beq_self_eq_true, Bool.true_and, Option.some_inj,
        beq_eq_false_iff_ne]
      rintro rfl
      exact hdiffer rfl

end Numbered

end Value

end Asn1
