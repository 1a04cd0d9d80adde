import Asn1.Value.Record

/-!
What the operations on fields, elements and alternatives do where they succeed.
-/

namespace Asn1

section Steps

variable {defs : Definitions} {index : Nat} {value : Value}

theorem Record.slot_eq_ok_iff {slots : List (Slot Value)} {slot : Slot Value} :
    Record.slot slots index = .ok slot ↔ slots[index]? = some slot := by
  unfold Record.slot
  cases slots[index]? <;> simp

theorem Record.checkType_eq_ok_iff {type : String} :
    Record.checkType defs index type value = .ok () ↔
      Value.sameType? defs value (defs.template type) = some true := by
  unfold Record.checkType
  split <;> simp_all

theorem Record.set_eq_ok_iff {slots slots' : List (Slot Value)} :
    Record.set defs slots index value = .ok slots' ↔
      ∃ slot, slots[index]? = some slot ∧
        Value.sameType? defs value (defs.template slot.field.type) = some true ∧
        slots' = slots.set index ⟨slot.field, some value⟩ := by
  unfold Record.set
  constructor
  · intro h
    split at h
    · cases h
    · rename_i slot hslot
      split at h
      · cases h
      · rename_i htype
        cases h
        exact ⟨slot, slot_eq_ok_iff.1 hslot, checkType_eq_ok_iff.1 htype, rfl⟩
  · rintro ⟨slot, hslot, htype, rfl⟩
    rw [slot_eq_ok_iff.2 hslot]
    simp only [checkType_eq_ok_iff.2 htype]

theorem Record.clear_eq_ok_iff {slots slots' : List (Slot Value)} :
    Record.clear slots index = .ok slots' ↔
      ∃ slot, slots[index]? = some slot ∧ slots' = slots.set index ⟨slot.field, none⟩ := by
  unfold Record.clear
  constructor
  · intro h
    split at h
    · cases h
    · rename_i slot hslot
      cases h
      exact ⟨slot, slot_eq_ok_iff.1 hslot, rfl⟩
  · rintro ⟨slot, hslot, rfl⟩
    rw [slot_eq_ok_iff.2 hslot]

theorem Elements.push_eq_ok_iff {type : String} {items items' : List Value} :
    Elements.push defs type items value = .ok items' ↔
      Value.sameType? defs value (defs.template type) = some true ∧ items' = items ++ [value] := by
  unfold Elements.push
  constructor
  · intro h
    split at h
    · cases h
    · rename_i htype
      cases h
      exact ⟨Record.checkType_eq_ok_iff.1 htype, rfl⟩
  · rintro ⟨htype, rfl⟩
    rw [Record.checkType_eq_ok_iff.2 htype]

theorem Choice.select_eq_ok_iff {alternatives : List Field} {selection : Selection Value} :
    Choice.select defs alternatives index value = .ok selection ↔
      ∃ field, alternatives[index]? = some field ∧
        Value.sameType? defs value (defs.template field.type) = some true ∧
        selection = ⟨index, value⟩ := by
  unfold Choice.select
  constructor
  · intro h
    split at h
    · cases h
    · rename_i field hfield
      split at h
      · cases h
      · rename_i htype
        cases h
        exact ⟨field, hfield, Record.checkType_eq_ok_iff.1 htype, rfl⟩
  · rintro ⟨field, hfield, htype, rfl⟩
    rw [hfield]
    simp only [Record.checkType_eq_ok_iff.2 htype]

end Steps

end Asn1
