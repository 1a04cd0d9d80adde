import Asn1.Kerberos.PaData
import Asn1.Proofs.Kerberos.Field
import Asn1.Proofs.Value.Canonical
import Asn1.Proofs.Value.RoundTrip

/-!
Structures that are faithful to the values they are written as. Their encodings are read
back under every policy, and what is read strictly is what they are encoded as.
-/

namespace Asn1.Kerberos

theorem decode_eq_ok_iff {α : Type} [Structure α] {item : α} {octets : Octets} {policy : Policy} :
    decode α octets policy = .ok item ↔
      ∃ value, (Structure.template α).decode definitions octets policy = .ok value ∧
        Structure.ofValue value = .ok item := by
  rw [decode]
  cases (Structure.template α).decode definitions octets policy <;> simp

/-- Encapsulating stores the type and the strict encoding, and succeeds just where there is one. -/
theorem encapsulate_eq_ok_iff {α : Type} [Structure α] {item : α} {padataType : Int32}
    {data : PaData} :
    PaData.encapsulate padataType item = .ok data ↔
      data.padataType = padataType ∧ encode item .der = .ok data.padataValue := by
  obtain ⟨storedType, stored⟩ := data
  rw [PaData.encapsulate, map_eq_ok_iff]
  constructor
  · rintro ⟨octets, hencode, hdata⟩
    obtain ⟨rfl, rfl⟩ := PaData.mk.inj hdata
    exact ⟨rfl, hencode⟩
  · rintro ⟨rfl, hencode⟩
    exact ⟨stored, hencode, rfl⟩

theorem decapsulate_eq_ok_iff {α : Type} [Structure α] {item : α} {data : PaData} :
    PaData.decapsulate α data = .ok item ↔ decode α data.padataValue .der = .ok item := by
  rw [PaData.decapsulate]
  cases decode α data.padataValue .der <;> simp

/-- GeneralString takes no other text. -/
def IsAscii (text : String) : Prop := ∀ c ∈ text.toList, c.toNat < 128

/-- A value of the type of the template and an item that is read from it are the same. -/
class LawfulStructure (α : Type) [Structure α] where
  /-- The strings that an item is written with. -/
  texts : α → List String
  typed (item : α) : (Structure.toValue item).Typed definitions
  cleared (item : α) : (Structure.toValue item).cleared = Structure.template α
  recoverable (item : α) (policy : Policy) :
    Value.Recoverable definitions policy.rules policy (Structure.toValue item)
  encodes_iff (item : α) (policy : Policy) :
    (Structure.toValue item).Encodes policy ↔ ∀ text ∈ texts item, IsAscii text
  policy?_template : (Structure.template α).policy? = none
  exacting : (Structure.template α).ExactingThroughout definitions
  ofValue_eq_ok_iff {value : Value} {item : α} (htyped : value.Typed definitions)
    (hcleared : value.cleared = Structure.template α) :
    Structure.ofValue value = .ok item ↔ value = Structure.toValue item

section Laws

variable {α : Type} [Structure α] [LawfulStructure α] {item : α} {octets : Octets}

theorem resolve_toValue (item : α) (policy : Policy) :
    (Structure.toValue item).resolve policy = policy := by
  rw [← Value.resolve_cleared, LawfulStructure.cleared, Value.resolve,
    LawfulStructure.policy?_template]
  rfl

theorem decode_of_encode {policy : Policy} (hlength : octets.length < Length.limit)
    (h : encode item policy = .ok octets) : decode α octets policy = .ok item := by
  have htyped := LawfulStructure.typed item
  have hvalue := LawfulStructure.recoverable item policy
  rw [← resolve_toValue item policy] at hvalue
  have hdecode := Value.decode_of_encode htyped hvalue hlength h
  rw [LawfulStructure.cleared] at hdecode
  rw [decode, hdecode]
  exact (LawfulStructure.ofValue_eq_ok_iff htyped (LawfulStructure.cleared item)).2 rfl

theorem exists_encode_iff_ascii {policy : Policy} :
    (∃ octets, encode item policy = .ok octets) ↔
      ∀ text ∈ LawfulStructure.texts item, IsAscii text :=
  Value.exists_encode_iff.trans (LawfulStructure.encodes_iff item policy)

theorem encode_of_decode (h : decode α octets .der = .ok item) :
    encode item .der = .ok octets := by
  obtain ⟨value, hvalue, hitem⟩ := decode_eq_ok_iff.1 h
  have hencode := Value.encode_of_decode LawfulStructure.exacting ⟨rfl, rfl⟩ hvalue
  obtain ⟨tlv, rest, -, hdecodes, -⟩ := Value.decode_eq_ok_iff.1 hvalue
  have hcleared : (Structure.template α).cleared = Structure.template α := by
    rw [← LawfulStructure.cleared item, Value.cleared_cleared]
  have htype := hdecodes.cleared_eq
  rw [Value.cleared_cleared, hcleared] at htype
  rw [(LawfulStructure.ofValue_eq_ok_iff hdecodes.typed htype).1 hitem] at hencode
  exact hencode

theorem exists_encapsulate_iff_ascii {padataType : Int32} :
    (∃ data, PaData.encapsulate padataType item = .ok data) ↔
      ∀ text ∈ LawfulStructure.texts item, IsAscii text := by
  have hencodes : (∃ octets, encode item .der = .ok octets) ↔
      ∀ text ∈ LawfulStructure.texts item, IsAscii text := exists_encode_iff_ascii
  rw [← hencodes]
  constructor
  · rintro ⟨data, hdata⟩
    exact ⟨data.padataValue, (encapsulate_eq_ok_iff.1 hdata).2⟩
  · rintro ⟨octets, hencode⟩
    exact ⟨⟨padataType, octets⟩, encapsulate_eq_ok_iff.2 ⟨rfl, hencode⟩⟩

theorem decapsulate_of_encapsulate {padataType : Int32} {data : PaData}
    (hlength : data.padataValue.length < Length.limit)
    (h : PaData.encapsulate padataType item = .ok data) :
    PaData.decapsulate α data = .ok item := by
  obtain ⟨-, hencode⟩ := encapsulate_eq_ok_iff.1 h
  exact decapsulate_eq_ok_iff.2 (decode_of_encode hlength hencode)

theorem encapsulate_of_decapsulate {data : PaData} (h : PaData.decapsulate α data = .ok item) :
    PaData.encapsulate data.padataType item = .ok data :=
  encapsulate_eq_ok_iff.2 ⟨rfl, encode_of_decode (decapsulate_eq_ok_iff.1 h)⟩

end Laws

section Values

variable {field : Field} {policy : Policy}

/-- The value may stand in the field, whatever the policy. -/
structure Suits (field : Field) (value : Value) : Prop where
  type : value.cleared = (definitions.template field.type).cleared
  typed : value.Typed definitions
  recoverable (policy : Policy) : Value.Recoverable definitions policy.rules policy value

theorem suits_integer (h : definitions.template field.type = integerValue 0) (n : Int64) :
    Suits field (integerValue n) where
  type := by
    rw [h]
    rfl
  typed := .leaf _
  recoverable _ := .leaf trivial

theorem suits_octets (h : definitions.template field.type = octetsValue []) (octets : Octets) :
    Suits field (octetsValue octets) where
  type := by
    rw [h]
    rfl
  typed := .leaf _
  recoverable _ := .leaf trivial

theorem suits_text (h : definitions.template field.type = textValue "") (text : String) :
    Suits field (textValue text) where
  type := by
    rw [h]
    rfl
  typed := .leaf _
  recoverable _ := .leaf trivial

theorem suits_texts (h : definitions.template field.type = textsValue []) (texts : List String) :
    Suits field (textsValue texts) where
  type := by
    rw [h]
    rfl
  typed := by
    refine .elements ?_ ?_
    · intro item hitem
      obtain ⟨text, -, rfl⟩ := List.mem_map.1 hitem
      rfl
    · intro item hitem
      obtain ⟨text, -, rfl⟩ := List.mem_map.1 hitem
      exact .leaf _
  recoverable policy := by
    refine .elements ?_
    intro item hitem
    obtain ⟨text, -, rfl⟩ := List.mem_map.1 hitem
    exact .leaf trivial

theorem suits_structure {α : Type} [Structure α] [LawfulStructure α]
    (h : definitions.template field.type = Structure.template α) (item : α) :
    Suits field (Structure.toValue item) where
  type := by
    rw [h, ← LawfulStructure.cleared item, Value.cleared_cleared]
  typed := LawfulStructure.typed item
  recoverable := LawfulStructure.recoverable item

/-- Every field that is set holds what may stand there. -/
def SlotsSuit (slots : List (Slot Value)) : Prop :=
  ∀ slot ∈ slots, ∀ value ∈ slot.content, Suits slot.field value

theorem slotsSuit_nil : SlotsSuit [] := fun _ hslot => absurd hslot List.not_mem_nil

theorem slotsSuit_cons {content : Option Value} {rest : List (Slot Value)}
    (h : ∀ value ∈ content, Suits field value) (hrest : SlotsSuit rest) :
    SlotsSuit (⟨field, content⟩ :: rest) :=
  List.forall_mem_cons.2 ⟨h, hrest⟩

theorem slotsSuit_set {value : Value} {rest : List (Slot Value)} (h : Suits field value)
    (hrest : SlotsSuit rest) : SlotsSuit (⟨field, some value⟩ :: rest) := by
  refine slotsSuit_cons ?_ hrest
  rintro _ ⟨⟩
  exact h

theorem typed_sequenceValue {slots : List (Slot Value)} (h : SlotsSuit slots) :
    (sequenceValue slots).Typed definitions :=
  .record (fun slot hslot value hvalue => (h slot hslot value hvalue).type)
    fun slot hslot value hvalue => (h slot hslot value hvalue).typed

theorem recoverable_sequenceValue {slots : List (Slot Value)} {reader : Rules}
    (h : SlotsSuit slots) (hnumbers : ∀ slot ∈ slots, slot.field.number.isSome = true)
    (hdistinct : (slots.map (·.field)).Pairwise fun a b => a.number ≠ b.number) :
    Value.Recoverable definitions reader policy (sequenceValue slots) :=
  .record (Value.routed_of_numbers hnumbers hdistinct) fun slot hslot value hvalue =>
    (h slot hslot value hvalue).recoverable policy

theorem encodes_integerValue (n : Int64) : (integerValue n).Encodes policy :=
  Value.encodes_leaf.2 ⟨_, rfl⟩

theorem encodes_octetsValue (octets : Octets) : (octetsValue octets).Encodes policy :=
  Value.encodes_leaf.2 ⟨_, rfl⟩

theorem encodes_textValue {text : String} : (textValue text).Encodes policy ↔ IsAscii text := by
  rw [textValue, Value.encodes_leaf]
  exact CharacterString.exists_encode_iff_allowed ⟨.general, text⟩

theorem encodes_textsValue {texts : List String} :
    (textsValue texts).Encodes policy ↔ ∀ text ∈ texts, IsAscii text := by
  rw [textsValue, Value.encodes_elements, List.forall_mem_map]
  simp only [encodes_textValue]

/-- Every field that is set holds a value of the type that is declared for it. -/
def SlotsTyped (slots : List (Slot Value)) : Prop :=
  ∀ slot ∈ slots, ∀ value ∈ slot.content,
    value.cleared = (definitions.template slot.field.type).cleared ∧ value.Typed definitions

/-- What a value of the type of a SEQUENCE looks like. -/
theorem slots_of_typed {value : Value} {fields : List Field} (htyped : value.Typed definitions)
    (hcleared : value.cleared = .emptyRecord .sequence fields) :
    ∃ slots, value = sequenceValue slots ∧ slots.map (·.field) = fields ∧ SlotsTyped slots := by
  cases htyped with
  | @record grouping slots own htypes hslots =>
    simp only [Value.cleared, Value.emptyRecord, Value.record.injEq] at hcleared
    obtain ⟨rfl, hfields, rfl⟩ := hcleared
    refine ⟨slots, rfl, ?_, fun slot hslot value hvalue =>
      ⟨htypes slot hslot value hvalue, hslots slot hslot value hvalue⟩⟩
    have hsame := congrArg (List.map Slot.field) hfields
    simpa [List.map_map, Function.comp_def] using hsame
  | leaf | elements | unselected | selected | tagged | any => cases hcleared

theorem encodes_sequenceValue {slots : List (Slot Value)} :
    (sequenceValue slots).Encodes policy ↔
      ∀ slot ∈ slots, (slot.content = none → slot.field.optional = true) ∧
        ∀ value ∈ slot.content, value.Encodes policy :=
  Value.encodes_record

/-- What makes a structure that is written as a SEQUENCE faithful. -/
@[reducible] def lawfulSequence {α : Type} [Structure α] (fields : List Field)
    (slots : α → List (Slot Value)) (texts : α → List String)
    (htemplate : Structure.template α = .emptyRecord .sequence fields)
    (htoValue : ∀ item : α, Structure.toValue item = sequenceValue (slots item))
    (hfields : ∀ item, (slots item).map (·.field) = fields)
    (hsuit : ∀ item, SlotsSuit (slots item))
    (hnumbers : ∀ field ∈ fields, field.number.isSome = true)
    (hdistinct : fields.Pairwise fun a b => a.number ≠ b.number)
    (hencodes : ∀ item policy, (sequenceValue (slots item)).Encodes policy ↔
      ∀ text ∈ texts item, IsAscii text)
    (hexacting : ∀ field ∈ fields,
      (definitions.template field.type).ExactingThroughout definitions)
    (hofValue : ∀ {found : List (Slot Value)} {item : α}, found.map (·.field) = fields →
      SlotsTyped found → (Structure.ofValue (sequenceValue found) = .ok item ↔
        found = slots item)) : LawfulStructure α where
  texts := texts
  typed item := by
    rw [htoValue]
    exact typed_sequenceValue (hsuit item)
  cleared item := by
    rw [htoValue, htemplate, ← hfields item, Value.emptyRecord, List.map_map]
    rfl
  recoverable item policy := by
    rw [htoValue]
    refine recoverable_sequenceValue (hsuit item) ?_ ?_
    · intro slot hslot
      refine hnumbers slot.field ?_
      rw [← hfields item]
      exact List.mem_map_of_mem hslot
    · rw [hfields]
      exact hdistinct
  encodes_iff item policy := by
    rw [htoValue]
    exact hencodes item policy
  policy?_template := by
    rw [htemplate]
    rfl
  exacting := by
    rw [htemplate]
    exact .emptyRecord hexacting
  ofValue_eq_ok_iff := by
    intro value item htyped hcleared
    rw [htemplate] at hcleared
    obtain ⟨found, rfl, hsame, hslots⟩ := slots_of_typed htyped hcleared
    rw [hofValue hsame hslots, htoValue]
    simp [sequenceValue]

end Values

end Asn1.Kerberos
