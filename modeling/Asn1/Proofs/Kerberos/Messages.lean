import Asn1.Kerberos.HostAddress
import Asn1.Kerberos.Ticket
import Asn1.Proofs.Kerberos.Structure

/-!
The Kerberos structures one by one, and what that makes of their encodings: none is lost,
none is read as anything else, and only texts can keep one from being written.
-/

namespace Asn1.Kerberos

section Schema

theorem exacting_int32 : (definitions.template "Int32").ExactingThroughout definitions :=
  .leaf nofun

theorem exacting_uint32 : (definitions.template "UInt32").ExactingThroughout definitions :=
  .leaf nofun

theorem exacting_octets : (definitions.template "OCTET STRING").ExactingThroughout definitions :=
  .leaf nofun

theorem exacting_text : (definitions.template "KerberosString").ExactingThroughout definitions :=
  .leaf nofun

theorem exacting_texts :
    (definitions.template "KerberosStrings").ExactingThroughout definitions :=
  .elements exacting_text

end Schema

section IntegerAndOctets

variable {first second : Field} (hfirst : first.type = "Int32")
  (hsecond : second.type = "OCTET STRING")

/-- Three of the structures are an Int32 and some octets. -/
def integerAndOctets (first second : Field) (n : Int32) (found : Octets) : List (Slot Value) :=
  [⟨first, some (integerValue (.ofInt n.toInt))⟩, ⟨second, some (octetsValue found)⟩]

theorem encodes_integerAndOctets (n : Int32) (found : Octets) (policy : Policy) :
    (sequenceValue (integerAndOctets first second n found)).Encodes policy := by
  rw [encodes_sequenceValue]
  simp [integerAndOctets, encodes_integerValue, encodes_octetsValue]

include hfirst hsecond

theorem template_integerAndOctets :
    definitions.template first.type = integerValue 0 ∧
      definitions.template second.type = octetsValue [] := by
  rw [hfirst, hsecond]
  exact ⟨rfl, rfl⟩

theorem slotsSuit_integerAndOctets (n : Int32) (found : Octets) :
    SlotsSuit (integerAndOctets first second n found) := by
  obtain ⟨hinteger, hoctets⟩ := template_integerAndOctets hfirst hsecond
  exact slotsSuit_set (suits_integer hinteger _)
    (slotsSuit_set (suits_octets hoctets found) slotsSuit_nil)

theorem integerAndOctets_iff {slots : List (Slot Value)}
    (hfields : slots.map (·.field) = [first, second]) (htyped : SlotsTyped slots) {n : Int32}
    {found : Octets} :
    int32 slots 0 = .ok n ∧ octets slots 1 = .ok found ↔
      slots = integerAndOctets first second n found := by
  obtain ⟨hinteger, hoctets⟩ := template_integerAndOctets hfirst hsecond
  match slots, hfields with
  | [⟨_, content⟩, ⟨_, content'⟩], rfl =>
    obtain ⟨hnumber, hrest⟩ := List.forall_mem_cons.1 htyped
    obtain ⟨hbytes, -⟩ := List.forall_mem_cons.1 hrest
    rw [int32_eq_ok_iff rfl fun value hvalue =>
        (hnumber value hvalue).1.trans (congrArg Value.cleared hinteger),
      octets_eq_ok_iff rfl fun value hvalue =>
        (hbytes value hvalue).1.trans (congrArg Value.cleared hoctets)]
    simp [integerAndOctets]

theorem exacting_integerAndOctets :
    ∀ field ∈ [first, second],
      (definitions.template field.type).ExactingThroughout definitions := by
  refine List.forall_mem_cons.2 ⟨?_, List.forall_mem_cons.2 ⟨?_, nofun⟩⟩
  · rw [hfirst]
    exact exacting_int32
  · rw [hsecond]
    exact exacting_octets

/-- What makes one of these structures faithful. -/
@[reducible] def lawfulIntegerAndOctets {α : Type} [Structure α] (number : α → Int32)
    (found : α → Octets) (htemplate : Structure.template α = .emptyRecord .sequence [first, second])
    (htoValue : ∀ item : α, Structure.toValue item =
      sequenceValue (integerAndOctets first second (number item) (found item)))
    (hnumbers : ∀ field ∈ [first, second], field.number.isSome = true)
    (hdistinct : [first, second].Pairwise fun a b => a.number ≠ b.number)
    (hofValue : ∀ {slots : List (Slot Value)} {item : α},
      Structure.ofValue (sequenceValue slots) = .ok item ↔
        int32 slots 0 = .ok (number item) ∧ octets slots 1 = .ok (found item)) :
    LawfulStructure α :=
  lawfulSequence [first, second]
    (fun item => integerAndOctets first second (number item) (found item)) (fun _ => [])
    htemplate htoValue (fun _ => rfl)
    (fun item => slotsSuit_integerAndOctets hfirst hsecond (number item) (found item))
    hnumbers hdistinct (fun _ _ => by simp [encodes_integerAndOctets])
    (exacting_integerAndOctets hfirst hsecond)
    fun hfields htyped => hofValue.trans (integerAndOctets_iff hfirst hsecond hfields htyped)

end IntegerAndOctets

section Instances

variable {slots : List (Slot Value)}

theorem slotsFor_sequenceValue (holder : String) (slots : List (Slot Value)) :
    slotsFor holder (sequenceValue slots) = .ok slots := rfl

theorem EncryptionKey.ofValue_sequenceValue {key : EncryptionKey} :
    EncryptionKey.ofValue (sequenceValue slots) = .ok key ↔
      int32 slots 0 = .ok key.keytype ∧ octets slots 1 = .ok key.keyvalue := by
  obtain ⟨keytype, keyvalue⟩ := key
  rw [ofValue, slotsFor_sequenceValue]
  grind

instance : LawfulStructure EncryptionKey :=
  lawfulIntegerAndOctets rfl rfl EncryptionKey.keytype EncryptionKey.keyvalue rfl (fun _ => rfl)
    (by decide) (by decide) EncryptionKey.ofValue_sequenceValue

theorem HostAddress.ofValue_sequenceValue {host : HostAddress} :
    HostAddress.ofValue (sequenceValue slots) = .ok host ↔
      int32 slots 0 = .ok host.addrType ∧ octets slots 1 = .ok host.address := by
  obtain ⟨addrType, address⟩ := host
  rw [ofValue, slotsFor_sequenceValue]
  grind

instance : LawfulStructure HostAddress :=
  lawfulIntegerAndOctets rfl rfl HostAddress.addrType HostAddress.address rfl (fun _ => rfl)
    (by decide) (by decide) HostAddress.ofValue_sequenceValue

theorem PaData.ofValue_sequenceValue {data : PaData} :
    PaData.ofValue (sequenceValue slots) = .ok data ↔
      int32 slots 0 = .ok data.padataType ∧ octets slots 1 = .ok data.padataValue := by
  obtain ⟨padataType, padataValue⟩ := data
  rw [ofValue, slotsFor_sequenceValue]
  grind

instance : LawfulStructure PaData :=
  lawfulIntegerAndOctets rfl rfl PaData.padataType PaData.padataValue rfl (fun _ => rfl)
    (by decide) (by decide) PaData.ofValue_sequenceValue

end Instances

section Texts

variable {slots : List (Slot Value)} {index : Nat} {field : Field} {content : Option Value}

theorem eq_elements (value : Value) (h : value.cleared = textsValue []) :
    ∃ items, value = .elements .sequence "KerberosString" items none := by
  cases value with
  | elements grouping type items own =>
    cases h
    exact ⟨items, rfl⟩
  | leaf | record | choice | tagged | any => cases h

theorem components_eq_ok_iff {items : List Value}
    (h : ∀ item ∈ items, item.cleared = textValue "") {position : Nat} {texts : List String} :
    PrincipalName.components position items = .ok texts ↔ items = texts.map textValue := by
  induction items generalizing position texts with
  | nil =>
    rw [PrincipalName.components, eq_comm]
    simp
  | cons item rest ih =>
    obtain ⟨hitem, hrest⟩ := List.forall_mem_cons.1 h
    obtain ⟨text, rfl⟩ := eq_textValue hitem
    have hsame : ∀ other, textValue text = textValue other ↔ text = other := by
      simp [textValue]
    have htext : (textValue text).text? = some text := rfl
    simp only [PrincipalName.components, htext]
    cases texts with
    | nil => grind
    | cons first more =>
      have hmore := @ih hrest (position + 1) more
      rw [List.map_cons, List.cons.injEq, hsame, ← hmore]
      grind

/-- The list of texts that a field holds. -/
theorem texts_eq_ok_iff (h : slots[index]? = some ⟨field, content⟩)
    (htype : ∀ value ∈ content, value.cleared = textsValue [] ∧ value.Typed definitions)
    {texts : List String} :
    (∃ items, required slots index (Record.getElements slots index) = .ok items ∧
      PrincipalName.components 0 items = .ok texts) ↔ content = some (textsValue texts) := by
  have hread : ∀ items, required slots index (Record.getElements slots index) = .ok items ↔
      content = some (.elements .sequence "KerberosString" items none) := fun items =>
    required_getAs_eq_ok_iff h (.elements .sequence "KerberosString" · none) (fun _ => rfl)
      fun value hvalue => eq_elements value (htype value hvalue).1
  simp only [hread]
  constructor
  · rintro ⟨items, rfl, hcomponents⟩
    cases (htype _ rfl).2 with
    | elements htypes =>
      rw [(components_eq_ok_iff htypes).1 hcomponents]
      rfl
  · rintro rfl
    refine ⟨_, rfl, (components_eq_ok_iff ?_).2 rfl⟩
    intro item hitem
    obtain ⟨text, -, rfl⟩ := List.mem_map.1 hitem
    rfl

end Texts

section PrincipalName

theorem PrincipalName.ofValue_sequenceValue {slots : List (Slot Value)} {name : PrincipalName} :
    PrincipalName.ofValue (sequenceValue slots) = .ok name ↔
      (∃ items, required slots 1 (Record.getElements slots 1) = .ok items ∧
        components 0 items = .ok name.nameString) ∧ int32 slots 0 = .ok name.nameType := by
  obtain ⟨nameType, nameString⟩ := name
  rw [ofValue, slotsFor_sequenceValue]
  grind

/-- The fields of a name that is written. -/
def PrincipalName.slots (name : PrincipalName) : List (Slot Value) :=
  [⟨contextField 0 "name-type" "Int32", some (integerValue (.ofInt name.nameType.toInt))⟩,
    ⟨contextField 1 "name-string" "KerberosStrings", some (textsValue name.nameString)⟩]

theorem slotsSuit_principalName (name : PrincipalName) : SlotsSuit name.slots :=
  slotsSuit_set (suits_integer rfl _)
    (slotsSuit_set (suits_texts rfl name.nameString) slotsSuit_nil)

theorem encodes_principalName (name : PrincipalName) (policy : Policy) :
    (sequenceValue name.slots).Encodes policy ↔ ∀ text ∈ name.nameString, IsAscii text := by
  rw [encodes_sequenceValue]
  simp [PrincipalName.slots, encodes_integerValue, encodes_textsValue]

theorem exacting_principalName :
    ∀ field ∈ principalNameFields,
      (definitions.template field.type).ExactingThroughout definitions :=
  List.forall_mem_cons.2 ⟨exacting_int32, List.forall_mem_cons.2 ⟨exacting_texts, nofun⟩⟩

theorem principalName_iff {slots : List (Slot Value)}
    (hfields : slots.map (·.field) = principalNameFields) (htyped : SlotsTyped slots)
    {name : PrincipalName} :
    PrincipalName.ofValue (sequenceValue slots) = .ok name ↔ slots = name.slots := by
  rw [PrincipalName.ofValue_sequenceValue]
  match slots, hfields with
  | [⟨_, nameType⟩, ⟨_, nameString⟩], rfl =>
    obtain ⟨hinteger, hrest⟩ := List.forall_mem_cons.1 htyped
    obtain ⟨htexts, -⟩ := List.forall_mem_cons.1 hrest
    rw [int32_eq_ok_iff rfl fun value hvalue => (hinteger value hvalue).1,
      texts_eq_ok_iff rfl htexts]
    simp [PrincipalName.slots, contextField, and_comm]

instance : LawfulStructure PrincipalName :=
  lawfulSequence principalNameFields PrincipalName.slots PrincipalName.nameString rfl
    (fun _ => rfl) (fun _ => rfl) slotsSuit_principalName (by decide) (by decide)
    encodes_principalName exacting_principalName
    fun hfields htyped => principalName_iff hfields htyped

end PrincipalName

section EncryptedData

theorem EncryptedData.ofValue_sequenceValue {slots : List (Slot Value)} {data : EncryptedData} :
    EncryptedData.ofValue (sequenceValue slots) = .ok data ↔
      int32 slots 0 = .ok data.etype ∧ optionalUInt32 slots 1 = .ok data.kvno ∧
        octets slots 2 = .ok data.cipher := by
  obtain ⟨etype, kvno, cipher⟩ := data
  rw [ofValue, slotsFor_sequenceValue]
  grind

/-- The fields of encrypted octets that are written. -/
def EncryptedData.slots (data : EncryptedData) : List (Slot Value) :=
  [⟨contextField 0 "etype" "Int32", some (integerValue (.ofInt data.etype.toInt))⟩,
    ⟨optionalField 1 "kvno" "UInt32",
      data.kvno.map fun kvno => integerValue (.ofNat kvno.toNat)⟩,
    ⟨contextField 2 "cipher" "OCTET STRING", some (octetsValue data.cipher)⟩]

theorem slotsSuit_encryptedData (data : EncryptedData) : SlotsSuit data.slots := by
  refine slotsSuit_set (suits_integer rfl _) (slotsSuit_cons ?_
    (slotsSuit_set (suits_octets rfl data.cipher) slotsSuit_nil))
  intro value hvalue
  obtain ⟨kvno, -, rfl⟩ := Option.map_eq_some_iff.1 hvalue
  exact suits_integer rfl _

theorem encodes_encryptedData (data : EncryptedData) (policy : Policy) :
    (sequenceValue data.slots).Encodes policy := by
  rw [encodes_sequenceValue]
  simp [EncryptedData.slots, encodes_integerValue, encodes_octetsValue, optionalField]

theorem exacting_encryptedData :
    ∀ field ∈ encryptedDataFields,
      (definitions.template field.type).ExactingThroughout definitions :=
  List.forall_mem_cons.2 ⟨exacting_int32, List.forall_mem_cons.2 ⟨exacting_uint32,
    List.forall_mem_cons.2 ⟨exacting_octets, nofun⟩⟩⟩

theorem encryptedData_iff {slots : List (Slot Value)}
    (hfields : slots.map (·.field) = encryptedDataFields) (htyped : SlotsTyped slots)
    {data : EncryptedData} :
    EncryptedData.ofValue (sequenceValue slots) = .ok data ↔ slots = data.slots := by
  rw [EncryptedData.ofValue_sequenceValue]
  match slots, hfields with
  | [⟨_, etype⟩, ⟨_, kvno⟩, ⟨_, cipher⟩], rfl =>
    obtain ⟨hetype, hrest⟩ := List.forall_mem_cons.1 htyped
    obtain ⟨hkvno, hrest⟩ := List.forall_mem_cons.1 hrest
    obtain ⟨hcipher, -⟩ := List.forall_mem_cons.1 hrest
    rw [int32_eq_ok_iff rfl fun value hvalue => (hetype value hvalue).1,
      optionalUInt32_eq_ok_iff rfl fun value hvalue => (hkvno value hvalue).1,
      octets_eq_ok_iff rfl fun value hvalue => (hcipher value hvalue).1]
    simp [EncryptedData.slots, contextField, optionalField]

instance : LawfulStructure EncryptedData :=
  lawfulSequence encryptedDataFields EncryptedData.slots (fun _ => []) rfl (fun _ => rfl)
    (fun _ => rfl) slotsSuit_encryptedData (by decide) (by decide)
    (fun data policy => by simp [encodes_encryptedData]) exacting_encryptedData
    fun hfields htyped => encryptedData_iff hfields htyped

end EncryptedData

section Ticket

theorem Ticket.ofValue_sequenceValue {slots : List (Slot Value)} {ticket : Ticket} :
    Ticket.ofValue (.tagged tagging (sequenceValue slots) none) = .ok ticket ↔
      required slots 0 (Record.getInteger slots 0) = .ok version ∧
        text slots 1 = .ok ticket.realm ∧ nested PrincipalName slots 2 = .ok ticket.sname ∧
          nested EncryptedData slots 3 = .ok ticket.encPart := by
  obtain ⟨realm, sname, encPart⟩ := ticket
  have hslots : slotsFor "Ticket" (.tagged tagging (sequenceValue slots) none) = .ok slots := rfl
  rw [ofValue, hslots]
  grind

/-- A nested field holds what the structure is written as. -/
theorem nested_eq_ok_iff_toValue {α : Type} [Structure α] [LawfulStructure α]
    {slots : List (Slot Value)} {index : Nat} {field : Field} {content : Option Value}
    (h : slots[index]? = some ⟨field, content⟩)
    (htype : ∀ value ∈ content,
      value.cleared = Structure.template α ∧ value.Typed definitions) {item : α} :
    nested α slots index = .ok item ↔ content = some (Structure.toValue item) := by
  rw [nested_eq_ok_iff h]
  constructor
  · rintro ⟨value, rfl, hvalue⟩
    obtain ⟨hcleared, htyped⟩ := htype value rfl
    rw [(LawfulStructure.ofValue_eq_ok_iff htyped hcleared).1 hvalue]
  · rintro rfl
    obtain ⟨hcleared, htyped⟩ := htype _ rfl
    exact ⟨_, rfl, (LawfulStructure.ofValue_eq_ok_iff htyped hcleared).2 rfl⟩

/-- The fields of a ticket that is written. -/
def Ticket.slots (ticket : Ticket) : List (Slot Value) :=
  [⟨contextField 0 "tkt-vno" "Int32", some (integerValue version)⟩,
    ⟨contextField 1 "realm" "KerberosString", some (textValue ticket.realm)⟩,
    ⟨contextField 2 "sname" "PrincipalName", some (Structure.toValue ticket.sname)⟩,
    ⟨contextField 3 "enc-part" "EncryptedData", some (Structure.toValue ticket.encPart)⟩]

theorem slotsSuit_ticket (ticket : Ticket) : SlotsSuit ticket.slots :=
  slotsSuit_set (suits_integer rfl _)
    (slotsSuit_set (suits_text rfl ticket.realm)
      (slotsSuit_set (suits_structure rfl ticket.sname)
        (slotsSuit_set (suits_structure rfl ticket.encPart) slotsSuit_nil)))

theorem ticket_iff {slots : List (Slot Value)} (hfields : slots.map (·.field) = Ticket.fields)
    (htyped : SlotsTyped slots) {ticket : Ticket} :
    Ticket.ofValue (.tagged Ticket.tagging (sequenceValue slots) none) = .ok ticket ↔
      slots = ticket.slots := by
  rw [Ticket.ofValue_sequenceValue]
  match slots, hfields with
  | [⟨_, tktVno⟩, ⟨_, realm⟩, ⟨_, sname⟩, ⟨_, encPart⟩], rfl =>
    obtain ⟨htktVno, hrest⟩ := List.forall_mem_cons.1 htyped
    obtain ⟨hrealm, hrest⟩ := List.forall_mem_cons.1 hrest
    obtain ⟨hsname, hrest⟩ := List.forall_mem_cons.1 hrest
    obtain ⟨hencPart, -⟩ := List.forall_mem_cons.1 hrest
    rw [integer_eq_ok_iff rfl fun value hvalue => (htktVno value hvalue).1,
      text_eq_ok_iff rfl fun value hvalue => (hrealm value hvalue).1,
      nested_eq_ok_iff_toValue rfl hsname, nested_eq_ok_iff_toValue rfl hencPart]
    simp [Ticket.slots, contextField]

theorem exacting_ticket :
    ∀ field ∈ Ticket.fields, (definitions.template field.type).ExactingThroughout definitions :=
  have hsname : (Structure.template PrincipalName).ExactingThroughout definitions :=
    LawfulStructure.exacting
  have hencPart : (Structure.template EncryptedData).ExactingThroughout definitions :=
    LawfulStructure.exacting
  List.forall_mem_cons.2 ⟨exacting_int32, List.forall_mem_cons.2 ⟨exacting_text,
    List.forall_mem_cons.2 ⟨hsname, List.forall_mem_cons.2 ⟨hencPart, nofun⟩⟩⟩⟩

instance : LawfulStructure Ticket where
  texts ticket := ticket.realm :: ticket.sname.nameString
  typed ticket := .tagged (typed_sequenceValue (slotsSuit_ticket ticket))
  cleared _ := rfl
  recoverable ticket policy :=
    .tagged (recoverable_sequenceValue (slotsSuit_ticket ticket) (by simp [contextField])
      (by simp [contextField]))
  encodes_iff ticket policy := by
    have hsname := LawfulStructure.encodes_iff ticket.sname policy
    have hencPart := (LawfulStructure.encodes_iff ticket.encPart policy).2 nofun
    refine Value.encodes_tagged.trans (encodes_sequenceValue.trans ?_)
    rw [Option.getD_none]
    simp [encodes_integerValue, encodes_textValue, hsname, hencPart, LawfulStructure.texts]
  policy?_template := rfl
  exacting := .tagged (.emptyRecord exacting_ticket)
  ofValue_eq_ok_iff := by
    intro value ticket htyped hcleared
    cases htyped with
    | @tagged tagging inner own htyped =>
      obtain ⟨rfl, hinner, rfl⟩ := Value.tagged.inj hcleared
      obtain ⟨slots, rfl, hfields, hslots⟩ := slots_of_typed htyped hinner
      refine (ticket_iff hfields hslots).trans ?_
      constructor
      · rintro rfl
        rfl
      · rintro ⟨⟩
        rfl
    | leaf | record | elements | unselected | selected | any => cases hcleared

end Ticket

section Bijection

/-- Structures and octets correspond one to one, as far as texts can be written. -/
structure InBijection (α : Type) [Structure α] (texts : α → List String) : Prop where
  /-- No memory holds octets beyond the limit, and no length is read that says so. -/
  decodes (item : α) (policy : Policy) (octets : Octets) (hlength : octets.length < Length.limit) :
    encode item policy = .ok octets → decode α octets policy = .ok item
  encodes (item : α) (policy : Policy) :
    (∃ octets, encode item policy = .ok octets) ↔ ∀ text ∈ texts item, IsAscii text
  canonical (item : α) (octets : Octets) :
    decode α octets .der = .ok item → encode item .der = .ok octets
  /-- What is stored is the strict encoding, and nothing else is in the way of storing it. -/
  encapsulates (item : α) (padataType : Int32) (data : PaData) :
    PaData.encapsulate padataType item = .ok data ↔
      data.padataType = padataType ∧ encode item .der = .ok data.padataValue
  encapsulable (item : α) (padataType : Int32) :
    (∃ data, PaData.encapsulate padataType item = .ok data) ↔ ∀ text ∈ texts item, IsAscii text
  decapsulates (item : α) (padataType : Int32) (data : PaData)
    (hlength : data.padataValue.length < Length.limit) :
    PaData.encapsulate padataType item = .ok data → PaData.decapsulate α data = .ok item
  encapsulatedAgain (item : α) (data : PaData) :
    PaData.decapsulate α data = .ok item → PaData.encapsulate data.padataType item = .ok data

theorem inBijection_of_lawful (α : Type) [Structure α] [LawfulStructure α] :
    InBijection α LawfulStructure.texts where
  decodes _ _ _ hlength hencode := decode_of_encode hlength hencode
  encodes _ _ := exists_encode_iff_ascii
  canonical _ _ := encode_of_decode
  encapsulates _ _ _ := encapsulate_eq_ok_iff
  encapsulable _ _ := exists_encapsulate_iff_ascii
  decapsulates _ _ _ hlength hdata := decapsulate_of_encapsulate hlength hdata
  encapsulatedAgain _ _ := encapsulate_of_decapsulate

/-- The messages, each with the texts in it, which have to be ASCII. -/
theorem messages_and_octets_in_bijection :
    InBijection PrincipalName (fun name => name.nameString) ∧
      InBijection EncryptionKey (fun _ => []) ∧
      InBijection EncryptedData (fun _ => []) ∧
      InBijection HostAddress (fun _ => []) ∧
      InBijection PaData (fun _ => []) ∧
      InBijection Ticket (fun ticket => ticket.realm :: ticket.sname.nameString) :=
  ⟨inBijection_of_lawful PrincipalName, inBijection_of_lawful EncryptionKey,
    inBijection_of_lawful EncryptedData, inBijection_of_lawful HostAddress,
    inBijection_of_lawful PaData, inBijection_of_lawful Ticket⟩

/-- The name of a ticket-granting service, decoded, and put into pre-authentication data and taken
out again. -/
theorem krbtgt_read_back :
    decode PrincipalName
      [0x30, 0x14, 0xA0, 0x03, 0x02, 0x01, 0x02, 0xA1, 0x0D, 0x30, 0x0B,
        0x1B, 0x06, 0x6B, 0x72, 0x62, 0x74, 0x67, 0x74, 0x1B, 0x01, 0x52] .der =
      .ok (PrincipalName.krbtgt "R") ∧
    PaData.encapsulate 130 (PrincipalName.krbtgt "R") =
      .ok ⟨130, [0x30, 0x14, 0xA0, 0x03, 0x02, 0x01, 0x02, 0xA1, 0x0D, 0x30, 0x0B,
        0x1B, 0x06, 0x6B, 0x72, 0x62, 0x74, 0x67, 0x74, 0x1B, 0x01, 0x52]⟩ ∧
    PaData.decapsulate PrincipalName
      ⟨130, [0x30, 0x14, 0xA0, 0x03, 0x02, 0x01, 0x02, 0xA1, 0x0D, 0x30, 0x0B,
        0x1B, 0x06, 0x6B, 0x72, 0x62, 0x74, 0x67, 0x74, 0x1B, 0x01, 0x52]⟩ =
      .ok (PrincipalName.krbtgt "R") := by
  have hencode : encode (PrincipalName.krbtgt "R") .der =
      .ok [0x30, 0x14, 0xA0, 0x03, 0x02, 0x01, 0x02, 0xA1, 0x0D, 0x30, 0x0B,
        0x1B, 0x06, 0x6B, 0x72, 0x62, 0x74, 0x67, 0x74, 0x1B, 0x01, 0x52] := by
    decide
  have hname := messages_and_octets_in_bijection.1
  have hdata := (hname.encapsulates (PrincipalName.krbtgt "R") 130 ⟨130, _⟩).2 ⟨rfl, hencode⟩
  exact ⟨hname.decodes _ _ _ (by decide) hencode, hdata,
    hname.decapsulates _ _ _ (by decide) hdata⟩

end Bijection

end Asn1.Kerberos
