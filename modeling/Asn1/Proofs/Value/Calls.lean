import Asn1.Proofs.Outcome
import Asn1.Proofs.Value.Encoding
import Asn1.Proofs.Value.Stepwise

/-!
The calls that encoding and decoding are made of. A call passes on to one about the same value,
or about what a re-tag is around, or it crosses a composite and calls for a part of it, after
the parts before have been dealt with. A part that fails is why the composite fails, and it
fails with one more layer.
-/

namespace Asn1

/-- A call of a function that encodes or decodes. -/
inductive Call where
  | encode (value : Value) (policy : Policy)
  | taggedEncode (value : Value) (tagging : Tagging) (policy : Policy)
  | decode (defs : Definitions) (value : Value) (octets : Octets) (policy : Policy)
  | taggedDecode (defs : Definitions) (value : Value) (tagging : Tagging) (octets : Octets)
      (policy : Policy)
  /-- The calls from here on are made for the parts of a root as well. -/
  | encoding (policy : Policy) (value : Value)
  | encodingUnder (policy : Policy) (tagging : Tagging) (value : Value)
  | decoding (defs : Definitions) (depth : Nat) (policy : Policy) (value : Value)
      (source : Source)
  | decodingUnder (defs : Definitions) (policy : Policy) (tagging : Tagging) (value : Value)
      (source : Source)

namespace Call

/-- The value that is encoded, or that decoding starts from. A root is decoded by its type
alone. -/
def value : Call → Value
  | .encode value _ => value
  | .taggedEncode value _ _ => value
  | .decode _ value _ _ => value.cleared
  | .taggedDecode _ value _ _ _ => value.cleared
  | .encoding _ value => value
  | .encodingUnder _ _ value => value
  | .decoding _ _ _ value _ => value
  | .decodingUnder _ _ _ value _ => value

/-- The call ends with the error. -/
def Fails : Call → Error → Prop
  | .encode value policy, error => value.encode policy = .error error
  | .taggedEncode value tagging policy, error => value.taggedEncode tagging policy = .error error
  | .decode defs value octets policy, error => value.decode defs octets policy = .error error
  | .taggedDecode defs value tagging octets policy, error =>
    value.taggedDecode defs tagging octets policy = .error error
  | .encoding policy value, error => value.encoding policy = .error error
  | .encodingUnder policy tagging value, error =>
    (value.encoding policy).bind (tagging.apply value) = .error error
  | .decoding defs depth policy value source, error =>
    value.decodeFrom defs depth policy source = .error error
  | .decodingUnder defs policy tagging value source, error =>
    value.decodeUnder defs policy tagging source = .error error

theorem Fails.unique {call : Call} {a b : Error} (ha : call.Fails a) (hb : call.Fails b) :
    a = b := by
  cases call <;> exact Except.error.inj (ha.symm.trans hb)

end Call

namespace Field

/-- The call that encodes a value as the field. -/
def encodingCall (field : Field) (policy : Policy) (value : Value) : Call :=
  match field.tagging policy with
  | none => .encoding policy value
  | some tagging => .encodingUnder policy tagging value

/-- The call that decodes an element as the field. -/
def decodingCall (field : Field) (defs : Definitions) (depth : Nat) (policy : Policy)
    (tlv : Tlv) : Call :=
  match field.tagging policy with
  | none => .decoding defs depth policy (defs.template field.type) (.element tlv)
  | some tagging => .decodingUnder defs policy tagging (defs.template field.type) (.element tlv)

@[simp] theorem value_encodingCall (field : Field) (policy : Policy) (value : Value) :
    (field.encodingCall policy value).value = value := by
  rw [encodingCall]
  split <;> rfl

@[simp] theorem value_decodingCall (field : Field) (defs : Definitions) (depth : Nat)
    (policy : Policy) (tlv : Tlv) :
    (field.decodingCall defs depth policy tlv).value = defs.template field.type := by
  rw [decodingCall]
  split <;> rfl

/-- A field fails as its call does, with one more layer. -/
theorem encode_eq_error_iff {field : Field} {index : Nat} {policy : Policy} {value : Value}
    {error : Error} :
    field.encode index policy value (value.encoding policy) = .error error ↔
      ∃ source, (field.encodingCall policy value).Fails source ∧
        .inField index field.name source = error := by
  rw [encode.eq_def, encodingCall]
  cases hencoding : value.encoding policy with
  | error source =>
    simp only [Except.error.injEq]
    cases field.tagging policy <;> simp [Call.Fails, hencoding, Except.bind]
  | ok bare =>
    simp only [wrap]
    cases field.tagging policy with
    | none => simp [Call.Fails, hencoding]
    | some tagging =>
      simp only [Call.Fails, hencoding, Except.bind]
      cases tagging.apply value bare <;> simp

theorem encode_of_fails {field : Field} {policy : Policy} {value : Value} {source : Error}
    (h : (field.encodingCall policy value).Fails source) (index : Nat) :
    field.encode index policy value (value.encoding policy) =
      .error (.inField index field.name source) :=
  encode_eq_error_iff.2 ⟨source, h, rfl⟩

theorem decodeField_eq_error_iff {field : Field} {defs : Definitions} {depth index : Nat}
    {policy : Policy} {tlv : Tlv} {error : Error} :
    Value.decodeField defs depth policy index field tlv = .error error ↔
      ∃ source, (field.decodingCall defs depth policy tlv).Fails source ∧
        .inField index field.name source = error := by
  rw [Value.decodeField_eq, mapError_eq_error_iff, decodingCall]
  cases field.tagging policy <;> rfl

theorem decodeField_of_fails {field : Field} {defs : Definitions} {depth : Nat} {policy : Policy}
    {tlv : Tlv} {source : Error} (h : (field.decodingCall defs depth policy tlv).Fails source)
    (index : Nat) : Value.decodeField defs depth policy index field tlv =
      .error (.inField index field.name source) :=
  decodeField_eq_error_iff.2 ⟨source, h, rfl⟩

end Field

namespace Value

/-- The elements at the front of a stream decode to the items, and the second stream is left. -/
inductive DecodesFirst (defs : Definitions) (policy : Policy) (type : String) :
    Tlv.Stream → List Value → Tlv.Stream → Prop where
  | none (stream : Tlv.Stream) : DecodesFirst defs policy type stream [] stream
  | next {tlv : Tlv} {rest last : Tlv.Stream} {item : Value} {items : List Value}
      (hitem : Decodes defs defs.choiceLimit policy (defs.template type) (.element tlv) item)
      (hrest : DecodesFirst defs policy type rest items last) :
      DecodesFirst defs policy type (.next tlv rest) (item :: items) last

/-- The fields at the front are filled from the front of a stream or skipped, which gives the
slots. The fields and the stream that are left come last. -/
inductive FillsFirst (defs : Definitions) (policy : Policy) :
    List Field → Tlv.Stream → List (Slot Value) → List Field → Tlv.Stream → Prop where
  | none (fields : List Field) (stream : Tlv.Stream) :
      FillsFirst defs policy fields stream [] fields stream
  | filled {field : Field} {fields left : List Field} {tlv : Tlv} {rest last : Tlv.Stream}
      {value : Value} {slots : List (Slot Value)}
      (haccepts : field.accepts? defs tlv.tag = some true)
      (hvalue : DecodesField defs defs.choiceLimit policy field tlv value)
      (hrest : FillsFirst defs policy fields rest slots left last) :
      FillsFirst defs policy (field :: fields) (.next tlv rest) (⟨field, some value⟩ :: slots)
        left last
  | skipped {field : Field} {fields left : List Field} {tlv : Tlv} {rest last : Tlv.Stream}
      {slots : List (Slot Value)} (haccepts : field.accepts? defs tlv.tag = some false)
      (hoptional : field.optional = true)
      (hrest : FillsFirst defs policy fields (.next tlv rest) slots left last) :
      FillsFirst defs policy (field :: fields) (.next tlv rest) (⟨field, none⟩ :: slots) left last
  | unset {field : Field} {fields left : List Field} {last : Tlv.Stream}
      {slots : List (Slot Value)} (hoptional : field.optional = true)
      (hrest : FillsFirst defs policy fields .done slots left last) :
      FillsFirst defs policy (field :: fields) .done (⟨field, none⟩ :: slots) left last

theorem taggedEncode_eq_error_iff {value : Value} {tagging : Tagging} {policy : Policy}
    {error : Error} : value.taggedEncode tagging policy = .error error ↔
      (value.encoding policy).bind (tagging.apply value) = .error error := by
  rw [taggedEncode]
  cases value.encoding policy with
  | error => simp [Except.bind]
  | ok bare => exact map_eq_error_iff

/-- The index past one more part. -/
theorem add_length_cons {α : Type} (index : Nat) (first : α) (before : List α) :
    index + (first :: before).length = index + 1 + before.length := by
  rw [List.length_cons, Nat.add_comm before.length, ← Nat.add_assoc]

section Loops

variable {defs : Definitions} {policy : Policy}

theorem encodeSlots_append {before : List (Slot Value)} {index : Nat} {octets : Octets}
    (h : encodeSlots policy index before = .ok octets) (slots : List (Slot Value)) :
    encodeSlots policy index (before ++ slots) =
      (encodeSlots policy (index + before.length) slots).map (octets ++ ·) := by
  induction before generalizing index octets with
  | nil =>
    obtain rfl := encodeSlots_nil.1 h
    cases hslots : encodeSlots policy index slots <;> simp [hslots, Except.map]
  | cons slot before ih =>
    obtain ⟨field, content⟩ := slot
    rw [add_length_cons]
    cases content with
    | none =>
      obtain ⟨hoptional, hbefore⟩ := encodeSlots_unset.1 h
      rw [List.cons_append, encodeSlots, if_pos hoptional, ih hbefore]
    | some value =>
      obtain ⟨front, more, hfront, hmore, rfl⟩ := encodeSlots_set.1 h
      rw [List.cons_append, encodeSlots, hfront, ih hmore]
      cases encodeSlots policy (index + 1 + before.length) slots <;> simp [Except.map]

theorem encodeItems_append {before : List Value} {index : Nat} {octets : Octets}
    (h : encodeItems policy index before = .ok octets) (items : List Value) :
    encodeItems policy index (before ++ items) =
      (encodeItems policy (index + before.length) items).map (octets ++ ·) := by
  induction before generalizing index octets with
  | nil =>
    obtain rfl := encodeItems_nil.1 h
    cases hitems : encodeItems policy index items <;> simp [hitems, Except.map]
  | cons item before ih =>
    rw [add_length_cons]
    obtain ⟨front, more, hfront, hmore, rfl⟩ := encodeItems_cons.1 h
    rw [List.cons_append, encodeItems, hfront]
    simp only [ih hmore]
    cases encodeItems policy (index + 1 + before.length) items <;> simp [Except.map]

theorem FillsFirst.decodeSlots {fields left : List Field} {stream last : Tlv.Stream}
    {slots : List (Slot Value)} (h : FillsFirst defs policy fields stream slots left last)
    (endOffset index : Nat) : decodeSlots defs policy endOffset index fields stream =
      (decodeSlots defs policy endOffset (index + slots.length) left last).map (slots ++ ·) := by
  induction h generalizing index with
  | none fields stream =>
    cases Value.decodeSlots defs policy endOffset index fields stream <;> simp [Except.map]
  | @filled _ _ _ _ _ _ _ slots haccepts hvalue _ ih =>
    rw [add_length_cons, decodeSlots_next_eq, haccepts]
    simp only [hvalue.decodeField index, Except.bind, ih, map_map, List.cons_append]
  | @skipped _ _ _ _ _ _ slots haccepts hoptional _ ih =>
    rw [add_length_cons, decodeSlots_next_eq, haccepts]
    simp only [if_pos hoptional, ih, map_map, List.cons_append]
  | @unset _ _ _ _ slots hoptional _ ih =>
    rw [add_length_cons, decodeSlots_done_eq, if_pos hoptional]
    simp only [ih, map_map, List.cons_append]

theorem FillsFirst.fields_eq {fields left : List Field} {stream last : Tlv.Stream}
    {slots : List (Slot Value)} (h : FillsFirst defs policy fields stream slots left last) :
    fields = slots.map (·.field) ++ left := by
  induction h with
  | none => rfl
  | filled _ _ _ ih | skipped _ _ _ ih | unset _ _ ih => rw [ih, List.map_cons, List.cons_append]

/-- The field that comes next is that of the slot at the index that counts those before. -/
theorem FillsFirst.exists_slot {slots before : List (Slot Value)} {stream last : Tlv.Stream}
    {field : Field} {left : List Field}
    (h : FillsFirst defs policy (slots.map (·.field)) stream before (field :: left) last) :
    ∃ slot, slots[before.length]? = some slot ∧ slot.field = field := by
  have hfield : (slots.map (·.field))[before.length]? = some field := by
    rw [h.fields_eq, List.getElem?_append_right (by simp)]
    simp
  rw [List.getElem?_map] at hfield
  exact Option.map_eq_some_iff.1 hfield

theorem DecodesFirst.decodeItems {type : String} {stream last : Tlv.Stream} {items : List Value}
    (h : DecodesFirst defs policy type stream items last) (index : Nat) :
    decodeItems defs policy type index stream =
      (decodeItems defs policy type (index + items.length) last).map (items ++ ·) := by
  induction h generalizing index with
  | none stream =>
    cases Value.decodeItems defs policy type index stream <;> simp [Except.map]
  | @next _ _ _ _ items hitem _ ih =>
    rw [add_length_cons, decodeItems_next_eq, decodes_iff.2 hitem]
    simp only [Except.mapError, Except.bind, ih, map_map, List.cons_append]

end Loops

end Value

namespace Call

/-- The calls that a call makes about the same value, or about what a re-tag is around. -/
inductive Passes : Call → Call → Prop where
  | encode (value : Value) (policy : Policy) :
      Passes (.encode value policy) (.encoding policy value)
  | taggedEncode (value : Value) (tagging : Tagging) (policy : Policy) :
      Passes (.taggedEncode value tagging policy) (.encodingUnder policy tagging value)
  | decode {defs : Definitions} {value : Value} {octets rest : Octets} {policy : Policy}
      {tlv : Tlv} (hread : Tlv.read (value.resolve policy).rules 0 octets = .ok (tlv, rest)) :
      Passes (.decode defs value octets policy)
        (.decoding defs defs.choiceLimit (value.resolve policy) value.cleared (.element tlv))
  | taggedDecode {defs : Definitions} {value : Value} {tagging : Tagging} {octets rest : Octets}
      {policy : Policy} {tlv : Tlv}
      (hread : Tlv.read (value.resolve policy).rules 0 octets = .ok (tlv, rest)) :
      Passes (.taggedDecode defs value tagging octets policy)
        (.decodingUnder defs (value.resolve policy) tagging value.cleared (.element tlv))
  | encoding (policy : Policy) (tagging : Tagging) (inner : Value) (own : Option Policy) :
      Passes (.encoding policy (.tagged tagging inner own))
        (.encodingUnder (own.getD policy) tagging inner)
  | encodingUnder (policy : Policy) (tagging : Tagging) (value : Value) :
      Passes (.encodingUnder policy tagging value) (.encoding policy value)
  | decoding (defs : Definitions) (depth : Nat) (policy : Policy) (tagging : Tagging)
      (inner : Value) (own : Option Policy) (source : Source) :
      Passes (.decoding defs depth policy (.tagged tagging inner own) source)
        (.decodingUnder defs (own.getD policy) tagging inner source)
  | explicit {defs : Definitions} {policy : Policy} {tagging : Tagging} {value : Value}
      {source : Source} {content : Content} {tlv : Tlv} {rest : Octets}
      (hcontent : source.contentUnder (tagging.outerTag value) = .ok content)
      (hmode : tagging.modeFor value = .explicit)
      (hwrapped : content.wrapped policy.rules tagging = .ok (tlv, rest)) :
      Passes (.decodingUnder defs policy tagging value source)
        (.decoding defs defs.choiceLimit policy value (.element tlv))
  | implicit {defs : Definitions} {policy : Policy} {tagging : Tagging} {value : Value}
      {source : Source} {content : Content}
      (hcontent : source.contentUnder (tagging.outerTag value) = .ok content)
      (hmode : tagging.modeFor value = .implicit) :
      Passes (.decodingUnder defs policy tagging value source)
        (.decoding defs defs.choiceLimit policy value (.below content))

/-- The calls that a call makes about a part of a composite, with the index and the name that
it has there. An index counts the parts before, none of which has failed. -/
inductive Crosses : Call → Nat → String → Call → Prop where
  | encodingSlot {policy : Policy} {grouping : Grouping} {before after : List (Slot Value)}
      {field : Field} {value : Value} {own : Option Policy} {octets : Octets}
      (hbefore : Value.encodeSlots (own.getD policy) 0 before = .ok octets) :
      Crosses (.encoding policy (.record grouping (before ++ ⟨field, some value⟩ :: after) own))
        before.length field.name (field.encodingCall (own.getD policy) value)
  | encodingItem {policy : Policy} {grouping : Grouping} {type : String}
      {before after : List Value} {item : Value} {own : Option Policy} {octets : Octets}
      (hbefore : Value.encodeItems (own.getD policy) 0 before = .ok octets) :
      Crosses (.encoding policy (.elements grouping type (before ++ item :: after) own))
        before.length "element" (.encoding (own.getD policy) item)
  | encodingSelected {policy : Policy} {alternatives : List Field} {index : Nat} {field : Field}
      {value : Value} {own : Option Policy} (hfield : alternatives[index]? = some field) :
      Crosses (.encoding policy (.choice alternatives (some ⟨index, value⟩) own))
        index field.name (field.encodingCall (own.getD policy) value)
  | decodingSlot {defs : Definitions} {depth : Nat} {policy : Policy} {grouping : Grouping}
      {slots before : List (Slot Value)} {own : Option Policy} {source : Source}
      {content : Content} {field : Field} {fields : List Field} {tlv : Tlv} {rest : Tlv.Stream}
      (hcontent : source.contentAs grouping.tag true grouping.name = .ok content)
      (hbefore : Value.FillsFirst defs (own.getD policy) (slots.map (·.field))
        (Tlv.stream (own.getD policy).rules content.offset content.octets) before
        (field :: fields) (.next tlv rest))
      (haccepts : field.accepts? defs tlv.tag = some true) :
      Crosses (.decoding defs depth policy (.record grouping slots own) source)
        before.length field.name (field.decodingCall defs defs.choiceLimit (own.getD policy) tlv)
  | decodingItem {defs : Definitions} {depth : Nat} {policy : Policy} {grouping : Grouping}
      {type : String} {items before : List Value} {own : Option Policy} {source : Source}
      {content : Content} {tlv : Tlv} {rest : Tlv.Stream}
      (hcontent : source.contentAs grouping.tag true (grouping.name ++ " OF") = .ok content)
      (hbefore : Value.DecodesFirst defs (own.getD policy) type
        (Tlv.stream (own.getD policy).rules content.offset content.octets) before
        (.next tlv rest)) :
      Crosses (.decoding defs depth policy (.elements grouping type items own) source)
        before.length "element"
        (.decoding defs defs.choiceLimit (own.getD policy) (defs.template type) (.element tlv))
  | decodingAlternative {defs : Definitions} {depth : Nat} {policy : Policy}
      {alternatives : List Field} {selection : Option (Selection Value)} {own : Option Policy}
      {tlv : Tlv} {index : Nat} {field : Field}
      (hroute : Value.route defs depth alternatives tlv = .ok (index, field)) :
      Crosses (.decoding defs (depth + 1) policy (.choice alternatives selection own)
        (.element tlv)) index field.name (field.decodingCall defs depth (own.getD policy) tlv)

/-- A call that is made in the end, with the index and the name of every part on the way. -/
inductive Reaches : Call → List (Nat × String) → Call → Prop where
  | self (call : Call) : Reaches call [] call
  | passed {call part last : Call} {path : List (Nat × String)} (hpart : call.Passes part)
      (hlast : Reaches part path last) : Reaches call path last
  | crossed {call part last : Call} {index : Nat} {name : String} {path : List (Nat × String)}
      (hpart : call.Crosses index name part) (hlast : Reaches part path last) :
      Reaches call ((index, name) :: path) last

theorem Passes.fails {call part : Call} {error : Error} (hpasses : call.Passes part)
    (h : part.Fails error) : call.Fails error := by
  cases hpasses with
  | encode => exact map_eq_error_iff.2 h
  | taggedEncode => exact Value.taggedEncode_eq_error_iff.2 h
  | decode hread =>
    simp only [Fails] at h ⊢
    simp only [Value.decode_eq, Value.decodeRoot, hread, h, Except.bind]
  | taggedDecode hread =>
    simp only [Fails] at h ⊢
    simp only [Value.taggedDecode_eq, Value.decodeRoot, hread, h, Except.bind]
  | encoding policy tagging inner own =>
    simp only [Fails] at h ⊢
    rw [Value.encoding]
    cases hencoding : inner.encoding (own.getD policy) <;> simp_all [Except.bind]
  | encodingUnder => exact bind_eq_error_iff.2 (.inl h)
  | decoding =>
    simp only [Fails] at h ⊢
    rw [Value.decodeFrom_tagged_eq, h, Except.map]
  | explicit hcontent hmode hwrapped =>
    simp only [Fails] at h ⊢
    simp only [Value.decodeUnder_eq, hcontent, hmode, hwrapped, h, Except.bind]
  | implicit hcontent hmode =>
    simp only [Fails] at h ⊢
    simp only [Value.decodeUnder_eq, hcontent, hmode, h, Except.bind]

/-- What fails for a part fails for the composite, with one more layer. -/
theorem Crosses.fails {call part : Call} {index : Nat} {name : String} {source : Error}
    (hcrosses : call.Crosses index name part) (h : part.Fails source) :
    call.Fails (.inField index name source) := by
  cases hcrosses with
  | encodingSlot hbefore =>
    simp only [Fails]
    rw [Value.encoding, Value.encodeSlots_append hbefore, Nat.zero_add, Value.encodeSlots,
      Field.encode_of_fails h]
    rfl
  | encodingItem hbefore =>
    simp only [Fails] at h ⊢
    rw [Value.encoding, Value.encodeItems_append hbefore, Nat.zero_add, Value.encodeItems, h]
    rfl
  | encodingSelected hfield =>
    simp only [Fails]
    rw [Value.encoding, hfield]
    simp only [Field.encode_of_fails h]
  | decodingSlot hcontent hbefore haccepts =>
    simp only [Fails]
    rw [Value.decodeFrom_record_eq, hcontent]
    simp only [Except.bind]
    rw [hbefore.decodeSlots, Nat.zero_add, Value.decodeSlots_next_eq, haccepts]
    simp only [Field.decodeField_of_fails h, Except.bind, Except.map]
  | decodingItem hcontent hbefore =>
    simp only [Fails] at h ⊢
    rw [Value.decodeFrom_elements_eq, hcontent]
    simp only [Except.bind]
    rw [hbefore.decodeItems, Nat.zero_add, Value.decodeItems_next_eq, h]
    rfl
  | decodingAlternative hroute =>
    simp only [Fails]
    rw [Value.decodeFrom_choice_eq, hroute]
    simp only [Except.bind, Field.decodeField_of_fails h, Except.map]

/-- A SEQUENCE or SET fails as the field of its first element does. -/
theorem fails_firstSlot {defs : Definitions} {depth : Nat} {policy : Policy}
    {grouping : Grouping} {slot : Slot Value} {slots : List (Slot Value)} {own : Option Policy}
    {source : Source} {content : Content} {tlv : Tlv} {rest : Tlv.Stream} {error : Error}
    (hcontent : source.contentAs grouping.tag true grouping.name = .ok content)
    (hstream : Tlv.stream (own.getD policy).rules content.offset content.octets = .next tlv rest)
    (haccepts : slot.field.accepts? defs tlv.tag = some true)
    (h : (slot.field.decodingCall defs defs.choiceLimit (own.getD policy) tlv).Fails error) :
    (Call.decoding defs depth policy (.record grouping (slot :: slots) own) source).Fails
      (.inField 0 slot.field.name error) := by
  have hbefore : Value.FillsFirst defs (own.getD policy) ((slot :: slots).map (·.field))
      (Tlv.stream (own.getD policy).rules content.offset content.octets) []
      (slot.field :: slots.map (·.field)) (.next tlv rest) := by
    rw [hstream]
    exact .none _ _
  exact (Crosses.decodingSlot hcontent hbefore haccepts).fails h

end Call

end Asn1
