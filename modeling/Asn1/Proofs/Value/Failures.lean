import Asn1.Proofs.Offset
import Asn1.Proofs.Value.Calls
import Asn1.Value.Access

/-!
Where a failure comes from. A call that fails has met an error by itself, or a call that it
makes has failed. An error of its own has no layers, and if it is about an absent field, the
call is about the SEQUENCE or SET that requires the field.
-/

namespace Asn1

namespace Error

/-- The indices and the names from the outermost composite down to the root cause. -/
def layers : Error → List (Nat × String)
  | .inField index name source => (index, name) :: source.layers
  | _ => []

/-- The required field that is reported for want of its value. -/
def absentField? : Error → Option (Nat × String)
  | .missingField index name => some (index, name)
  | .unencodable (.fieldNotSet index name) => some (index, name)
  | _ => none

/-- Neither about a part nor about a part that is absent. -/
def Plain (error : Error) : Prop := error.layers = [] ∧ error.absentField? = none

section Plain

variable {offset : Nat}

@[simp] theorem plain_malformed (cause : Malformation) : (Error.malformed offset cause).Plain :=
  ⟨rfl, rfl⟩

@[simp] theorem plain_unexpectedTag (expected found : Tag) :
    (Error.unexpectedTag offset expected found).Plain := ⟨rfl, rfl⟩

@[simp] theorem plain_unknownAlternative (tag : Tag) :
    (Error.unknownAlternative offset tag).Plain := ⟨rfl, rfl⟩

@[simp] theorem plain_trailing (remaining : Nat) : (Error.trailing offset remaining).Plain :=
  ⟨rfl, rfl⟩

@[simp] theorem plain_noSuchField (index size : Nat) : (Error.noSuchField index size).Plain :=
  ⟨rfl, rfl⟩

@[simp] theorem plain_endlessType : Error.endlessType.Plain := ⟨rfl, rfl⟩

@[simp] theorem plain_unencodable {cause : Unencodable} :
    (Error.unencodable cause).Plain ↔ ∀ index name, cause ≠ .fieldNotSet index name := by
  cases cause <;> simp [Plain, layers, absentField?]

end Plain

/-- The error is about octets, and tells where they lie. -/
def Placed (error : Error) : Prop := error.offset? ≠ none

section Placed

variable {offset : Nat}

@[simp] theorem placed_malformed (cause : Malformation) :
    (Error.malformed offset cause).Placed := by
  simp [Placed, offset?]

@[simp] theorem placed_unexpectedTag (expected found : Tag) :
    (Error.unexpectedTag offset expected found).Placed := by
  simp [Placed, offset?]

@[simp] theorem placed_trailing (remaining : Nat) : (Error.trailing offset remaining).Placed := by
  simp [Placed, offset?]

theorem Placed.plain {error : Error} (h : error.Placed) : error.Plain := by
  cases error with
  | malformed | unexpectedTag | unknownAlternative | trailing => simp
  | missingField | unencodable | noSuchField | typeMismatch | endlessType | violated | inField =>
    exact absurd rfl h

end Placed

end Error

section Plain

theorem Tag.decode_placed (offset : Nat) (octets : Octets) :
    FailsWith Error.Placed (Tag.decode offset octets) := by
  cases octets with
  | nil => simp [decode]
  | cons first rest =>
    simp only [decode]
    split
    · exact .ok
    · split
      · rename_i fault _
        obtain ⟨cause, hcause⟩ := groupError_eq (offset + 1) fault
        simp [hcause]
      · split <;> simp

theorem Length.decode_placed (offset : Nat) (octets : Octets) :
    FailsWith Error.Placed (Length.decode offset octets) := by
  cases octets with
  | nil => simp [decode]
  | cons first rest =>
    simp only [decode]
    repeat' split
    all_goals simp

theorem Tlv.read_placed (rules : Rules) (offset : Nat) (octets : Octets) :
    FailsWith Error.Placed (Tlv.read rules offset octets) := by
  rw [read]
  split
  · rename_i herror
    exact FailsWith.error_iff.2 (Tag.decode_placed _ _ _ herror)
  · dsimp only
    split
    · rename_i herror
      exact FailsWith.error_iff.2 (Length.decode_placed _ _ _ herror)
    · split
      · simp
      · split <;> simp

/-- The break, if there is one, is plain. -/
def Tlv.Stream.Plain : Tlv.Stream → Prop
  | .done => True
  | .broken error => error.Plain
  | .next _ rest => rest.Plain

theorem Tlv.stream_plain (rules : Rules) (offset : Nat) (octets : Octets) :
    (stream rules offset octets).Plain := by
  fun_induction stream rules offset octets with
  | case1 => trivial
  | case2 _ _ _ _ herror => exact (read_placed _ _ _ _ herror).plain
  | case3 _ _ _ _ _ _ ih => exact ih

theorem Source.contentUnder_placed (source : Source) (expected : Tag) :
    FailsWith Error.Placed (source.contentUnder expected) := by
  cases source with
  | element tlv =>
    rw [contentUnder]
    split <;> simp
  | below content => exact .ok

theorem Source.contentAs_placed (source : Source) (expected : Tag) (constructed : Bool)
    (type : String) : FailsWith Error.Placed (source.contentAs expected constructed type) := by
  refine (source.contentUnder_placed expected).bind fun content _ => FailsWith.map ?_
  rw [Content.inForm]
  split <;> simp

theorem Content.wrapped_placed (content : Content) (rules : Rules) (tagging : Tagging) :
    FailsWith Error.Placed (content.wrapped rules tagging) := by
  rw [wrapped]
  split
  · simp
  · split
    · simp
    · exact Tlv.read_placed _ _ _

theorem Value.route_plain (defs : Definitions) (depth : Nat) (alternatives : List Field)
    (tlv : Tlv) : FailsWith Error.Plain (route defs depth alternatives tlv) := by
  rw [route]
  split <;> simp

theorem Encoding.split_plain (encoding : Encoding) : FailsWith Error.Plain encoding.split := by
  cases encoding with
  | parts => exact .ok
  | whole raw =>
    rw [split]
    split
    · rename_i herror
      exact FailsWith.error_iff.2 (Tlv.read_placed _ _ _ _ herror).plain
    · exact .ok

theorem Tagging.apply_plain (tagging : Tagging) (inner : Value) (encoding : Encoding) :
    FailsWith Error.Plain (tagging.apply inner encoding) := by
  rw [apply]
  split
  · exact .ok
  · split
    · rename_i herror
      exact FailsWith.error_iff.2 (Encoding.split_plain _ _ herror)
    · exact .ok

theorem ObjectIdentifier.encode_plain (oid : ObjectIdentifier) :
    FailsWith (fun cause => (Error.unencodable cause).Plain) oid.encode := by
  rw [encode]
  refine FailsWith.map ?_
  rw [validate.eq_def]
  split
  · repeat' split
    all_goals simp
  · simp

theorem Primitive.encode_plain (primitive : Primitive) :
    FailsWith (fun cause => (Error.unencodable cause).Plain) primitive.encode := by
  cases primitive with
  | boolean | integer | enumerated | bitString | octetString | null => exact .ok
  | objectIdentifier oid => exact oid.encode_plain
  | characterString string =>
    rw [encode, CharacterString.encode]
    split <;> simp
  | utcTime instant =>
    rw [encode, Time.Utc.encode]
    repeat' split
    all_goals simp
  | generalizedTime instant =>
    rw [encode, Time.Generalized.encode]
    repeat' split
    all_goals simp

end Plain

namespace Value

/-- A SEQUENCE or SET in which the field at the index has the name and is required. -/
def Requires (value : Value) (index : Nat) (name : String) : Prop :=
  ∃ slots slot, value.slots? = some slots ∧ slots[index]? = some slot ∧
    slot.field.name = name ∧ slot.field.optional = false

end Value

/-- Why a call fails: by itself, or because of a call that it makes. -/
inductive Call.Origin (call : Call) (error : Error) : Prop where
  | own (hlayers : error.layers = [])
      (habsent : ∀ index name, error.absentField? = some (index, name) →
        call.value.Requires index name)
  | passed {part : Call} (hpart : call.Passes part) (herror : part.Fails error)
  | crossed {part : Call} {index : Nat} {name : String} {source : Error}
      (hpart : call.Crosses index name part) (hsource : part.Fails source)
      (herror : error = .inField index name source)

theorem Call.Origin.plain {call : Call} {error : Error} (h : error.Plain) :
    call.Origin error := by
  refine .own h.1 fun index name habsent => ?_
  rw [h.2] at habsent
  cases habsent

namespace Value

section Loops

variable {defs : Definitions} {policy : Policy} {error : Error}

/-- A slot that has to be set and is not, or whose value fails. -/
inductive SlotFails (policy : Policy) (index : Nat) : Slot Value → Error → Prop where
  | notSet {field : Field} (hrequired : field.optional = false) :
      SlotFails policy index ⟨field, none⟩ (.unencodable (.fieldNotSet index field.name))
  | failed {field : Field} {value : Value} {source : Error}
      (hsource : (field.encodingCall policy value).Fails source) :
      SlotFails policy index ⟨field, some value⟩ (.inField index field.name source)

/-- The slot that is why encoding fails, after slots that do not fail. -/
def SlotFailsAfter (policy : Policy) (index : Nat) (slots : List (Slot Value)) (error : Error) :
    Prop :=
  ∃ before octets slot after, slots = before ++ slot :: after ∧
    encodeSlots policy index before = .ok octets ∧
    SlotFails policy (index + before.length) slot error

theorem SlotFails.here {index : Nat} {slot : Slot Value} {rest : List (Slot Value)}
    (h : SlotFails policy index slot error) : SlotFailsAfter policy index (slot :: rest) error :=
  ⟨[], [], slot, rest, rfl, rfl, h⟩

/-- Past a slot that does not fail, the index is one more. -/
theorem SlotFailsAfter.further {index : Nat} {slot : Slot Value} {rest : List (Slot Value)}
    (h : SlotFailsAfter policy (index + 1) rest error) (front : Octets)
    (hslot : ∀ {before more}, encodeSlots policy (index + 1) before = .ok more →
      encodeSlots policy index (slot :: before) = .ok (front ++ more)) :
    SlotFailsAfter policy index (slot :: rest) error := by
  obtain ⟨before, more, failing, after, rfl, hbefore, hfails⟩ := h
  refine ⟨slot :: before, front ++ more, failing, after, rfl, hslot hbefore, ?_⟩
  rw [add_length_cons]
  exact hfails

theorem encodeSlots_fails {index : Nat} {slots : List (Slot Value)}
    (h : encodeSlots policy index slots = .error error) :
    SlotFailsAfter policy index slots error := by
  induction slots generalizing index with
  | nil => cases h
  | cons slot rest ih =>
    obtain ⟨field, content⟩ := slot
    rw [encodeSlots.eq_def] at h
    cases content with
    | none =>
      dsimp only at h
      split at h
      · rename_i hoptional
        refine (ih h).further [] fun hmore => ?_
        exact encodeSlots_unset.2 ⟨hoptional, hmore⟩
      · rename_i hrequired
        cases h
        exact (SlotFails.notSet (Bool.eq_false_iff.2 hrequired)).here
    | some value =>
      dsimp only at h
      split at h
      · rename_i hfield
        cases h
        obtain ⟨source, hsource, rfl⟩ := Field.encode_eq_error_iff.1 hfield
        exact (SlotFails.failed hsource).here
      · rename_i front hfront
        split at h
        · rename_i hrest
          cases h
          refine (ih hrest).further front fun hmore => ?_
          exact encodeSlots_set.2 ⟨front, _, hfront, hmore, rfl⟩
        · cases h

theorem encodeItems_fails {index : Nat} {items : List Value}
    (h : encodeItems policy index items = .error error) :
    ∃ before octets item after source, items = before ++ item :: after ∧
      encodeItems policy index before = .ok octets ∧ item.encoding policy = .error source ∧
      error = .inField (index + before.length) "element" source := by
  induction items generalizing index with
  | nil => cases h
  | cons item rest ih =>
    rw [encodeItems] at h
    split at h
    · rename_i source hitem
      cases h
      exact ⟨[], [], item, rest, source, rfl, rfl, hitem, rfl⟩
    · rename_i front hitem
      split at h
      · rename_i hrest
        cases h
        obtain ⟨before, more, failing, after, source, rfl, hbefore, hsource, rfl⟩ := ih hrest
        refine ⟨item :: before, _, failing, after, source, rfl,
          encodeItems_cons.2 ⟨front, more, hitem, hbefore, rfl⟩, hsource, ?_⟩
        rw [add_length_cons]
      · cases h

/-- Where decoding stops among the fields and the elements that are left. -/
inductive SlotsStop (defs : Definitions) (policy : Policy) (index : Nat) :
    List Field → Tlv.Stream → Error → Prop where
  | plain {fields : List Field} {stream : Tlv.Stream} {error : Error} (hplain : error.Plain) :
      SlotsStop defs policy index fields stream error
  | missing {field : Field} {fields : List Field} {stream : Tlv.Stream}
      (hrequired : field.optional = false) :
      SlotsStop defs policy index (field :: fields) stream (.missingField index field.name)
  | failed {field : Field} {fields : List Field} {tlv : Tlv} {rest : Tlv.Stream}
      {source : Error} (haccepts : field.accepts? defs tlv.tag = some true)
      (hsource : (field.decodingCall defs defs.choiceLimit policy tlv).Fails source) :
      SlotsStop defs policy index (field :: fields) (.next tlv rest)
        (.inField index field.name source)

/-- The place where decoding stops, after fields that are filled or skipped. -/
def SlotsStopAfter (defs : Definitions) (policy : Policy) (index : Nat) (fields : List Field)
    (stream : Tlv.Stream) (error : Error) : Prop :=
  ∃ before left last, FillsFirst defs policy fields stream before left last ∧
    SlotsStop defs policy (index + before.length) left last error

theorem SlotsStop.here {index : Nat} {fields : List Field} {stream : Tlv.Stream}
    (h : SlotsStop defs policy index fields stream error) :
    SlotsStopAfter defs policy index fields stream error :=
  ⟨[], fields, stream, .none fields stream, h⟩

/-- Past a field that is filled or skipped, the index is one more. -/
theorem SlotsStopAfter.further {index : Nat} {field : Field} {fields : List Field}
    {stream rest : Tlv.Stream} {content : Option Value}
    (h : SlotsStopAfter defs policy (index + 1) fields rest error)
    (hfield : ∀ {before left last}, FillsFirst defs policy fields rest before left last →
      FillsFirst defs policy (field :: fields) stream (⟨field, content⟩ :: before) left last) :
    SlotsStopAfter defs policy index (field :: fields) stream error := by
  obtain ⟨before, left, last, hbefore, hstop⟩ := h
  refine ⟨⟨field, content⟩ :: before, left, last, hfield hbefore, ?_⟩
  rw [add_length_cons]
  exact hstop

theorem decodeSlots_fails {endOffset index : Nat} {fields : List Field} {stream : Tlv.Stream}
    (hstream : stream.Plain)
    (h : decodeSlots defs policy endOffset index fields stream = .error error) :
    SlotsStopAfter defs policy index fields stream error := by
  induction stream generalizing index fields with
  | done =>
    induction fields generalizing index with
    | nil =>
      rw [decodeSlots] at h
      cases h
    | cons field fields ih =>
      rw [decodeSlots_done_eq] at h
      split at h
      · rename_i hoptional
        exact (ih (map_eq_error_iff.1 h)).further (.unset hoptional)
      · rename_i hrequired
        cases h
        exact (SlotsStop.missing (Bool.eq_false_iff.2 hrequired)).here
  | broken =>
    rw [decodeSlots] at h
    cases h
    exact (SlotsStop.plain hstream).here
  | next tlv rest ihrest =>
    -- The element stays at the front while fields are skipped.
    induction fields generalizing index with
    | nil =>
      rw [decodeSlots] at h
      split at h
      · cases h
        exact (SlotsStop.plain (Error.plain_trailing _)).here
      · cases h
    | cons field fields ih =>
      rw [decodeSlots_next_eq] at h
      split at h
      · cases h
        exact (SlotsStop.plain Error.plain_endlessType).here
      · rename_i haccepts
        rcases bind_eq_error_iff.1 h with hfield | ⟨value, hvalue, hrest⟩
        · obtain ⟨source, hsource, rfl⟩ := Field.decodeField_eq_error_iff.1 hfield
          exact (SlotsStop.failed haccepts hsource).here
        · exact (ihrest hstream (map_eq_error_iff.1 hrest)).further
            (.filled haccepts (decodesField_of_decodeField hvalue))
      · rename_i haccepts
        split at h
        · rename_i hoptional
          exact (ih (map_eq_error_iff.1 h)).further (.skipped haccepts hoptional)
        · rename_i hrequired
          cases h
          exact (SlotsStop.missing (Bool.eq_false_iff.2 hrequired)).here

theorem decodeItems_fails {type : String} {index : Nat} {stream : Tlv.Stream}
    (hstream : stream.Plain) (h : decodeItems defs policy type index stream = .error error) :
    error.Plain ∨ ∃ before tlv rest source,
      DecodesFirst defs policy type stream before (.next tlv rest) ∧
      decodeFrom defs defs.choiceLimit policy (defs.template type) (.element tlv) =
        .error source ∧
      error = .inField (index + before.length) "element" source := by
  induction stream generalizing index with
  | done =>
    rw [decodeItems] at h
    cases h
  | broken =>
    rw [decodeItems] at h
    cases h
    exact .inl hstream
  | next tlv rest ih =>
    rw [decodeItems_next_eq] at h
    rcases bind_eq_error_iff.1 h with hitem | ⟨item, hitem, hrest⟩
    · obtain ⟨source, hsource, rfl⟩ := mapError_eq_error_iff.1 hitem
      exact .inr ⟨[], tlv, rest, source, .none _, hsource, rfl⟩
    · rcases ih hstream (map_eq_error_iff.1 hrest) with hplain |
        ⟨before, failing, last, source, hbefore, hsource, rfl⟩
      · exact .inl hplain
      · have hitem := decodes_iff.1 (mapError_eq_ok_iff.1 hitem)
        refine .inr ⟨item :: before, failing, last, source, .next hitem hbefore, hsource, ?_⟩
        rw [add_length_cons]

end Loops

theorem atEnd_placed (policy : Policy) (tlv : Tlv) (rest : Octets) (value : Value) :
    FailsWith Error.Placed (atEnd policy tlv rest value) := by
  rw [atEnd]
  split <;> simp

theorem encoding_origin {policy : Policy} {value : Value} {error : Error}
    (h : value.encoding policy = .error error) : (Call.encoding policy value).Origin error := by
  cases value with
  | leaf primitive =>
    rw [Value.encoding] at h
    split at h
    · rename_i cause hcause
      cases h
      exact .plain (primitive.encode_plain cause hcause)
    · cases h
  | record grouping slots own =>
    rw [Value.encoding] at h
    split at h
    · rename_i hslots
      cases h
      obtain ⟨before, octets, slot, after, rfl, hbefore, hfails⟩ := encodeSlots_fails hslots
      rw [Nat.zero_add] at hfails
      cases hfails with
      | @notSet field hrequired =>
        refine .own rfl ?_
        rintro _ _ ⟨⟩
        exact ⟨_, ⟨field, none⟩, rfl, by simp, rfl, hrequired⟩
      | failed hsource => exact .crossed (.encodingSlot hbefore) hsource rfl
    · cases h
  | elements grouping type items own =>
    rw [Value.encoding] at h
    split at h
    · rename_i hitems
      cases h
      obtain ⟨before, octets, item, after, source, rfl, hbefore, hsource, rfl⟩ :=
        encodeItems_fails hitems
      rw [Nat.zero_add]
      exact .crossed (.encodingItem hbefore) hsource rfl
    · cases h
  | choice alternatives selection own =>
    cases selection with
    | none =>
      cases h
      exact .plain ⟨rfl, rfl⟩
    | some selection =>
      rw [Value.encoding] at h
      split at h
      · cases h
        exact .plain (Error.plain_noSuchField _ _)
      · rename_i field hfield
        split at h
        · rename_i hencode
          cases h
          obtain ⟨source, hsource, rfl⟩ := Field.encode_eq_error_iff.1 hencode
          exact .crossed (.encodingSelected hfield) hsource rfl
        · cases h
  | tagged tagging inner own =>
    refine .passed (.encoding policy tagging inner own) ?_
    rw [Value.encoding] at h
    rw [Call.Fails, bind_eq_error_iff]
    split at h
    · rename_i hinner
      cases h
      exact .inl hinner
    · rename_i bare hinner
      exact .inr ⟨bare, hinner, h⟩
  | any raw =>
    rw [Value.encoding] at h
    split at h
    · cases h
      exact .plain ⟨rfl, rfl⟩
    · cases h

theorem decodeFrom_origin {defs : Definitions} {depth : Nat} {policy : Policy} {value : Value}
    {source : Source} {error : Error}
    (h : decodeFrom defs depth policy value source = .error error) :
    (Call.decoding defs depth policy value source).Origin error := by
  cases value with
  | leaf primitive =>
    rw [decodeFrom_leaf_eq] at h
    rcases bind_eq_error_iff.1 h with hcontent | ⟨content, -, hdecode⟩
    · exact .plain (source.contentAs_placed _ _ _ _ hcontent).plain
    · obtain ⟨cause, -, rfl⟩ := mapError_eq_error_iff.1 (map_eq_error_iff.1 hdecode)
      exact .plain (Error.plain_malformed cause)
  | record grouping slots own =>
    rw [decodeFrom_record_eq] at h
    rcases bind_eq_error_iff.1 h with hcontent | ⟨content, hcontent, hslots⟩
    · exact .plain (source.contentAs_placed _ _ _ _ hcontent).plain
    · obtain ⟨before, left, last, hbefore, hstop⟩ :=
        decodeSlots_fails (Tlv.stream_plain _ _ _) (map_eq_error_iff.1 hslots)
      rw [Nat.zero_add] at hstop
      cases hstop with
      | plain hplain => exact .plain hplain
      | missing hrequired =>
        refine .own rfl ?_
        rintro _ _ ⟨⟩
        obtain ⟨slot, hslot, rfl⟩ := hbefore.exists_slot
        exact ⟨slots, slot, rfl, hslot, rfl, hrequired⟩
      | failed haccepts hsource =>
        exact .crossed (.decodingSlot hcontent hbefore haccepts) hsource rfl
  | elements grouping type items own =>
    rw [decodeFrom_elements_eq] at h
    rcases bind_eq_error_iff.1 h with hcontent | ⟨content, hcontent, hitems⟩
    · exact .plain (source.contentAs_placed _ _ _ _ hcontent).plain
    · rcases decodeItems_fails (Tlv.stream_plain _ _ _) (map_eq_error_iff.1 hitems) with hplain |
        ⟨before, tlv, rest, source, hbefore, hsource, rfl⟩
      · exact .plain hplain
      · rw [Nat.zero_add]
        exact .crossed (.decodingItem hcontent hbefore) hsource rfl
  | choice alternatives selection own =>
    cases source with
    | below content =>
      rw [decodeFrom_choice_below] at h
      cases h
      exact .plain (Error.plain_malformed _)
    | element tlv =>
      cases depth with
      | zero =>
        rw [decodeFrom_choice_zero] at h
        cases h
        exact .plain Error.plain_endlessType
      | succ depth =>
        rw [decodeFrom_choice_eq] at h
        rcases bind_eq_error_iff.1 h with hroute | ⟨⟨index, field⟩, hroute, hfield⟩
        · exact .plain (route_plain _ _ _ _ _ hroute)
        · obtain ⟨source, hsource, rfl⟩ :=
            Field.decodeField_eq_error_iff.1 (map_eq_error_iff.1 hfield)
          exact .crossed (.decodingAlternative hroute) hsource rfl
  | tagged tagging inner own =>
    rw [decodeFrom_tagged_eq] at h
    exact .passed (.decoding defs depth policy tagging inner own source) (map_eq_error_iff.1 h)
  | any raw =>
    cases source with
    | element tlv =>
      rw [decodeFrom] at h
      cases h
    | below content =>
      rw [decodeFrom] at h
      cases h
      exact .plain (Error.plain_malformed _)

theorem decodeUnder_origin {defs : Definitions} {policy : Policy} {tagging : Tagging}
    {value : Value} {source : Source} {error : Error}
    (h : decodeUnder defs policy tagging value source = .error error) :
    (Call.decodingUnder defs policy tagging value source).Origin error := by
  rw [decodeUnder_eq] at h
  rcases bind_eq_error_iff.1 h with hcontent | ⟨content, hcontent, h⟩
  · exact .plain (source.contentUnder_placed _ _ hcontent).plain
  · cases hmode : tagging.modeFor value with
    | explicit =>
      rw [hmode] at h
      rcases bind_eq_error_iff.1 h with hwrapped | ⟨⟨tlv, rest⟩, hwrapped, h⟩
      · exact .plain (content.wrapped_placed _ _ _ hwrapped).plain
      · rcases bind_eq_error_iff.1 h with hvalue | ⟨decoded, -, hrest⟩
        · exact .passed (.explicit hcontent hmode hwrapped) hvalue
        · split at hrest
          · cases hrest
          · cases hrest
            exact .plain (Error.plain_trailing _)
    | implicit =>
      rw [hmode] at h
      exact .passed (.implicit hcontent hmode) h

end Value

/-- A root fails where nothing can be read, where what is read fails, or for what is left. -/
theorem Call.origin_of_root {call : Call} {policy : Policy} {octets : Octets}
    {decoded : Tlv → Except Error Value} {error : Error}
    (hpassed : ∀ tlv rest, Tlv.read policy.rules 0 octets = .ok (tlv, rest) →
      decoded tlv = .error error → call.Origin error)
    (h : Value.decodeRoot policy octets decoded = .error error) : call.Origin error := by
  rcases bind_eq_error_iff.1 h with hread | ⟨⟨tlv, rest⟩, hread, h⟩
  · exact .plain (Tlv.read_placed _ _ _ _ hread).plain
  · rcases bind_eq_error_iff.1 h with hdecoded | ⟨value, -, hend⟩
    · exact hpassed tlv rest hread hdecoded
    · exact .plain (Value.atEnd_placed _ _ _ _ _ hend).plain

theorem Call.Fails.origin {call : Call} {error : Error} (h : call.Fails error) :
    call.Origin error := by
  cases call with
  | encode value policy => exact .passed (.encode value policy) (map_eq_error_iff.1 h)
  | taggedEncode value tagging policy =>
    exact .passed (.taggedEncode value tagging policy) (Value.taggedEncode_eq_error_iff.1 h)
  | decode defs value octets policy =>
    rw [Fails, Value.decode_eq] at h
    exact origin_of_root (fun tlv rest hread => .passed (.decode hread)) h
  | taggedDecode defs value tagging octets policy =>
    rw [Fails, Value.taggedDecode_eq] at h
    exact origin_of_root (fun tlv rest hread => .passed (.taggedDecode hread)) h
  | encoding policy value => exact Value.encoding_origin h
  | encodingUnder policy tagging value =>
    rcases bind_eq_error_iff.1 h with hvalue | ⟨bare, -, happly⟩
    · exact .passed (.encodingUnder policy tagging value) hvalue
    · exact .plain (Tagging.apply_plain _ _ _ _ happly)
  | decoding defs depth policy value source => exact Value.decodeFrom_origin h
  | decodingUnder defs policy tagging value source => exact Value.decodeUnder_origin h

end Asn1
