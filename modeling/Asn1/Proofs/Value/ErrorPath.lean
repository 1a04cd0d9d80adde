import Asn1.Proofs.Value.Failures

/-!
The layers of an error as a way into the value. They name the parts on the way to the call that
failed by itself, one for each composite and in their order, and no call on the way fails with
anything else.
-/

namespace Asn1

namespace Error

/-- The error as it surfaces from parts of composites, the outermost first. -/
def under (error : Error) (path : List (Nat × String)) : Error :=
  path.foldr (fun (index, name) source => .inField index name source) error

theorem rootCause_of_layers {error : Error} (h : error.layers = []) : error.rootCause = error := by
  cases error with
  | inField => cases h
  | _ => rfl

/-- A root cause has no layers. -/
theorem layers_rootCause (error : Error) : error.rootCause.layers = [] := by
  induction error with
  | inField index name source ih => exact ih
  | _ => rfl

/-- The layers are the path that is shown, with the names. -/
theorem map_layers (error : Error) : error.layers.map Prod.fst = error.fieldPath := by
  induction error with
  | inField index name source ih => rw [layers, List.map_cons, ih, fieldPath]
  | _ => rfl

end Error

namespace Value

/-- What a composite holds at the index, with the name of the part. -/
def held? (value : Value) (index : Nat) : Option (String × Value) :=
  match value with
  | .record _ slots _ =>
    slots[index]?.bind fun slot => slot.content.map fun content => (slot.field.name, content)
  | .elements _ _ items _ => items[index]?.map fun item => ("element", item)
  | .choice alternatives (some ⟨selected, content⟩) _ =>
    if selected = index then alternatives[index]?.map fun field => (field.name, content) else none
  | _ => none

/-- What decoding starts from at the index of a composite, with the name of the part. -/
def prototype? (defs : Definitions) (value : Value) (index : Nat) : Option (String × Value) :=
  match value with
  | .record _ slots _ =>
    slots[index]?.map fun slot => (slot.field.name, defs.template slot.field.type)
  | .elements _ type _ _ => some ("element", defs.template type)
  | .choice alternatives _ _ =>
    alternatives[index]?.map fun field => (field.name, defs.template field.type)
  | _ => none

/-- Where a path leads that goes through the re-tags around a composite to the part at the
index, which must have the name. -/
def walk (part? : Value → Nat → Option (String × Value)) (value : Value) :
    List (Nat × String) → Option Value
  | [] => some value.untagged
  | (index, name) :: path =>
    match part? value.untagged index with
    | none => none
    | some (found, part) => if found = name then walk part? part path else none

theorem walk_of_untagged {part? : Value → Nat → Option (String × Value)} {a b : Value}
    (h : a.untagged = b.untagged) (path : List (Nat × String)) :
    a.walk part? path = b.walk part? path := by
  cases path with
  | nil => rw [walk, walk, h]
  | cons => rw [walk, walk, h]

end Value

namespace Call

/-- The parts that the call finds in a composite. -/
def part? : Call → Value → Nat → Option (String × Value)
  | .encode _ _ => Value.held?
  | .taggedEncode _ _ _ => Value.held?
  | .encoding _ _ => Value.held?
  | .encodingUnder _ _ _ => Value.held?
  | .decode defs _ _ _ => Value.prototype? defs
  | .taggedDecode defs _ _ _ _ => Value.prototype? defs
  | .decoding defs _ _ _ _ => Value.prototype? defs
  | .decodingUnder defs _ _ _ _ => Value.prototype? defs

@[simp] theorem part?_encodingCall (field : Field) (policy : Policy) (value : Value) :
    (field.encodingCall policy value).part? = Value.held? := by
  rw [Field.encodingCall]
  split <;> rfl

@[simp] theorem part?_decodingCall (field : Field) (defs : Definitions) (depth : Nat)
    (policy : Policy) (tlv : Tlv) :
    (field.decodingCall defs depth policy tlv).part? = Value.prototype? defs := by
  rw [Field.decodingCall]
  split <;> rfl

/-- Falls with every call that is passed on to about the same value. -/
def order : Call → Nat
  | .encoding _ _ => 0
  | .decoding _ _ _ _ _ => 0
  | .encodingUnder _ _ _ => 1
  | .decodingUnder _ _ _ _ _ => 1
  | _ => 2

section Steps

variable {call part : Call} {index : Nat} {name : String}

theorem Passes.lowers (h : call.Passes part) :
    2 * sizeOf part.value + part.order < 2 * sizeOf call.value + call.order := by
  cases h with
  | encoding | decoding =>
    simp only [order, value, Value.tagged.sizeOf_spec]
    omega
  | _ =>
    simp only [order, value]
    omega

theorem Passes.untagged_eq (h : call.Passes part) :
    call.value.untagged = part.value.untagged := by
  cases h <;> rfl

theorem Passes.part?_eq (h : call.Passes part) : part.part? = call.part? := by
  cases h <;> rfl

theorem Crosses.part?_eq (h : call.Crosses index name part) : part.part? = call.part? := by
  cases h with
  | encodingSlot | encodingSelected => exact part?_encodingCall _ _ _
  | decodingSlot | decodingAlternative => exact part?_decodingCall _ _ _ _ _
  | encodingItem | decodingItem => rfl

/-- What is crossed has the part at the index. -/
theorem Crosses.part?_value (h : call.Crosses index name part) :
    call.part? call.value.untagged index = some (name, part.value) := by
  cases h with
  | encodingSlot =>
    rw [Field.value_encodingCall]
    simp [part?, value, Value.untagged, Value.held?]
  | encodingItem => simp [part?, value, Value.untagged, Value.held?]
  | encodingSelected hfield =>
    rw [Field.value_encodingCall]
    simp [part?, value, Value.untagged, Value.held?, hfield]
  | decodingSlot _ hbefore =>
    obtain ⟨slot, hslot, rfl⟩ := hbefore.exists_slot
    rw [Field.value_decodingCall]
    simp [part?, value, Value.untagged, Value.prototype?, hslot]
  | decodingItem => rfl
  | decodingAlternative hroute =>
    have hfield := Value.getElem?_of_route hroute
    rw [Field.value_decodingCall]
    simp [part?, value, Value.untagged, Value.prototype?, hfield]

end Steps

variable {call last : Call} {path : List (Nat × String)} {error : Error}

theorem Reaches.walk_eq (h : call.Reaches path last) :
    call.value.walk call.part? path = some last.value.untagged := by
  induction h with
  | self => rfl
  | passed hpart _ ih => rw [Value.walk_of_untagged hpart.untagged_eq, ← hpart.part?_eq, ih]
  | crossed hpart _ ih =>
    rw [Value.walk, hpart.part?_value]
    simp only [if_true]
    rw [← hpart.part?_eq, ih]

/-- What fails in the end is why the call fails. -/
theorem Reaches.fails (h : call.Reaches path last) (hlast : last.Fails error) :
    call.Fails (error.under path) := by
  induction h with
  | self => exact hlast
  | passed hpart _ ih => exact hpart.fails (ih hlast)
  | crossed hpart _ ih => exact hpart.fails (ih hlast)

/-- A call that fails without layers has no part that fails. -/
theorem Fails.alone {part : Call} {index : Nat} {name : String} {source : Error}
    (h : call.Fails error.rootCause) (hpart : call.Crosses index name part) :
    ¬ part.Fails source := by
  intro hsource
  have hlayers := error.layers_rootCause
  rw [h.unique (hpart.fails hsource)] at hlayers
  cases hlayers

/-- Where an error comes from: the call that met it by itself, at the end of its layers. -/
structure Locates (call : Call) (error : Error) (last : Call) : Prop where
  reaches : call.Reaches error.layers last
  fails : last.Fails error.rootCause
  alone : ∀ index name part source, last.Crosses index name part → ¬ part.Fails source
  leads : call.value.walk call.part? error.layers = some last.value.untagged
  requires : ∀ index name, error.rootCause.absentField? = some (index, name) →
    last.value.Requires index name

/-- A call that is reached through the layers and fails with the root cause is where it comes
from. -/
theorem Reaches.locates (hreaches : call.Reaches error.layers last)
    (hfails : last.Fails error.rootCause)
    (hrequires : ∀ index name, error.rootCause.absentField? = some (index, name) →
      last.value.Requires index name) : call.Locates error last where
  reaches := hreaches
  fails := hfails
  alone _ _ _ _ hpart := hfails.alone hpart
  leads := hreaches.walk_eq
  requires := hrequires

theorem exists_locates {call : Call} {error : Error} (h : call.Fails error) :
    ∃ last, call.Locates error last := by
  obtain ⟨hlayers, habsent⟩ | ⟨hpart, herror⟩ | ⟨hpart, hsource, hlayer⟩ := h.origin
  · have hreaches := Reaches.self call
    rw [← hlayers] at hreaches
    rw [← Error.rootCause_of_layers hlayers] at h habsent
    exact ⟨call, hreaches.locates h habsent⟩
  · obtain ⟨last, hlast⟩ := exists_locates herror
    exact ⟨last, (hlast.reaches.passed hpart).locates hlast.fails hlast.requires⟩
  · obtain ⟨last, hlast⟩ := exists_locates hsource
    subst hlayer
    exact ⟨last, (hlast.reaches.crossed hpart).locates hlast.fails hlast.requires⟩
termination_by (sizeOf error, 2 * sizeOf call.value + call.order)
decreasing_by
  · exact .right _ hpart.lowers
  · subst hlayer
    exact .left _ _ (by simp)

/-- The layers of an error name the real place, and their indices are the path that is shown. They
lead through the type of the value to the call that met the error by itself, and whatever else is
called on the way and fails, the error has its failure below just the composites that were
crossed. -/
theorem failures_name_their_place {call : Call} {error : Error} (h : call.Fails error) :
    (∃ last, call.Locates error last) ∧
      error.fieldPath = error.layers.map Prod.fst ∧
      ∀ path part source, call.Reaches path part → part.Fails source →
        error = source.under path := by
  refine ⟨exists_locates h, error.map_layers.symm, ?_⟩
  intro path part source hreaches hsource
  exact h.unique (hreaches.fails hsource)

section Children

open Value

/-- Children, each with a name and a date of birth. -/
def childTypes : Definitions :=
  ⟨[("Children", .elements .sequence "Child" [] none),
    ("Child", .emptyRecord .set
      [⟨"name", none, none, false, "Name"⟩, ⟨"dateOfBirth", some 0, none, false, "Date"⟩]),
    ("Name", .leaf (.characterString ⟨.visible, ""⟩)),
    ("Date", .tagged ⟨.application, 3, .implicit⟩ (.leaf (.characterString ⟨.visible, ""⟩)) none)]⟩

/-- A child with both. -/
def firstChild : Value :=
  .record .set
    [⟨⟨"name", none, none, false, "Name"⟩, some (.leaf (.characterString ⟨.visible, "Sue"⟩))⟩,
      ⟨⟨"dateOfBirth", some 0, none, false, "Date"⟩, some (.tagged ⟨.application, 3, .implicit⟩
        (.leaf (.characterString ⟨.visible, "195"⟩)) none)⟩] none

theorem decodes_firstChild :
    Decodes childTypes childTypes.choiceLimit .der (childTypes.template "Child")
      (.element ⟨.set, 4, [0x31, 0x0C],
        [0x1A, 0x03, 0x53, 0x75, 0x65, 0xA0, 0x05, 0x43, 0x03, 0x31, 0x39, 0x35]⟩) firstChild := by
  refine .record rfl rfl ?_
  rw [Tlv.stream_of_read rfl]
  refine .filled rfl (.untagged rfl (.leaf rfl rfl rfl)) ?_
  show DecodesSlots _ _ _ (Tlv.stream .distinguished 11
    [0xA0, 0x05, 0x43, 0x03, 0x31, 0x39, 0x35]) _
  rw [Tlv.stream_of_last rfl]
  exact .filled rfl (.tagged rfl (.explicit rfl rfl rfl
    (.tagged (.implicit rfl rfl (.leaf rfl rfl rfl))))) (.done nofun)

/-- The name is taken, and nothing is left for the date. -/
theorem child_without_date_fails :
    (Call.decoding childTypes childTypes.choiceLimit .der (childTypes.template "Child")
      (.element ⟨.set, 18, [0x31, 0x05], [0x1A, 0x03, 0x54, 0x6F, 0x6D]⟩)).Fails
      (.missingField 1 "dateOfBirth") := by
  have hnamed : FillsFirst childTypes .der
      [⟨"name", none, none, false, "Name"⟩, ⟨"dateOfBirth", some 0, none, false, "Date"⟩]
      (Tlv.stream .distinguished 20 [0x1A, 0x03, 0x54, 0x6F, 0x6D])
      [⟨⟨"name", none, none, false, "Name"⟩, some (.leaf (.characterString ⟨.visible, "Tom"⟩))⟩]
      [⟨"dateOfBirth", some 0, none, false, "Date"⟩] .done := by
    rw [Tlv.stream_of_last rfl]
    exact .filled rfl (.untagged rfl (.leaf rfl rfl rfl)) (.none _ _)
  have hslots := hnamed.decodeSlots 25 0
  rw [decodeSlots_done_eq] at hslots
  exact decodeFrom_record_eq.trans (congrArg (Except.map _) hslots)

/-- The first child has both fields, the second only the name. -/
theorem second_child_without_date :
    ∃ last, (Call.decode childTypes
      (.emptyRecord .set [⟨"children", some 3, some .implicit, false, "Children"⟩])
      [0x31, 0x17, 0xA3, 0x15,
        0x31, 0x0C, 0x1A, 0x03, 0x53, 0x75, 0x65, 0xA0, 0x05, 0x43, 0x03, 0x31, 0x39, 0x35,
        0x31, 0x05, 0x1A, 0x03, 0x54, 0x6F, 0x6D] .der).Locates
      (.inField 0 "children" (.inField 1 "element" (.missingField 1 "dateOfBirth"))) last ∧
      last.Fails (.missingField 1 "dateOfBirth") ∧ last.value.Requires 1 "dateOfBirth" := by
  have hfirst : DecodesFirst childTypes .der "Child"
      (Tlv.stream .distinguished 4
        [0x31, 0x0C, 0x1A, 0x03, 0x53, 0x75, 0x65, 0xA0, 0x05, 0x43, 0x03, 0x31, 0x39, 0x35,
          0x31, 0x05, 0x1A, 0x03, 0x54, 0x6F, 0x6D]) [firstChild]
      (.next ⟨.set, 18, [0x31, 0x05], [0x1A, 0x03, 0x54, 0x6F, 0x6D]⟩ .done) := by
    rw [Tlv.stream_of_read rfl]
    refine .next decodes_firstChild ?_
    show DecodesFirst _ _ _ (Tlv.stream .distinguished 18
      [0x31, 0x05, 0x1A, 0x03, 0x54, 0x6F, 0x6D]) _ _
    rw [Tlv.stream_of_last rfl]
    exact .none _
  have hchildren : (Call.decoding childTypes childTypes.choiceLimit .der
      (.elements .sequence "Child" [] none)
      (.below ⟨true, [0x31, 0x0C, 0x1A, 0x03, 0x53, 0x75, 0x65, 0xA0, 0x05, 0x43, 0x03, 0x31, 0x39,
        0x35, 0x31, 0x05, 0x1A, 0x03, 0x54, 0x6F, 0x6D], 4⟩)).Fails
      (.inField [firstChild].length "element" (.missingField 1 "dateOfBirth")) :=
    (Crosses.decodingItem rfl hfirst).fails child_without_date_fails
  refine (failures_name_their_place ?fails).1.imp fun last hlocates =>
    ⟨hlocates, hlocates.fails, hlocates.requires 1 "dateOfBirth" rfl⟩
  case fails =>
    exact Passes.fails (.decode rfl) (fails_firstSlot rfl (Tlv.stream_of_last rfl) rfl
      (Passes.fails (.implicit rfl rfl) hchildren))

end Children

end Call

end Asn1
