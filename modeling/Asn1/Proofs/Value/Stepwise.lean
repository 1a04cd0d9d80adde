import Asn1.Proofs.Outcome
import Asn1.Proofs.Value.Accepts
import Asn1.Proofs.Value.Template

/-!
Every call of a function that decodes as the chain of the calls that it makes, in their order.
A statement that goes from these to the call itself holds of every call, since the octets, the
CHOICEs allowed and the value all run out. Unlike the rules for what decodes, both speak of
failures as well.
-/

namespace Asn1

/-- Where the octets after the content lie. -/
def Content.endOffset (content : Content) : Nat := content.offset + content.octets.length

/-- The content under the tag that is expected and in the form that the type wants. -/
def Source.contentAs (source : Source) (expected : Tag) (constructed : Bool) (type : String) :
    Except Error Content :=
  (source.contentUnder expected).bind fun content =>
    (content.inForm constructed type).map fun _ => content

theorem Source.contentUnder_of_contentAs {source : Source} {expected : Tag} {constructed : Bool}
    {type : String} {content : Content}
    (h : source.contentAs expected constructed type = .ok content) :
    source.contentUnder expected = .ok content := by
  rw [contentAs] at h
  cases hcontent : source.contentUnder expected with
  | error =>
    rw [hcontent] at h
    cases h
  | ok content' =>
    rw [hcontent] at h
    simp only [Except.bind] at h
    cases hform : content'.inForm constructed type with
    | error =>
      rw [hform] at h
      cases h
    | ok =>
      rw [hform] at h
      exact h

namespace Value

section Chains

variable {defs : Definitions} {depth : Nat} {policy : Policy} {source : Source}

theorem decodeFrom_leaf_eq {primitive : Primitive} :
    decodeFrom defs depth policy (.leaf primitive) source =
      (source.contentAs primitive.tag false primitive.typeName).bind fun content =>
        ((primitive.decode policy.rules content.octets).mapError (.malformed content.offset)).map
          .leaf := by
  rw [decodeFrom, Source.contentAs]
  cases source.contentUnder primitive.tag with
  | error => rfl
  | ok content =>
    simp only [Except.bind]
    cases hform : content.inForm false primitive.typeName with
    | error => rfl
    | ok octets =>
      obtain rfl := Content.octets_of_inForm hform
      simp only [Except.map]
      cases primitive.decode policy.rules content.octets <;> rfl

theorem decodeFrom_record_eq {grouping : Grouping} {slots : List (Slot Value)}
    {own : Option Policy} :
    decodeFrom defs depth policy (.record grouping slots own) source =
      (source.contentAs grouping.tag true grouping.name).bind fun content =>
        (decodeSlots defs (own.getD policy) content.endOffset 0 (slots.map (·.field))
          (Tlv.stream (own.getD policy).rules content.offset content.octets)).map
          (.record grouping · own) := by
  rw [decodeFrom, Source.contentAs]
  cases source.contentUnder grouping.tag with
  | error => rfl
  | ok content =>
    simp only [Except.bind]
    cases hform : content.inForm true grouping.name with
    | error => rfl
    | ok octets =>
      obtain rfl := Content.octets_of_inForm hform
      simp only [Except.map, Content.endOffset]
      cases decodeSlots defs (own.getD policy) (content.offset + content.octets.length) 0
        (slots.map (·.field))
        (Tlv.stream (own.getD policy).rules content.offset content.octets) <;> rfl

theorem decodeFrom_elements_eq {grouping : Grouping} {type : String} {items : List Value}
    {own : Option Policy} :
    decodeFrom defs depth policy (.elements grouping type items own) source =
      (source.contentAs grouping.tag true (grouping.name ++ " OF")).bind fun content =>
        (decodeItems defs (own.getD policy) type 0
          (Tlv.stream (own.getD policy).rules content.offset content.octets)).map
          (.elements grouping type · own) := by
  rw [decodeFrom, Source.contentAs]
  cases source.contentUnder grouping.tag with
  | error => rfl
  | ok content =>
    simp only [Except.bind]
    cases hform : content.inForm true (grouping.name ++ " OF") with
    | error => rfl
    | ok octets =>
      obtain rfl := Content.octets_of_inForm hform
      simp only [Except.map]
      cases decodeItems defs (own.getD policy) type 0
        (Tlv.stream (own.getD policy).rules content.offset content.octets) <;> rfl

/-- The alternative that an element goes to. -/
def route (defs : Definitions) (depth : Nat) (alternatives : List Field) (tlv : Tlv) :
    Except Error (Nat × Field) :=
  match Field.firstAccepting (Field.acceptsWithin defs tlv.tag depth) 0 alternatives with
  | none => .error .endlessType
  | some none => .error (.unknownAlternative tlv.offset tlv.tag)
  | some (some routed) => .ok routed

theorem getElem?_of_route {alternatives : List Field} {tlv : Tlv} {index : Nat} {field : Field}
    (h : route defs depth alternatives tlv = .ok (index, field)) :
    alternatives[index]? = some field := by
  rw [route] at h
  split at h
  · cases h
  · cases h
  · rename_i hfirst
    cases h
    exact Field.getElem?_of_firstAccepting hfirst

theorem decodeFrom_choice_eq {alternatives : List Field} {selection : Option (Selection Value)}
    {own : Option Policy} {tlv : Tlv} :
    decodeFrom defs (depth + 1) policy (.choice alternatives selection own) (.element tlv) =
      (route defs depth alternatives tlv).bind fun (index, field) =>
        (decodeField defs depth (own.getD policy) index field tlv).map fun value =>
          .choice alternatives (some ⟨index, value⟩) own := by
  rw [decodeFrom, route]
  cases Field.firstAccepting (Field.acceptsWithin defs tlv.tag depth) 0 alternatives with
  | none => rfl
  | some routed =>
    cases routed with
    | none => rfl
    | some routed =>
      simp only [Except.bind]
      cases decodeField defs depth (own.getD policy) routed.1 routed.2 tlv <;> rfl

theorem decodeFrom_choice_below {alternatives : List Field} {selection : Option (Selection Value)}
    {own : Option Policy} {content : Content} :
    decodeFrom defs depth policy (.choice alternatives selection own) (.below content) =
      .error (.malformed content.offset (.notImplicit "CHOICE")) := by
  rw [decodeFrom]

theorem decodeFrom_choice_zero {alternatives : List Field} {selection : Option (Selection Value)}
    {own : Option Policy} {tlv : Tlv} :
    decodeFrom defs 0 policy (.choice alternatives selection own) (.element tlv) =
      .error .endlessType := by
  rw [decodeFrom]

theorem decodeFrom_tagged_eq {tagging : Tagging} {inner : Value} {own : Option Policy} :
    decodeFrom defs depth policy (.tagged tagging inner own) source =
      (decodeUnder defs (own.getD policy) tagging inner source).map (.tagged tagging · own) := by
  rw [decodeFrom]
  cases decodeUnder defs (own.getD policy) tagging inner source <;> rfl

theorem decodeUnder_eq {tagging : Tagging} {inner : Value} :
    decodeUnder defs policy tagging inner source =
      (source.contentUnder (tagging.outerTag inner)).bind fun content =>
        match tagging.modeFor inner with
        | .explicit => (content.wrapped policy.rules tagging).bind fun (tlv, rest) =>
            (decodeFrom defs defs.choiceLimit policy inner (.element tlv)).bind fun value =>
              if rest.isEmpty then .ok value else .error (.trailing tlv.endOffset rest.length)
        | .implicit => decodeFrom defs defs.choiceLimit policy inner (.below content) := by
  rw [decodeUnder]
  cases source.contentUnder (tagging.outerTag inner) with
  | error => rfl
  | ok content =>
    simp only [Except.bind]
    cases tagging.modeFor inner with
    | explicit =>
      simp only
      cases content.wrapped policy.rules tagging with
      | error => rfl
      | ok wrapped =>
        simp only
        cases decodeFrom defs defs.choiceLimit policy inner (.element wrapped.1) <;> rfl
    | implicit => rfl

/-- Below the re-tag, from content as from an element with that content. -/
theorem decodeUnder_below {tagging : Tagging} {inner : Value} {source : Source} :
    decodeUnder defs policy tagging inner source =
      (source.contentUnder (tagging.outerTag inner)).bind fun content =>
        decodeUnder defs policy tagging inner (.below content) := by
  simp only [decodeUnder_eq]
  cases source.contentUnder (tagging.outerTag inner) <;> rfl

theorem decodeField_eq {index : Nat} {field : Field} {tlv : Tlv} :
    decodeField defs depth policy index field tlv =
      (match field.tagging policy with
        | none => decodeFrom defs depth policy (defs.template field.type) (.element tlv)
        | some tagging =>
          decodeUnder defs policy tagging (defs.template field.type) (.element tlv)).mapError
        (.inField index field.name) := by
  rw [decodeField]
  cases field.tagging policy with
  | none =>
    simp only
    cases decodeFrom defs depth policy (defs.template field.type) (.element tlv) <;> rfl
  | some tagging =>
    simp only
    cases decodeUnder defs policy tagging (defs.template field.type) (.element tlv) <;> rfl

theorem decodeSlots_done_eq {endOffset index : Nat} {field : Field} {fields : List Field} :
    decodeSlots defs policy endOffset index (field :: fields) .done =
      if field.optional then
        (decodeSlots defs policy endOffset (index + 1) fields .done).map (⟨field, none⟩ :: ·)
      else .error (.missingField index field.name) := by
  rw [decodeSlots, decodeSlots, Field.unsetAll]
  cases Field.unsetAll (index + 1) fields <;> rfl

theorem decodeSlots_next_eq {endOffset index : Nat} {field : Field} {fields : List Field}
    {tlv : Tlv} {rest : Tlv.Stream} :
    decodeSlots defs policy endOffset index (field :: fields) (.next tlv rest) =
      match field.accepts? defs tlv.tag with
      | none => .error .endlessType
      | some true => (decodeField defs defs.choiceLimit policy index field tlv).bind fun value =>
          (decodeSlots defs policy endOffset (index + 1) fields rest).map
            (⟨field, some value⟩ :: ·)
      | some false =>
        if field.optional then
          (decodeSlots defs policy endOffset (index + 1) fields (.next tlv rest)).map
            (⟨field, none⟩ :: ·)
        else .error (.missingField index field.name) := by
  rw [decodeSlots]
  cases field.accepts? defs tlv.tag with
  | none => rfl
  | some accepts =>
    cases accepts with
    | true =>
      simp only
      cases decodeField defs defs.choiceLimit policy index field tlv with
      | error => rfl
      | ok value =>
        simp only [Except.bind]
        cases decodeSlots defs policy endOffset (index + 1) fields rest <;> rfl
    | false =>
      simp only
      cases decodeSlots defs policy endOffset (index + 1) fields (.next tlv rest) <;> rfl

theorem decodeItems_next_eq {type : String} {index : Nat} {tlv : Tlv} {rest : Tlv.Stream} :
    decodeItems defs policy type index (.next tlv rest) =
      ((decodeFrom defs defs.choiceLimit policy (defs.template type) (.element tlv)).mapError
        (.inField index "element")).bind fun item =>
        (decodeItems defs policy type (index + 1) rest).map (item :: ·) := by
  rw [decodeItems]
  cases decodeFrom defs defs.choiceLimit policy (defs.template type) (.element tlv) with
  | error => rfl
  | ok item =>
    simp only [Except.mapError, Except.bind]
    cases decodeItems defs policy type (index + 1) rest <;> rfl

/-- The root of the octets: the element in front is decoded, and then it counts whether anything
lies behind it. -/
def decodeRoot (policy : Policy) (octets : Octets) (decoded : Tlv → Except Error Value) :
    Except Error Value :=
  (Tlv.read policy.rules 0 octets).bind fun (tlv, rest) =>
    (decoded tlv).bind (atEnd policy tlv rest)

/-- Whether anything lies behind the root does not depend on what it is taken for. -/
theorem decodeRoot_map {octets : Octets} {decoded : Tlv → Except Error Value}
    (f : Value → Value) :
    decodeRoot policy octets (fun tlv => (decoded tlv).map f) =
      (decodeRoot policy octets decoded).map f := by
  have hend (tlv : Tlv) (rest : Octets) (value : Value) :
      atEnd policy tlv rest (f value) = (atEnd policy tlv rest value).map f := by
    rw [atEnd, atEnd]
    split <;> rfl
  simp only [decodeRoot, map_bind, bind_map, hend]

theorem decode_eq {value : Value} {octets : Octets} :
    decode defs value octets policy = decodeRoot (value.resolve policy) octets fun tlv =>
      decodeFrom defs defs.choiceLimit (value.resolve policy) value.cleared (.element tlv) := by
  rw [decode, decodeRoot]
  cases Tlv.read (value.resolve policy).rules 0 octets with
  | error => rfl
  | ok read =>
    simp only [Except.bind]
    cases decodeFrom defs defs.choiceLimit (value.resolve policy) value.cleared
      (.element read.1) <;> rfl

theorem taggedDecode_eq {value : Value} {tagging : Tagging} {octets : Octets} :
    taggedDecode defs value tagging octets policy =
      decodeRoot (value.resolve policy) octets fun tlv =>
        decodeUnder defs (value.resolve policy) tagging value.cleared (.element tlv) := by
  rw [taggedDecode, decodeRoot]
  cases Tlv.read (value.resolve policy).rules 0 octets with
  | error => rfl
  | ok read =>
    simp only [Except.bind]
    cases decodeUnder defs (value.resolve policy) tagging value.cleared
      (.element read.1) <;> rfl

end Chains

/-- One statement for each function that decodes, on the arguments that tell its calls
apart. A step may use of the calls below it just those that are made. -/
structure Stepwise (defs : Definitions) (OfValue : Nat → Policy → Value → Source → Prop)
    (OfUnder : Policy → Tagging → Value → Source → Prop)
    (OfField : Nat → Policy → Field → Tlv → Prop)
    (OfSlots : Policy → List Field → Tlv.Stream → Prop)
    (OfItems : Policy → String → Tlv.Stream → Prop) : Prop where
  leaf (depth : Nat) (policy : Policy) (primitive : Primitive) (source : Source) :
    OfValue depth policy (.leaf primitive) source
  record {depth : Nat} {policy : Policy} {grouping : Grouping} {slots : List (Slot Value)}
    {own : Option Policy} {source : Source}
    (hslots : ∀ content, source.contentUnder grouping.tag = .ok content →
      OfSlots (own.getD policy) (slots.map (·.field))
        (Tlv.stream (own.getD policy).rules content.offset content.octets)) :
    OfValue depth policy (.record grouping slots own) source
  elements {depth : Nat} {policy : Policy} {grouping : Grouping} {type : String}
    {items : List Value} {own : Option Policy} {source : Source}
    (hitems : ∀ content, source.contentUnder grouping.tag = .ok content →
      OfItems (own.getD policy) type
        (Tlv.stream (own.getD policy).rules content.offset content.octets)) :
    OfValue depth policy (.elements grouping type items own) source
  /-- No CHOICE may follow, or there is no element to choose by. -/
  notChosen {depth : Nat} {policy : Policy} {alternatives : List Field}
    {selection : Option (Selection Value)} {own : Option Policy} {source : Source}
    (hnone : depth = 0 ∨ ∃ content, source = .below content) :
    OfValue depth policy (.choice alternatives selection own) source
  choice {depth : Nat} {policy : Policy} {alternatives : List Field}
    {selection : Option (Selection Value)} {own : Option Policy} {tlv : Tlv}
    (hfield : ∀ field, OfField depth (own.getD policy) field tlv) :
    OfValue (depth + 1) policy (.choice alternatives selection own) (.element tlv)
  tagged {depth : Nat} {policy : Policy} {tagging : Tagging} {inner : Value}
    {own : Option Policy} {source : Source}
    (hinner : OfUnder (own.getD policy) tagging inner source) :
    OfValue depth policy (.tagged tagging inner own) source
  any (depth : Nat) (policy : Policy) (raw : Octets) (source : Source) :
    OfValue depth policy (.any raw) source
  under {policy : Policy} {tagging : Tagging} {inner : Value} {source : Source}
    (hexplicit : ∀ content tlv rest, source.contentUnder (tagging.outerTag inner) = .ok content →
      tagging.modeFor inner = .explicit → content.wrapped policy.rules tagging = .ok (tlv, rest) →
      OfValue defs.choiceLimit policy inner (.element tlv))
    (himplicit : ∀ content, source.contentUnder (tagging.outerTag inner) = .ok content →
      tagging.modeFor inner = .implicit →
      OfValue defs.choiceLimit policy inner (.below content)) :
    OfUnder policy tagging inner source
  field {depth : Nat} {policy : Policy} {field : Field} {tlv : Tlv}
    (huntagged : OfValue depth policy (defs.template field.type) (.element tlv))
    (htagged : ∀ tagging, OfUnder policy tagging (defs.template field.type) (.element tlv)) :
    OfField depth policy field tlv
  slotsDone (policy : Policy) (fields : List Field) : OfSlots policy fields .done
  slotsBroken (policy : Policy) (fields : List Field) (error : Error) :
    OfSlots policy fields (.broken error)
  slotsBeyond (policy : Policy) (tlv : Tlv) (rest : Tlv.Stream) :
    OfSlots policy [] (.next tlv rest)
  slotsNext {policy : Policy} {field : Field} {fields : List Field} {tlv : Tlv}
    {rest : Tlv.Stream} (hvalue : OfField defs.choiceLimit policy field tlv)
    (hfilled : OfSlots policy fields rest) (hskipped : OfSlots policy fields (.next tlv rest)) :
    OfSlots policy (field :: fields) (.next tlv rest)
  itemsDone (policy : Policy) (type : String) : OfItems policy type .done
  itemsBroken (policy : Policy) (type : String) (error : Error) :
    OfItems policy type (.broken error)
  itemsNext {policy : Policy} {type : String} {tlv : Tlv} {rest : Tlv.Stream}
    (hitem : OfValue defs.choiceLimit policy (defs.template type) (.element tlv))
    (hrest : OfItems policy type rest) : OfItems policy type (.next tlv rest)

namespace Stepwise

variable {defs : Definitions} {OfValue : Nat → Policy → Value → Source → Prop}
  {OfUnder : Policy → Tagging → Value → Source → Prop}
  {OfField : Nat → Policy → Field → Tlv → Prop}
  {OfSlots : Policy → List Field → Tlv.Stream → Prop}
  {OfItems : Policy → String → Tlv.Stream → Prop}

-- The recursion is that of the functions that decode, and ends for the same reasons.
mutual

theorem ofValue (h : Stepwise defs OfValue OfUnder OfField OfSlots OfItems) (depth : Nat)
    (policy : Policy) (value : Value) (source : Source) : OfValue depth policy value source := by
  match value with
  | .leaf primitive => exact h.leaf depth policy primitive source
  | .record grouping slots own =>
    exact h.record fun content _hcontent => h.ofSlots _ _ _
  | .elements grouping type items own =>
    exact h.elements fun content _hcontent => h.ofItems _ _ _
  | .choice alternatives selection own =>
    match hsource : source, hdepth : depth with
    | .below content, _ => exact h.notChosen (.inr ⟨content, rfl⟩)
    | .element _, 0 => exact h.notChosen (.inl rfl)
    | .element tlv, depth + 1 => exact h.choice fun field => h.ofField _ _ _ _
  | .tagged tagging inner own => exact h.tagged (h.ofUnder _ _ _ _)
  | .any raw => exact h.any depth policy raw source
termination_by (source.weight, value.choiceWeight depth, 2 * sizeOf value)
decreasing_by
  · have := Source.weight_of_contentUnder _hcontent
    have := Tlv.weight_stream_le (own.getD policy).rules content.offset content.octets
    exact .left _ _ (by omega)
  · have := Source.weight_of_contentUnder _hcontent
    have := Tlv.weight_stream_le (own.getD policy).rules content.offset content.octets
    exact .left _ _ (by omega)
  · exact .right _ (.left _ _ (Nat.lt_succ_self _))
  · refine .right _ (.right _ ?_)
    simp only [Value.tagged.sizeOf_spec]
    omega

theorem ofUnder (h : Stepwise defs OfValue OfUnder OfField OfSlots OfItems) (policy : Policy)
    (tagging : Tagging) (inner : Value) (source : Source) : OfUnder policy tagging inner source :=
  h.under (fun _content tlv _rest _hcontent _hmode _hwrapped => h.ofValue _ _ _ (.element tlv))
    fun content _hcontent _hmode => h.ofValue _ _ _ (.below content)
termination_by (source.weight, 0, 2 * sizeOf inner + 1)
decreasing_by
  · have := Source.weight_of_contentUnder _hcontent
    have := Content.weight_of_wrapped _hwrapped
    exact .left _ _ (show 2 * tlv.weight < source.weight by omega)
  · rw [Tagging.choiceWeight_of_implicit _hmode]
    exact .right' _ (Source.weight_of_contentUnder _hcontent) (.right _ (by omega))

theorem ofField (h : Stepwise defs OfValue OfUnder OfField OfSlots OfItems) (depth : Nat)
    (policy : Policy) (field : Field) (tlv : Tlv) : OfField depth policy field tlv :=
  h.field (h.ofValue _ _ _ _) fun tagging => h.ofUnder _ _ _ _
termination_by (2 * tlv.weight, depth, 2 * sizeOf (defs.template field.type) + 2)
decreasing_by
  · exact .right _ (.right' _ (choiceWeight_le _ _) (by omega))
  · exact .right _ (.right' _ (Nat.zero_le _) (by omega))

theorem ofSlots (h : Stepwise defs OfValue OfUnder OfField OfSlots OfItems) (policy : Policy)
    (fields : List Field) (stream : Tlv.Stream) : OfSlots policy fields stream := by
  match stream, fields with
  | .done, fields => exact h.slotsDone policy fields
  | .broken error, fields => exact h.slotsBroken policy fields error
  | .next tlv rest, [] => exact h.slotsBeyond policy tlv rest
  | .next tlv rest, field :: fields =>
    exact h.slotsNext (h.ofField _ _ _ _) (h.ofSlots _ _ _) (h.ofSlots _ _ _)
termination_by (2 * stream.weight + 1, fields.length, 0)
decreasing_by
  · exact .left _ _ (by simp only [Tlv.Stream.weight]; omega)
  · exact .left _ _ (by simp only [Tlv.Stream.weight, Tlv.weight]; omega)
  · exact .right _ (.left _ _ (by simp))

theorem ofItems (h : Stepwise defs OfValue OfUnder OfField OfSlots OfItems) (policy : Policy)
    (type : String) (stream : Tlv.Stream) : OfItems policy type stream := by
  match stream with
  | .done => exact h.itemsDone policy type
  | .broken error => exact h.itemsBroken policy type error
  | .next tlv rest => exact h.itemsNext (h.ofValue _ _ _ _) (h.ofItems _ _ _)
termination_by (2 * stream.weight + 1, 0, 0)
decreasing_by
  · exact .left _ _ (by simp only [Source.weight, Tlv.Stream.weight]; omega)
  · exact .left _ _ (by simp only [Tlv.Stream.weight, Tlv.weight]; omega)

end

end Stepwise

end Value

end Asn1
