import Asn1.Machine.Decode
import Asn1.Proofs.Machine.Primitive
import Asn1.Proofs.Machine.Reader
import Asn1.Proofs.Value.RoundTrip
import Asn1.Proofs.Value.Stepwise

/-!
Decoding does not fault. Content always lies behind a header, so its end has an offset, and what
an index is taken from was passed on the way to it. Only values with tags of their own are looked
for in content whose tag has been dealt with.
-/

namespace Asn1.Machine

section Fields

theorem unsetAll_eq (fields : List Field) (index : Nat) :
    Field.unsetAll index fields =
      match (fields.zipIdx index).find? fun (field, _) => !field.optional with
      | some (field, index) => .error (.missingField index field.name)
      | none => .ok (fields.map (⟨·, none⟩)) := by
  induction fields generalizing index with
  | nil => rfl
  | cons field rest ih =>
    rw [Field.unsetAll, List.zipIdx_cons, List.find?_cons, ih]
    by_cases hoptional : field.optional = true
    · simp only [hoptional, if_true, Bool.not_true]
      cases (rest.zipIdx (index + 1)).find? fun (field, _) => !field.optional <;> rfl
    · simp [hoptional]

theorem complete_eq (before : List (Slot Value)) (fields : List Field) :
    complete (before.map (·.field) ++ fields) before.length (before ++ fields.map (⟨·, none⟩)) =
      settled ((Field.unsetAll before.length fields).map (before ++ ·)) := by
  have hslice : slice (before.map (·.field) ++ fields) before.length
      (before.map (·.field) ++ fields).length = some fields := by
    rw [slice_to_end (by simp), List.drop_left' (by simp)]
  rw [complete, hslice, unsetAll_eq]
  simp only [lift_some, settled_ok_bind]
  cases (fields.zipIdx before.length).find? fun (field, _) => !field.optional <;> rfl

/-- An optional field at the front may as well have been passed. -/
theorem complete_skip {field : Field} (hoptional : field.optional = true)
    (passed fields : List Field) (slots : List (Slot Value)) :
    complete (passed ++ field :: fields) passed.length slots =
      complete (passed ++ field :: fields) (passed.length + 1) slots := by
  have hslice : slice (passed ++ field :: fields) passed.length
      (passed ++ field :: fields).length = some (field :: fields) := by
    rw [slice_to_end (by simp), List.drop_left]
  have hslice' : slice (passed ++ field :: fields) (passed.length + 1)
      (passed ++ field :: fields).length = some fields := by
    rw [slice_to_end (by simp), ← List.drop_drop, List.drop_left, List.drop_one, List.tail_cons]
  rw [complete, complete, hslice, hslice']
  simp [List.zipIdx_cons, hoptional]

theorem alternative_eq (defs : Definitions) (depth : Nat) (alternatives : List Field) (tlv : Tlv) :
    alternative defs depth alternatives (.of tlv) = Value.route defs depth alternatives tlv := rfl

end Fields

section Contents

/-- The content lies behind a header, and all of its octets have offsets. -/
structure Enclosed (content : Content) : Prop where
  header : 2 ≤ content.offset
  endOffset : content.endOffset < wordLimit

theorem Enclosed.short {content : Content} (h : Enclosed content) :
    content.octets.length + 2 < wordLimit := by
  have hheader := h.header
  have hend := h.endOffset
  rw [Content.endOffset] at hend
  omega

theorem Enclosed.sound {content : Content} (h : Enclosed content) (rules : Rules) :
    (Cursor.start rules content.octets content.offset).Sound :=
  .start h.endOffset rules

theorem Addressed.enclosed {tlv : Tlv} (h : Addressed tlv) :
    Enclosed ⟨tlv.tag.constructed, tlv.content, tlv.contentOffset⟩ where
  header := by
    have := h.header
    simp only [Tlv.contentOffset]
    omega
  endOffset := h.endOffset

theorem enclosed_of_contentUnder {tlv : Tlv} (h : Addressed tlv) {expected : Tag}
    {content : Content} (hcontent : (Source.element tlv).contentUnder expected = .ok content) :
    Enclosed content := by
  rw [Source.contentUnder] at hcontent
  split at hcontent
  · cases hcontent
    exact h.enclosed
  · cases hcontent

/-- The tag is checked before the content is looked at. -/
theorem bind_contentUnder {tlv : Tlv} (h : Addressed tlv) (expected : Tag)
    (step : Content → Checked Error Value) :
    (if expected.sameIdentity (Span.of tlv).tag = true then do
      let offset ← (Span.of tlv).contentOffset
      step ⟨(Span.of tlv).tag.constructed, (Span.of tlv).content, offset⟩
    else throw (.unexpectedTag (Span.of tlv).offset expected (Span.of tlv).tag)) =
      settled ((Source.element tlv).contentUnder expected) >>= step := by
  rw [contentOffset_of h, Source.contentUnder]
  by_cases hsame : expected.sameIdentity tlv.tag = true
  · simp only [Span.of, if_pos hsame, lift_some, settled_ok_bind]
  · simp only [Span.of, if_neg hsame, throw_eq_settled, settled_error_bind]

end Contents

section Agreement

variable {defs : Definitions} {depth : Nat} {policy : Policy}

/-- The machine does with an element, or with the content below a tag, what decoding does. -/
def ValueAgrees (defs : Definitions) (depth : Nat) (policy : Policy) (value : Value) :
    Source → Prop
  | .element tlv => Addressed tlv → decodeElement defs depth policy value (.of tlv) =
      settled (Value.decodeFrom defs depth policy value (.element tlv))
  | .below content => Enclosed content → value.hasOwnTag = true →
      decodeContent defs policy value content =
        settled (Value.decodeFrom defs depth policy value (.below content))

/-- The same below a re-tag. -/
def UnderAgrees (defs : Definitions) (policy : Policy) (tagging : Tagging) (inner : Value) :
    Source → Prop
  | .element tlv => Addressed tlv → decodeTagged defs policy tagging inner (.of tlv) =
      settled (Value.decodeUnder defs policy tagging inner (.element tlv))
  | .below content => Enclosed content → decodeTaggedContent defs policy tagging inner content =
      settled (Value.decodeUnder defs policy tagging inner (.below content))

def FieldAgrees (defs : Definitions) (depth : Nat) (policy : Policy) (field : Field) (tlv : Tlv) :
    Prop :=
  Addressed tlv → ∀ index, decodeField defs depth policy index field (.of tlv) =
    settled (Value.decodeField defs depth policy index field tlv)

/-- The same from any cursor that has these elements left, with any slots before. -/
def SlotsAgree (defs : Definitions) (policy : Policy) (fields : List Field)
    (stream : Tlv.Stream) : Prop :=
  ∀ (cursor : Cursor) (before : List (Slot Value)), cursor.Sound → cursor.stream = stream →
    decodeSlots defs policy (before.map (·.field) ++ fields) cursor.base cursor before.length
      (before ++ fields.map (⟨·, none⟩)) =
    settled ((Value.decodeSlots defs policy (cursor.base + cursor.buffer.length) before.length
      fields stream).map (before ++ ·))

def ItemsAgree (defs : Definitions) (policy : Policy) (type : String) (stream : Tlv.Stream) :
    Prop :=
  ∀ (cursor : Cursor) (before : List Value), cursor.Sound → cursor.stream = stream →
    decodeItems defs policy type cursor before =
      settled ((Value.decodeItems defs policy type before.length stream).map (before ++ ·))

theorem map_self {α : Type} (outcome : Except Error α) : (outcome.map fun value => value) =
    outcome := by
  cases outcome <;> rfl

theorem decodeContent_resolve (value : Value) (content : Content) :
    decodeContent defs (value.resolve policy) value content =
      decodeContent defs policy value content := by
  have hresolve : value.resolve (value.resolve policy) = value.resolve policy := by
    rw [Value.resolve, Value.resolve]
    cases value.policy? <;> rfl
  rw [decodeContent.eq_def, hresolve, ← decodeContent.eq_def]

section Plain

/-- Between the look at the tag and that at the content, nothing else is done. -/
theorem valueAgrees_of_content {value : Value} {source : Source} (expected : Tag)
    (hdecode : ∀ source, Value.decodeFrom defs depth policy value source =
      (source.contentUnder expected).bind fun content =>
        Value.decodeFrom defs depth policy value (.below content))
    (helement : ∀ tlv, Addressed tlv → decodeElement defs depth policy value (.of tlv) =
      settled ((Source.element tlv).contentUnder expected) >>=
        decodeContent defs (value.resolve policy) value)
    (hcontent : ∀ content, source.contentUnder expected = .ok content → Enclosed content →
      decodeContent defs policy value content =
        settled (Value.decodeFrom defs depth policy value (.below content))) :
    ValueAgrees defs depth policy value source := by
  cases source with
  | element tlv =>
    intro haddressed
    rw [helement tlv haddressed, hdecode]
    refine settled_bind fun content hunder => ?_
    rw [decodeContent_resolve]
    exact hcontent content hunder (enclosed_of_contentUnder haddressed hunder)
  | below content => exact fun henclosed _ => hcontent content rfl henclosed

/-- Where the form of the content does not matter to the tag, it is checked next. -/
theorem contentAs_eq (source : Source) (expected : Tag) (constructed : Bool) (type : String) :
    source.contentAs expected constructed type =
      (source.contentUnder expected).bind fun content =>
        (Source.below content).contentAs expected constructed type := rfl

/-- After the form only the octets of the content count. -/
theorem bind_inForm {content : Content} {expected : Tag} {constructed : Bool} {type : String}
    {step : Octets → Checked Error Value} {next : Content → Except Error Value}
    (h : step content.octets = settled (next content)) :
    settled (content.inForm constructed type) >>= step =
      settled (((Source.below content).contentAs expected constructed type).bind next) := by
  rw [Source.contentAs, Source.contentUnder]
  simp only [Except.bind]
  cases hform : content.inForm constructed type with
  | error error => rfl
  | ok octets =>
    obtain rfl := Content.octets_of_inForm hform
    exact h

theorem leaf_agrees (primitive : Primitive) (source : Source) :
    ValueAgrees defs depth policy (.leaf primitive) source := by
  refine valueAgrees_of_content primitive.tag ?_ ?_ ?_
  · intro source
    simp only [Value.decodeFrom_leaf_eq, contentAs_eq source]
    cases source.contentUnder primitive.tag <;> rfl
  · intro tlv haddressed
    rw [← bind_contentUnder haddressed, decodeElement.eq_def]
    simp only [Value.tag?, lift_some, settled_ok_bind]
  · intro content _ henclosed
    rw [decodeContent.eq_def, Value.decodeFrom_leaf_eq]
    refine bind_inForm ?_
    simp only [Value.resolve, Value.policy?, Option.getD_none,
      primitive_eq _ _ henclosed.short, recast_some, pure_eq_settled, settled_map]

theorem record_agrees {grouping : Grouping} {slots : List (Slot Value)} {own : Option Policy}
    {source : Source} (hslots : ∀ content, source.contentUnder grouping.tag = .ok content →
      SlotsAgree defs (own.getD policy) (slots.map (·.field))
        (Tlv.stream (own.getD policy).rules content.offset content.octets)) :
    ValueAgrees defs depth policy (.record grouping slots own) source := by
  refine valueAgrees_of_content grouping.tag ?_ ?_ ?_
  · intro source
    simp only [Value.decodeFrom_record_eq, contentAs_eq source]
    cases source.contentUnder grouping.tag <;> rfl
  · intro tlv haddressed
    rw [← bind_contentUnder haddressed, decodeElement.eq_def]
    simp only [Value.tag?, lift_some, settled_ok_bind]
  · intro content hcontent henclosed
    have hfilled := hslots content hcontent _ [] (henclosed.sound _) (Cursor.stream_start _ _ _)
    simp only [List.map_nil, List.length_nil, List.nil_append, map_self, Cursor.start] at hfilled
    rw [decodeContent.eq_def, Value.decodeFrom_record_eq]
    refine bind_inForm ?_
    simp only [Value.resolve, Value.policy?, Cursor.start, Content.endOffset, hfilled,
      pure_eq_settled, settled_map]

theorem elements_agrees {grouping : Grouping} {type : String} {items : List Value}
    {own : Option Policy} {source : Source}
    (hitems : ∀ content, source.contentUnder grouping.tag = .ok content →
      ItemsAgree defs (own.getD policy) type
        (Tlv.stream (own.getD policy).rules content.offset content.octets)) :
    ValueAgrees defs depth policy (.elements grouping type items own) source := by
  refine valueAgrees_of_content grouping.tag ?_ ?_ ?_
  · intro source
    simp only [Value.decodeFrom_elements_eq, contentAs_eq source]
    cases source.contentUnder grouping.tag <;> rfl
  · intro tlv haddressed
    rw [← bind_contentUnder haddressed, decodeElement.eq_def]
    simp only [Value.tag?, lift_some, settled_ok_bind]
  · intro content hcontent henclosed
    have hread := hitems content hcontent _ [] (henclosed.sound _) (Cursor.stream_start _ _ _)
    rw [decodeContent.eq_def, Value.decodeFrom_elements_eq]
    refine bind_inForm ?_
    simp only [Value.resolve, Value.policy?, hread, List.length_nil, List.nil_append, map_self,
      pure_eq_settled, settled_map]

end Plain

section Tagged

theorem tagged_agrees {tagging : Tagging} {inner : Value} {own : Option Policy} {source : Source}
    (hinner : UnderAgrees defs (own.getD policy) tagging inner source) :
    ValueAgrees defs depth policy (.tagged tagging inner own) source := by
  cases source with
  | element tlv =>
    intro haddressed
    rw [decodeElement.eq_def, Value.decodeFrom_tagged_eq]
    simp only [Value.resolve, Value.policy?, hinner haddressed, pure_eq_settled, settled_map]
  | below content =>
    intro henclosed _
    rw [decodeContent.eq_def, Value.decodeFrom_tagged_eq]
    simp only [Value.resolve, Value.policy?, hinner henclosed, pure_eq_settled, settled_map]

/-- The one element that an explicit tag wraps, and the cursor behind it. -/
theorem decodeTaggedContent_eq {tagging : Tagging} {inner : Value} {content : Content}
    (henclosed : Enclosed content)
    (hexplicit : ∀ tlv rest, tagging.modeFor inner = .explicit →
      content.wrapped policy.rules tagging = .ok (tlv, rest) →
      ValueAgrees defs defs.choiceLimit policy inner (.element tlv))
    (himplicit : tagging.modeFor inner = .implicit →
      ValueAgrees defs defs.choiceLimit policy inner (.below content)) :
    decodeTaggedContent defs policy tagging inner content =
      settled (Value.decodeUnder defs policy tagging inner (.below content)) := by
  rw [decodeTaggedContent.eq_def, Value.decodeUnder_eq]
  simp only [Source.contentUnder, Except.bind]
  cases hmode : tagging.modeFor inner with
  | implicit => exact himplicit hmode henclosed (Tagging.hasOwnTag_of_implicit hmode)
  | explicit =>
    have hsound := henclosed.sound policy.rules
    simp only
    by_cases hform : (!content.constructed) = true
    · simp only [Content.wrapped, if_pos hform]
      rfl
    · by_cases hempty : content.octets.isEmpty = true
      · simp only [Content.wrapped, if_neg hform, if_pos hempty]
        rfl
      · have hwrapped : content.wrapped policy.rules tagging =
            Tlv.read policy.rules content.offset content.octets := by
          rw [Content.wrapped, if_neg hform, if_neg hempty]
        simp only [if_neg hform, if_neg hempty, hwrapped]
        cases hread : Tlv.read policy.rules content.offset content.octets with
        | error error =>
          rw [Cursor.next_of_error hsound hread]
          rfl
        | ok wrapped =>
          obtain ⟨tlv, rest⟩ := wrapped
          obtain ⟨hbeyond, hreader, haddressed⟩ := Cursor.reader_beyond hsound hread
          obtain ⟨_, hnext⟩ := Cursor.next_of_read hsound hread
          have hinner := hexplicit tlv rest hmode (hwrapped.trans hread) haddressed
          simp only [hnext, settled_ok_bind, hinner,
            Cursor.hasRemaining_eq, Cursor.offset_eq hbeyond, Cursor.remaining_eq, hreader]
          refine settled_bind fun value _ => ?_
          cases rest.isEmpty <;> rfl

theorem under_agrees {tagging : Tagging} {inner : Value} {source : Source}
    (hexplicit : ∀ content tlv rest, source.contentUnder (tagging.outerTag inner) = .ok content →
      tagging.modeFor inner = .explicit → content.wrapped policy.rules tagging = .ok (tlv, rest) →
      ValueAgrees defs defs.choiceLimit policy inner (.element tlv))
    (himplicit : ∀ content, source.contentUnder (tagging.outerTag inner) = .ok content →
      tagging.modeFor inner = .implicit →
      ValueAgrees defs defs.choiceLimit policy inner (.below content)) :
    UnderAgrees defs policy tagging inner source := by
  have hcontent : ∀ content, source.contentUnder (tagging.outerTag inner) = .ok content →
      Enclosed content → decodeTaggedContent defs policy tagging inner content =
        settled (Value.decodeUnder defs policy tagging inner (.below content)) :=
    fun content hunder henclosed => decodeTaggedContent_eq henclosed
      (fun tlv rest => hexplicit content tlv rest hunder) (himplicit content hunder)
  cases source with
  | element tlv =>
    intro haddressed
    rw [decodeTagged.eq_def, Tagging.accepts_eq_sameIdentity tagging inner, bind_contentUnder haddressed,
      Value.decodeUnder_below]
    exact settled_bind fun content hunder => hcontent content hunder
      (enclosed_of_contentUnder haddressed hunder)
  | below content => exact hcontent content rfl

end Tagged

theorem choice_agrees {alternatives : List Field} {selection : Option (Selection Value)}
    {own : Option Policy} {tlv : Tlv}
    (hfield : ∀ field, FieldAgrees defs depth (own.getD policy) field tlv) :
    ValueAgrees defs (depth + 1) policy (.choice alternatives selection own) (.element tlv) := by
  intro haddressed
  rw [decodeElement.eq_def, Value.decodeFrom_choice_eq]
  simp only [alternative_eq, Value.resolve, Value.policy?]
  refine settled_bind fun routed _ => ?_
  obtain ⟨index, field⟩ := routed
  simp only [hfield field haddressed index, pure_eq_settled, settled_map]

theorem field_agrees {field : Field} {tlv : Tlv}
    (huntagged : ValueAgrees defs depth policy (defs.template field.type) (.element tlv))
    (htagged : ∀ tagging,
      UnderAgrees defs policy tagging (defs.template field.type) (.element tlv)) :
    FieldAgrees defs depth policy field tlv := by
  intro haddressed index
  rw [decodeField.eq_def, Value.decodeField_eq]
  cases field.tagging policy with
  | none => simp only [huntagged haddressed, recast_some]
  | some tagging => simp only [htagged tagging haddressed, recast_some]

section Slots

variable {fields : List Field} {field : Field} {cursor : Cursor} {tlv : Tlv} {rest : Tlv.Stream}

/-- An element that is there is routed first. -/
theorem decodeSlots_of_stream (hsound : cursor.Sound) (hstream : cursor.stream = .next tlv rest)
    (offset next : Nat) (slots : List (Slot Value)) :
    decodeSlots defs policy fields offset cursor next slots =
      (do
        match ← settled (route defs tlv.tag next (fields.drop next)) with
        | none =>
          let before ← sub tlv.offset offset
          let remaining ← sub cursor.buffer.length before
          if policy.strict then throw (.trailing tlv.offset remaining)
          else complete fields next slots
        | some index =>
          let field ← (fields[index]? : Option Field)
          let value ← decodeField defs defs.choiceLimit policy index field (.of tlv)
          let slots ← put slots index ⟨field, some value⟩
          let next ← after fields.length index
          decodeSlots defs policy fields offset (cursor.beyond tlv) next slots) := by
  obtain ⟨hremaining, _, hnext⟩ := Cursor.next_of_stream hsound hstream
  rw [decodeSlots.eq_def, if_pos hremaining, hnext]
  rfl

/-- A field that does not accept the element may as well have been passed before. -/
theorem decodeSlots_skip (hsound : cursor.Sound) (hstream : cursor.stream = .next tlv rest)
    (haccepts : field.accepts? defs tlv.tag = some false) (hoptional : field.optional = true)
    (passed : List Field) (offset : Nat) (slots : List (Slot Value)) :
    decodeSlots defs policy (passed ++ field :: fields) offset cursor passed.length slots =
      decodeSlots defs policy (passed ++ field :: fields) offset cursor (passed.length + 1)
        slots := by
  have hdrop : (passed ++ field :: fields).drop (passed.length + 1) = fields := by
    rw [← List.drop_drop, List.drop_left, List.drop_one, List.tail_cons]
  have hroute : route defs tlv.tag passed.length (field :: fields) =
      route defs tlv.tag (passed.length + 1) fields := by
    rw [route, haccepts]
    simp only [hoptional, if_true]
  rw [decodeSlots_of_stream hsound hstream, decodeSlots_of_stream hsound hstream, List.drop_left,
    hdrop, hroute]
  refine bind_congr fun routed => ?_
  cases routed with
  | none => simp only [complete_skip hoptional]
  | some index => rfl

theorem slots_done (policy : Policy) (fields : List Field) :
    SlotsAgree defs policy fields .done := by
  intro cursor before hsound hstream
  rw [decodeSlots.eq_def, Cursor.hasRemaining_of_done hstream, Value.decodeSlots, if_neg (by simp),
    complete_eq]

theorem slots_broken (policy : Policy) (fields : List Field) (error : Error) :
    SlotsAgree defs policy fields (.broken error) := by
  intro cursor before hsound hstream
  obtain ⟨hremaining, hnext⟩ := Cursor.next_of_broken hsound hstream
  rw [decodeSlots.eq_def, if_pos hremaining, hnext, Value.decodeSlots]
  rfl

/-- What is left is counted back from the end of the content. -/
theorem slots_beyond (policy : Policy) (tlv : Tlv) (rest : Tlv.Stream) :
    SlotsAgree defs policy [] (.next tlv rest) := by
  intro cursor before hsound hstream
  have hinside := hsound.inside
  have hoffset := Cursor.offset_of_stream hstream
  have hremaining : cursor.buffer.length - (tlv.offset - cursor.base) =
      cursor.base + cursor.buffer.length - tlv.offset := by omega
  have hdrop : (before.map Slot.field ++ []).drop before.length = [] := by simp
  rw [decodeSlots_of_stream hsound hstream, hdrop, sub_of_le (by omega : cursor.base ≤ tlv.offset),
    Value.decodeSlots]
  simp only [route, lift_some, settled_ok_bind,
    sub_of_le (by omega : tlv.offset - cursor.base ≤ cursor.buffer.length), hremaining]
  split
  · rfl
  · rw [complete_eq]
    rfl

theorem slots_next (hvalue : FieldAgrees defs defs.choiceLimit policy field tlv)
    (hfilled : SlotsAgree defs policy fields rest)
    (hskipped : SlotsAgree defs policy fields (.next tlv rest)) :
    SlotsAgree defs policy (field :: fields) (.next tlv rest) := by
  intro cursor before hsound hstream
  obtain ⟨hbeyond, hrest, haddressed⟩ := Cursor.stream_beyond hsound hstream
  have hdrop : (before.map (·.field) ++ field :: fields).drop before.length = field :: fields :=
    List.drop_left' (by simp)
  rw [Value.decodeSlots_next_eq]
  cases haccepts : field.accepts? defs tlv.tag with
  | none =>
    rw [decodeSlots_of_stream hsound hstream, hdrop, route, haccepts]
    rfl
  | some accepts =>
    cases accepts with
    | true =>
      have hfield : (before.map (·.field) ++ field :: fields)[before.length]? = some field := by
        simp
      have hput : ∀ value, put (before ++ (field :: fields).map (⟨·, none⟩)) before.length
          ⟨field, some value⟩ = some ((before ++ [⟨field, some value⟩]) ++
            fields.map (⟨·, none⟩)) := by
        intro value
        rw [put_of_lt (by simp)]
        simp
      have hafter : after (before.map (·.field) ++ field :: fields).length before.length =
          some (before.length + 1) := after_of_lt (by simp)
      rw [decodeSlots_of_stream hsound hstream, hdrop, route, haccepts]
      simp only [settled_ok_bind, hfield, lift_some, hvalue haddressed, map_bind]
      refine settled_bind fun value _ => ?_
      have hmore := hfilled (cursor.beyond tlv) (before ++ [⟨field, some value⟩]) hbeyond hrest
      simp only [List.map_append, List.map_cons, List.map_nil, List.length_append,
        List.length_singleton, List.append_assoc, List.singleton_append] at hmore
      simp only [hput, hafter, lift_some, settled_ok_bind, List.append_assoc,
        List.singleton_append, map_map]
      exact hmore
    | false =>
      simp only
      by_cases hoptional : field.optional = true
      · have hpassed := @decodeSlots_skip defs policy fields field cursor tlv rest hsound hstream
          haccepts hoptional (before.map (·.field)) cursor.base
          (before ++ (field :: fields).map (⟨·, none⟩))
        have hmore := hskipped cursor (before ++ [⟨field, none⟩]) hsound hstream
        simp only [List.length_map] at hpassed
        simp only [List.map_append, List.map_cons, List.map_nil, List.length_append,
          List.length_singleton, List.append_assoc, List.singleton_append] at hmore
        rw [hpassed, if_pos hoptional, map_map]
        exact hmore
      · rw [decodeSlots_of_stream hsound hstream, hdrop, route, haccepts]
        simp only [if_neg hoptional]
        rfl

end Slots

section Items

variable {type : String}

theorem items_done (policy : Policy) (type : String) : ItemsAgree defs policy type .done := by
  intro cursor before hsound hstream
  rw [decodeItems.eq_def, Cursor.hasRemaining_of_done hstream, Value.decodeItems, if_neg (by simp)]
  simp [Except.map]

theorem items_broken (policy : Policy) (type : String) (error : Error) :
    ItemsAgree defs policy type (.broken error) := by
  intro cursor before hsound hstream
  obtain ⟨hremaining, hnext⟩ := Cursor.next_of_broken hsound hstream
  rw [decodeItems.eq_def, if_pos hremaining, hnext, Value.decodeItems]
  rfl

theorem items_next {tlv : Tlv} {rest : Tlv.Stream}
    (hitem : ValueAgrees defs defs.choiceLimit policy (defs.template type) (.element tlv))
    (hrest : ItemsAgree defs policy type rest) :
    ItemsAgree defs policy type (.next tlv rest) := by
  intro cursor before hsound hstream
  obtain ⟨hremaining, _, hnext⟩ := Cursor.next_of_stream hsound hstream
  obtain ⟨hbeyond, hstream', haddressed⟩ := Cursor.stream_beyond hsound hstream
  rw [decodeItems.eq_def, if_pos hremaining, hnext, Value.decodeItems_next_eq, map_bind]
  simp only [settled_ok_bind, hitem haddressed, recast_some]
  refine settled_bind fun item _ => ?_
  have hmore := hrest (cursor.beyond tlv) (before ++ [item]) hbeyond hstream'
  simp only [List.length_append, List.length_singleton, List.append_assoc,
    List.singleton_append] at hmore
  rw [hmore, map_map]

end Items

/-- Content whose tag has been dealt with is never that of a CHOICE. -/
theorem notChosen_agrees {alternatives : List Field} {selection : Option (Selection Value)}
    {own : Option Policy} {source : Source}
    (hnone : depth = 0 ∨ ∃ content, source = .below content) :
    ValueAgrees defs depth policy (.choice alternatives selection own) source := by
  cases source with
  | element tlv =>
    intro _
    obtain rfl : depth = 0 := by simpa using hnone
    rw [decodeElement.eq_def, Value.decodeFrom_choice_zero]
    rfl
  | below content =>
    intro _ htag
    cases htag

theorem any_agrees (raw : Octets) (source : Source) :
    ValueAgrees defs depth policy (.any raw) source := by
  cases source with
  | element tlv =>
    intro _
    rw [decodeElement.eq_def, Value.decodeFrom]
    rfl
  | below content =>
    intro _ htag
    cases htag

/-- The machine decodes as decoding does, whatever it is given. -/
theorem agrees (defs : Definitions) : Value.Stepwise defs (ValueAgrees defs) (UnderAgrees defs)
    (FieldAgrees defs) (SlotsAgree defs) (ItemsAgree defs) where
  leaf _ _ primitive source := leaf_agrees primitive source
  record := record_agrees
  elements := elements_agrees
  notChosen := notChosen_agrees
  choice := choice_agrees
  tagged := tagged_agrees
  any _ _ raw source := any_agrees raw source
  under := under_agrees
  field := field_agrees
  slotsDone := slots_done
  slotsBroken := slots_broken
  slotsBeyond := slots_beyond
  slotsNext := slots_next
  itemsDone := items_done
  itemsBroken := items_broken
  itemsNext := items_next

end Agreement

section Roots

variable {octets : Octets}

theorem next_start (hword : octets.length < wordLimit) {rules : Rules} {tlv : Tlv} {rest : Octets}
    (hread : Tlv.read rules 0 octets = .ok (tlv, rest)) :
    Addressed tlv ∧ ∃ hless, (Cursor.start rules octets 0).next =
      settled (.ok ⟨(.of tlv, (Cursor.start rules octets 0).beyond tlv), hless⟩) := by
  have hsound : (Cursor.start rules octets 0).Sound := .start (by omega) rules
  exact ⟨(Cursor.reader_beyond hsound hread).2.2, Cursor.next_of_read hsound hread⟩

/-- A value is given back only after the end has been looked at. -/
theorem finish_start (hword : octets.length < wordLimit) {rules : Rules} {tlv : Tlv}
    {rest : Octets} (hread : Tlv.read rules 0 octets = .ok (tlv, rest)) (policy : Policy)
    (value : Value) :
    (((Cursor.start rules octets 0).beyond tlv).finish policy >>= fun _ => pure value) =
      settled (Value.atEnd policy tlv rest value) := by
  have hsound : (Cursor.start rules octets 0).Sound := .start (by omega) rules
  obtain ⟨hbeyond, hreader, -⟩ := Cursor.reader_beyond hsound hread
  rw [Cursor.finish_eq hbeyond, hreader, Reader.finish, Value.atEnd]
  simp only
  split <;> rfl

theorem next_start_of_error (hword : octets.length < wordLimit) {rules : Rules} {error : Error}
    (hread : Tlv.read rules 0 octets = .error error) :
    (Cursor.start rules octets 0).next = settled (.error error) :=
  Cursor.next_of_error (.start (by omega) rules) hread

theorem decode_eq (defs : Definitions) (value : Value) (hword : octets.length < wordLimit)
    (policy : Policy) :
    decode defs value octets policy = settled (Value.decode defs value octets policy) := by
  rw [decode, Value.decode_eq, Value.decodeRoot]
  cases hread : Tlv.read (value.resolve policy).rules 0 octets with
  | error error =>
    simp only [next_start_of_error hword hread, settled_error_bind]
    rfl
  | ok read =>
    obtain ⟨tlv, rest⟩ := read
    obtain ⟨haddressed, _, hnext⟩ := next_start hword hread
    have hdecoded := (agrees defs).ofValue defs.choiceLimit (value.resolve policy) value.cleared
      (.element tlv) haddressed
    simp only [hnext, settled_ok_bind, hdecoded]
    exact settled_bind fun decoded _ => finish_start hword hread _ decoded

theorem taggedDecode_eq (defs : Definitions) (value : Value) (tagging : Tagging)
    (hword : octets.length < wordLimit) (policy : Policy) :
    taggedDecode defs value tagging octets policy =
      settled (Value.taggedDecode defs value tagging octets policy) := by
  rw [taggedDecode, Value.taggedDecode_eq, Value.decodeRoot]
  cases hread : Tlv.read (value.resolve policy).rules 0 octets with
  | error error =>
    simp only [next_start_of_error hword hread, settled_error_bind]
    rfl
  | ok read =>
    obtain ⟨tlv, rest⟩ := read
    obtain ⟨haddressed, _, hnext⟩ := next_start hword hread
    have hdecoded := (agrees defs).ofUnder (value.resolve policy) tagging value.cleared
      (.element tlv) haddressed
    simp only [hnext, settled_ok_bind, hdecoded]
    exact settled_bind fun decoded _ => finish_start hword hread _ decoded

end Roots

end Asn1.Machine
