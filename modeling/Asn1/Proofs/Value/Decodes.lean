import Asn1.Value.Decode

/-!
Successful decoding as a relation, with one rule for each way in which a value can
come about. The relation leaves out what only errors tell, such as indices, and the
measures for which decoding ends. It holds exactly where decoding succeeds, so
statements about results go by its rules.
-/

namespace Asn1

namespace Content

theorem wrapped_eq_ok_iff {content : Content} {rules : Rules} {tagging : Tagging} {tlv : Tlv}
    {rest : Octets} :
    content.wrapped rules tagging = .ok (tlv, rest) ↔
      content.constructed = true ∧ content.octets ≠ [] ∧
        Tlv.read rules content.offset content.octets = .ok (tlv, rest) := by
  rw [wrapped]
  split
  · rename_i hform
    simp_all
  · split
    · rename_i hempty
      simp_all
    · rename_i hform hsome
      simp_all

end Content

namespace Source

theorem contentUnder_element {expected : Tag} {tlv : Tlv} {content : Content} :
    (Source.element tlv).contentUnder expected = .ok content ↔
      expected.sameIdentity tlv.tag = true ∧
        content = ⟨tlv.tag.constructed, tlv.content, tlv.contentOffset⟩ := by
  rw [contentUnder]
  split
  · rename_i hsame
    simp [hsame, eq_comm]
  · rename_i hsame
    simp [hsame]

end Source

namespace Field

theorem unsetAll_eq_ok_iff {index : Nat} {fields : List Field} {slots : List (Slot Value)} :
    unsetAll index fields = .ok slots ↔
      (∀ field ∈ fields, field.optional) ∧ slots = fields.map fun field => ⟨field, none⟩ := by
  induction fields generalizing index slots with
  | nil =>
    rw [unsetAll]
    grind
  | cons field rest ih =>
    rw [unsetAll]
    constructor
    · intro h
      split at h
      · rename_i hoptional
        split at h
        · cases h
        · rename_i more hmore
          cases h
          obtain ⟨hrest, rfl⟩ := ih.1 hmore
          exact ⟨List.forall_mem_cons.2 ⟨hoptional, hrest⟩, rfl⟩
      · cases h
    · rintro ⟨hoptional, rfl⟩
      obtain ⟨hfield, hrest⟩ := List.forall_mem_cons.1 hoptional
      rw [if_pos hfield, ih.2 ⟨hrest, rfl⟩]
      rfl

end Field

namespace Value

mutual

/-- Decoding from the source, through at most `depth` CHOICEs, to the result. -/
inductive Decodes (defs : Definitions) : Nat → Policy → Value → Source → Value → Prop where
  | leaf {depth : Nat} {policy : Policy} {primitive result : Primitive} {source : Source}
      {content : Content} (hcontent : source.contentUnder primitive.tag = .ok content)
      (hform : content.constructed = false)
      (hresult : primitive.decode policy.rules content.octets = .ok result) :
      Decodes defs depth policy (.leaf primitive) source (.leaf result)
  | record {depth : Nat} {policy : Policy} {grouping : Grouping} {slots result : List (Slot Value)}
      {own : Option Policy} {source : Source} {content : Content}
      (hcontent : source.contentUnder grouping.tag = .ok content)
      (hform : content.constructed = true)
      (hslots : DecodesSlots defs (own.getD policy) (slots.map (·.field))
        (Tlv.stream (own.getD policy).rules content.offset content.octets) result) :
      Decodes defs depth policy (.record grouping slots own) source (.record grouping result own)
  | elements {depth : Nat} {policy : Policy} {grouping : Grouping} {type : String}
      {items result : List Value} {own : Option Policy} {source : Source} {content : Content}
      (hcontent : source.contentUnder grouping.tag = .ok content)
      (hform : content.constructed = true)
      (hitems : DecodesItems defs (own.getD policy) type
        (Tlv.stream (own.getD policy).rules content.offset content.octets) result) :
      Decodes defs depth policy (.elements grouping type items own) source
        (.elements grouping type result own)
  | choice {depth : Nat} {policy : Policy} {alternatives : List Field}
      {selection : Option (Selection Value)} {own : Option Policy} {tlv : Tlv} {index : Nat}
      {field : Field} {result : Value}
      (hfirst : Field.firstAccepting (Field.acceptsWithin defs tlv.tag depth) 0 alternatives =
        some (some (index, field)))
      (hfield : DecodesField defs depth (own.getD policy) field tlv result) :
      Decodes defs (depth + 1) policy (.choice alternatives selection own) (.element tlv)
        (.choice alternatives (some ⟨index, result⟩) own)
  | tagged {depth : Nat} {policy : Policy} {tagging : Tagging} {inner result : Value}
      {own : Option Policy} {source : Source}
      (hinner : DecodesUnder defs (own.getD policy) tagging inner source result) :
      Decodes defs depth policy (.tagged tagging inner own) source (.tagged tagging result own)
  | any {depth : Nat} {policy : Policy} {raw : Octets} {tlv : Tlv} :
      Decodes defs depth policy (.any raw) (.element tlv) (.any tlv.raw)

/-- Decoding from below a re-tag. -/
inductive DecodesUnder (defs : Definitions) :
    Policy → Tagging → Value → Source → Value → Prop where
  | explicit {policy : Policy} {tagging : Tagging} {inner result : Value} {source : Source}
      {content : Content} {tlv : Tlv}
      (hcontent : source.contentUnder (tagging.outerTag inner) = .ok content)
      (hmode : tagging.modeFor inner = .explicit)
      (hwrapped : content.wrapped policy.rules tagging = .ok (tlv, []))
      (hinner : Decodes defs defs.choiceLimit policy inner (.element tlv) result) :
      DecodesUnder defs policy tagging inner source result
  | implicit {policy : Policy} {tagging : Tagging} {inner result : Value} {source : Source}
      {content : Content}
      (hcontent : source.contentUnder (tagging.outerTag inner) = .ok content)
      (hmode : tagging.modeFor inner = .implicit)
      (hinner : Decodes defs defs.choiceLimit policy inner (.below content) result) :
      DecodesUnder defs policy tagging inner source result

inductive DecodesField (defs : Definitions) : Nat → Policy → Field → Tlv → Value → Prop where
  | untagged {depth : Nat} {policy : Policy} {field : Field} {tlv : Tlv} {result : Value}
      (htagging : field.tagging policy = none)
      (hvalue : Decodes defs depth policy (defs.template field.type) (.element tlv) result) :
      DecodesField defs depth policy field tlv result
  | tagged {depth : Nat} {policy : Policy} {field : Field} {tlv : Tlv} {tagging : Tagging}
      {result : Value} (htagging : field.tagging policy = some tagging)
      (hvalue : DecodesUnder defs policy tagging (defs.template field.type) (.element tlv)
        result) :
      DecodesField defs depth policy field tlv result

inductive DecodesSlots (defs : Definitions) :
    Policy → List Field → Tlv.Stream → List (Slot Value) → Prop where
  /-- Nothing came for the remaining fields. -/
  | done {policy : Policy} {fields : List Field} (hoptional : ∀ field ∈ fields, field.optional) :
      DecodesSlots defs policy fields .done (fields.map fun field => ⟨field, none⟩)
  /-- No field is left for what remains. -/
  | ignored {policy : Policy} {tlv : Tlv} {rest : Tlv.Stream} (hlenient : policy.strict = false) :
      DecodesSlots defs policy [] (.next tlv rest) []
  | filled {policy : Policy} {field : Field} {fields : List Field} {tlv : Tlv}
      {rest : Tlv.Stream} {value : Value} {slots : List (Slot Value)}
      (haccepts : field.accepts? defs tlv.tag = some true)
      (hvalue : DecodesField defs defs.choiceLimit policy field tlv value)
      (hrest : DecodesSlots defs policy fields rest slots) :
      DecodesSlots defs policy (field :: fields) (.next tlv rest) (⟨field, some value⟩ :: slots)
  | skipped {policy : Policy} {field : Field} {fields : List Field} {tlv : Tlv}
      {rest : Tlv.Stream} {slots : List (Slot Value)}
      (haccepts : field.accepts? defs tlv.tag = some false) (hoptional : field.optional = true)
      (hrest : DecodesSlots defs policy fields (.next tlv rest) slots) :
      DecodesSlots defs policy (field :: fields) (.next tlv rest) (⟨field, none⟩ :: slots)

inductive DecodesItems (defs : Definitions) :
    Policy → String → Tlv.Stream → List Value → Prop where
  | done {policy : Policy} {type : String} : DecodesItems defs policy type .done []
  | next {policy : Policy} {type : String} {tlv : Tlv} {rest : Tlv.Stream} {item : Value}
      {items : List Value}
      (hitem : Decodes defs defs.choiceLimit policy (defs.template type) (.element tlv) item)
      (hrest : DecodesItems defs policy type rest items) :
      DecodesItems defs policy type (.next tlv rest) (item :: items)

end

section Steps

variable {defs : Definitions} {depth : Nat} {policy : Policy} {source : Source} {result : Value}

theorem decodeFrom_leaf {primitive : Primitive} :
    decodeFrom defs depth policy (.leaf primitive) source = .ok result ↔
      ∃ content decoded, source.contentUnder primitive.tag = .ok content ∧
        content.constructed = false ∧
        primitive.decode policy.rules content.octets = .ok decoded ∧ result = .leaf decoded := by
  rw [decodeFrom]
  grind [Content.inForm]

theorem decodeFrom_record {grouping : Grouping} {slots : List (Slot Value)}
    {own : Option Policy} :
    decodeFrom defs depth policy (.record grouping slots own) source = .ok result ↔
      ∃ content decoded, source.contentUnder grouping.tag = .ok content ∧
        content.constructed = true ∧
        decodeSlots defs (own.getD policy) (content.offset + content.octets.length) 0
          (slots.map (·.field))
          (Tlv.stream (own.getD policy).rules content.offset content.octets) = .ok decoded ∧
        result = .record grouping decoded own := by
  rw [decodeFrom]
  grind [Content.inForm]

theorem decodeFrom_elements {grouping : Grouping} {type : String} {items : List Value}
    {own : Option Policy} :
    decodeFrom defs depth policy (.elements grouping type items own) source = .ok result ↔
      ∃ content decoded, source.contentUnder grouping.tag = .ok content ∧
        content.constructed = true ∧
        decodeItems defs (own.getD policy) type 0
          (Tlv.stream (own.getD policy).rules content.offset content.octets) = .ok decoded ∧
        result = .elements grouping type decoded own := by
  rw [decodeFrom]
  grind [Content.inForm]

theorem decodeFrom_choice {alternatives : List Field} {selection : Option (Selection Value)}
    {own : Option Policy} :
    decodeFrom defs depth policy (.choice alternatives selection own) source = .ok result ↔
      ∃ tlv depth' index field decoded, source = .element tlv ∧ depth = depth' + 1 ∧
        Field.firstAccepting (Field.acceptsWithin defs tlv.tag depth') 0 alternatives =
          some (some (index, field)) ∧
        decodeField defs depth' (own.getD policy) index field tlv = .ok decoded ∧
        result = .choice alternatives (some ⟨index, decoded⟩) own := by
  rw [decodeFrom.eq_def]
  grind

theorem decodeFrom_tagged {tagging : Tagging} {inner : Value} {own : Option Policy} :
    decodeFrom defs depth policy (.tagged tagging inner own) source = .ok result ↔
      ∃ decoded, decodeUnder defs (own.getD policy) tagging inner source = .ok decoded ∧
        result = .tagged tagging decoded own := by
  rw [decodeFrom]
  grind

theorem decodeFrom_any {raw : Octets} :
    decodeFrom defs depth policy (.any raw) source = .ok result ↔
      ∃ tlv, source = .element tlv ∧ result = .any tlv.raw := by
  rw [decodeFrom.eq_def]
  grind

theorem decodeUnder_eq_ok_iff {tagging : Tagging} {inner : Value} :
    decodeUnder defs policy tagging inner source = .ok result ↔
      ∃ content, source.contentUnder (tagging.outerTag inner) = .ok content ∧
        ((tagging.modeFor inner = .explicit ∧ ∃ tlv,
            content.wrapped policy.rules tagging = .ok (tlv, []) ∧
            decodeFrom defs defs.choiceLimit policy inner (.element tlv) = .ok result) ∨
          tagging.modeFor inner = .implicit ∧
            decodeFrom defs defs.choiceLimit policy inner (.below content) = .ok result) := by
  rw [decodeUnder]
  grind [List.isEmpty_iff]

theorem decodeField_eq_ok_iff {index : Nat} {field : Field} {tlv : Tlv} :
    decodeField defs depth policy index field tlv = .ok result ↔
      (field.tagging policy = none ∧
        decodeFrom defs depth policy (defs.template field.type) (.element tlv) = .ok result) ∨
      ∃ tagging, field.tagging policy = some tagging ∧
        decodeUnder defs policy tagging (defs.template field.type) (.element tlv) =
          .ok result := by
  rw [decodeField]
  grind

theorem decodeSlots_done {endOffset index : Nat} {fields : List Field}
    {slots : List (Slot Value)} :
    decodeSlots defs policy endOffset index fields .done = .ok slots ↔
      (∀ field ∈ fields, field.optional) ∧ slots = fields.map fun field => ⟨field, none⟩ := by
  rw [decodeSlots, Field.unsetAll_eq_ok_iff]

theorem decodeSlots_beyond {endOffset index : Nat} {tlv : Tlv} {rest : Tlv.Stream}
    {slots : List (Slot Value)} :
    decodeSlots defs policy endOffset index [] (.next tlv rest) = .ok slots ↔
      policy.strict = false ∧ slots = [] := by
  rw [decodeSlots]
  grind

theorem decodeSlots_next {endOffset index : Nat} {field : Field} {fields : List Field} {tlv : Tlv}
    {rest : Tlv.Stream} {slots : List (Slot Value)} :
    decodeSlots defs policy endOffset index (field :: fields) (.next tlv rest) = .ok slots ↔
      (field.accepts? defs tlv.tag = some true ∧ ∃ value more,
          decodeField defs defs.choiceLimit policy index field tlv = .ok value ∧
          decodeSlots defs policy endOffset (index + 1) fields rest = .ok more ∧
          slots = ⟨field, some value⟩ :: more) ∨
        (field.accepts? defs tlv.tag = some false ∧ field.optional = true ∧ ∃ more,
          decodeSlots defs policy endOffset (index + 1) fields (.next tlv rest) = .ok more ∧
          slots = ⟨field, none⟩ :: more) := by
  rw [decodeSlots]
  grind

theorem decodeItems_next {type : String} {index : Nat} {tlv : Tlv} {rest : Tlv.Stream}
    {items : List Value} :
    decodeItems defs policy type index (.next tlv rest) = .ok items ↔
      ∃ item more,
        decodeFrom defs defs.choiceLimit policy (defs.template type) (.element tlv) = .ok item ∧
        decodeItems defs policy type (index + 1) rest = .ok more ∧ items = item :: more := by
  rw [decodeItems]
  grind

end Steps

section Completeness

variable {defs : Definitions}

mutual

theorem Decodes.decodeFrom {depth : Nat} {policy : Policy} {template result : Value}
    {source : Source} (h : Decodes defs depth policy template source result) :
    Value.decodeFrom defs depth policy template source = .ok result := by
  match h with
  | .leaf hcontent hform hresult =>
    exact decodeFrom_leaf.2 ⟨_, _, hcontent, hform, hresult, rfl⟩
  | .record hcontent hform hslots =>
    exact decodeFrom_record.2 ⟨_, _, hcontent, hform, hslots.decodeSlots _ _, rfl⟩
  | .elements hcontent hform hitems =>
    exact decodeFrom_elements.2 ⟨_, _, hcontent, hform, hitems.decodeItems _, rfl⟩
  | .choice hfirst hfield =>
    exact decodeFrom_choice.2 ⟨_, _, _, _, _, rfl, rfl, hfirst, hfield.decodeField _, rfl⟩
  | .tagged hinner => exact decodeFrom_tagged.2 ⟨_, hinner.decodeUnder, rfl⟩
  | .any => exact decodeFrom_any.2 ⟨_, rfl, rfl⟩

theorem DecodesUnder.decodeUnder {policy : Policy} {tagging : Tagging} {inner result : Value}
    {source : Source} (h : DecodesUnder defs policy tagging inner source result) :
    Value.decodeUnder defs policy tagging inner source = .ok result := by
  match h with
  | .explicit hcontent hmode hwrapped hinner =>
    exact decodeUnder_eq_ok_iff.2 ⟨_, hcontent, .inl ⟨hmode, _, hwrapped, hinner.decodeFrom⟩⟩
  | .implicit hcontent hmode hinner =>
    exact decodeUnder_eq_ok_iff.2 ⟨_, hcontent, .inr ⟨hmode, hinner.decodeFrom⟩⟩

theorem DecodesField.decodeField {depth : Nat} {policy : Policy} {field : Field} {tlv : Tlv}
    {result : Value} (h : DecodesField defs depth policy field tlv result) (index : Nat) :
    Value.decodeField defs depth policy index field tlv = .ok result := by
  match h with
  | .untagged htagging hvalue =>
    exact decodeField_eq_ok_iff.2 (.inl ⟨htagging, hvalue.decodeFrom⟩)
  | .tagged htagging hvalue =>
    exact decodeField_eq_ok_iff.2 (.inr ⟨_, htagging, hvalue.decodeUnder⟩)

theorem DecodesSlots.decodeSlots {policy : Policy} {fields : List Field} {stream : Tlv.Stream}
    {slots : List (Slot Value)} (h : DecodesSlots defs policy fields stream slots)
    (endOffset index : Nat) :
    Value.decodeSlots defs policy endOffset index fields stream = .ok slots := by
  match h with
  | .done hoptional => exact decodeSlots_done.2 ⟨hoptional, rfl⟩
  | .ignored hlenient => exact decodeSlots_beyond.2 ⟨hlenient, rfl⟩
  | .filled haccepts hvalue hrest =>
    exact decodeSlots_next.2
      (.inl ⟨haccepts, _, _, hvalue.decodeField _, hrest.decodeSlots _ _, rfl⟩)
  | .skipped haccepts hoptional hrest =>
    exact decodeSlots_next.2 (.inr ⟨haccepts, hoptional, _, hrest.decodeSlots _ _, rfl⟩)

theorem DecodesItems.decodeItems {policy : Policy} {type : String} {stream : Tlv.Stream}
    {items : List Value} (h : DecodesItems defs policy type stream items) (index : Nat) :
    Value.decodeItems defs policy type index stream = .ok items := by
  match h with
  | .done => rw [Value.decodeItems]
  | .next hitem hrest =>
    exact decodeItems_next.2 ⟨_, _, hitem.decodeFrom, hrest.decodeItems _, rfl⟩

end

end Completeness

section Soundness

variable {defs : Definitions}

-- The rules cover every success. The recursion is that of the functions, and ends for
-- the same reasons.
mutual

theorem decodes_of_decodeFrom {depth : Nat} {policy : Policy} {template result : Value}
    {source : Source} (h : decodeFrom defs depth policy template source = .ok result) :
    Decodes defs depth policy template source result := by
  match template with
  | .leaf _ =>
    obtain ⟨content, decoded, hcontent, hform, hresult, rfl⟩ := decodeFrom_leaf.1 h
    exact .leaf hcontent hform hresult
  | .record _ _ own =>
    obtain ⟨content, decoded, hcontent, hform, hslots, rfl⟩ := decodeFrom_record.1 h
    exact .record hcontent hform (decodesSlots_of_decodeSlots hslots)
  | .elements _ _ _ own =>
    obtain ⟨content, decoded, hcontent, hform, hitems, rfl⟩ := decodeFrom_elements.1 h
    exact .elements hcontent hform (decodesItems_of_decodeItems hitems)
  | .choice _ _ _ =>
    obtain ⟨tlv, less, index, field, decoded, hsource, hdepth, hfirst, hfield, rfl⟩ :=
      decodeFrom_choice.1 h
    subst hsource hdepth
    exact .choice hfirst (decodesField_of_decodeField hfield)
  | .tagged _ _ _ =>
    obtain ⟨decoded, hinner, rfl⟩ := decodeFrom_tagged.1 h
    exact .tagged (decodesUnder_of_decodeUnder hinner)
  | .any _ =>
    obtain ⟨tlv, rfl, rfl⟩ := decodeFrom_any.1 h
    exact .any
termination_by (source.weight, template.choiceWeight depth, 2 * sizeOf template)
decreasing_by
  · have := Source.weight_of_contentUnder hcontent
    have := Tlv.weight_stream_le (own.getD policy).rules content.offset content.octets
    exact .left _ _ (by omega)
  · have := Source.weight_of_contentUnder hcontent
    have := Tlv.weight_stream_le (own.getD policy).rules content.offset content.octets
    exact .left _ _ (by omega)
  · subst hsource hdepth
    exact Prod.Lex.right _ (Prod.Lex.left _ _ (Nat.lt_succ_self _))
  · refine .right _ (.right _ ?_)
    simp only [Value.tagged.sizeOf_spec]
    omega

theorem decodesUnder_of_decodeUnder {policy : Policy} {tagging : Tagging} {inner result : Value}
    {source : Source} (h : decodeUnder defs policy tagging inner source = .ok result) :
    DecodesUnder defs policy tagging inner source result := by
  obtain ⟨content, hcontent, hinner⟩ := decodeUnder_eq_ok_iff.1 h
  rcases hinner with ⟨hmode, tlv, hwrapped, hinner⟩ | ⟨hmode, hinner⟩
  · exact .explicit hcontent hmode hwrapped (decodes_of_decodeFrom hinner)
  · exact .implicit hcontent hmode (decodes_of_decodeFrom hinner)
termination_by (source.weight, 0, 2 * sizeOf inner + 1)
decreasing_by
  · have := Source.weight_of_contentUnder hcontent
    have := Content.weight_of_wrapped hwrapped
    exact .left _ _ (show 2 * tlv.weight < source.weight by omega)
  · rw [Tagging.choiceWeight_of_implicit hmode]
    exact .right' _ (Source.weight_of_contentUnder hcontent) (.right _ (by omega))

theorem decodesField_of_decodeField {depth index : Nat} {policy : Policy} {field : Field}
    {tlv : Tlv} {result : Value}
    (h : decodeField defs depth policy index field tlv = .ok result) :
    DecodesField defs depth policy field tlv result := by
  rcases decodeField_eq_ok_iff.1 h with ⟨htagging, hvalue⟩ | ⟨tagging, htagging, hvalue⟩
  · exact .untagged htagging (decodes_of_decodeFrom hvalue)
  · exact .tagged htagging (decodesUnder_of_decodeUnder hvalue)
termination_by (2 * tlv.weight, depth, 2 * sizeOf (defs.template field.type) + 2)
decreasing_by
  · exact .right _ (.right' _ (choiceWeight_le _ _) (by omega))
  · exact .right _ (.right' _ (Nat.zero_le _) (by omega))

theorem decodesSlots_of_decodeSlots {policy : Policy} {endOffset index : Nat}
    {fields : List Field} {stream : Tlv.Stream} {slots : List (Slot Value)}
    (h : decodeSlots defs policy endOffset index fields stream = .ok slots) :
    DecodesSlots defs policy fields stream slots := by
  match stream, fields with
  | .done, fields =>
    obtain ⟨hoptional, rfl⟩ := decodeSlots_done.1 h
    exact .done hoptional
  | .broken _, _ => simp [decodeSlots] at h
  | .next _ _, [] =>
    obtain ⟨hlenient, rfl⟩ := decodeSlots_beyond.1 h
    exact .ignored hlenient
  | .next tlv rest, field :: fields =>
    rcases decodeSlots_next.1 h with
      ⟨haccepts, value, more, hvalue, hrest, rfl⟩ | ⟨haccepts, hoptional, more, hrest, rfl⟩
    · exact .filled haccepts (decodesField_of_decodeField hvalue)
        (decodesSlots_of_decodeSlots hrest)
    · exact .skipped haccepts hoptional (decodesSlots_of_decodeSlots hrest)
termination_by (2 * stream.weight + 1, fields.length, 0)
decreasing_by
  · exact .left _ _ (by simp only [Tlv.Stream.weight]; omega)
  · exact .left _ _ (by simp only [Tlv.Stream.weight, Tlv.weight]; omega)
  · exact .right _ (.left _ _ (by simp))

theorem decodesItems_of_decodeItems {policy : Policy} {type : String} {index : Nat}
    {stream : Tlv.Stream} {items : List Value}
    (h : decodeItems defs policy type index stream = .ok items) :
    DecodesItems defs policy type stream items := by
  match stream with
  | .done =>
    rw [decodeItems] at h
    cases h
    exact .done
  | .broken _ => simp [decodeItems] at h
  | .next tlv rest =>
    obtain ⟨item, more, hitem, hrest, rfl⟩ := decodeItems_next.1 h
    exact .next (decodes_of_decodeFrom hitem) (decodesItems_of_decodeItems hrest)
termination_by (2 * stream.weight + 1, 0, 0)
decreasing_by
  · exact .left _ _ (by simp only [Source.weight, Tlv.Stream.weight]; omega)
  · exact .left _ _ (by simp only [Tlv.Stream.weight, Tlv.weight]; omega)

end

theorem decodes_iff {depth : Nat} {policy : Policy} {template result : Value}
    {source : Source} :
    decodeFrom defs depth policy template source = .ok result ↔
      Decodes defs depth policy template source result :=
  ⟨decodes_of_decodeFrom, Decodes.decodeFrom⟩

theorem decodesUnder_iff {policy : Policy} {tagging : Tagging} {inner result : Value}
    {source : Source} :
    decodeUnder defs policy tagging inner source = .ok result ↔
      DecodesUnder defs policy tagging inner source result :=
  ⟨decodesUnder_of_decodeUnder, DecodesUnder.decodeUnder⟩

theorem atEnd_eq_ok_iff {policy : Policy} {tlv : Tlv} {rest : Octets} {decoded result : Value} :
    atEnd policy tlv rest decoded = .ok result ↔
      (policy.strict = true → rest = []) ∧ decoded = result := by
  rw [atEnd]
  grind [List.isEmpty_iff]

theorem decode_eq_ok_iff {value result : Value} {octets : Octets} {policy : Policy} :
    decode defs value octets policy = .ok result ↔
      ∃ tlv rest, Tlv.read (value.resolve policy).rules 0 octets = .ok (tlv, rest) ∧
        Decodes defs defs.choiceLimit (value.resolve policy) value.cleared (.element tlv) result ∧
        ((value.resolve policy).strict = true → rest = []) := by
  simp only [decode, ← decodes_iff]
  grind [atEnd_eq_ok_iff]

theorem taggedDecode_eq_ok_iff {value result : Value} {tagging : Tagging} {octets : Octets}
    {policy : Policy} :
    taggedDecode defs value tagging octets policy = .ok result ↔
      ∃ tlv rest, Tlv.read (value.resolve policy).rules 0 octets = .ok (tlv, rest) ∧
        DecodesUnder defs (value.resolve policy) tagging value.cleared (.element tlv) result ∧
        ((value.resolve policy).strict = true → rest = []) := by
  simp only [taggedDecode, ← decodesUnder_iff]
  grind [atEnd_eq_ok_iff]

end Soundness

end Value

end Asn1
