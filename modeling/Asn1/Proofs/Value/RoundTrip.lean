import Asn1.Proofs.Value.Recoverable
import Asn1.Proofs.Value.Typed

/-!
What encoding writes, decoding reads back from the type alone: the same tree, with every
field set that was set.
-/

namespace Asn1

/-- The contents that a length can be written for. -/
def Encoding.Fits : Encoding → Prop
  | .parts _ content => content.length < Length.limit
  | .whole raw => raw.length < Length.limit

theorem Encoding.fits_of_octets {encoding : Encoding}
    (h : encoding.octets.length < Length.limit) : encoding.Fits := by
  cases encoding with
  | parts tag content =>
    simp only [octets, Tlv.encode, List.length_append] at h
    exact Nat.lt_of_le_of_lt (Nat.le_add_left _ _) h
  | whole => exact h

theorem Encoding.complete_parts {tag : Tag} {content : Octets}
    (h : (Encoding.parts tag content).Fits) (rules : Rules) :
    Tlv.Complete rules (Encoding.parts tag content).octets :=
  Tlv.complete_encode h rules tag

/-- The encoding leads back to the value, through as many CHOICEs as it takes for the
value to accept it. -/
structure Value.Recovers (defs : Definitions) (reader : Rules) (policy : Policy) (value : Value)
    (encoding : Encoding) : Prop where
  complete : Tlv.Complete reader encoding.octets
  accepted : ∃ tag, Value.rawTag? encoding.octets = some tag ∧
    ∃ depth, value.acceptsWithin defs tag depth = some true
  decodes : ∀ {rules : Rules} {depth : Nat} {source : Source}, source.Legible rules →
    source.Holds encoding →
    (∀ tlv, source = .element tlv → value.acceptsWithin defs tlv.tag depth = some true) →
    Value.Decodes defs depth policy value source value

/-- The same of a value with the tag of its field. -/
structure Field.Recovers (defs : Definitions) (reader : Rules) (policy : Policy) (field : Field)
    (value : Value) (octets : Octets) : Prop where
  complete : Tlv.Complete reader octets
  accepted : ∃ tag, Value.rawTag? octets = some tag ∧
    ∃ depth, field.acceptsWithin defs tag depth = some true
  decodes : ∀ {rules : Rules} {depth : Nat} {tlv : Tlv}, tlv.Legible rules → tlv.raw = octets →
    field.acceptsWithin defs tlv.tag depth = some true →
    Value.DecodesField defs depth policy field tlv value

section Steps

variable {defs : Definitions} {reader : Rules} {policy : Policy}

/-- The encoding is read in front of anything, and as an element that the value accepts. -/
theorem Value.Recovers.read {value : Value} {encoding : Encoding}
    (h : value.Recovers defs reader policy encoding) (offset : Nat) (rest : Octets) :
    ∃ tlv, tlv.raw = encoding.octets ∧
      Tlv.read reader offset (encoding.octets ++ rest) = .ok (tlv, rest) ∧
      value.accepts? defs tlv.tag = some true := by
  obtain ⟨tlv, hraw, -, hread⟩ := h.complete.read offset rest
  obtain ⟨tag, htag, depth, haccepts⟩ := h.accepted
  rw [← hraw, Value.rawTag?_of_read (Tlv.legible_of_read hread)] at htag
  cases htag
  exact ⟨tlv, hraw, hread, Value.accepts?_of_acceptsWithin haccepts⟩

theorem Field.Recovers.read {field : Field} {value : Value} {octets : Octets}
    (h : field.Recovers defs reader policy value octets) (offset : Nat) (rest : Octets) :
    ∃ tlv, tlv.raw = octets ∧ Tlv.read reader offset (octets ++ rest) = .ok (tlv, rest) ∧
      field.accepts? defs tlv.tag = some true := by
  obtain ⟨tlv, hraw, -, hread⟩ := h.complete.read offset rest
  obtain ⟨tag, htag, depth, haccepts⟩ := h.accepted
  rw [← hraw, Value.rawTag?_of_read (Tlv.legible_of_read hread)] at htag
  cases htag
  exact ⟨tlv, hraw, hread, Field.accepts?_of_acceptsWithin haccepts⟩

/-- What is read so leads back. -/
theorem Value.Recovers.decodes_element {value : Value} {encoding : Encoding}
    (h : value.Recovers defs reader policy encoding) {rules : Rules} {tlv : Tlv}
    (hlegible : tlv.Legible rules) (hraw : tlv.raw = encoding.octets) {depth : Nat}
    (haccepts : value.acceptsWithin defs tlv.tag depth = some true) :
    Value.Decodes defs depth policy value (.element tlv) value := by
  refine h.decodes hlegible hraw ?_
  rintro _ ⟨⟩
  exact haccepts

namespace Value

/-- Where the encoding shows the tag that is expected, only the content is left to read. -/
theorem recovers_parts {value : Value} (expected : Tag) {tag : Tag} {octets : Octets}
    (hfits : (Encoding.parts tag octets).Fits)
    (haccepts : value.acceptsWithin defs tag 0 = some true)
    (hsame : expected.sameIdentity tag = true)
    (hdecodes : ∀ {depth : Nat} {source : Source} {content : Content},
      source.contentUnder expected = .ok content → content.constructed = tag.constructed →
      content.octets = octets → Decodes defs depth policy value source value) :
    Recovers defs reader policy value (.parts tag octets) where
  complete := Encoding.complete_parts hfits reader
  accepted := ⟨tag, rawTag?_encode tag octets, 0, haccepts⟩
  decodes := fun hlegible hholds _ => by
    obtain ⟨content, hcontent, hform, hoctets⟩ :=
      Source.contentUnder_of_holds hholds hlegible hfits hsame
    exact hdecodes hcontent hform hoctets

/-- How a value under a re-tag is read back from the content below the new tag. -/
structure RecoversUnder (defs : Definitions) (policy : Policy) (tagging : Tagging)
    (inner : Value) (tag : Tag) (octets : Octets) : Prop where
  accepted : tagging.accepts tag = true
  decodes : ∀ {source : Source} {content : Content},
    source.contentUnder (tagging.outerTag inner) = .ok content →
    content.constructed = tag.constructed → content.octets = octets →
    DecodesUnder defs policy tagging inner source inner

theorem sameIdentity_outerTag (inner : Value) {tagging : Tagging} {tag : Tag}
    (h : tagging.accepts tag = true) : (tagging.outerTag inner).sameIdentity tag = true := by
  rw [← Tagging.accepts_eq_sameIdentity]
  exact h

/-- An explicit tag is taken off again to read the element below, an implicit one leaves
only the content. -/
theorem recoversUnder_of_apply {inner : Value} {tagging : Tagging} {bare wrapped : Encoding}
    (hbare : inner.encoding policy = .ok bare) (happly : tagging.apply inner bare = .ok wrapped)
    (hfits : wrapped.Fits)
    (hinner : bare.Fits → Recovers defs policy.rules policy inner bare) :
    ∃ tag octets, wrapped = .parts tag octets ∧
      RecoversUnder defs policy tagging inner tag octets := by
  rcases Tagging.apply_eq_ok_iff.1 happly with ⟨hmode, rfl⟩ | ⟨hmode, tag, octets, hsplit, rfl⟩
  · refine ⟨_, _, rfl, accepts_tag tagging true, ?_⟩
    intro source content hcontent hform hoctets
    have hrecovers := hinner (Encoding.fits_of_octets hfits)
    obtain ⟨tlv, hraw, hread, haccepts⟩ := hrecovers.read content.offset []
    rw [List.append_nil] at hread
    refine .explicit hcontent hmode (Content.wrapped_eq_ok_iff.2 ⟨hform, ?_, ?_⟩)
      (hrecovers.decodes_element (Tlv.legible_of_read hread) hraw haccepts)
    · rw [hoctets]
      exact Tlv.ne_nil_of_read hread
    · rw [hoctets]
      exact hread
  · obtain ⟨tag', octets', rfl⟩ :=
      (hasOwnTag_of_encoding hbare).1 (Tagging.hasOwnTag_of_implicit hmode)
    cases hsplit
    refine ⟨_, _, rfl, accepts_tag tagging _, ?_⟩
    intro source content hcontent hform hoctets
    have hlegible : (Source.below content).Legible .basic := trivial
    exact .implicit hcontent hmode ((hinner hfits).decodes hlegible ⟨hform, hoctets⟩ nofun)

end Value

namespace Field

theorem accepts_of_tagging {field : Field} {tagging : Tagging}
    (h : field.tagging policy = some tagging) (tag : Tag) (depth : Nat) :
    field.acceptsWithin defs tag depth = some (tagging.accepts tag) := by
  rw [Field.tagging, Option.map_eq_some_iff] at h
  obtain ⟨number, hnumber, rfl⟩ := h
  rw [acceptsWithin, acceptsBy, hnumber]
  rfl

theorem accepts_of_untagged {field : Field} (h : field.tagging policy = none) (tag : Tag)
    (depth : Nat) :
    field.acceptsWithin defs tag depth =
      (defs.template field.type).acceptsWithin defs tag depth := by
  rw [Field.tagging, Option.map_eq_none_iff] at h
  rw [acceptsWithin, acceptsBy, h]

theorem recovers_of_encode {field : Field} {value : Value} {index : Nat} {octets : Octets}
    (htype : value.cleared = (defs.template field.type).cleared)
    (hvalue : ∀ {bare : Encoding}, value.encoding policy = .ok bare → bare.Fits →
      value.Recovers defs (if field.number.isSome then policy.rules else reader) policy bare)
    (hencode : field.encode index policy value (value.encoding policy) = .ok octets)
    (hlength : octets.length < Length.limit) : field.Recovers defs reader policy value octets := by
  obtain ⟨bare, wrapped, hbare, hwrap, rfl⟩ := encode_eq_ok_iff.1 hencode
  have hfits := Encoding.fits_of_octets hlength
  rcases wrap_eq_ok_iff.1 hwrap with ⟨hnone, rfl⟩ | ⟨tagging, hsome, happly⟩
  · have hnumber : field.number = none := Option.map_eq_none_iff.1 hnone
    have hrecovers := hvalue hbare hfits
    rw [hnumber] at hrecovers
    refine ⟨hrecovers.complete, ?_, ?_⟩
    · obtain ⟨tag, htag, depth, haccepts⟩ := hrecovers.accepted
      refine ⟨tag, htag, depth, ?_⟩
      rw [accepts_of_untagged hnone, ← Value.acceptsWithin_of_cleared htype]
      exact haccepts
    · intro rules depth tlv hlegible hraw haccepts
      rw [accepts_of_untagged hnone, ← Value.acceptsWithin_of_cleared htype] at haccepts
      exact .untagged hnone
        ((hrecovers.decodes_element hlegible hraw haccepts).of_cleared htype)
  · obtain ⟨number, hnumber, -⟩ := Option.map_eq_some_iff.1 hsome
    obtain ⟨tag, content, rfl, hunder⟩ := Value.recoversUnder_of_apply hbare happly hfits
      (fun hfits => by simpa [hnumber] using hvalue hbare hfits)
    refine ⟨Encoding.complete_parts hfits reader, ?_, ?_⟩
    · refine ⟨tag, Value.rawTag?_encode tag content, 0, ?_⟩
      rw [accepts_of_tagging hsome, hunder.accepted]
    · intro rules depth tlv hlegible hraw _
      have hholds : (Source.element tlv).Holds (.parts tag content) := hraw
      obtain ⟨below, hcontent, hform, hoctets⟩ := Source.contentUnder_of_holds hholds hlegible
        hfits (Value.sameIdentity_outerTag value hunder.accepted)
      exact .tagged hsome ((hunder.decodes hcontent hform hoctets).of_cleared htype)

end Field

namespace Value

/-- Every field of the record that is set is read back on its own. -/
def SlotsRecover (defs : Definitions) (policy : Policy) (slots : List (Slot Value)) : Prop :=
  ∀ slot ∈ slots, ∀ value ∈ slot.content, ∀ {index : Nat} {octets : Octets},
    slot.field.encode index policy value (value.encoding policy) = .ok octets →
    octets.length < Length.limit → slot.field.Recovers defs policy.rules policy value octets

/-- The tag in front of an encoded record is that of the first field that is set. -/
theorem emits_of_encodeSlots {slots : List (Slot Value)} (hslots : SlotsRecover defs policy slots)
    {index : Nat} {octets : Octets} (hencode : encodeSlots policy index slots = .ok octets)
    (hlength : octets.length < Length.limit) {tag : Tag} (htag : rawTag? octets = some tag) :
    ∃ field value, firstSet slots = some (field, value) ∧ field.Emits policy value tag := by
  induction slots generalizing index with
  | nil =>
    rw [encodeSlots_nil.1 hencode] at htag
    cases htag
  | cons slot rest ih =>
    obtain ⟨hslot, hrest⟩ := List.forall_mem_cons.1 hslots
    obtain ⟨field, content⟩ := slot
    cases content with
    | none => exact ih hrest (encodeSlots_unset.1 hencode).2
    | some value =>
      obtain ⟨front, more, hfront, -, rfl⟩ := encodeSlots_set.1 hencode
      rw [List.length_append] at hlength
      obtain ⟨first, hfirst, -⟩ := (hslot value rfl hfront (by omega)).accepted
      rw [rawTag?_append hfirst more] at htag
      cases htag
      exact ⟨field, value, rfl, Field.emits_of_encode hfront hfirst⟩

theorem decodesSlots_of_encodeSlots {slots : List (Slot Value)}
    (hslots : SlotsRecover defs policy slots) (hrouted : Routed defs policy slots) {index : Nat}
    {octets : Octets} (hencode : encodeSlots policy index slots = .ok octets)
    (hlength : octets.length < Length.limit) (offset : Nat) :
    DecodesSlots defs policy (slots.map (·.field)) (Tlv.stream policy.rules offset octets)
      slots := by
  induction slots generalizing index octets offset with
  | nil =>
    rw [encodeSlots_nil.1 hencode, Tlv.stream_nil]
    exact .done nofun
  | cons slot rest ih =>
    obtain ⟨hslot, hrest⟩ := List.forall_mem_cons.1 hslots
    obtain ⟨field, content⟩ := slot
    cases content with
    | none =>
      obtain ⟨hoptional, hmore⟩ := encodeSlots_unset.1 hencode
      have hdecodes := ih hrest hrouted.2 hmore hlength offset
      rw [List.map_cons]
      -- The field is passed over because of the element that comes next, if there is one.
      cases hstream : Tlv.stream policy.rules offset octets with
      | done =>
        rw [hstream] at hdecodes
        obtain ⟨hunset, hempty⟩ := decodeSlots_done.1 (hdecodes.decodeSlots 0 0)
        have hdone : DecodesSlots defs policy (field :: rest.map (·.field)) .done _ :=
          .done (List.forall_mem_cons.2 ⟨hoptional, hunset⟩)
        rw [List.map_cons, ← hempty] at hdone
        exact hdone
      | broken error =>
        rw [hstream] at hdecodes
        simpa [decodeSlots] using hdecodes.decodeSlots 0 0
      | next tlv others =>
        obtain ⟨after, hread, -⟩ := Tlv.read_of_stream_next hstream
        obtain ⟨next, value, hnext, hemits⟩ :=
          emits_of_encodeSlots hrest hmore hlength (rawTag?_of_read hread)
        rw [hstream] at hdecodes
        exact .skipped (hrouted.1 next value tlv.tag hnext hemits) hoptional hdecodes
    | some value =>
      obtain ⟨front, more, hfront, hmore, rfl⟩ := encodeSlots_set.1 hencode
      rw [List.length_append] at hlength
      have hrecovers := hslot value rfl hfront (by omega)
      obtain ⟨tlv, hraw, hread, haccepts⟩ := hrecovers.read offset more
      rw [List.map_cons, Tlv.stream_of_read hread]
      exact .filled haccepts (hrecovers.decodes (Tlv.legible_of_read hread) hraw haccepts)
        (ih hrest hrouted hmore (by omega) tlv.endOffset)

theorem decodesItems_of_encodeItems {type : String} {items : List Value}
    (hitems : ∀ item ∈ items, ∀ {bare : Encoding}, item.encoding policy = .ok bare →
      bare.Fits → item.Recovers defs policy.rules policy bare)
    (htypes : ∀ item ∈ items, item.cleared = (defs.template type).cleared) {index : Nat}
    {octets : Octets} (hencode : encodeItems policy index items = .ok octets)
    (hlength : octets.length < Length.limit) (offset : Nat) :
    DecodesItems defs policy type (Tlv.stream policy.rules offset octets) items := by
  induction items generalizing index octets offset with
  | nil =>
    rw [encodeItems_nil.1 hencode, Tlv.stream_nil]
    exact .done
  | cons item rest ih =>
    obtain ⟨hitem, hrest⟩ := List.forall_mem_cons.1 hitems
    obtain ⟨htype, htypes⟩ := List.forall_mem_cons.1 htypes
    obtain ⟨front, more, hfront, hmore, rfl⟩ := encodeItems_cons.1 hencode
    rw [List.length_append] at hlength
    have hrecovers := hitem hfront (Encoding.fits_of_octets (by omega))
    obtain ⟨tlv, hraw, hread, haccepts⟩ := hrecovers.read offset more
    have hdecodes := hrecovers.decodes_element (Tlv.legible_of_read hread) hraw haccepts
    rw [Tlv.stream_of_read hread]
    exact .next (hdecodes.of_cleared htype) (ih hrest htypes hmore (by omega) tlv.endOffset)

theorem mem_take_of_getElem? {α : Type} {list : List α} {a : α} {place n : Nat}
    (h : list[place]? = some a) (hlt : place < n) : a ∈ list.take n :=
  List.mem_of_getElem? ((List.getElem?_take_of_lt hlt).trans h)

/-- The alternative that was selected is the first that accepts its own octets. -/
theorem firstAccepting_selected {alternatives : List Field} {index : Nat} {field : Field}
    {tag : Tag} (hfield : alternatives[index]? = some field)
    (hfirst : ∀ earlier ∈ alternatives.take index, earlier.accepts? defs tag = some false)
    (haccepts : field.accepts? defs tag = some true) {depth place : Nat} {found : Field}
    (hfound : Field.firstAccepting (Field.acceptsWithin defs tag depth) 0 alternatives =
      some (some (place, found))) :
    place = index ∧ found = field ∧ field.acceptsWithin defs tag depth = some true := by
  obtain ⟨_, rfl, hat, hanswer, hearlier⟩ := Field.firstAccepting_eq_some_iff.1 hfound
  rw [Nat.zero_add]
  rename_i place
  rcases Nat.lt_trichotomy place index with hlt | rfl | hgt
  · have hno := hfirst found (mem_take_of_getElem? hat hlt)
    rw [Field.accepts?_of_acceptsWithin hanswer] at hno
    cases hno
  · rw [hat] at hfield
    cases hfield
    exact ⟨rfl, rfl, hanswer⟩
  · have hno := hearlier field (mem_take_of_getElem? hfield hgt)
    rw [Field.accepts?_of_acceptsWithin hno] at haccepts
    cases haccepts

theorem recovers_leaf {primitive : Primitive} (hpadded : primitive.PaddedUnder policy.rules)
    {encoding : Encoding} (hencoding : (Value.leaf primitive).encoding policy = .ok encoding)
    (hfits : encoding.Fits) : (Value.leaf primitive).Recovers defs reader policy encoding := by
  obtain ⟨octets, hoctets, rfl⟩ := encoding_leaf.1 hencoding
  refine recovers_parts primitive.tag hfits ?_ primitive.tag.sameIdentity_refl ?_
  · rw [acceptsWithin, Tag.sameIdentity_refl]
  · intro depth source content hcontent hform hcontents
    refine .leaf hcontent (hform.trans primitive.constructed_tag) ?_
    rw [hcontents]
    exact Primitive.decode_encode hoctets hpadded

theorem recovers_record {grouping : Grouping} {slots : List (Slot Value)} {own : Option Policy}
    (hrouted : Routed defs (own.getD policy) slots)
    (hslots : SlotsRecover defs (own.getD policy) slots) {encoding : Encoding}
    (hencoding : (Value.record grouping slots own).encoding policy = .ok encoding)
    (hfits : encoding.Fits) :
    (Value.record grouping slots own).Recovers defs reader policy encoding := by
  obtain ⟨octets, hoctets, rfl⟩ := encoding_record.1 hencoding
  refine recovers_parts grouping.tag hfits ?_ grouping.tag.sameIdentity_refl ?_
  · rw [acceptsWithin, Tag.sameIdentity_refl]
  · intro depth source content hcontent hform hcontents
    refine .record hcontent (hform.trans grouping.constructed_tag) ?_
    rw [hcontents]
    exact decodesSlots_of_encodeSlots hslots hrouted hoctets hfits content.offset

theorem recovers_elements {grouping : Grouping} {type : String} {items : List Value}
    {own : Option Policy}
    (hitems : ∀ item ∈ items, ∀ {bare : Encoding},
      item.encoding (own.getD policy) = .ok bare → bare.Fits →
        item.Recovers defs (own.getD policy).rules (own.getD policy) bare)
    (htypes : ∀ item ∈ items, item.cleared = (defs.template type).cleared) {encoding : Encoding}
    (hencoding : (Value.elements grouping type items own).encoding policy = .ok encoding)
    (hfits : encoding.Fits) :
    (Value.elements grouping type items own).Recovers defs reader policy encoding := by
  obtain ⟨octets, hoctets, rfl⟩ := encoding_elements.1 hencoding
  refine recovers_parts grouping.tag hfits ?_ grouping.tag.sameIdentity_refl ?_
  · rw [acceptsWithin, Tag.sameIdentity_refl]
  · intro depth source content hcontent hform hcontents
    refine .elements hcontent (hform.trans grouping.constructed_tag) ?_
    rw [hcontents]
    exact decodesItems_of_encodeItems hitems htypes hoctets hfits content.offset

/-- A CHOICE takes as many steps as the alternative, and those that answer for the ones in
front of it. -/
theorem accepts_selected {alternatives : List Field} {index : Nat} {field : Field} {value : Value}
    {own : Option Policy} {tag : Tag} (hfield : alternatives[index]? = some field)
    (hfirst : ∀ earlier ∈ alternatives.take index, earlier.accepts? defs tag = some false)
    {depth : Nat} (haccepts : field.acceptsWithin defs tag depth = some true) :
    (Value.choice alternatives (some ⟨index, value⟩) own).acceptsWithin defs tag
      (max depth defs.choiceLimit + 1) = some true := by
  have hfound : Field.firstAccepting
      (Field.acceptsWithin defs tag (max depth defs.choiceLimit)) 0 alternatives =
      some (some (index, field)) :=
    Field.firstAccepting_eq_some_iff.2 ⟨index, (Nat.zero_add index).symm, hfield,
      Field.acceptsWithin_mono haccepts (Nat.le_max_left _ _), fun earlier hearlier =>
        Field.acceptsWithin_mono (hfirst earlier hearlier) (Nat.le_max_right _ _)⟩
  rw [acceptsWithin_choice, hfound]
  rfl

theorem recovers_selected {alternatives : List Field} {index : Nat} {field : Field}
    {value : Value} {own : Option Policy} (hfield : alternatives[index]? = some field)
    (hfirst : ∀ earlier ∈ alternatives.take index, ∀ tag,
      field.Emits (own.getD policy) value tag → earlier.accepts? defs tag = some false)
    (hvalue : ∀ {raw : Octets}, field.encode index (own.getD policy) value
      (value.encoding (own.getD policy)) = .ok raw → raw.length < Length.limit →
        field.Recovers defs reader (own.getD policy) value raw)
    {encoding : Encoding}
    (hencoding : (Value.choice alternatives (some ⟨index, value⟩) own).encoding policy =
      .ok encoding)
    (hfits : encoding.Fits) :
    (Value.choice alternatives (some ⟨index, value⟩) own).Recovers defs reader policy
      encoding := by
  obtain ⟨_, _, field', raw, ⟨⟩, hat, hencode, rfl⟩ := encoding_choice.1 hencoding
  rw [hfield] at hat
  cases hat
  have hrecovers := hvalue hencode hfits
  obtain ⟨tag, htag, depth, haccepts⟩ := hrecovers.accepted
  have hrefuse : ∀ earlier ∈ alternatives.take index, earlier.accepts? defs tag = some false :=
    fun earlier hearlier => hfirst earlier hearlier tag (Field.emits_of_encode hencode htag)
  refine ⟨hrecovers.complete, ⟨tag, htag, _, accepts_selected hfield hrefuse haccepts⟩, ?_⟩
  intro rules depth source hlegible hholds hanswer
  cases source with
  | below => exact hholds.elim
  | element tlv =>
    obtain rfl : tlv.raw = raw := hholds
    rw [rawTag?_of_read hlegible] at htag
    cases htag
    have hanswer := hanswer tlv rfl
    cases depth with
    | zero => cases hanswer
    | succ depth =>
      rw [acceptsWithin_choice, Option.map_eq_some_iff] at hanswer
      obtain ⟨_ | ⟨place, found⟩, hfound, hsome⟩ := hanswer
      · cases hsome
      · obtain ⟨rfl, rfl, hanswer⟩ := firstAccepting_selected hfield hrefuse
          (Field.accepts?_of_acceptsWithin haccepts) hfound
        exact .choice hfound (hrecovers.decodes hlegible rfl hanswer)

theorem recovers_tagged {tagging : Tagging} {inner : Value} {own : Option Policy}
    (hinner : ∀ {bare : Encoding}, inner.encoding (own.getD policy) = .ok bare → bare.Fits →
      inner.Recovers defs (own.getD policy).rules (own.getD policy) bare)
    {encoding : Encoding}
    (hencoding : (Value.tagged tagging inner own).encoding policy = .ok encoding)
    (hfits : encoding.Fits) :
    (Value.tagged tagging inner own).Recovers defs reader policy encoding := by
  obtain ⟨bare, hbare, happly⟩ := encoding_tagged.1 hencoding
  obtain ⟨tag, octets, rfl, hunder⟩ :=
    recoversUnder_of_apply hbare happly hfits (hinner hbare)
  refine recovers_parts (tagging.outerTag inner) hfits ?_
    (sameIdentity_outerTag inner hunder.accepted) ?_
  · rw [acceptsWithin, hunder.accepted]
  · intro depth source content hcontent hform hcontents
    exact .tagged (hunder.decodes hcontent hform hcontents)

theorem recovers_any {raw : Octets} (hraw : Tlv.Complete reader raw) {encoding : Encoding}
    (hencoding : (Value.any raw).encoding policy = .ok encoding) :
    (Value.any raw).Recovers defs reader policy encoding := by
  obtain ⟨-, rfl⟩ := encoding_any.1 hencoding
  refine ⟨hraw, ?_, ?_⟩
  · obtain ⟨tlv, hread⟩ := hraw
    exact ⟨tlv.tag, rawTag?_of_read hread, 0, rfl⟩
  · intro rules depth source hlegible hholds _
    cases source with
    | below => exact hholds.elim
    | element tlv =>
      obtain rfl : tlv.raw = raw := hholds
      exact .any

theorem Recoverable.recovers {value : Value} (h : Recoverable defs reader policy value)
    (htyped : value.Typed defs) {encoding : Encoding}
    (hencoding : value.encoding policy = .ok encoding) (hfits : encoding.Fits) :
    value.Recovers defs reader policy encoding := by
  induction h generalizing encoding with
  | leaf hpadded => exact recovers_leaf hpadded hencoding hfits
  | record hrouted hslots ih =>
    cases htyped with
    | record htypes htyped =>
      refine recovers_record hrouted ?_ hencoding hfits
      intro slot hslot value hvalue index octets hencode hlength
      refine Field.recovers_of_encode (htypes slot hslot value hvalue) ?_ hencode hlength
      intro bare hbare hfits
      rw [ite_self]
      exact ih slot hslot value hvalue (htyped slot hslot value hvalue) hbare hfits
  | elements hitems ih =>
    cases htyped with
    | elements htypes htyped =>
      exact recovers_elements (fun item hitem => ih item hitem (htyped item hitem)) htypes
        hencoding hfits
  | unselected =>
    obtain ⟨_, _, _, _, hnone, -⟩ := encoding_choice.1 hencoding
    cases hnone
  | selected hfield hfirst hvalue ih =>
    cases htyped with
    | selected hdeclared htype htyped =>
      rw [hfield] at hdeclared
      cases hdeclared
      exact recovers_selected hfield hfirst (Field.recovers_of_encode htype (ih htyped)) hencoding
        hfits
  | tagged hinner ih =>
    cases htyped with
    | tagged htyped => exact recovers_tagged (ih htyped) hencoding hfits
  | any hraw => exact recovers_any hraw hencoding

end Value

end Steps

namespace Value

variable {defs : Definitions} {policy : Policy}

theorem decode_of_encode {value : Value} (htyped : value.Typed defs)
    (hvalue : Recoverable defs (value.resolve policy).rules (value.resolve policy) value)
    {octets : Octets} (hlength : octets.length < Length.limit)
    (hencode : value.encode policy = .ok octets) :
    decode defs value.cleared octets policy = .ok value := by
  obtain ⟨encoding, hencoding, rfl⟩ := encode_eq_ok_iff.1 hencode
  rw [← encoding_resolve] at hencoding
  have hrecovers := hvalue.recovers htyped hencoding (Encoding.fits_of_octets hlength)
  obtain ⟨tlv, hraw, hread, haccepts⟩ := hrecovers.read 0 []
  rw [List.append_nil] at hread
  rw [decode_eq_ok_iff, resolve_cleared, cleared_cleared]
  exact ⟨tlv, [], hread, decodes_cleared.2
    (hrecovers.decodes_element (Tlv.legible_of_read hread) hraw haccepts), fun _ => rfl⟩

theorem taggedDecode_of_taggedEncode {value : Value} (htyped : value.Typed defs)
    (hvalue : Recoverable defs (value.resolve policy).rules (value.resolve policy) value)
    {octets : Octets} (hlength : octets.length < Length.limit) {tagging : Tagging}
    (hencode : value.taggedEncode tagging policy = .ok octets) :
    taggedDecode defs value.cleared tagging octets policy = .ok value := by
  obtain ⟨bare, wrapped, hbare, happly, rfl⟩ := taggedEncode_eq_ok_iff.1 hencode
  rw [← encoding_resolve] at hbare
  have hfits := Encoding.fits_of_octets hlength
  obtain ⟨tag, octets, rfl, hunder⟩ :=
    recoversUnder_of_apply hbare happly hfits (hvalue.recovers htyped hbare)
  obtain ⟨tlv, hraw, -, hread⟩ :=
    (Encoding.complete_parts hfits (value.resolve policy).rules).read 0 []
  rw [List.append_nil] at hread
  have hholds : (Source.element tlv).Holds (.parts tag octets) := hraw
  obtain ⟨content, hcontent, hform, hoctets⟩ := Source.contentUnder_of_holds hholds
    (Tlv.legible_of_read hread) hfits (sameIdentity_outerTag value hunder.accepted)
  rw [taggedDecode_eq_ok_iff, resolve_cleared, cleared_cleared]
  exact ⟨tlv, [], hread, (hunder.decodes hcontent hform hoctets).of_cleared
    (cleared_cleared value).symm, fun _ => rfl⟩

/-- Decoding from the type alone gives back what was encoded, with or without another
tag on it. A length that no memory holds could not be written in a form that is read. -/
theorem decoded_as_it_was_encoded {value : Value} (htyped : value.Typed defs)
    (hvalue : Recoverable defs (value.resolve policy).rules (value.resolve policy) value)
    {octets : Octets} (hlength : octets.length < Length.limit) :
    (value.encode policy = .ok octets →
        decode defs value.cleared octets policy = .ok value) ∧
      ∀ tagging, value.taggedEncode tagging policy = .ok octets →
        taggedDecode defs value.cleared tagging octets policy = .ok value :=
  ⟨decode_of_encode htyped hvalue hlength,
    fun _ => taggedDecode_of_taggedEncode htyped hvalue hlength⟩

/-- Two BOOLEANs, of which the optional first is left unset. -/
def partlySet : Value :=
  .record .sequence
    [⟨⟨"first", some 0, none, true, "flag"⟩, none⟩,
      ⟨⟨"second", some 1, none, false, "flag"⟩, some (.leaf (.boolean true))⟩] none

theorem decoded_partlySet :
    decode ⟨[("flag", .leaf (.boolean false))]⟩ partlySet.cleared
      [0x30, 0x05, 0xA1, 0x03, 0x01, 0x01, 0xFF] .der = .ok partlySet := by
  have htyped : partlySet.Typed ⟨[("flag", .leaf (.boolean false))]⟩ := by
    refine .record ?_ ?_
    · rintro _ (_ | ⟨_, _ | ⟨_, ⟨⟩⟩⟩) value ⟨⟩
      rfl
    · rintro _ (_ | ⟨_, _ | ⟨_, ⟨⟩⟩⟩) value ⟨⟩
      exact .leaf _
  have hvalue : Recoverable ⟨[("flag", .leaf (.boolean false))]⟩ .distinguished .der
      partlySet := by
    refine .record ?_ ?_
    · refine ⟨?_, trivial⟩
      rintro _ _ _ ⟨⟩ ⟨_, ⟨⟩, ⟨⟩⟩
      rfl
    · rintro _ (_ | ⟨_, _ | ⟨_, ⟨⟩⟩⟩) value ⟨⟩
      exact .leaf trivial
  refine (decoded_as_it_was_encoded htyped ?_ (by decide)).1 rfl
  exact hvalue

end Value

end Asn1
