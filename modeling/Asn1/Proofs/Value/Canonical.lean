import Asn1.Proofs.Value.Accepts
import Asn1.Proofs.Value.Encoding
import Mathlib.Logic.Relation

/-!
Strict decoding under the distinguished rules reads nothing but what encoding writes, so
a value has one encoding. GeneralizedTime is the exception among the leaves, and an
override that asks for less opens the door to other encodings below it.
-/

namespace Asn1

/-- The distinguished rules and nothing left over. -/
structure Policy.Exacting (policy : Policy) : Prop where
  rules : policy.rules = .distinguished
  strict : policy.strict = true

theorem Policy.Exacting.getD {policy : Policy} (h : policy.Exacting) {own : Option Policy}
    (hown : ∀ other ∈ own, other.Exacting) : (own.getD policy).Exacting := by
  cases own with
  | none => exact h
  | some own => exact hown own rfl

namespace Value

/-- The types that values of a type are made of. -/
inductive Mentions (defs : Definitions) : Value → Value → Prop where
  | slot {grouping : Grouping} {slots : List (Slot Value)} {own : Option Policy}
      {slot : Slot Value} (h : slot ∈ slots) :
      Mentions defs (.record grouping slots own) (defs.template slot.field.type)
  | item {grouping : Grouping} {type : String} {items : List Value} {own : Option Policy} :
      Mentions defs (.elements grouping type items own) (defs.template type)
  | alternative {alternatives : List Field} {selection : Option (Selection Value)}
      {own : Option Policy} {field : Field} (h : field ∈ alternatives) :
      Mentions defs (.choice alternatives selection own) (defs.template field.type)
  | inner {tagging : Tagging} {inner : Value} {own : Option Policy} :
      Mentions defs (.tagged tagging inner own) inner

/-- No type that the value leads to asks for less by an override, and none is
GeneralizedTime. -/
structure ExactingThroughout (defs : Definitions) (value : Value) : Prop where
  overrides : ∀ type, Relation.ReflTransGen (Mentions defs) value type →
    ∀ own ∈ type.policy?, own.Exacting
  leaves : ∀ primitive, Relation.ReflTransGen (Mentions defs) value (.leaf primitive) →
    ¬ primitive.IsGeneralizedTime

namespace ExactingThroughout

variable {defs : Definitions}

theorem mentioned {value type : Value} (h : value.ExactingThroughout defs)
    (hmentions : Mentions defs value type) : type.ExactingThroughout defs :=
  ⟨fun other hother => h.overrides other (.head hmentions hother),
    fun primitive hleaf => h.leaves primitive (.head hmentions hleaf)⟩

theorem fields {grouping : Grouping} {slots : List (Slot Value)} {own : Option Policy}
    (h : (Value.record grouping slots own).ExactingThroughout defs) :
    ∀ field ∈ slots.map (·.field), (defs.template field.type).ExactingThroughout defs := by
  intro field hfield
  obtain ⟨slot, hslot, rfl⟩ := List.mem_map.1 hfield
  exact h.mentioned (.slot hslot)

theorem own {value : Value} (h : value.ExactingThroughout defs) {policy : Policy}
    (hpolicy : policy.Exacting) : (value.resolve policy).Exacting :=
  hpolicy.getD (h.overrides value .refl)

/-- A type asks for everything if its own override does, it is not GeneralizedTime and the
types it is made of ask for everything. -/
theorem intro {value : Value} (hown : ∀ own ∈ value.policy?, own.Exacting)
    (hleaf : ∀ primitive, value = .leaf primitive → ¬ primitive.IsGeneralizedTime)
    (h : ∀ type, Mentions defs value type → type.ExactingThroughout defs) :
    value.ExactingThroughout defs := by
  constructor
  · intro type hreaches
    rcases hreaches.cases_head with rfl | ⟨next, hmentions, hreaches⟩
    · exact hown
    · exact (h next hmentions).overrides type hreaches
  · intro primitive hreaches
    rcases hreaches.cases_head with heq | ⟨next, hmentions, hreaches⟩
    · exact hleaf primitive heq
    · exact (h next hmentions).leaves primitive hreaches

theorem leaf {primitive : Primitive} (h : ¬ primitive.IsGeneralizedTime) :
    (Value.leaf primitive).ExactingThroughout defs := by
  refine intro nofun ?_ nofun
  rintro _ ⟨⟩
  exact h

theorem elements {grouping : Grouping} {type : String}
    (h : (defs.template type).ExactingThroughout defs) :
    (Value.elements grouping type [] none).ExactingThroughout defs := by
  refine intro nofun nofun ?_
  rintro _ ⟨⟩
  exact h

theorem emptyRecord {grouping : Grouping} {fields : List Field}
    (h : ∀ field ∈ fields, (defs.template field.type).ExactingThroughout defs) :
    (Value.emptyRecord grouping fields).ExactingThroughout defs := by
  refine intro nofun nofun ?_
  rintro _ (hslot | _)
  obtain ⟨field, hfield, rfl⟩ := List.mem_map.1 hslot
  exact h field hfield

theorem tagged {tagging : Tagging} {inner : Value} (h : inner.ExactingThroughout defs) :
    (Value.tagged tagging inner none).ExactingThroughout defs := by
  refine intro nofun nofun ?_
  rintro _ ⟨⟩
  exact h

end ExactingThroughout

end Value

theorem Tagging.withConstructed_outerTag (tagging : Tagging) (inner : Value)
    (constructed : Bool) :
    (tagging.outerTag inner).withConstructed constructed = tagging.tag constructed := by
  rw [outerTag]
  split <;> rfl

namespace Value

variable {defs : Definitions}

theorem encodeSlots_unsetAll {policy : Policy} {fields : List Field}
    (h : ∀ field ∈ fields, field.optional) (index : Nat) :
    encodeSlots policy index (fields.map fun field => ⟨field, none⟩) = .ok [] := by
  induction fields generalizing index with
  | nil => exact encodeSlots_nil.2 rfl
  | cons field rest ih =>
    obtain ⟨hfield, hrest⟩ := List.forall_mem_cons.1 h
    exact encodeSlots_unset.2 ⟨hfield, ih hrest (index + 1)⟩

mutual

/-- Whatever is decoded has the encoding that it was decoded from. -/
theorem Decodes.holds {depth : Nat} {policy : Policy} {template result : Value}
    {source : Source} (h : Decodes defs depth policy template source result)
    (hpolicy : policy.Exacting) (htemplate : template.ExactingThroughout defs)
    (hsource : source.Legible .distinguished) :
    ∃ encoding, result.encoding policy = .ok encoding ∧ source.Holds encoding := by
  match h with
  | .leaf hcontent hform hresult =>
    have hholds := Source.holds_of_contentUnder hcontent hsource
    rw [hpolicy.rules] at hresult
    have hencode := Primitive.encode_of_decode hresult (htemplate.leaves _ .refl)
    refine ⟨_, encoding_leaf.2 ⟨_, hencode, rfl⟩, ?_⟩
    rw [hform, ← Primitive.constructed_tag, Tag.withConstructed_self] at hholds
    rw [Primitive.tag_of_cleared (Primitive.cleared_of_decode hresult)]
    exact hholds
  | .record hcontent hform hslots =>
    have hholds := Source.holds_of_contentUnder hcontent hsource
    have hencode := hslots.encodeSlots_eq (htemplate.own hpolicy) htemplate.fields rfl 0
    refine ⟨_, encoding_record.2 ⟨_, hencode, rfl⟩, ?_⟩
    rw [hform, ← Grouping.constructed_tag, Tag.withConstructed_self] at hholds
    exact hholds
  | .elements hcontent hform hitems =>
    have hholds := Source.holds_of_contentUnder hcontent hsource
    have hencode := hitems.encodeItems_eq (htemplate.own hpolicy) (htemplate.mentioned .item) rfl 0
    refine ⟨_, encoding_elements.2 ⟨_, hencode, rfl⟩, ?_⟩
    rw [hform, ← Grouping.constructed_tag, Tag.withConstructed_self] at hholds
    exact hholds
  | .choice hfirst hfield =>
    obtain ⟨index, rfl, hat, -, -⟩ := Field.firstAccepting_eq_some_iff.1 hfirst
    rw [Nat.zero_add]
    have hmentions := htemplate.mentioned (.alternative (List.mem_of_getElem? hat))
    have hencode := hfield.encode_eq (htemplate.own hpolicy) hmentions hsource index
    exact ⟨_, encoding_choice.2 ⟨_, _, _, _, rfl, hat, hencode, rfl⟩, rfl⟩
  | .tagged hinner =>
    obtain ⟨bare, wrapped, hbare, hwrapped, hholds⟩ :=
      hinner.holds (htemplate.own hpolicy) (htemplate.mentioned .inner) hsource
    exact ⟨wrapped, encoding_tagged.2 ⟨bare, hbare, hwrapped⟩, hholds⟩
  | .any => exact ⟨_, encoding_any.2 ⟨Tlv.Legible.raw_ne_nil hsource, rfl⟩, rfl⟩

theorem DecodesUnder.holds {policy : Policy} {tagging : Tagging} {inner result : Value}
    {source : Source} (h : DecodesUnder defs policy tagging inner source result)
    (hpolicy : policy.Exacting) (hinner : inner.ExactingThroughout defs)
    (hsource : source.Legible .distinguished) :
    ∃ bare wrapped, result.encoding policy = .ok bare ∧
      tagging.apply result bare = .ok wrapped ∧ source.Holds wrapped := by
  have hmode := Tagging.modeFor_of_cleared tagging h.cleared_eq
  match h with
  | .explicit hcontent hexplicit hwrapped hvalue =>
    obtain ⟨hform, -, hread⟩ := Content.wrapped_eq_ok_iff.1 hwrapped
    rw [hpolicy.rules] at hread
    obtain ⟨bare, hbare, hraw⟩ := hvalue.holds hpolicy hinner (Tlv.legible_of_read hread)
    have hholds := Source.holds_of_contentUnder hcontent hsource
    rw [hform, Tagging.withConstructed_outerTag, Tlv.raw_of_read hread, List.append_nil,
      hraw] at hholds
    exact ⟨bare, _, hbare, Tagging.apply_eq_ok_iff.2 (.inl ⟨hmode.trans hexplicit, rfl⟩), hholds⟩
  | .implicit hcontent himplicit hvalue =>
    obtain ⟨bare, hbare, hbelow⟩ := hvalue.holds hpolicy hinner trivial
    have hholds := Source.holds_of_contentUnder hcontent hsource
    cases bare with
    | whole => exact hbelow.elim
    | parts tag octets =>
      obtain ⟨hform, rfl⟩ := hbelow
      rw [hform, Tagging.withConstructed_outerTag] at hholds
      exact ⟨_, _, hbare,
        Tagging.apply_eq_ok_iff.2 (.inr ⟨hmode.trans himplicit, tag, _, rfl, rfl⟩), hholds⟩

theorem DecodesField.encode_eq {depth : Nat} {policy : Policy} {field : Field} {tlv : Tlv}
    {result : Value} (h : DecodesField defs depth policy field tlv result)
    (hpolicy : policy.Exacting) (htemplate : (defs.template field.type).ExactingThroughout defs)
    (htlv : tlv.Legible .distinguished) (index : Nat) :
    field.encode index policy result (result.encoding policy) = .ok tlv.raw := by
  match h with
  | .untagged hnone hvalue =>
    obtain ⟨bare, hbare, hholds⟩ := hvalue.holds hpolicy htemplate htlv
    exact Field.encode_eq_ok_iff.2
      ⟨bare, bare, hbare, Field.wrap_eq_ok_iff.2 (.inl ⟨hnone, rfl⟩), hholds⟩
  | .tagged hsome hvalue =>
    obtain ⟨bare, wrapped, hbare, hwrapped, hholds⟩ := hvalue.holds hpolicy htemplate htlv
    exact Field.encode_eq_ok_iff.2
      ⟨bare, wrapped, hbare, Field.wrap_eq_ok_iff.2 (.inr ⟨_, hsome, hwrapped⟩), hholds⟩

theorem DecodesSlots.encodeSlots_eq {policy : Policy} {fields : List Field}
    {stream : Tlv.Stream} {slots : List (Slot Value)}
    (h : DecodesSlots defs policy fields stream slots) (hpolicy : policy.Exacting)
    (hfields : ∀ field ∈ fields, (defs.template field.type).ExactingThroughout defs)
    {offset : Nat} {octets : Octets} (hstream : stream = Tlv.stream policy.rules offset octets)
    (index : Nat) : encodeSlots policy index slots = .ok octets := by
  match h with
  | .done hoptional =>
    rw [Tlv.eq_nil_of_stream_done hstream.symm]
    exact encodeSlots_unsetAll hoptional index
  | .ignored hlenient =>
    rw [hpolicy.strict] at hlenient
    cases hlenient
  | .filled haccepts hvalue hrest =>
    obtain ⟨hfield, hfields⟩ := List.forall_mem_cons.1 hfields
    obtain ⟨rest, hread, hmore⟩ := Tlv.read_of_stream_next hstream.symm
    exact encodeSlots_set.2 ⟨_, rest,
      hvalue.encode_eq hpolicy hfield (Tlv.legible_of_read (hpolicy.rules ▸ hread)) index,
      hrest.encodeSlots_eq hpolicy hfields hmore (index + 1), Tlv.raw_of_read hread⟩
  | .skipped haccepts hoptional hrest =>
    obtain ⟨-, hfields⟩ := List.forall_mem_cons.1 hfields
    exact encodeSlots_unset.2
      ⟨hoptional, hrest.encodeSlots_eq hpolicy hfields hstream (index + 1)⟩

theorem DecodesItems.encodeItems_eq {policy : Policy} {type : String} {stream : Tlv.Stream}
    {items : List Value} (h : DecodesItems defs policy type stream items)
    (hpolicy : policy.Exacting) (htype : (defs.template type).ExactingThroughout defs)
    {offset : Nat} {octets : Octets} (hstream : stream = Tlv.stream policy.rules offset octets)
    (index : Nat) : encodeItems policy index items = .ok octets := by
  match h with
  | .done =>
    rw [Tlv.eq_nil_of_stream_done hstream.symm]
    exact encodeItems_nil.2 rfl
  | .next hitem hrest =>
    obtain ⟨rest, hread, hmore⟩ := Tlv.read_of_stream_next hstream.symm
    have hlegible := Tlv.legible_of_read (hpolicy.rules ▸ hread)
    obtain ⟨front, hfront, hholds⟩ := hitem.holds hpolicy htype hlegible
    refine encodeItems_cons.2 ⟨front, rest, hfront,
      hrest.encodeItems_eq hpolicy htype hmore (index + 1), ?_⟩
    rw [← hholds]
    exact Tlv.raw_of_read hread

end

theorem encode_of_decode {template value : Value} {policy : Policy} {octets : Octets}
    (htemplate : template.ExactingThroughout defs) (hpolicy : policy.Exacting)
    (h : decode defs template octets policy = .ok value) : value.encode policy = .ok octets := by
  have hown := htemplate.own hpolicy
  obtain ⟨tlv, rest, hread, hvalue, hend⟩ := decode_eq_ok_iff.1 h
  rw [hown.rules] at hread
  obtain ⟨encoding, hencoding, hholds⟩ :=
    (decodes_cleared.1 hvalue).holds hown htemplate (Tlv.legible_of_read hread)
  have hresolve : template.resolve policy = value.resolve policy := by
    rw [← resolve_cleared value, hvalue.cleared_eq, cleared_cleared, resolve_cleared]
  rw [hresolve, encoding_resolve] at hencoding
  refine encode_eq_ok_iff.2 ⟨encoding, hencoding, ?_⟩
  rw [Tlv.raw_of_read hread, hend hown.strict, List.append_nil]
  exact hholds.symm

/-- What is decoded strictly has one encoding, the one that it was decoded from. -/
theorem decoded_only_from_its_encoding {template value : Value} {policy : Policy}
    {octets : Octets} (htemplate : template.ExactingThroughout defs) (hpolicy : policy.Exacting)
    (h : decode defs template octets policy = .ok value) :
    value.encode policy = .ok octets ∧
      ∀ other, decode defs template other policy = .ok value → other = octets := by
  have hencode := encode_of_decode htemplate hpolicy h
  refine ⟨hencode, ?_⟩
  intro other hother
  have hsame := encode_of_decode htemplate hpolicy hother
  rw [hencode] at hsame
  cases hsame
  rfl

/-- A SEQUENCE OF two BOOLEANs. -/
theorem booleans_decoded_only_from_their_encoding :
    (Value.elements .sequence "flag" [.leaf (.boolean true), .leaf (.boolean false)] none).encode
        .der = .ok [0x30, 0x06, 0x01, 0x01, 0xFF, 0x01, 0x01, 0x00] ∧
      ∀ other, decode ⟨[("flag", .leaf (.boolean false))]⟩ (.elements .sequence "flag" [] none)
          other .der =
          .ok (.elements .sequence "flag" [.leaf (.boolean true), .leaf (.boolean false)] none) →
        other = [0x30, 0x06, 0x01, 0x01, 0xFF, 0x01, 0x01, 0x00] := by
  refine decoded_only_from_its_encoding (.elements (.leaf nofun)) ⟨rfl, rfl⟩ ?_
  refine decode_eq_ok_iff.2 ⟨_, _, rfl, .elements rfl rfl ?_, fun _ => rfl⟩
  rw [Tlv.stream_of_read rfl]
  refine .next (.leaf rfl rfl rfl) ?_
  show DecodesItems _ _ _ (Tlv.stream .distinguished 5 [0x01, 0x01, 0x00]) _
  rw [Tlv.stream_of_last rfl]
  exact .next (.leaf rfl rfl rfl) .done

end Value

end Asn1
