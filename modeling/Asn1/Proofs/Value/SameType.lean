import Asn1.Proofs.Value.Calls
import Asn1.Proofs.Value.TypeEquivalence

/-!
Types that are the same throughout read the same octets, and what they read has the same
encoding. Sameness of the types themselves is not enough, as it leaves those of the fields open,
and it is all that is asked of a value that is put into a field, a list or a CHOICE.
-/

namespace Asn1

namespace Value

variable {defs : Definitions} {policy : Policy}

/-- The two have the same encoding, and take a tag in the same way. -/
structure EncodedAlike (policy : Policy) (v w : Value) : Prop where
  encoding : v.encoding policy = w.encoding policy
  hasOwnTag : v.hasOwnTag = w.hasOwnTag

namespace EncodedAlike

theorem field {v w : Value} (h : EncodedAlike policy v w) {a b : Field}
    (hshape : a.sameShape b = true) (index : Nat) :
    a.encode index policy v (v.encoding policy) = b.encode index policy w (w.encoding policy) := by
  obtain ⟨hname, -⟩ := Field.sameShape_iff.1 hshape
  rw [h.encoding]
  exact Field.encode_congr hname (Field.tagging_of_sameShape hshape policy) h.hasOwnTag index _

end EncodedAlike

/-- All re-tags with the same tagging look for the same tag. -/
theorem contentUnder_outerTag {tagging : Tagging} {a : Value} {source : Source}
    {content : Content} (h : source.contentUnder (tagging.outerTag a) = .ok content) (b : Value) :
    source.contentUnder (tagging.outerTag b) = .ok content := by
  have hidentity (inner : Value) (tag : Tag) :
      (tagging.outerTag inner).sameIdentity tag = (tagging.tag true).sameIdentity tag := by
    unfold Tagging.outerTag
    split <;> rfl
  cases source with
  | element tlv =>
    rw [Source.contentUnder_element, hidentity] at h ⊢
    exact h
  | below => exact h

mutual

/-- What one type reads the other reads as well, and as something that is written alike. -/
theorem Decodes.interchange {depth : Nat} {policy : Policy} {a b v : Value} {source : Source}
    (h : Decodes defs depth policy a source v) (hab : Interchangeable defs a b) :
    ∃ w, Decodes defs depth policy b source w ∧ EncodedAlike policy v w := by
  match h with
  | .leaf hcontent hform hresult =>
    cases hab.alike with
    | leaf hcleared =>
      rw [Primitive.tag_of_cleared hcleared] at hcontent
      rw [Primitive.decode_of_cleared hcleared] at hresult
      exact ⟨_, .leaf hcontent hform hresult, rfl, rfl⟩
  | .record hcontent hform hslots =>
    cases hab.alike with
    | record hfields =>
      obtain ⟨slots, hslots, hencode⟩ := hslots.interchange hfields
      refine ⟨_, .record hcontent hform hslots, ?_, rfl⟩
      rw [Value.encoding, Value.encoding, hencode]
  | .elements hcontent hform hitems =>
    cases hab.alike with
    | elements htype =>
      obtain ⟨items, hitems, hencode⟩ := hitems.interchange htype
      refine ⟨_, .elements hcontent hform hitems, ?_, rfl⟩
      rw [Value.encoding, Value.encoding, hencode]
  | .choice hfirst hfield =>
    cases hab.alike with
    | choice hfields =>
      obtain ⟨field', hfirst', hsame⟩ := Field.found_of_congr hfields
        (fun _ _ hfield => hfield.acceptsWithin_eq _ _) hfirst
      obtain ⟨w, hw, halike⟩ := hfield.interchange hsame
      refine ⟨_, .choice hfirst' hw, ?_, rfl⟩
      rw [Value.encoding, Value.encoding, Field.getElem?_of_firstAccepting hfirst,
        Field.getElem?_of_firstAccepting hfirst']
      simp only [halike.field hsame.shape]
  | .tagged hinner =>
    cases hab.alike with
    | tagged htypes =>
      obtain ⟨w, hw, halike⟩ := hinner.interchange htypes
      refine ⟨_, .tagged hw, ?_, rfl⟩
      rw [Value.encoding, Value.encoding, halike.encoding]
      simp only [Tagging.apply_congr halike.hasOwnTag]
  | .any =>
    cases hab.alike
    exact ⟨_, .any, rfl, rfl⟩

theorem DecodesUnder.interchange {policy : Policy} {tagging : Tagging} {a b v : Value}
    {source : Source} (h : DecodesUnder defs policy tagging a source v)
    (hab : Interchangeable defs a b) :
    ∃ w, DecodesUnder defs policy tagging b source w ∧ EncodedAlike policy v w := by
  have hmode : tagging.modeFor b = tagging.modeFor a := by
    rw [Tagging.modeFor, Tagging.modeFor, hab.hasOwnTag_eq]
  match h with
  | .explicit hcontent hexplicit hwrapped hinner =>
    obtain ⟨w, hw, halike⟩ := hinner.interchange hab
    exact ⟨w, .explicit (contentUnder_outerTag hcontent b) (hmode.trans hexplicit) hwrapped hw,
      halike⟩
  | .implicit hcontent himplicit hinner =>
    obtain ⟨w, hw, halike⟩ := hinner.interchange hab
    exact ⟨w, .implicit (contentUnder_outerTag hcontent b) (hmode.trans himplicit) hw, halike⟩

theorem DecodesField.interchange {depth : Nat} {policy : Policy} {a b : Field} {tlv : Tlv}
    {v : Value} (h : DecodesField defs depth policy a tlv v) (hab : a.Interchangeable defs b) :
    ∃ w, DecodesField defs depth policy b tlv w ∧ EncodedAlike policy v w := by
  have htagging := Field.tagging_of_sameShape hab.shape policy
  match h with
  | .untagged hnone hvalue =>
    obtain ⟨w, hw, halike⟩ := hvalue.interchange hab.types
    exact ⟨w, .untagged (htagging ▸ hnone) hw, halike⟩
  | .tagged hsome hvalue =>
    obtain ⟨w, hw, halike⟩ := hvalue.interchange hab.types
    exact ⟨w, .tagged (htagging ▸ hsome) hw, halike⟩

theorem DecodesSlots.interchange {policy : Policy} {fields fields' : List Field}
    {stream : Tlv.Stream} {slots : List (Slot Value)}
    (h : DecodesSlots defs policy fields stream slots)
    (hfields : List.Forall₂ (Field.Interchangeable defs) fields fields') :
    ∃ slots', DecodesSlots defs policy fields' stream slots' ∧
      ∀ index, encodeSlots policy index slots = encodeSlots policy index slots' := by
  match h with
  | .done hoptional =>
    have hoptional' := Field.optional_of_interchangeable hfields hoptional
    refine ⟨_, .done hoptional', ?_⟩
    intro index
    rw [encodeSlots_unsetAll hoptional, encodeSlots_unsetAll hoptional']
  | .ignored hlenient =>
    cases hfields
    exact ⟨[], .ignored hlenient, fun _ => rfl⟩
  | .filled haccepts hvalue hrest =>
    cases hfields with
    | cons hfield hfields =>
      obtain ⟨w, hw, halike⟩ := hvalue.interchange hfield
      obtain ⟨slots, hslots, hencode⟩ := hrest.interchange hfields
      refine ⟨_, .filled ((hfield.acceptsWithin_eq _ _).symm.trans haccepts) hw hslots, ?_⟩
      intro index
      rw [encodeSlots, encodeSlots, halike.field hfield.shape index, hencode]
  | .skipped haccepts hoptional hrest =>
    cases hfields with
    | cons hfield hfields =>
      obtain ⟨slots, hslots, hencode⟩ := hrest.interchange hfields
      obtain ⟨-, -, -, hsame⟩ := Field.sameShape_iff.1 hfield.shape
      have hoptional' := hsame.symm.trans hoptional
      refine ⟨_, .skipped ((hfield.acceptsWithin_eq _ _).symm.trans haccepts) hoptional' hslots,
        ?_⟩
      intro index
      rw [encodeSlots, encodeSlots, if_pos hoptional, if_pos hoptional', hencode]

theorem DecodesItems.interchange {policy : Policy} {type type' : String} {stream : Tlv.Stream}
    {items : List Value} (h : DecodesItems defs policy type stream items)
    (htypes : Interchangeable defs (defs.template type) (defs.template type')) :
    ∃ items', DecodesItems defs policy type' stream items' ∧
      ∀ index, encodeItems policy index items = encodeItems policy index items' := by
  match h with
  | .done => exact ⟨[], .done, fun _ => rfl⟩
  | .next hitem hrest =>
    obtain ⟨w, hw, halike⟩ := hitem.interchange htypes
    obtain ⟨items, hitems, hencode⟩ := hrest.interchange htypes
    refine ⟨_, .next hw hitems, ?_⟩
    intro index
    rw [encodeItems, encodeItems, halike.encoding, hencode]

end

theorem decode_interchange {a b v : Value} {octets : Octets} (hab : Interchangeable defs a b)
    (h : decode defs a.cleared octets policy = .ok v) :
    ∃ w, decode defs b.cleared octets policy = .ok w ∧ v.encode policy = w.encode policy := by
  obtain ⟨tlv, rest, hread, hvalue, hend⟩ := decode_eq_ok_iff.1 h
  rw [resolve_cleared, hab.left.resolve_eq] at hread hvalue hend
  obtain ⟨w, hw, halike⟩ := (decodes_cleared.1 (decodes_cleared.1 hvalue)).interchange hab
  refine ⟨w, decode_eq_ok_iff.2 ⟨tlv, rest, ?_⟩, ?_⟩
  · rw [resolve_cleared, hab.right.resolve_eq]
    exact ⟨hread, decodes_cleared.2 (decodes_cleared.2 hw), hend⟩
  · unfold encode
    rw [halike.encoding]

/-- The value has been taken over where the type is declared. -/
inductive TakenAs (defs : Definitions) (value : Value) : String → Prop where
  | field {slots slots' : List (Slot Value)} {index : Nat} {slot : Slot Value}
      (hslot : slots[index]? = some slot) (h : Record.set defs slots index value = .ok slots') :
      TakenAs defs value slot.field.type
  | element {type : String} {items items' : List Value}
      (h : Elements.push defs type items value = .ok items') : TakenAs defs value type
  | alternative {alternatives : List Field} {index : Nat} {field : Field}
      {selection : Selection Value} (hfield : alternatives[index]? = some field)
      (h : Choice.select defs alternatives index value = .ok selection) :
      TakenAs defs value field.type

theorem TakenAs.sameType {value : Value} {type : String} (h : TakenAs defs value type) :
    sameType? defs value (defs.template type) = some true := by
  cases h with
  | field hslot hset =>
    obtain ⟨found, hfound, hsame, -⟩ := Record.set_eq_ok_iff.1 hset
    cases hslot.symm.trans hfound
    exact hsame
  | element hpush => exact (Elements.push_eq_ok_iff.1 hpush).1
  | alternative hfield hselect =>
    obtain ⟨found, hfound, hsame, -⟩ := Choice.select_eq_ok_iff.1 hselect
    cases hfield.symm.trans hfound
    exact hsame

/-- Of two types that are the same throughout, each reads what the other does, and what the
two have read has one encoding. A value has its type compared with the declared one when it is
taken over. If the types below the two are the same throughout as well, what the value is encoded
as is read by the prototype, provided that it can be read back at all, and as something with the
same encoding. -/
theorem sameThroughout_decodes_and_encodes_alike (defs : Definitions) (policy : Policy)
    (octets : Octets) :
    (∀ a b : Value, SameThroughout defs a b → a.WithoutOverrides defs → b.WithoutOverrides defs →
      ((∃ v, decode defs a.cleared octets policy = .ok v) ↔
        ∃ w, decode defs b.cleared octets policy = .ok w) ∧
      ∀ v w, decode defs a.cleared octets policy = .ok v →
        decode defs b.cleared octets policy = .ok w → v.encode policy = w.encode policy) ∧
    ∀ (value : Value) (type : String), TakenAs defs value type →
      (∀ c d, Corresponds defs (value, defs.template type) (c, d) → SameThroughout defs c d) →
      value.WithoutOverrides defs → (defs.template type).WithoutOverrides defs →
      value.encode policy = .ok octets → decode defs value.cleared octets policy = .ok value →
      ∃ w, decode defs (defs.template type).cleared octets policy = .ok w ∧
        w.encode policy = .ok octets := by
  refine ⟨?_, ?_⟩
  · intro a b hsame ha hb
    have hab : Interchangeable defs a b := ⟨hsame, ha, hb⟩
    refine ⟨⟨?_, ?_⟩, ?_⟩
    · rintro ⟨v, hv⟩
      obtain ⟨w, hw, -⟩ := decode_interchange hab hv
      exact ⟨w, hw⟩
    · rintro ⟨w, hw⟩
      obtain ⟨v, hv, -⟩ := decode_interchange hab.symm hw
      exact ⟨v, hv⟩
    · intro v w hv hw
      obtain ⟨w', hw', hencode⟩ := decode_interchange hab hv
      rw [hw] at hw'
      cases hw'
      exact hencode
  · intro value type htaken hbelow hvalue htemplate hencode hdecode
    have hsame := SameThroughout.intro htaken.sameType hbelow
    obtain ⟨w, hw, halike⟩ := decode_interchange ⟨hsame, hvalue, htemplate⟩ hdecode
    exact ⟨w, hw, halike.symm.trans hencode⟩

/-- INTEGER under two names, and a SEQUENCE with a field of the one type. -/
def countsAndTotals : Definitions :=
  ⟨[("count", .leaf (.integer 0)), ("total", .leaf (.integer 0)),
    ("sum", .emptyRecord .sequence [⟨"x", some 0, none, false, "total"⟩])]⟩

/-- The SEQUENCE with a field of the other type. -/
def sevenCounted : Value :=
  .record .sequence [⟨⟨"x", some 0, none, false, "count"⟩, some (.leaf (.integer 7))⟩] none

/-- A SEQUENCE OF sums takes over the SEQUENCE with a count, and the prototype of its elements
reads what that is encoded as. -/
theorem count_and_total_decode_and_encode_alike :
    (∃ w, decode countsAndTotals (countsAndTotals.template "sum").cleared
        [0x30, 0x05, 0xA0, 0x03, 0x02, 0x01, 0x07] .der = .ok w ∧
      sevenCounted.encode .der = w.encode .der) ∧
    Elements.push countsAndTotals "sum" [] sevenCounted = .ok [sevenCounted] ∧
    ∃ w, decode countsAndTotals (countsAndTotals.template "sum").cleared
        [0x30, 0x05, 0xA0, 0x03, 0x02, 0x01, 0x07] .der = .ok w ∧
      w.encode .der = .ok [0x30, 0x05, 0xA0, 0x03, 0x02, 0x01, 0x07] := by
  have hbelow : ∀ c d,
      Corresponds countsAndTotals (sevenCounted, countsAndTotals.template "sum") (c, d) →
        SameThroughout countsAndTotals c d := by
    rintro _ _ (hmem | _)
    obtain ⟨rfl, rfl⟩ := Prod.mk.inj (List.mem_singleton.1 hmem)
    apply SameThroughout.intro (sameType?_eq_some_true_iff.2 (.leaf rfl))
    rintro _ _ ⟨⟩
  have hself : sameType? countsAndTotals sevenCounted (countsAndTotals.template "sum") =
      some true := sameType?_eq_some_true_iff.2 (.record rfl)
  have hcount : sevenCounted.WithoutOverrides countsAndTotals := by
    apply WithoutOverrides.intro rfl
    rintro _ (hslot | _)
    cases List.mem_singleton.1 hslot
    exact .leaf _
  have hsum : (countsAndTotals.template "sum").WithoutOverrides countsAndTotals :=
    .emptyRecord (List.forall_mem_singleton.2 (.leaf _))
  have hdecode : decode countsAndTotals sevenCounted.cleared
      [0x30, 0x05, 0xA0, 0x03, 0x02, 0x01, 0x07] .der = .ok sevenCounted := by
    refine decode_eq_ok_iff.2 ⟨_, _, rfl, .record rfl rfl ?_, fun _ => rfl⟩
    rw [Tlv.stream_of_last rfl]
    exact .filled rfl (.tagged rfl (.explicit rfl rfl rfl (.leaf rfl rfl rfl))) (.done nofun)
  have hpush : Elements.push countsAndTotals "sum" [] sevenCounted = .ok [sevenCounted] :=
    Elements.push_eq_ok_iff.2 ⟨hself, rfl⟩
  obtain ⟨halike, htaken⟩ := sameThroughout_decodes_and_encodes_alike countsAndTotals .der
    [0x30, 0x05, 0xA0, 0x03, 0x02, 0x01, 0x07]
  obtain ⟨hreads, hencodes⟩ := halike sevenCounted _ (.intro hself hbelow) hcount hsum
  obtain ⟨w, hw⟩ := hreads.1 ⟨_, hdecode⟩
  exact ⟨⟨w, hw, hencodes _ w hdecode hw⟩, hpush,
    htaken sevenCounted "sum" (.element hpush) hbelow hcount hsum (by decide) hdecode⟩

/-- The comparison does not see that one field is an INTEGER and the other an OCTET STRING. -/
theorem sameType_of_tables_that_decode_differently :
    sameType? ⟨[("number", .leaf (.integer 0)), ("octets", .leaf (.octetString []))]⟩
        (emptyRecord .sequence [⟨"x", some 0, none, false, "number"⟩])
        (emptyRecord .sequence [⟨"x", some 0, none, false, "octets"⟩]) = some true ∧
      (emptyRecord .sequence [⟨"x", some 0, none, false, "number"⟩]).WithoutOverrides
        ⟨[("number", .leaf (.integer 0)), ("octets", .leaf (.octetString []))]⟩ ∧
      (emptyRecord .sequence [⟨"x", some 0, none, false, "octets"⟩]).WithoutOverrides
        ⟨[("number", .leaf (.integer 0)), ("octets", .leaf (.octetString []))]⟩ ∧
      decode ⟨[("number", .leaf (.integer 0)), ("octets", .leaf (.octetString []))]⟩
        (emptyRecord .sequence [⟨"x", some 0, none, false, "number"⟩]).cleared
        [0x30, 0x05, 0xA0, 0x03, 0x02, 0x01, 0x07] .der =
        .ok (.record .sequence
          [⟨⟨"x", some 0, none, false, "number"⟩, some (.leaf (.integer 7))⟩] none) ∧
      decode ⟨[("number", .leaf (.integer 0)), ("octets", .leaf (.octetString []))]⟩
        (emptyRecord .sequence [⟨"x", some 0, none, false, "octets"⟩]).cleared
        [0x30, 0x05, 0xA0, 0x03, 0x02, 0x01, 0x07] .der =
        .error (.inField 0 "x" (.unexpectedTag 4 .octetString .integer)) := by
  refine ⟨sameType?_eq_some_true_iff.2 (.record rfl), ?_, ?_, ?_, ?_⟩
  · exact .emptyRecord (List.forall_mem_singleton.2 (.leaf _))
  · exact .emptyRecord (List.forall_mem_singleton.2 (.leaf _))
  · refine decode_eq_ok_iff.2 ⟨_, _, rfl, .record rfl rfl ?_, fun _ => rfl⟩
    rw [Tlv.stream_of_last rfl]
    exact .filled rfl (.tagged rfl (.explicit rfl rfl rfl (.leaf rfl rfl rfl))) (.done nofun)
  · show (Call.decode _ _ _ _).Fails _
    exact Call.Passes.fails (.decode rfl) (Call.fails_firstSlot rfl (Tlv.stream_of_last rfl) rfl
      (Call.Passes.fails (.explicit rfl rfl rfl) decodeFrom_leaf_eq))

end Value

end Asn1
