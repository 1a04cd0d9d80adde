import Asn1.Proofs.Offset
import Asn1.Proofs.Value.Stepwise
import Asn1.Tlv.Reader

/-!
Where decoding says that it failed. Every offset is counted from the first octet of all and
points at the octets of the element that was decoded, however deep the failure lies. Octets
further on decode to the same value, or fail in the same way further on.
-/

namespace Asn1

namespace Content

/-- The same content, `base` further on. -/
def shift (base : Nat) (content : Content) : Content :=
  { content with offset := content.offset + base }

@[simp] theorem endOffset_shift (base : Nat) (content : Content) :
    (content.shift base).endOffset = content.endOffset + base := Nat.add_right_comm _ _ _

theorem inForm_shift (base : Nat) (content : Content) (constructed : Bool) (type : String) :
    (content.shift base).inForm constructed type =
      (content.inForm constructed type).mapError (Error.rebase base) := by
  obtain ⟨form, octets, offset⟩ := content
  cases form <;> cases constructed <;> rfl

theorem wrapped_shift (base : Nat) (content : Content) (rules : Rules) (tagging : Tagging) :
    (content.shift base).wrapped rules tagging =
      ((content.wrapped rules tagging).mapError (Error.rebase base)).map fun wrapped =>
        (wrapped.1.shift base, wrapped.2) := by
  obtain ⟨form, octets, offset⟩ := content
  cases form with
  | false => rfl
  | true =>
    cases octets with
    | nil => rfl
    | cons octet octets => exact Tlv.read_rebase rules base offset (octet :: octets)

theorem inForm_within (content : Content) (constructed : Bool) (type : String) :
    FailsWith (Error.Within content.offset content.endOffset)
      (content.inForm constructed type) := by
  rw [inForm]
  split
  · exact .ok
  · rw [FailsWith.error_iff, Error.within_malformed, endOffset]
    omega

theorem wrapped_within (content : Content) (rules : Rules) (tagging : Tagging) :
    FailsWith (Error.Within content.offset content.endOffset)
      (content.wrapped rules tagging) := by
  rw [wrapped]
  split
  · rw [FailsWith.error_iff, Error.within_malformed, endOffset]
    omega
  · split
    · rw [FailsWith.error_iff, Error.within_malformed, endOffset]
      omega
    · intro error herror
      exact Tlv.error_within_of_read herror

end Content

namespace Source

/-- The same source, `base` further on. -/
def shift (base : Nat) : Source → Source
  | .element tlv => .element (tlv.shift base)
  | .below content => .below (content.shift base)

def endOffset : Source → Nat
  | .element tlv => tlv.endOffset
  | .below content => content.endOffset

theorem contentUnder_shift (base : Nat) (source : Source) (expected : Tag) :
    (source.shift base).contentUnder expected =
      ((source.contentUnder expected).mapError (Error.rebase base)).map (Content.shift base) := by
  cases source with
  | element tlv =>
    obtain ⟨tag, offset, header, octets⟩ := tlv
    simp only [shift, contentUnder, Tlv.shift]
    split
    · simp only [Except.mapError, Except.map, Content.shift, Tlv.contentOffset,
        Nat.add_right_comm]
    · rfl
  | below content => rfl

theorem contentAs_shift (base : Nat) (source : Source) (expected : Tag) (constructed : Bool)
    (type : String) : (source.shift base).contentAs expected constructed type =
      ((source.contentAs expected constructed type).mapError (Error.rebase base)).map
        (Content.shift base) := by
  rw [contentAs, contentAs, contentUnder_shift]
  cases source.contentUnder expected with
  | error => rfl
  | ok content =>
    simp only [Except.mapError, Except.map, Except.bind, Content.inForm_shift]
    cases content.inForm constructed type <;> rfl

/-- The content ends where its source does, and starts no earlier. -/
theorem range_of_contentUnder {source : Source} {expected : Tag} {content : Content}
    (h : source.contentUnder expected = .ok content) :
    source.offset ≤ content.offset ∧ content.endOffset = source.endOffset := by
  cases source with
  | element tlv =>
    obtain ⟨-, rfl⟩ := contentUnder_element.1 h
    exact ⟨Nat.le_add_right _ _, rfl⟩
  | below content' =>
    cases h
    exact ⟨Nat.le_refl _, rfl⟩

theorem contentUnder_within (source : Source) (expected : Tag) :
    FailsWith (Error.Within source.offset source.endOffset) (source.contentUnder expected) := by
  cases source with
  | element tlv =>
    rw [contentUnder]
    split
    · exact .ok
    · rw [FailsWith.error_iff, Error.within_unexpectedTag]
      exact ⟨Nat.le_refl _, tlv.offset_le_endOffset⟩
  | below content => exact .ok

end Source

/-- An error in the content lies in the source that it is the content of. -/
theorem FailsWith.within_source {α : Type} {source : Source} {expected : Tag} {content : Content}
    {result : Except Error α}
    (h : FailsWith (Error.Within content.offset content.endOffset) result)
    (hcontent : source.contentUnder expected = .ok content) :
    FailsWith (Error.Within source.offset source.endOffset) result := by
  obtain ⟨hbegin, hend⟩ := Source.range_of_contentUnder hcontent
  exact h.imp fun error herror => herror.mono hbegin (Nat.le_of_eq hend)

theorem Source.contentAs_within (source : Source) (expected : Tag) (constructed : Bool)
    (type : String) : FailsWith (Error.Within source.offset source.endOffset)
      (source.contentAs expected constructed type) := by
  refine (source.contentUnder_within expected).bind fun content hcontent => ?_
  exact FailsWith.within_source (content.inForm_within constructed type).map hcontent

namespace Field

theorem unsetAll_rebase (base index : Nat) (fields : List Field) :
    (unsetAll index fields).mapError (Error.rebase base) = unsetAll index fields := by
  induction fields generalizing index with
  | nil => rfl
  | cons field rest ih =>
    rw [unsetAll]
    split
    · have hrest := ih (index + 1)
      cases hmore : unsetAll (index + 1) rest with
      | error error =>
        rw [hmore] at hrest
        exact hrest
      | ok slots => rfl
    · rfl

theorem unsetAll_within {first last : Nat} (index : Nat) (fields : List Field) :
    FailsWith (Error.Within first last) (unsetAll index fields) := by
  induction fields generalizing index with
  | nil => exact .ok
  | cons field rest ih =>
    rw [unsetAll]
    split
    · have hrest := ih (index + 1)
      split
      · rename_i herror
        exact FailsWith.error_iff.2 (hrest _ herror)
      · exact .ok
    · exact FailsWith.error_iff.2 (Error.within_missingField _ _)

end Field

namespace Value

variable {defs : Definitions}

section Translation

theorem route_shift (base depth : Nat) (alternatives : List Field) (tlv : Tlv) :
    route defs depth alternatives (tlv.shift base) =
      (route defs depth alternatives tlv).mapError (Error.rebase base) := by
  rw [route, route, show (tlv.shift base).tag = tlv.tag from rfl]
  cases Field.firstAccepting (Field.acceptsWithin defs tlv.tag depth) 0 alternatives with
  | none => rfl
  | some routed => cases routed <;> rfl

/-- Every call on octets further on goes as the call on the octets where they are. -/
theorem translates (defs : Definitions) (base : Nat) : Stepwise defs
    (fun depth policy value source => decodeFrom defs depth policy value (source.shift base) =
      (decodeFrom defs depth policy value source).mapError (Error.rebase base))
    (fun policy tagging inner source => decodeUnder defs policy tagging inner (source.shift base) =
      (decodeUnder defs policy tagging inner source).mapError (Error.rebase base))
    (fun depth policy field tlv => ∀ index,
      decodeField defs depth policy index field (tlv.shift base) =
        (decodeField defs depth policy index field tlv).mapError (Error.rebase base))
    -- The end of the content lies further on too, so what is left over stays as much.
    (fun policy fields stream => ∀ endOffset index,
      decodeSlots defs policy (endOffset + base) index fields (stream.shift base) =
        (decodeSlots defs policy endOffset index fields stream).mapError (Error.rebase base))
    (fun policy type stream => ∀ index,
      decodeItems defs policy type index (stream.shift base) =
        (decodeItems defs policy type index stream).mapError (Error.rebase base)) where
  leaf depth policy primitive source := by
    rw [decodeFrom_leaf_eq, decodeFrom_leaf_eq, Source.contentAs_shift]
    cases source.contentAs primitive.tag false primitive.typeName with
    | error => rfl
    | ok content =>
      simp only [Except.mapError, Except.map, Except.bind, Content.shift]
      cases primitive.decode policy.rules content.octets <;> rfl
  record {_ _ grouping slots own source} hslots := by
    rw [decodeFrom_record_eq, decodeFrom_record_eq, Source.contentAs_shift]
    cases hcontent : source.contentAs grouping.tag true grouping.name with
    | error => rfl
    | ok content =>
      have hslots := hslots content (Source.contentUnder_of_contentAs hcontent)
      simp only [Except.mapError, Except.map, Except.bind, Content.endOffset_shift]
      rw [Content.shift, Tlv.stream_rebase, hslots]
      exact mapError_map.symm
  elements {_ _ grouping type items own source} hitems := by
    rw [decodeFrom_elements_eq, decodeFrom_elements_eq, Source.contentAs_shift]
    cases hcontent : source.contentAs grouping.tag true (grouping.name ++ " OF") with
    | error => rfl
    | ok content =>
      have hitems := hitems content (Source.contentUnder_of_contentAs hcontent)
      simp only [Except.mapError, Except.map, Except.bind]
      rw [Content.shift, Tlv.stream_rebase, hitems]
      exact mapError_map.symm
  notChosen {depth _ _ _ _ source} hnone := by
    cases source with
    | below content =>
      rw [Source.shift, decodeFrom_choice_below, decodeFrom_choice_below]
      rfl
    | element tlv =>
      rcases hnone with rfl | ⟨_, hbelow⟩
      · rw [Source.shift, decodeFrom_choice_zero, decodeFrom_choice_zero]
        rfl
      · cases hbelow
  choice {depth policy alternatives selection own tlv} hfield := by
    rw [Source.shift, decodeFrom_choice_eq, decodeFrom_choice_eq, route_shift]
    cases route defs depth alternatives tlv with
    | error => rfl
    | ok routed =>
      simp only [Except.mapError, Except.bind]
      rw [hfield routed.2 routed.1]
      exact mapError_map.symm
  tagged {_ _ tagging inner own source} hinner := by
    rw [decodeFrom_tagged_eq, decodeFrom_tagged_eq, hinner]
    exact mapError_map.symm
  any depth policy raw source := by
    cases source <;> (rw [Source.shift, decodeFrom, decodeFrom]; rfl)
  under {policy tagging inner source} hexplicit himplicit := by
    rw [decodeUnder_eq, decodeUnder_eq, Source.contentUnder_shift]
    cases hcontent : source.contentUnder (tagging.outerTag inner) with
    | error => rfl
    | ok content =>
      simp only [Except.mapError, Except.map, Except.bind]
      cases hmode : tagging.modeFor inner with
      | explicit =>
        simp only
        rw [Content.wrapped_shift]
        cases hwrapped : content.wrapped policy.rules tagging with
        | error => rfl
        | ok wrapped =>
          obtain ⟨tlv, rest⟩ := wrapped
          have hinner := hexplicit content tlv rest hcontent hmode hwrapped
          rw [Source.shift] at hinner
          simp only [Except.mapError, Except.map, hinner]
          cases decodeFrom defs defs.choiceLimit policy inner (.element tlv) with
          | error => rfl
          | ok value =>
            simp only [Tlv.endOffset_shift]
            split <;> rfl
      | implicit => exact himplicit content hcontent hmode
  field {depth policy field tlv} huntagged htagged index := by
    rw [decodeField_eq, decodeField_eq]
    cases htagging : field.tagging policy with
    | none =>
      simp only
      rw [Source.shift] at huntagged
      rw [huntagged]
      cases decodeFrom defs depth policy (defs.template field.type) (.element tlv) <;> rfl
    | some tagging =>
      have htagged := htagged tagging
      rw [Source.shift] at htagged
      simp only [htagged]
      cases decodeUnder defs policy tagging (defs.template field.type) (.element tlv) <;> rfl
  slotsDone policy fields endOffset index := by
    rw [Tlv.Stream.shift, decodeSlots, decodeSlots, Field.unsetAll_rebase]
  slotsBroken policy fields error endOffset index := by
    rw [Tlv.Stream.shift, decodeSlots, decodeSlots]
    rfl
  slotsBeyond policy tlv rest endOffset index := by
    rw [Tlv.Stream.shift, decodeSlots, decodeSlots, Tlv.shift, Nat.add_sub_add_right]
    split <;> rfl
  slotsNext {policy field fields tlv rest} hvalue hfilled hskipped endOffset index := by
    rw [Tlv.Stream.shift, decodeSlots_next_eq, decodeSlots_next_eq, hvalue, hfilled]
    rw [Tlv.Stream.shift] at hskipped
    rw [hskipped, show (tlv.shift base).tag = tlv.tag from rfl]
    cases field.accepts? defs tlv.tag with
    | none => rfl
    | some accepts =>
      cases accepts with
      | true =>
        cases decodeField defs defs.choiceLimit policy index field tlv with
        | error => rfl
        | ok value => exact mapError_map.symm
      | false =>
        cases field.optional with
        | true => exact mapError_map.symm
        | false => rfl
  itemsDone policy type index := by
    rw [Tlv.Stream.shift, decodeItems]
    rfl
  itemsBroken policy type error index := by
    rw [Tlv.Stream.shift, decodeItems, decodeItems]
    rfl
  itemsNext {policy type tlv rest} hitem hrest index := by
    rw [Source.shift] at hitem
    rw [Tlv.Stream.shift, decodeItems_next_eq, decodeItems_next_eq, hitem, hrest]
    cases decodeFrom defs defs.choiceLimit policy (defs.template type) (.element tlv) with
    | error => rfl
    | ok item => exact mapError_map.symm

end Translation

section Location

theorem route_within (depth : Nat) (alternatives : List Field) (tlv : Tlv) :
    FailsWith (Error.Within tlv.offset tlv.endOffset) (route defs depth alternatives tlv) := by
  rw [route]
  split
  · exact FailsWith.error_iff.2 Error.within_endlessType
  · rw [FailsWith.error_iff, Error.within_unknownAlternative]
    exact ⟨Nat.le_refl _, tlv.offset_le_endOffset⟩
  · exact .ok

/-- Every call fails at octets of the element, or among those of the stream, that it is about. -/
theorem locates (defs : Definitions) : Stepwise defs
    (fun depth policy value source => FailsWith (Error.Within source.offset source.endOffset)
      (decodeFrom defs depth policy value source))
    (fun policy tagging inner source => FailsWith (Error.Within source.offset source.endOffset)
      (decodeUnder defs policy tagging inner source))
    (fun depth policy field tlv => ∀ index, FailsWith (Error.Within tlv.offset tlv.endOffset)
      (decodeField defs depth policy index field tlv))
    (fun policy fields stream => ∀ first last index, stream.Within first last →
      FailsWith (Error.Within first last) (decodeSlots defs policy last index fields stream))
    (fun policy type stream => ∀ first last index, stream.Within first last →
      FailsWith (Error.Within first last) (decodeItems defs policy type index stream)) where
  leaf depth policy primitive source := by
    rw [decodeFrom_leaf_eq]
    refine (source.contentAs_within _ _ _).bind fun content hcontent => ?_
    refine FailsWith.within_source ?_ (Source.contentUnder_of_contentAs hcontent)
    refine (FailsWith.of_mapError fun cause => ?_).map
    rw [Error.within_malformed, Content.endOffset]
    omega
  record {_ _ grouping slots own source} hslots := by
    rw [decodeFrom_record_eq]
    refine (source.contentAs_within _ _ _).bind fun content hcontent => ?_
    have hunder := Source.contentUnder_of_contentAs hcontent
    refine FailsWith.within_source ?_ hunder
    exact (hslots content hunder _ _ _ (Tlv.stream_within _ _ _)).map
  elements {_ _ grouping type items own source} hitems := by
    rw [decodeFrom_elements_eq]
    refine (source.contentAs_within _ _ _).bind fun content hcontent => ?_
    have hunder := Source.contentUnder_of_contentAs hcontent
    refine FailsWith.within_source ?_ hunder
    exact (hitems content hunder _ _ _ (Tlv.stream_within _ _ _)).map
  notChosen {depth _ _ _ _ source} hnone := by
    cases source with
    | below content =>
      rw [decodeFrom_choice_below, FailsWith.error_iff, Error.within_malformed]
      exact ⟨Nat.le_refl _, Nat.le_add_right _ _⟩
    | element tlv =>
      rcases hnone with rfl | ⟨_, hbelow⟩
      · rw [decodeFrom_choice_zero, FailsWith.error_iff]
        exact Error.within_endlessType
      · cases hbelow
  choice {depth _ alternatives _ _ tlv} hfield := by
    rw [decodeFrom_choice_eq]
    refine (route_within depth alternatives tlv).bind fun routed _ => ?_
    exact (hfield routed.2 routed.1).map
  tagged {_ _ tagging inner own source} hinner := by
    rw [decodeFrom_tagged_eq]
    exact hinner.map
  any depth policy raw source := by
    cases source with
    | element tlv =>
      rw [decodeFrom]
      exact .ok
    | below content =>
      rw [decodeFrom, FailsWith.error_iff, Error.within_malformed]
      exact ⟨Nat.le_refl _, Nat.le_add_right _ _⟩
  under {policy tagging inner source} hexplicit himplicit := by
    rw [decodeUnder_eq]
    refine (source.contentUnder_within _).bind fun content hcontent => ?_
    refine FailsWith.within_source ?_ hcontent
    cases hmode : tagging.modeFor inner with
    | explicit =>
      refine (content.wrapped_within _ _).bind ?_
      rintro ⟨tlv, rest⟩ hwrapped
      obtain ⟨-, -, hread⟩ := Content.wrapped_eq_ok_iff.1 hwrapped
      have htlv := Tlv.within_of_read hread
      -- The wrapped element may fail, or octets be left behind it when it has not.
      refine FailsWith.bind ?_ fun value _ => ?_
      · refine (hexplicit content tlv rest hcontent hmode hwrapped).imp fun error herror => ?_
        exact herror.mono htlv.1 htlv.2.2
      · split
        · exact .ok
        · rename_i hrest
          exact FailsWith.error_iff.2 (Tlv.trailing_within_of_read hread hrest)
    | implicit => exact himplicit content hcontent hmode
  field {depth policy field tlv} huntagged htagged index := by
    rw [decodeField_eq]
    cases field.tagging policy with
    | none => exact huntagged.mapError fun _ => Error.within_inField.2
    | some tagging => exact (htagged tagging).mapError fun _ => Error.within_inField.2
  slotsDone policy fields first last index _ := by
    rw [decodeSlots]
    exact Field.unsetAll_within index fields
  slotsBroken policy fields error first last index hstream := by
    rw [decodeSlots, FailsWith.error_iff]
    exact hstream
  slotsBeyond policy tlv rest first last index hstream := by
    obtain ⟨⟨hbegin, hsome, hend⟩, -⟩ := hstream
    rw [decodeSlots]
    split
    · rw [FailsWith.error_iff, Error.within_trailing]
      omega
    · exact .ok
  slotsNext {policy field fields tlv rest} hvalue hfilled hskipped first last index hstream := by
    obtain ⟨htlv, hrest⟩ := hstream
    rw [decodeSlots_next_eq]
    split
    · exact FailsWith.error_iff.2 Error.within_endlessType
    · refine FailsWith.bind ?_ fun value _ => (hfilled first last _ hrest).map
      exact (hvalue index).imp fun error herror => herror.mono htlv.1 htlv.2.2
    · split
      · exact (hskipped first last _ ⟨htlv, hrest⟩).map
      · exact FailsWith.error_iff.2 (Error.within_missingField _ _)
  itemsDone policy type first last index _ := by
    rw [decodeItems]
    exact .ok
  itemsBroken policy type error first last index hstream := by
    rw [decodeItems, FailsWith.error_iff]
    exact hstream
  itemsNext {policy type tlv rest} hitem hrest first last index hstream := by
    obtain ⟨htlv, hmore⟩ := hstream
    rw [decodeItems_next_eq]
    refine FailsWith.bind ?_ fun item _ => (hrest first last _ hmore).map
    exact hitem.mapError fun error herror => Error.within_inField.2 (herror.mono htlv.1 htlv.2.2)

/-- What is said of the element at the front is said of the octets, what is left included. -/
theorem root_within (policy : Policy) (octets : Octets) {decoded : Tlv → Except Error Value}
    (h : ∀ tlv, FailsWith (Error.Within tlv.offset tlv.endOffset) (decoded tlv)) :
    FailsWith (Error.Within 0 octets.length) (decodeRoot policy octets decoded) := by
  rw [decodeRoot, ← Nat.zero_add octets.length]
  refine FailsWith.bind (fun _ => Tlv.error_within_of_read) ?_
  rintro ⟨tlv, rest⟩ hread
  have htlv := Tlv.within_of_read hread
  refine FailsWith.bind ?_ fun value _ => ?_
  · exact (h tlv).imp fun error herror => herror.mono htlv.1 htlv.2.2
  · rw [atEnd]
    split
    · rename_i hrest
      rw [Bool.and_eq_true, Bool.not_eq_true'] at hrest
      exact FailsWith.error_iff.2
        (Tlv.trailing_within_of_read hread (Bool.eq_false_iff.1 hrest.2))
    · exact .ok

theorem decode_within (defs : Definitions) (value : Value) (octets : Octets) (policy : Policy) :
    FailsWith (Error.Within 0 octets.length) (decode defs value octets policy) := by
  rw [decode_eq]
  exact root_within _ octets fun tlv => (locates defs).ofValue _ _ _ (.element tlv)

theorem taggedDecode_within (defs : Definitions) (value : Value) (tagging : Tagging)
    (octets : Octets) (policy : Policy) :
    FailsWith (Error.Within 0 octets.length) (taggedDecode defs value tagging octets policy) := by
  rw [taggedDecode_eq]
  exact root_within _ octets fun tlv => (locates defs).ofUnder _ _ _ (.element tlv)

end Location

/-- An element decodes to the same value wherever it lies. -/
theorem decodes_element_iff {depth : Nat} {policy : Policy} {template result : Value} {tlv : Tlv}
    (offset : Nat) :
    Decodes defs depth policy template (.element { tlv with offset }) result ↔
      Decodes defs depth policy template (.element tlv) result := by
  have hshift (base : Nat) :
      Decodes defs depth policy template (.element { tlv with offset := base }) result ↔
        Decodes defs depth policy template (.element { tlv with offset := 0 }) result := by
    have hvalue := (translates defs base).ofValue depth policy template
      (.element { tlv with offset := 0 })
    rw [Source.shift, Tlv.shift, Nat.zero_add] at hvalue
    rw [← decodes_iff, ← decodes_iff, hvalue, mapError_eq_ok_iff]
  rw [hshift offset]
  exact (hshift tlv.offset).symm

/-- From the element at the front of octets that lie at `base`. -/
def decodeAt (defs : Definitions) (value : Value) (rules : Rules) (base : Nat) (octets : Octets)
    (policy : Policy) : Except Error Value :=
  (Reader.mk rules base octets).read.bind fun (tlv, _) =>
    decodeFrom defs defs.choiceLimit policy value (.element tlv)

theorem decodeAt_eq_mapError (defs : Definitions) (value : Value) (rules : Rules) (base : Nat)
    (octets : Octets) (policy : Policy) :
    decodeAt defs value rules base octets policy =
      (decodeAt defs value rules 0 octets policy).mapError (Error.rebase base) := by
  have hread := Tlv.read_rebase rules base 0 octets
  rw [Nat.zero_add] at hread
  simp only [decodeAt, Reader.read, hread]
  cases Tlv.read rules 0 octets with
  | error => rfl
  | ok read => exact (translates defs base).ofValue _ _ _ (.element read.1)

/-- An error tells a place in the octets, and what it tells to be left over lies in them too.
In octets that lie further on the same error tells the same place. -/
theorem failures_located_and_translated (defs : Definitions) (value : Value) :
    (∀ octets policy error,
        (decode defs value octets policy = .error error ∨
          ∃ tagging, taggedDecode defs value tagging octets policy = .error error) →
        (∀ offset ∈ error.rootCause.offset?, offset ≤ octets.length) ∧
          ∀ offset remaining, error.rootCause = .trailing offset remaining →
            0 < remaining ∧ offset + remaining ≤ octets.length) ∧
      ∀ rules policy octets base, decodeAt defs value rules base octets policy =
        (decodeAt defs value rules 0 octets policy).mapError (Error.rebase base) := by
  refine ⟨?_, fun rules policy octets base => decodeAt_eq_mapError _ _ _ _ _ _⟩
  intro octets policy error hfails
  have hwithin : error.Within 0 octets.length := by
    rcases hfails with hdecode | ⟨tagging, htagged⟩
    · exact decode_within defs value octets policy error hdecode
    · exact taggedDecode_within defs value tagging octets policy error htagged
  exact ⟨fun offset hoffset => (hwithin.1 offset hoffset).2, hwithin.2⟩

/-- A NULL follows the BOOLEAN that the inner one of two tags wraps. -/
theorem trailing_null_located_and_translated :
    decode ⟨[]⟩ (.tagged ⟨.context, 0, .explicit⟩ (.tagged ⟨.context, 1, .explicit⟩
        (.leaf (.boolean false)) none) none)
        [0xA0, 0x07, 0xA1, 0x05, 0x01, 0x01, 0xFF, 0x05, 0x00] .der = .error (.trailing 7 2) ∧
      0 < 2 ∧ 7 + 2 ≤ 9 ∧
      decodeAt ⟨[]⟩ (.tagged ⟨.context, 0, .explicit⟩ (.tagged ⟨.context, 1, .explicit⟩
        (.leaf (.boolean false)) none) none) .distinguished 5
        [0xA0, 0x07, 0xA1, 0x05, 0x01, 0x01, 0xFF, 0x05, 0x00] .der = .error (.trailing 12 2) := by
  have hdecode : decode ⟨[]⟩ (.tagged ⟨.context, 0, .explicit⟩ (.tagged ⟨.context, 1, .explicit⟩
      (.leaf (.boolean false)) none) none)
      [0xA0, 0x07, 0xA1, 0x05, 0x01, 0x01, 0xFF, 0x05, 0x00] .der = .error (.trailing 7 2) := by
    cbv
  obtain ⟨hlocated, htranslated⟩ := failures_located_and_translated ⟨[]⟩
    (.tagged ⟨.context, 0, .explicit⟩ (.tagged ⟨.context, 1, .explicit⟩
      (.leaf (.boolean false)) none) none)
  obtain ⟨hsome, hin⟩ := (hlocated _ _ _ (.inl hdecode)).2 7 2 rfl
  refine ⟨hdecode, hsome, hin, ?_⟩
  rw [htranslated]
  cbv

end Value

end Asn1
