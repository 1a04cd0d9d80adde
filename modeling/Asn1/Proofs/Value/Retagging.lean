import Asn1.Proofs.Value.Encoding
import Asn1.Proofs.Value.Stepwise

/-!
What a re-tag does to an encoding. An explicit tag wraps the element that it is put on; an
implicit one replaces its tag and keeps the constructed bit. A CHOICE and an ANY have no tag
that could be replaced, but a re-tag around them has, so in a chain of re-tags only the
innermost one has to know what it is put on.
-/

namespace Asn1

namespace Tagging

/-- What the tag makes of an encoding. One that is whole, of a CHOICE or an ANY, is wrapped
in either mode. -/
def putOn (tagging : Tagging) : Encoding → Encoding
  | .parts tag content =>
    match tagging.mode with
    | .explicit => .parts (tagging.tag true) (Tlv.encode tag content)
    | .implicit => .parts (tagging.tag tag.constructed) content
  | .whole raw => .parts (tagging.tag true) raw

end Tagging

namespace Value

variable {policy : Policy} {value : Value}

theorem apply_eq_putOn {bare : Encoding} (hbare : value.encoding policy = .ok bare)
    (tagging : Tagging) : tagging.apply value bare = .ok (tagging.putOn bare) := by
  rw [Tagging.apply, Tagging.modeFor]
  cases bare with
  | parts tag content =>
    have hown : value.hasOwnTag = true := (hasOwnTag_of_encoding hbare).2 ⟨tag, content, rfl⟩
    rw [if_pos hown, Tagging.putOn]
    cases tagging.mode <;> rfl
  | whole raw =>
    have hnone : ¬ value.hasOwnTag = true := by
      intro hown
      obtain ⟨_, _, hparts⟩ := (hasOwnTag_of_encoding hbare).1 hown
      cases hparts
    rw [if_neg hnone]
    rfl

theorem putOn_of_wrapped {tagging : Tagging} {bare : Encoding}
    (hbare : value.encoding policy = .ok bare)
    (hwrapped : tagging.mode = .explicit ∨ value.hasOwnTag = false) :
    tagging.putOn bare = .parts (tagging.tag true) bare.octets := by
  cases bare with
  | parts tag content =>
    rcases hwrapped with hexplicit | hnone
    · rw [Tagging.putOn, hexplicit, Encoding.octets]
    · rw [(hasOwnTag_of_encoding hbare).2 ⟨tag, content, rfl⟩] at hnone
      cases hnone
  | whole => rfl

/-- Putting a tag on what has been encoded never fails, so all errors are those of the value. -/
theorem taggedEncode_eq_map (value : Value) (tagging : Tagging) (policy : Policy) :
    value.taggedEncode tagging policy =
      (value.encoding policy).map fun bare => (tagging.putOn bare).octets := by
  rw [taggedEncode]
  cases hencoding : value.encoding policy with
  | error => rfl
  | ok bare =>
    simp only [apply_eq_putOn hencoding]
    rfl

/-- A tag that wraps an encoding looks at nothing but its octets. -/
theorem taggedEncode_of_wrapped {tagging : Tagging} {octets : Octets}
    (hencode : value.encode policy = .ok octets)
    (hwrapped : tagging.mode = .explicit ∨ value.hasOwnTag = false) :
    value.taggedEncode tagging policy = .ok (Tlv.encode (tagging.tag true) octets) := by
  obtain ⟨bare, hbare, rfl⟩ := encode_eq_ok_iff.1 hencode
  rw [taggedEncode_eq_map, hbare, Except.map, putOn_of_wrapped hbare hwrapped]
  rfl

theorem encoding_tagged_eq_map (tagging : Tagging) (inner : Value) (own : Option Policy)
    (policy : Policy) :
    (Value.tagged tagging inner own).encoding policy =
      (inner.encoding (own.getD policy)).map tagging.putOn := by
  rw [Value.encoding]
  cases hencoding : inner.encoding (own.getD policy) with
  | error => rfl
  | ok bare => exact apply_eq_putOn hencoding tagging

/-- The re-tags around the value, the outermost first. -/
def retags : Value → List Tagging
  | .tagged tagging inner _ => tagging :: inner.retags
  | _ => []

/-- The policy that reaches the value below all its re-tags. -/
def policyBelow (inherited : Policy) : Value → Policy
  | .tagged _ inner own => inner.policyBelow (own.getD inherited)
  | _ => inherited

/-- A chain of re-tags is put on one after the other, the innermost first. -/
theorem encoding_eq_foldr_retags (value : Value) (policy : Policy) :
    value.encoding policy = (value.untagged.encoding (value.policyBelow policy)).map fun bare =>
      value.retags.foldr Tagging.putOn bare := by
  match value with
  | .tagged tagging inner own =>
    rw [encoding_tagged_eq_map, encoding_eq_foldr_retags inner (own.getD policy), untagged,
      policyBelow, retags]
    cases inner.untagged.encoding (inner.policyBelow (own.getD policy)) <;> rfl
  | .leaf _ | .record _ _ _ | .elements _ _ _ _ | .choice _ _ _ | .any _ =>
    exact (id_map (Value.encoding policy _)).symm

/-- The outermost tag replaces the one that wraps the innermost. -/
example : (Value.tagged ⟨.application, 7, .implicit⟩ (.tagged ⟨.context, 2, .explicit⟩
    (.tagged ⟨.application, 3, .implicit⟩ (.leaf (.characterString ⟨.visible, "Jones"⟩))
      none) none) none).encode .der =
    .ok [0x67, 0x07, 0x43, 0x05, 0x4A, 0x6F, 0x6E, 0x65, 0x73] := by rfl

/-- A re-tag on the wire. An explicit one writes its header in front of the encoding, as does
any on a CHOICE or an ANY; an implicit one writes its header in front of the content, with the
constructed bit that was there. It fails only as the encoding without it does. So a chain of
re-tags has the octets that its tags make of the encoding below them, one after the other. -/
theorem tagged_on_the_wire (value : Value) (policy : Policy) :
    (∀ tagging octets, value.encode policy = .ok octets →
      (tagging.mode = .explicit ∨ value.hasOwnTag = false →
        value.taggedEncode tagging policy =
          .ok (Tlv.headerOctets (tagging.tag true) octets.length ++ octets)) ∧
      (tagging.mode = .implicit → value.hasOwnTag = true →
        ∃ tag content, value.encodeParts policy = .ok (tag, content) ∧
          octets = Tlv.headerOctets tag content.length ++ content ∧
          (content.length < Length.limit → Tlv.read .basic 0 octets =
            .ok (⟨tag, 0, Tlv.headerOctets tag content.length, content⟩, [])) ∧
          value.taggedEncode tagging policy =
            .ok (Tlv.headerOctets (tagging.tag tag.constructed) content.length ++ content))) ∧
    (∀ tagging error, value.taggedEncode tagging policy = .error error ↔
      value.encode policy = .error error) ∧
    value.encode policy = (value.untagged.encoding (value.policyBelow policy)).map fun bare =>
      (value.retags.foldr Tagging.putOn bare).octets := by
  refine ⟨?_, ?_, ?_⟩
  · intro tagging octets hencode
    constructor
    · exact taggedEncode_of_wrapped hencode
    · intro himplicit hown
      obtain ⟨bare, hbare, rfl⟩ := encode_eq_ok_iff.1 hencode
      rw [taggedEncode_eq_map, encodeParts, hbare]
      obtain ⟨tag, content, rfl⟩ := (hasOwnTag_of_encoding hbare).1 hown
      refine ⟨tag, content, rfl, rfl, fun hfits => Tlv.read_encode_alone hfits _ _ _, ?_⟩
      rw [Except.map, Tagging.putOn, himplicit]
      rfl
  · intro tagging error
    rw [taggedEncode_eq_map, encode]
    cases value.encoding policy with
    | error => rfl
    | ok => exact ⟨nofun, nofun⟩
  · rw [encode, encoding_eq_foldr_retags value policy]
    cases value.untagged.encoding (value.policyBelow policy) <;> rfl

/-- An implicit tag replaces the one that stands in front of a CHOICE, where it wraps the INTEGER
that has been chosen. -/
theorem promoted_tag_replaced_on_the_wire :
    (Value.tagged ⟨.context, 0, .implicit⟩ (.choice [⟨"number", none, none, false, "number"⟩]
        (some ⟨0, .leaf (.integer 5)⟩) none) none).encode .der =
        .ok [0xA0, 0x03, 0x02, 0x01, 0x05] ∧
      (Value.tagged ⟨.context, 0, .implicit⟩ (.choice [⟨"number", none, none, false, "number"⟩]
        (some ⟨0, .leaf (.integer 5)⟩) none) none).taggedEncode ⟨.context, 1, .implicit⟩ .der =
        .ok [0xA1, 0x03, 0x02, 0x01, 0x05] := by
  have hencode : (Value.tagged ⟨.context, 0, .implicit⟩
      (.choice [⟨"number", none, none, false, "number"⟩] (some ⟨0, .leaf (.integer 5)⟩) none)
      none).encode .der = .ok [0xA0, 0x03, 0x02, 0x01, 0x05] := by rfl
  refine ⟨hencode, ?_⟩
  obtain ⟨tag, content, hparts, -, -, htagged⟩ :=
    ((tagged_on_the_wire _ .der).1 ⟨.context, 1, .implicit⟩ _ hencode).2 rfl rfl
  have hshown : (Value.tagged ⟨.context, 0, .implicit⟩
      (.choice [⟨"number", none, none, false, "number"⟩] (some ⟨0, .leaf (.integer 5)⟩) none)
      none).encodeParts .der = .ok (⟨.context, true, 0⟩, [0x02, 0x01, 0x05]) := by rfl
  rw [hshown] at hparts
  cases hparts
  exact htagged

section Decoding

variable {defs : Definitions}

/-- A re-tag in the tree reads as the value below it does under the tag, as long as both mean
the same policy. -/
theorem decode_tagged_eq_map {tagging : Tagging} {value : Value} {own : Option Policy}
    {policy : Policy} (h : value.resolve (own.getD policy) = own.getD policy) (octets : Octets) :
    decode defs (.tagged tagging value own) octets policy =
      (taggedDecode defs value tagging octets (own.getD policy)).map fun decoded =>
        .tagged tagging decoded own := by
  have hresolve : (Value.tagged tagging value own).resolve policy = own.getD policy := rfl
  have hown : own.getD (own.getD policy) = own.getD policy := by cases own <;> rfl
  rw [decode_eq, taggedDecode_eq, hresolve, h, cleared, ← decodeRoot_map]
  simp only [decodeFrom_tagged_eq, hown]

/-- It makes no difference whether a re-tag is part of the value or is asked for on the way to
the octets and back. -/
theorem retag_in_the_tree_or_on_the_way (tagging : Tagging) (value : Value) (policy : Policy) :
    (Value.tagged tagging value none).encode policy = value.taggedEncode tagging policy ∧
      (value.policy? = none → ∀ octets,
        (∀ decoded, decode defs (.tagged tagging value none) octets policy =
            .ok (.tagged tagging decoded none) ↔
          taggedDecode defs value tagging octets policy = .ok decoded) ∧
        (∀ result, decode defs (.tagged tagging value none) octets policy = .ok result →
          ∃ decoded, result = .tagged tagging decoded none) ∧
        ∀ error, decode defs (.tagged tagging value none) octets policy = .error error ↔
          taggedDecode defs value tagging octets policy = .error error) := by
  constructor
  · rw [encode, encoding_tagged_eq_map, taggedEncode_eq_map, Option.getD_none]
    cases value.encoding policy <;> rfl
  · intro hnone octets
    have hpolicy : value.resolve policy = policy := resolve_of_policy?_eq_none hnone policy
    have hdecode : decode defs (.tagged tagging value none) octets policy =
        (taggedDecode defs value tagging octets policy).map fun decoded =>
          .tagged tagging decoded none := decode_tagged_eq_map hpolicy octets
    rw [hdecode]
    cases taggedDecode defs value tagging octets policy with
    | error => simp [Except.map]
    | ok decoded => simp [Except.map]

/-- A SEQUENCE of one BOOLEAN, its own tag replaced. -/
theorem sequence_read_in_the_tree_or_on_the_way :
    (emptyRecord .sequence [⟨"flag", some 0, none, false, "flag"⟩]).policy? = none ∧
      taggedDecode ⟨[("flag", .leaf (.boolean false))]⟩
        (emptyRecord .sequence [⟨"flag", some 0, none, false, "flag"⟩]) ⟨.application, 3, .implicit⟩
        [0x63, 0x05, 0xA0, 0x03, 0x01, 0x01, 0xFF] .der =
        .ok (.record .sequence
          [⟨⟨"flag", some 0, none, false, "flag"⟩, some (.leaf (.boolean true))⟩] none) ∧
      decode ⟨[("flag", .leaf (.boolean false))]⟩
        (.tagged ⟨.application, 3, .implicit⟩
          (emptyRecord .sequence [⟨"flag", some 0, none, false, "flag"⟩]) none)
        [0x63, 0x05, 0xA0, 0x03, 0x01, 0x01, 0xFF] .der =
        .ok (.tagged ⟨.application, 3, .implicit⟩ (.record .sequence
          [⟨⟨"flag", some 0, none, false, "flag"⟩, some (.leaf (.boolean true))⟩] none) none) := by
  have htagged : taggedDecode ⟨[("flag", .leaf (.boolean false))]⟩
      (emptyRecord .sequence [⟨"flag", some 0, none, false, "flag"⟩]) ⟨.application, 3, .implicit⟩
      [0x63, 0x05, 0xA0, 0x03, 0x01, 0x01, 0xFF] .der =
      .ok (.record .sequence
        [⟨⟨"flag", some 0, none, false, "flag"⟩, some (.leaf (.boolean true))⟩] none) := by
    refine taggedDecode_eq_ok_iff.2
      ⟨_, _, rfl, .implicit rfl rfl (.record rfl rfl ?_), fun _ => rfl⟩
    rw [Tlv.stream_of_last rfl]
    exact .filled rfl (.tagged rfl (.explicit rfl rfl rfl (.leaf rfl rfl rfl))) (.done nofun)
  exact ⟨rfl, htagged, (((retag_in_the_tree_or_on_the_way _ _ _).2 rfl _).1 _).2 htagged⟩

end Decoding

end Value

end Asn1
