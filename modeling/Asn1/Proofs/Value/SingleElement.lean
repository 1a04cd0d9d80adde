import Asn1.Proofs.Value.Parts
import Asn1.Proofs.Value.RoundTrip

/-!
An encoding is one element. An ANY hands on what it holds, so it has to hold one element for
that; all else is written with a tag and a length of its own.
-/

namespace Asn1.Value

/-- An ANY holds one element or nothing. -/
def Intact : Value → Prop
  | .any raw => raw = [] ∨ Tlv.Complete .basic raw
  | _ => True

/-- The value hands on what an ANY holds: it is one, or a CHOICE of an alternative without a
tag of its own that does. -/
inductive ResolvesToAny : Value → Prop where
  | any (raw : Octets) : ResolvesToAny (.any raw)
  | choice {alternatives : List Field} {index : Nat} {field : Field} {part : Value}
      {own : Option Policy} (hfield : alternatives[index]? = some field)
      (huntagged : field.number = none) (hpart : ResolvesToAny part) :
      ResolvesToAny (.choice alternatives (some ⟨index, part⟩) own)

/-- What is encoded in two parts is written with the tag that the value shows. -/
theorem tag?_of_encoding {policy : Policy} {value : Value} {tag : Tag} {content : Octets}
    (h : value.encoding policy = .ok (.parts tag content)) :
    value.tag? = some tag ∧ value.isConstructed = tag.constructed := by
  match value with
  | .leaf primitive =>
    obtain ⟨_, -, hparts⟩ := encoding_leaf.1 h
    cases hparts
    exact ⟨rfl, rfl⟩
  | .record _ _ _ =>
    obtain ⟨_, -, hparts⟩ := encoding_record.1 h
    cases hparts
    exact ⟨rfl, rfl⟩
  | .elements _ _ _ _ =>
    obtain ⟨_, -, hparts⟩ := encoding_elements.1 h
    cases hparts
    exact ⟨rfl, rfl⟩
  | .choice _ _ _ =>
    obtain ⟨_, _, _, _, -, -, -, hparts⟩ := encoding_choice.1 h
    cases hparts
  | .tagged tagging inner _ =>
    obtain ⟨bare, hbare, happly⟩ := encoding_tagged.1 h
    rw [tag?, isConstructed, Tagging.outerTag]
    rcases Tagging.apply_eq_ok_iff.1 happly with ⟨hmode, hparts⟩ | ⟨hmode, _, _, hsplit, hparts⟩
    · cases hparts
      rw [hmode]
      exact ⟨rfl, rfl⟩
    · obtain ⟨below, rest, rfl⟩ :=
        (hasOwnTag_of_encoding hbare).1 (Tagging.hasOwnTag_of_implicit hmode)
      cases hsplit
      cases hparts
      obtain ⟨-, hconstructed⟩ := tag?_of_encoding hbare
      rw [hmode, hconstructed]
      exact ⟨rfl, rfl⟩
  | .any _ =>
    obtain ⟨-, hparts⟩ := encoding_any.1 h
    cases hparts

/-- The tag that the value shows is the one in front of its encoding. -/
theorem rawTag?_of_encoding {policy : Policy} {value : Value} {encoding : Encoding}
    (h : value.encoding policy = .ok encoding) :
    ∀ tag ∈ value.tag?, rawTag? encoding.octets = some tag := by
  intro tag htag
  cases encoding with
  | parts shown content =>
    rw [(tag?_of_encoding h).1] at htag
    cases htag
    exact rawTag?_encode _ _
  | whole raw =>
    cases value with
    | choice => cases htag
    | any =>
      obtain ⟨-, hwhole⟩ := encoding_any.1 h
      cases hwhole
      exact htag
    | leaf | record | elements | tagged =>
      obtain ⟨_, _, hparts⟩ := (hasOwnTag_of_encoding h).1 rfl
      cases hparts

/-- A re-tag always has a tag and a content apart. -/
theorem parts_of_apply {tagging : Tagging} {inner : Value} {bare wrapped : Encoding}
    (h : tagging.apply inner bare = .ok wrapped) : ∃ tag content, wrapped = .parts tag content := by
  rcases Tagging.apply_eq_ok_iff.1 h with ⟨-, rfl⟩ | ⟨-, _, _, -, rfl⟩
  · exact ⟨_, _, rfl⟩
  · exact ⟨_, _, rfl⟩

/-- Nothing is encoded as no octets. -/
theorem octets_ne_nil_of_encoding {policy : Policy} {value : Value} {encoding : Encoding}
    (h : value.encoding policy = .ok encoding) : encoding.octets ≠ [] := by
  have hparts (tag : Tag) (content : Octets) : (Encoding.parts tag content).octets ≠ [] := by
    intro hnone
    have htag := rawTag?_encode tag content
    rw [Encoding.octets] at hnone
    rw [hnone] at htag
    cases htag
  induction value using contains_induction generalizing policy encoding with
  | h value ih =>
    cases encoding with
    | parts tag content => exact hparts tag content
    | whole raw =>
      cases value with
      | choice =>
        obtain ⟨_, part, _, _, rfl, -, hraw, hwhole⟩ := encoding_choice.1 h
        cases hwhole
        obtain ⟨bare, wrapped, hbare, hwrap, rfl⟩ := Field.encode_eq_ok_iff.1 hraw
        rcases Field.wrap_eq_ok_iff.1 hwrap with ⟨-, rfl⟩ | ⟨_, -, happly⟩
        · have hsome : bare.octets ≠ [] := ih part .selected hbare
          exact hsome
        · obtain ⟨tag, content, rfl⟩ := parts_of_apply happly
          exact hparts tag content
      | any =>
        obtain ⟨hsome, hwhole⟩ := encoding_any.1 h
        cases hwhole
        exact hsome
      | leaf | record | elements | tagged =>
        obtain ⟨_, _, hsplit⟩ := (hasOwnTag_of_encoding h).1 rfl
        cases hsplit

/-- The two parts are those of the element. -/
theorem split_of_read {encoding : Encoding} (hfits : encoding.Fits) {tlv : Tlv}
    (h : Tlv.read .basic 0 encoding.octets = .ok (tlv, [])) :
    encoding.split = .ok (tlv.tag, tlv.content) := by
  cases encoding with
  | parts tag content =>
    rw [Encoding.octets, Tlv.read_encode_alone hfits] at h
    cases h
    rfl
  | whole raw =>
    rw [Encoding.octets] at h
    rw [Encoding.split, h]

theorem complete_of_encoding {policy : Policy} {value : Value}
    (hintact : value.Throughout Intact) {encoding : Encoding}
    (hencoding : value.encoding policy = .ok encoding) (hfits : encoding.Fits) :
    Tlv.Complete .basic encoding.octets ∧
      (¬ value.ResolvesToAny → Tlv.Complete .distinguished encoding.octets) := by
  induction value using contains_induction generalizing policy encoding with
  | h value ih =>
    cases encoding with
    | parts tag content =>
      exact ⟨Encoding.complete_parts hfits _, fun _ => Encoding.complete_parts hfits _⟩
    | whole raw =>
      cases value with
      | choice alternatives selection own =>
        obtain ⟨index, part, field, raw', rfl, hfield, hraw, hwhole⟩ := encoding_choice.1 hencoding
        cases hwhole
        obtain ⟨bare, wrapped, hbare, hwrap, rfl⟩ := Field.encode_eq_ok_iff.1 hraw
        rcases Field.wrap_eq_ok_iff.1 hwrap with ⟨hnone, rfl⟩ | ⟨tagging, -, happly⟩
        · have hbareFits := Encoding.fits_of_octets hfits
          obtain ⟨hbasic, hdistinguished⟩ :=
            ih part .selected (hintact.part .selected) hbare hbareFits
          refine ⟨hbasic, fun hresolves => hdistinguished ?_⟩
          intro hpart
          exact hresolves (.choice hfield (Option.map_eq_none_iff.1 hnone) hpart)
        · obtain ⟨tag, content, rfl⟩ := parts_of_apply happly
          have hparts : (Encoding.parts tag content).Fits := Encoding.fits_of_octets hfits
          exact ⟨Encoding.complete_parts hparts _, fun _ => Encoding.complete_parts hparts _⟩
      | any =>
        obtain ⟨hsome, hwhole⟩ := encoding_any.1 hencoding
        cases hwhole
        rcases hintact.self with hnone | hcomplete
        · exact absurd hnone hsome
        · exact ⟨hcomplete, fun hresolves => absurd (.any raw) hresolves⟩
      | leaf | record | elements | tagged =>
        obtain ⟨_, _, hparts⟩ := (hasOwnTag_of_encoding hencoding).1 rfl
        cases hparts

/-- What a value without gaps is encoded as is one element, also under the distinguished rules
unless an ANY has been handed on, and its tag and content are those that the value shows. -/
theorem element_of_encode {policy : Policy} {value : Value} (hintact : value.Throughout Intact)
    {octets : Octets} (hlength : octets.length < Length.limit)
    (h : value.encode policy = .ok octets) :
    ∃ tlv, Tlv.read .basic 0 octets = .ok (tlv, []) ∧
      value.encodeParts policy = .ok (tlv.tag, tlv.content) ∧
      (∀ tag ∈ value.tag?, tag = tlv.tag) ∧
      (¬ value.ResolvesToAny → Tlv.read .distinguished 0 octets = .ok (tlv, [])) := by
  obtain ⟨encoding, hencoding, rfl⟩ := encode_eq_ok_iff.1 h
  have hfits := Encoding.fits_of_octets hlength
  obtain ⟨⟨tlv, hread⟩, hdistinguished⟩ := complete_of_encoding hintact hencoding hfits
  refine ⟨tlv, hread, ?_, ?_, ?_⟩
  · rw [encodeParts, hencoding]
    exact split_of_read hfits hread
  · intro tag htag
    have hraw := rawTag?_of_encoding hencoding tag htag
    rw [rawTag?_of_read hread] at hraw
    cases hraw
    rfl
  · intro hresolves
    obtain ⟨strict, hstrict⟩ := hdistinguished hresolves
    have hrules : Rules.basic = .distinguished → Rules.distinguished = .distinguished := nofun
    have hagain := Tlv.read_again hstrict hrules 0 []
    rw [← Tlv.raw_of_read hstrict, hread] at hagain
    cases hagain
    rw [hstrict, ← Tlv.offset_of_read hstrict]

end Asn1.Value
