import Asn1.Proofs.CharacterString
import Asn1.Proofs.ObjectIdentifier
import Asn1.Proofs.Time.Generalized
import Asn1.Proofs.Time.Utc
import Asn1.Proofs.Value.Changes
import Asn1.Proofs.Value.Encodable
import Asn1.Proofs.Value.Failures
import Asn1.Proofs.Value.Reachable

/-!
What a caller can build has an encoding unless something is missing in it or cannot be written.
Nothing else can go wrong: a CHOICE holds one of its own alternatives, whatever has been done to
it, and encoding does not read what it has written.
-/

namespace Asn1

/-- The value is one of those for which its type has octets. -/
def Primitive.Representable : Primitive → Prop
  | .objectIdentifier oid => ∃ first second rest, oid.arcs = first :: second :: rest ∧
    first.toNat ≤ 2 ∧ (first.toNat < 2 → second.toNat < 40) ∧
    (first.toNat = 2 → second.toNat ≤ ObjectIdentifier.arcLimit - 80)
  | .characterString string => ∀ c ∈ string.text.toList, string.kind.permits c
  | .utcTime instant => 1950 ≤ instant.civil.date.year ∧ instant.civil.date.year ≤ 2049 ∧
    instant.nanos = 0
  | .generalizedTime instant => 0 ≤ instant.civil.date.year ∧ instant.civil.date.year ≤ 9999 ∧
    instant.nanos < 1000000000
  | _ => True

theorem ObjectIdentifier.exists_encode_iff {oid : ObjectIdentifier} :
    (∃ content, oid.encode = .ok content) ↔ (Primitive.objectIdentifier oid).Representable := by
  have hvalid : (∃ content, oid.encode = .ok content) ↔ validate oid.arcs = .ok () := by
    unfold encode
    cases validate oid.arcs with
    | error => simp [Except.map]
    | ok => simp [Except.map]
  rw [hvalid, Primitive.Representable]
  constructor
  · intro h
    obtain ⟨first, second, rest, harcs⟩ := arcs_of_validate h
    rw [harcs] at h
    exact ⟨first, second, rest, harcs, (validate_ok_iff first second rest).1 h⟩
  · rintro ⟨first, second, rest, harcs, hbounds⟩
    rw [harcs]
    exact (validate_ok_iff first second rest).2 hbounds

theorem Primitive.exists_encode_iff {primitive : Primitive} :
    (∃ content, primitive.encode = .ok content) ↔ primitive.Representable := by
  cases primitive with
  | boolean | integer | enumerated | bitString | octetString | null =>
    simp [encode, Representable]
  | objectIdentifier => exact ObjectIdentifier.exists_encode_iff
  | characterString string =>
    rw [encode, Representable, CharacterString.exists_encode_iff_allowed]
    exact forall₂_congr fun c _ => (string.kind.permits_iff c).symm
  | utcTime instant => exact Time.Utc.exists_encode_iff instant
  | generalizedTime instant => exact Time.Generalized.exists_encode_iff instant

/-- The error is about what was to be encoded. -/
def Error.IsUnencodable (error : Error) : Prop := ∃ cause, error.rootCause = .unencodable cause

theorem Error.IsUnencodable.inField {source : Error} (h : source.IsUnencodable) (index : Nat)
    (name : String) : (Error.inField index name source).IsUnencodable := h

/-- A field fails for its value, never for its tag. -/
theorem Field.source_of_encodingCall {field : Field} {policy : Policy} {value : Value}
    {source : Error} (h : (field.encodingCall policy value).Fails source) :
    value.encoding policy = .error source := by
  unfold encodingCall at h
  cases htagging : field.tagging policy with
  | none =>
    rw [htagging] at h
    exact h
  | some tagging =>
    rw [htagging] at h
    rcases bind_eq_error_iff.1 h with hvalue | ⟨bare, hbare, happly⟩
    · exact hvalue
    · obtain ⟨wrapped, hwrapped⟩ := Value.exists_apply hbare tagging
      rw [hwrapped] at happly
      cases happly

namespace Value

/-- What a value itself must be like for there to be an encoding. -/
def Representable : Value → Prop
  | .leaf primitive => primitive.Representable
  | .any raw => raw ≠ []
  | value => value.Gapless

/-- Nothing is said about what is held, only that it is held in a place. -/
def InPlace : Value → Prop := Holding fun _ _ => True

variable {defs : Definitions}

/-- What callers can build. Besides the operations on a value there are those by which its parts
can be taken out, worked on as values of their own and put back, where no type is checked. -/
inductive Built (defs : Definitions) : Value → Prop where
  | leaf (primitive : Primitive) : Built defs (.leaf primitive)
  | emptyAny : Built defs (.any [])
  | anyOfOctets {raw : Octets} {value : Value} (h : anyOfOctets raw = .ok value) :
      Built defs value
  | anyOfValue {content value : Value} (hcontent : Built defs content)
      (h : anyOfValue content = .ok value) : Built defs value
  | fresh {value : Value} (h : Fresh value) : Built defs value
  | tagged {tagging : Tagging} {inner : Value} {own : Option Policy} (hinner : Built defs inner) :
      Built defs (.tagged tagging inner own)
  | changed {given : Value → Prop} {before after : Value} (hbefore : Built defs before)
      (hgiven : ∀ part, given part → Built defs part) (h : Changes defs given before after) :
      Built defs after
  | part {value part : Value} (hvalue : Built defs value) (h : Contains value part) :
      Built defs part
  | putBack {grouping : Grouping} {slots : List (Slot Value)} {own : Option Policy} {index : Nat}
      {slot : Slot Value} {part : Value} (hvalue : Built defs (.record grouping slots own))
      (hslot : slots[index]? = some slot) (hset : slot.content ≠ none) (hpart : Built defs part) :
      Built defs (.record grouping (slots.set index ⟨slot.field, some part⟩) own)
  | regroupedRecord {grouping : Grouping} {slots : List (Slot Value)} {own : Option Policy}
      (hvalue : Built defs (.record grouping slots own)) (other : Grouping) :
      Built defs (.record other slots own)
  | regroupedElements {grouping : Grouping} {type : String} {items : List Value}
      {own : Option Policy} (hvalue : Built defs (.elements grouping type items own))
      (other : Grouping) : Built defs (.elements other type items own)

theorem DecodesTo.inPlace {value result : Value} (h : DecodesTo defs value result) :
    result.Throughout InPlace := by
  have hknown : (fun _ : Value => True) result := trivial
  exact h.typed.throughout_holding hknown (fun _ => trivial) fun _ _ _ => ⟨trivial, trivial⟩

theorem inPlace_iff {value : Value} :
    value.Throughout InPlace ↔ value.Holding fun _ part => part.Throughout InPlace := by
  unfold InPlace
  rw [throughout_holding_iff]
  simp only [true_and]

theorem Built.inPlace {value : Value} (h : Built defs value) : value.Throughout InPlace := by
  induction h with
  | leaf => exact throughout_leaf.2 trivial
  | emptyAny => exact throughout_any.2 trivial
  | anyOfOctets h =>
    obtain ⟨-, rfl⟩ := anyOfOctets_eq_ok_iff.1 h
    exact throughout_any.2 trivial
  | anyOfValue _ h =>
    obtain ⟨_, -, rfl⟩ := map_eq_ok_iff.1 h
    exact throughout_any.2 trivial
  | fresh h => exact throughout_holding_iff.2 h.holding
  | tagged _ ih => exact throughout_tagged.2 ⟨ih.self, ih⟩
  | changed _ _ h ihbefore ihgiven =>
    refine inPlace_iff.2 (h.holding (inPlace_iff.1 ihbefore) ?_ ?_)
    · intro _ part hpart _
      exact ihgiven part hpart
    · intro result hresult
      exact inPlace_iff.1 hresult.inPlace
  | part _ h ih => exact ih.part h
  | putBack _ _ _ _ ihvalue ihpart =>
    refine inPlace_iff.2 (holding_set (inPlace_iff.1 ihvalue) ?_)
    rintro _ ⟨⟩
    exact ihpart
  | regroupedRecord _ _ ih =>
    obtain ⟨hself, hparts⟩ := throughout_record.1 ih
    exact throughout_record.2 ⟨hself, hparts⟩
  | regroupedElements _ _ ih =>
    obtain ⟨hself, hitems⟩ := throughout_elements.1 ih
    exact throughout_elements.2 ⟨hself, hitems⟩

theorem ready_iff_representable {value : Value} (h : value.InPlace) :
    value.Ready ↔ value.Representable := by
  match value with
  | .leaf primitive => exact Primitive.exists_encode_iff
  | .record _ _ _ | .elements _ _ _ _ | .tagged _ _ _ | .any _ => rfl
  | .choice _ none _ => simp [Ready, Representable, Gapless]
  | .choice alternatives (some ⟨index, part⟩) _ =>
    obtain ⟨field, hfield, -⟩ := h
    obtain ⟨hindex, -⟩ := List.getElem?_eq_some_iff.1 hfield
    simp [Ready, Representable, Gapless, hindex]

section Failures

variable {policy : Policy}

theorem encodeSlots_unencodable {slots : List (Slot Value)}
    (h : ∀ slot ∈ slots, ∀ part ∈ slot.content,
      FailsWith Error.IsUnencodable (part.encoding policy)) (index : Nat) :
    FailsWith Error.IsUnencodable (encodeSlots policy index slots) := by
  intro error herror
  obtain ⟨before, _, slot, after, rfl, -, hfails⟩ := encodeSlots_fails herror
  cases hfails with
  | notSet => exact ⟨_, rfl⟩
  | failed hsource =>
    have hpart := h _ (List.mem_append_right before List.mem_cons_self) _ rfl
    exact (hpart _ (Field.source_of_encodingCall hsource)).inField _ _

theorem encodeItems_unencodable {items : List Value}
    (h : ∀ item ∈ items, FailsWith Error.IsUnencodable (item.encoding policy)) (index : Nat) :
    FailsWith Error.IsUnencodable (encodeItems policy index items) := by
  intro error herror
  obtain ⟨before, _, item, after, source, rfl, -, hsource, rfl⟩ := encodeItems_fails herror
  have hitem := h item (List.mem_append_right before List.mem_cons_self)
  exact (hitem source hsource).inField _ _

/-- Encoding fails for a reason that is in the value, if all that is held is held in a place. -/
theorem encoding_unencodable {value : Value} (h : value.Throughout InPlace) :
    FailsWith Error.IsUnencodable (value.encoding policy) := by
  induction value using contains_induction generalizing policy with
  | h value ih =>
    intro error herror
    cases value with
    | leaf primitive =>
      rw [Value.encoding] at herror
      split at herror
      · cases herror
        exact ⟨_, rfl⟩
      · cases herror
    | record =>
      rw [Value.encoding] at herror
      split at herror
      · rename_i hslots
        cases herror
        refine encodeSlots_unencodable ?_ 0 error hslots
        intro slot hslot part hpart
        exact ih part (.slot hslot hpart) (h.part (.slot hslot hpart))
      · cases herror
    | elements =>
      rw [Value.encoding] at herror
      split at herror
      · rename_i hitems
        cases herror
        refine encodeItems_unencodable ?_ 0 error hitems
        intro item hitem
        exact ih item (.item hitem) (h.part (.item hitem))
      · cases herror
    | choice alternatives selection own =>
      rcases selection with _ | ⟨index, part⟩
      · cases herror
        exact ⟨_, rfl⟩
      · obtain ⟨field, hfield, -⟩ := h.self
        rw [Value.encoding, hfield] at herror
        simp only at herror
        split at herror
        · rename_i hencode
          cases herror
          obtain ⟨source, hsource, rfl⟩ := Field.encode_eq_error_iff.1 hencode
          have hsource := Field.source_of_encodingCall hsource
          exact (ih part .selected (h.part .selected) source hsource).inField _ _
        · cases herror
    | tagged tagging inner =>
      rw [Value.encoding] at herror
      split at herror
      · rename_i hinner
        cases herror
        exact ih inner .inner (h.part .inner) _ hinner
      · rename_i hinner
        obtain ⟨wrapped, hwrapped⟩ := exists_apply hinner tagging
        rw [hwrapped] at herror
        cases herror
    | any =>
      rw [Value.encoding] at herror
      split at herror
      · cases herror
        exact ⟨_, rfl⟩
      · cases herror

end Failures

/-- What callers can build is encoded, under one policy as under all others, if nothing at any
depth is missing or has no place in the octets. All errors are about that. -/
theorem built_encodes_iff_representable {value : Value} (h : Built defs value) (policy : Policy) :
    ((∃ octets, value.encode policy = .ok octets) ↔ value.Throughout Representable) ∧
      ∀ error, value.encode policy = .error error →
        ∃ cause, error.rootCause = .unencodable cause := by
  have hplaces := h.inPlace
  constructor
  · rw [exists_encode_iff, encodes_iff_throughout]
    exact forall₂_congr fun part hpart => ready_iff_representable (hplaces part hpart)
  · intro error herror
    exact encoding_unencodable hplaces error (map_eq_error_iff.1 herror)

/-- A required field is not set, below a re-tag. -/
theorem unset_number_not_representable :
    ¬ (Value.tagged ⟨.application, 1, .explicit⟩
      (emptyRecord .sequence [⟨"number", some 0, none, false, "number"⟩]) none).Throughout
      Representable := by
  have hbuilt : Built ⟨[("number", .leaf (.integer 0))]⟩
      (.tagged ⟨.application, 1, .explicit⟩
        (emptyRecord .sequence [⟨"number", some 0, none, false, "number"⟩]) none) :=
    .tagged (.fresh (.record _ _))
  have hfails : (Value.tagged ⟨.application, 1, .explicit⟩
      (emptyRecord .sequence [⟨"number", some 0, none, false, "number"⟩]) none).encode .der =
      .error (.unencodable (.fieldNotSet 0 "number")) := by cbv
  rw [← (built_encodes_iff_representable hbuilt .der).1, hfails]
  rintro ⟨_, ⟨⟩⟩

end Value

end Asn1
