import Asn1.Proofs.Tlv
import Asn1.Proofs.Value.Template
import Asn1.Value.Encode

/-!
When encoding succeeds, and with what. The indices of fields and items only show in
errors.
-/

namespace Asn1

namespace Source

/-- The encoding lies in the source, less its tag where that has been replaced. -/
def Holds : Source → Encoding → Prop
  | .element tlv, encoding => tlv.raw = encoding.octets
  | .below content, .parts tag octets =>
    content.constructed = tag.constructed ∧ content.octets = octets
  | .below _, .whole _ => False

/-- An element is one that can be read. -/
def Legible (rules : Rules) : Source → Prop
  | .element tlv => tlv.Legible rules
  | .below _ => True

theorem holds_of_contentUnder {expected : Tag} {source : Source} {content : Content}
    (hcontent : source.contentUnder expected = .ok content)
    (hsource : source.Legible .distinguished) :
    source.Holds (.parts (expected.withConstructed content.constructed) content.octets) := by
  cases source with
  | element tlv =>
    obtain ⟨hsame, rfl⟩ := contentUnder_element.1 hcontent
    have htag : expected.withConstructed tlv.tag.constructed = tlv.tag := by
      simp only [Tag.sameIdentity, Bool.and_eq_true, beq_iff_eq] at hsame
      rw [Tag.withConstructed, hsame.1, hsame.2]
    rw [Holds, htag]
    exact Tlv.Legible.raw_eq_encode hsource
  | below =>
    cases hcontent
    exact ⟨rfl, rfl⟩

theorem contentUnder_of_holds {expected tag : Tag} {source : Source} {octets : Octets}
    {rules : Rules} (hholds : source.Holds (.parts tag octets)) (hsource : source.Legible rules)
    (hlength : octets.length < Length.limit) (hsame : expected.sameIdentity tag = true) :
    ∃ content, source.contentUnder expected = .ok content ∧
      content.constructed = tag.constructed ∧ content.octets = octets := by
  cases source with
  | element tlv =>
    obtain ⟨htag, hoctets⟩ := Tlv.Legible.tag_and_content hsource hlength hholds
    exact ⟨_, contentUnder_element.2 ⟨htag ▸ hsame, rfl⟩, congrArg Tag.constructed htag, hoctets⟩
  | below content => exact ⟨content, rfl, hholds⟩

end Source

namespace Tagging

theorem apply_eq_ok_iff {tagging : Tagging} {inner : Value} {encoding wrapped : Encoding} :
    tagging.apply inner encoding = .ok wrapped ↔
      (tagging.modeFor inner = .explicit ∧
        wrapped = .parts (tagging.tag true) encoding.octets) ∨
      (tagging.modeFor inner = .implicit ∧ ∃ tag content, encoding.split = .ok (tag, content) ∧
        wrapped = .parts (tagging.tag tag.constructed) content) := by
  rw [apply]
  grind

/-- Whether a value has a tag of its own is all that a tag has to know about it. -/
theorem apply_congr {a b : Value} (h : a.hasOwnTag = b.hasOwnTag) (tagging : Tagging)
    (encoding : Encoding) : tagging.apply a encoding = tagging.apply b encoding := by
  rw [apply, modeFor, h, ← modeFor, ← apply]

end Tagging

namespace Field

theorem encode_eq_ok_iff {field : Field} {index : Nat} {policy : Policy} {value : Value}
    {encoding : Except Error Encoding} {octets : Octets} :
    field.encode index policy value encoding = .ok octets ↔
      ∃ bare wrapped, encoding = .ok bare ∧ field.wrap policy value bare = .ok wrapped ∧
        octets = wrapped.octets := by
  rw [encode.eq_def]
  grind

theorem wrap_eq_ok_iff {field : Field} {policy : Policy} {value : Value}
    {bare wrapped : Encoding} :
    field.wrap policy value bare = .ok wrapped ↔
      (field.tagging policy = none ∧ bare = wrapped) ∨
      ∃ tagging, field.tagging policy = some tagging ∧ tagging.apply value bare = .ok wrapped := by
  rw [wrap]
  grind

/-- What a field makes of an encoding depends on its name, on its tagging and on whether the value has
a tag of its own. -/
theorem encode_congr {field field' : Field} {p q : Policy} {a b : Value}
    (hname : field.name = field'.name) (htagging : field.tagging p = field'.tagging q)
    (htag : a.hasOwnTag = b.hasOwnTag) (index : Nat) (encoding : Except Error Encoding) :
    field.encode index p a encoding = field'.encode index q b encoding := by
  have hwrap (encoding : Encoding) : field.wrap p a encoding = field'.wrap q b encoding := by
    rw [wrap, wrap, htagging]
    cases field'.tagging q with
    | none => rfl
    | some tagging => exact Tagging.apply_congr htag tagging encoding
  cases encoding with
  | error => rw [encode, encode, hname]
  | ok encoding => rw [encode, encode, hwrap, hname]

end Field

namespace Value

section RawTag

theorem rawTag?_tag_append (tag : Tag) (rest : Octets) :
    rawTag? (tag.encode ++ rest) = some tag := by
  rw [rawTag?, Tag.decode_encode]

theorem rawTag?_encode (tag : Tag) (content : Octets) :
    rawTag? (Tlv.encode tag content) = some tag := by
  rw [Tlv.encode, Tlv.headerOctets, List.append_assoc, rawTag?_tag_append]

theorem rawTag?_append {front : Octets} {tag : Tag} (h : rawTag? front = some tag)
    (more : Octets) : rawTag? (front ++ more) = some tag := by
  rw [rawTag?] at h
  split at h
  · rename_i hdecode
    cases h
    rw [Tag.encode_of_decode hdecode, List.append_assoc, rawTag?_tag_append]
  · cases h

theorem rawTag?_of_read {rules : Rules} {offset : Nat} {octets rest : Octets} {tlv : Tlv}
    (h : Tlv.read rules offset octets = .ok (tlv, rest)) : rawTag? octets = some tlv.tag := by
  obtain ⟨-, written, length, hheader, hoctets, -⟩ := Tlv.parts_of_read h
  rw [hoctets, Tlv.raw, hheader]
  simp only [List.append_assoc, rawTag?_tag_append]

end RawTag

variable {policy : Policy} {encoding : Encoding} {octets : Octets}

section Rules

-- The equations of the three functions are made here, once for all the proofs that open them.
attribute [local grind =] Value.encoding encodeSlots encodeItems

theorem encoding_leaf {primitive : Primitive} :
    (Value.leaf primitive).encoding policy = .ok encoding ↔
      ∃ content, primitive.encode = .ok content ∧ encoding = .parts primitive.tag content := by
  rw [Value.encoding]
  grind

theorem encoding_record {grouping : Grouping} {slots : List (Slot Value)}
    {own : Option Policy} :
    (Value.record grouping slots own).encoding policy = .ok encoding ↔
      ∃ content, encodeSlots (own.getD policy) 0 slots = .ok content ∧
        encoding = .parts grouping.tag content := by
  rw [Value.encoding]
  grind

theorem encoding_elements {grouping : Grouping} {type : String} {items : List Value}
    {own : Option Policy} :
    (Value.elements grouping type items own).encoding policy = .ok encoding ↔
      ∃ content, encodeItems (own.getD policy) 0 items = .ok content ∧
        encoding = .parts grouping.tag content := by
  rw [Value.encoding]
  grind

theorem encoding_choice {alternatives : List Field} {selection : Option (Selection Value)}
    {own : Option Policy} :
    (Value.choice alternatives selection own).encoding policy = .ok encoding ↔
      ∃ index value field raw, selection = some ⟨index, value⟩ ∧
        alternatives[index]? = some field ∧
        field.encode index (own.getD policy) value (value.encoding (own.getD policy)) = .ok raw ∧
        encoding = .whole raw := by
  cases selection with
  | none =>
    rw [Value.encoding]
    grind
  | some selection =>
    rw [Value.encoding]
    grind

theorem encoding_tagged {tagging : Tagging} {inner : Value} {own : Option Policy} :
    (Value.tagged tagging inner own).encoding policy = .ok encoding ↔
      ∃ bare, inner.encoding (own.getD policy) = .ok bare ∧
        tagging.apply inner bare = .ok encoding := by
  rw [Value.encoding]
  grind

theorem encoding_any {raw : Octets} :
    (Value.any raw).encoding policy = .ok encoding ↔ raw ≠ [] ∧ encoding = .whole raw := by
  rw [Value.encoding]
  grind [List.isEmpty_iff]

theorem encodeSlots_nil {index : Nat} :
    encodeSlots policy index [] = .ok octets ↔ octets = [] := by
  rw [encodeSlots]
  grind

theorem encodeSlots_unset {index : Nat} {field : Field} {rest : List (Slot Value)} :
    encodeSlots policy index (⟨field, none⟩ :: rest) = .ok octets ↔
      field.optional = true ∧ encodeSlots policy (index + 1) rest = .ok octets := by
  rw [encodeSlots]
  grind

theorem encodeSlots_set {index : Nat} {field : Field} {value : Value}
    {rest : List (Slot Value)} :
    encodeSlots policy index (⟨field, some value⟩ :: rest) = .ok octets ↔
      ∃ front more, field.encode index policy value (value.encoding policy) = .ok front ∧
        encodeSlots policy (index + 1) rest = .ok more ∧ octets = front ++ more := by
  rw [encodeSlots]
  grind

theorem encodeItems_nil {index : Nat} :
    encodeItems policy index [] = .ok octets ↔ octets = [] := by
  rw [encodeItems]
  grind

theorem encodeItems_cons {index : Nat} {item : Value} {rest : List Value} :
    encodeItems policy index (item :: rest) = .ok octets ↔
      ∃ front more, item.encoding policy = .ok front ∧
        encodeItems policy (index + 1) rest = .ok more ∧ octets = front.octets ++ more := by
  rw [encodeItems]
  grind

end Rules

theorem encode_eq_ok_iff {value : Value} :
    value.encode policy = .ok octets ↔
      ∃ encoding, value.encoding policy = .ok encoding ∧ encoding.octets = octets :=
  map_eq_ok_iff

theorem taggedEncode_eq_ok_iff {value : Value} {tagging : Tagging} :
    value.taggedEncode tagging policy = .ok octets ↔
      ∃ encoding wrapped, value.encoding policy = .ok encoding ∧
        tagging.apply value encoding = .ok wrapped ∧ wrapped.octets = octets := by
  rw [taggedEncode]
  grind [map_eq_ok_iff]

/-- The policy that a value is encoded under counts only as far as the value resolves
it. -/
theorem encoding_resolve (value : Value) (policy : Policy) :
    value.encoding (value.resolve policy) = value.encoding policy := by
  cases value with
  | leaf => rfl
  | record _ _ own | elements _ _ _ own | tagged _ _ own =>
    rw [resolve, policy?, Value.encoding, Value.encoding]
    cases own <;> rfl
  | choice _ selection own =>
    cases selection with
    | none => rfl
    | some =>
      rw [resolve, policy?, Value.encoding, Value.encoding]
      cases own <;> rfl
  | any => rfl

/-- Only what has a tag of its own is encoded in two parts. -/
theorem hasOwnTag_of_encoding {value : Value} (h : value.encoding policy = .ok encoding) :
    value.hasOwnTag = true ↔ ∃ tag content, encoding = .parts tag content := by
  cases value with
  | leaf =>
    obtain ⟨content, -, rfl⟩ := encoding_leaf.1 h
    simp [hasOwnTag]
  | record =>
    obtain ⟨content, -, rfl⟩ := encoding_record.1 h
    simp [hasOwnTag]
  | elements =>
    obtain ⟨content, -, rfl⟩ := encoding_elements.1 h
    simp [hasOwnTag]
  | choice =>
    obtain ⟨_, _, _, raw, -, -, -, rfl⟩ := encoding_choice.1 h
    simp [hasOwnTag]
  | tagged =>
    obtain ⟨bare, -, hwrapped⟩ := encoding_tagged.1 h
    rcases Tagging.apply_eq_ok_iff.1 hwrapped with ⟨-, rfl⟩ | ⟨-, tag, content, -, rfl⟩ <;>
      simp [hasOwnTag]
  | any =>
    obtain ⟨-, rfl⟩ := encoding_any.1 h
    simp [hasOwnTag]

/-- Encoding under the policy succeeds. -/
def Encodes (policy : Policy) (value : Value) : Prop :=
  ∃ encoding, value.encoding policy = .ok encoding

theorem exists_encode_iff {value : Value} :
    (∃ octets, value.encode policy = .ok octets) ↔ value.Encodes policy := by
  constructor
  · rintro ⟨octets, hencode⟩
    obtain ⟨encoding, hencoding, -⟩ := encode_eq_ok_iff.1 hencode
    exact ⟨encoding, hencoding⟩
  · rintro ⟨encoding, hencoding⟩
    exact ⟨encoding.octets, encode_eq_ok_iff.2 ⟨encoding, hencoding, rfl⟩⟩

/-- A tag can be put on whatever has been encoded. -/
theorem exists_apply {inner : Value} {bare : Encoding} (hbare : inner.encoding policy = .ok bare)
    (tagging : Tagging) : ∃ wrapped, tagging.apply inner bare = .ok wrapped := by
  cases hmode : tagging.modeFor inner with
  | explicit => exact ⟨_, Tagging.apply_eq_ok_iff.2 (.inl ⟨hmode, rfl⟩)⟩
  | implicit =>
    obtain ⟨tag, content, rfl⟩ :=
      (hasOwnTag_of_encoding hbare).1 (Tagging.hasOwnTag_of_implicit hmode)
    exact ⟨_, Tagging.apply_eq_ok_iff.2 (.inr ⟨hmode, tag, content, rfl, rfl⟩)⟩

theorem exists_encode_field_iff {field : Field} {index : Nat} {value : Value} :
    (∃ octets, field.encode index policy value (value.encoding policy) = .ok octets) ↔
      value.Encodes policy := by
  constructor
  · rintro ⟨octets, hencode⟩
    obtain ⟨bare, -, hbare, -⟩ := Field.encode_eq_ok_iff.1 hencode
    exact ⟨bare, hbare⟩
  · rintro ⟨bare, hbare⟩
    obtain ⟨wrapped, hwrapped⟩ : ∃ wrapped, field.wrap policy value bare = .ok wrapped := by
      cases htagging : field.tagging policy with
      | none => exact ⟨bare, Field.wrap_eq_ok_iff.2 (.inl ⟨htagging, rfl⟩)⟩
      | some tagging =>
        obtain ⟨wrapped, hwrapped⟩ := exists_apply hbare tagging
        exact ⟨wrapped, Field.wrap_eq_ok_iff.2 (.inr ⟨tagging, htagging, hwrapped⟩)⟩
    exact ⟨wrapped.octets, Field.encode_eq_ok_iff.2 ⟨bare, wrapped, hbare, hwrapped, rfl⟩⟩

theorem exists_encodeSlots_iff {slots : List (Slot Value)} (index : Nat) :
    (∃ octets, encodeSlots policy index slots = .ok octets) ↔
      ∀ slot ∈ slots, (slot.content = none → slot.field.optional = true) ∧
        ∀ value ∈ slot.content, value.Encodes policy := by
  induction slots generalizing index with
  | nil => simp [encodeSlots_nil]
  | cons slot rest ih =>
    obtain ⟨field, content⟩ := slot
    rw [List.forall_mem_cons]
    cases content with
    | none =>
      simp only [encodeSlots_unset, exists_and_left, ih]
      simp
    | some value =>
      constructor
      · rintro ⟨octets, hencode⟩
        obtain ⟨front, more, hfront, hmore, -⟩ := encodeSlots_set.1 hencode
        refine ⟨⟨nofun, ?_⟩, (ih _).1 ⟨more, hmore⟩⟩
        rintro _ ⟨⟩
        exact exists_encode_field_iff.1 ⟨front, hfront⟩
      · rintro ⟨⟨-, hvalue⟩, hrest⟩
        obtain ⟨front, hfront⟩ := exists_encode_field_iff.2 (hvalue value rfl)
        obtain ⟨more, hmore⟩ := (ih (index + 1)).2 hrest
        exact ⟨_, encodeSlots_set.2 ⟨front, more, hfront, hmore, rfl⟩⟩

theorem exists_encodeItems_iff {items : List Value} (index : Nat) :
    (∃ octets, encodeItems policy index items = .ok octets) ↔
      ∀ item ∈ items, item.Encodes policy := by
  induction items generalizing index with
  | nil => simp [encodeItems_nil]
  | cons item rest ih =>
    rw [List.forall_mem_cons]
    constructor
    · rintro ⟨octets, hencode⟩
      obtain ⟨front, more, hfront, hmore, -⟩ := encodeItems_cons.1 hencode
      exact ⟨⟨front, hfront⟩, (ih _).1 ⟨more, hmore⟩⟩
    · rintro ⟨⟨front, hfront⟩, hrest⟩
      obtain ⟨more, hmore⟩ := (ih (index + 1)).2 hrest
      exact ⟨_, encodeItems_cons.2 ⟨front, more, hfront, hmore, rfl⟩⟩

theorem encodes_leaf {primitive : Primitive} :
    (Value.leaf primitive).Encodes policy ↔ ∃ content, primitive.encode = .ok content := by
  simp only [Encodes, encoding_leaf]
  grind

theorem encodes_record {grouping : Grouping} {slots : List (Slot Value)} {own : Option Policy} :
    (Value.record grouping slots own).Encodes policy ↔
      ∀ slot ∈ slots, (slot.content = none → slot.field.optional = true) ∧
        ∀ value ∈ slot.content, value.Encodes (own.getD policy) := by
  rw [← exists_encodeSlots_iff 0]
  simp only [Encodes, encoding_record]
  grind

theorem encodes_elements {grouping : Grouping} {type : String} {items : List Value}
    {own : Option Policy} :
    (Value.elements grouping type items own).Encodes policy ↔
      ∀ item ∈ items, item.Encodes (own.getD policy) := by
  rw [← exists_encodeItems_iff 0]
  simp only [Encodes, encoding_elements]
  grind

theorem encodes_tagged {tagging : Tagging} {inner : Value} {own : Option Policy} :
    (Value.tagged tagging inner own).Encodes policy ↔ inner.Encodes (own.getD policy) := by
  simp only [Encodes, encoding_tagged]
  constructor
  · rintro ⟨_, bare, hbare, -⟩
    exact ⟨bare, hbare⟩
  · rintro ⟨bare, hbare⟩
    obtain ⟨wrapped, hwrapped⟩ := exists_apply hbare tagging
    exact ⟨wrapped, bare, hbare, hwrapped⟩

end Value

end Asn1
