import Asn1.Proofs.Value.Encoding
import Asn1.Proofs.Value.Parts
import Asn1.Proofs.Value.Stepwise

/-!
Policies on their way down. An override stands for the policy that a value is used under, and
only for that one: a value that carries it does what the value without it does where it inherits
the same policy. So it makes no difference to an encoding whether a policy is inherited or carried.
-/

namespace Asn1

namespace Value

/-- Values that can carry an override. -/
def IsComposite : Value → Prop
  | .leaf _ => False
  | .any _ => False
  | _ => True

@[simp] theorem hasOwnTag_setPolicy (value : Value) (own : Option Policy) :
    (value.setPolicy own).hasOwnTag = value.hasOwnTag := by
  cases value <;> rfl

@[simp] theorem isConstructed_setPolicy (value : Value) (own : Option Policy) :
    (value.setPolicy own).isConstructed = value.isConstructed := by
  cases value with
  | choice _ selection _ => cases selection <;> rfl
  | leaf | record | elements | tagged | any => rfl

theorem cleared_setPolicy (value : Value) (own : Option Policy) :
    (value.setPolicy own).cleared = value.cleared.setPolicy own := by
  cases value <;> rfl

theorem setPolicy_of_policy?_eq {value : Value} {own : Option Policy} (h : value.policy? = own) :
    value.setPolicy own = value := by
  subst h
  cases value <;> rfl

theorem resolve_withPolicy {value : Value} (h : value.IsComposite) (own policy : Policy) :
    (value.withPolicy own).resolve policy = own := by
  cases value with
  | leaf | any => cases h
  | record | elements | choice | tagged => rfl

end Value

namespace Tagging

@[simp] theorem modeFor_setPolicy (tagging : Tagging) (inner : Value) (own : Option Policy) :
    tagging.modeFor (inner.setPolicy own) = tagging.modeFor inner := by
  rw [modeFor, Value.hasOwnTag_setPolicy, modeFor]

@[simp] theorem outerTag_setPolicy (tagging : Tagging) (inner : Value) (own : Option Policy) :
    tagging.outerTag (inner.setPolicy own) = tagging.outerTag inner := by
  rw [outerTag, modeFor_setPolicy, Value.isConstructed_setPolicy, outerTag]

end Tagging

namespace Value

section Encoding

/-- An override takes the place of whatever is inherited. -/
theorem encoding_withPolicy (value : Value) (own policy : Policy) :
    (value.withPolicy own).encoding policy = (value.setPolicy none).encoding own := by
  cases value with
  | leaf | any => rfl
  | record | elements | tagged => rw [withPolicy, setPolicy, encoding, setPolicy, encoding]; rfl
  | choice _ selection _ =>
    cases selection with
    | none => rfl
    | some => rw [withPolicy, setPolicy, encoding, setPolicy, encoding]; rfl

/-- In `value`, used under `policy`, stands `part`, which would be used under `inherited` if it
carried no override. `put` puts another value in its place. -/
inductive Inherits : Policy → Value → Policy → Value → (Value → Value) → Prop where
  | self (policy : Policy) (value : Value) : Inherits policy value policy value id
  | slot {policy inherited : Policy} {grouping : Grouping} {before after : List (Slot Value)}
      {field : Field} {content part : Value} {own : Option Policy} {put : Value → Value}
      (h : Inherits (own.getD policy) content inherited part put) :
      Inherits policy (.record grouping (before ++ ⟨field, some content⟩ :: after) own) inherited
        part fun new => .record grouping (before ++ ⟨field, some (put new)⟩ :: after) own
  | item {policy inherited : Policy} {grouping : Grouping} {type : String}
      {before after : List Value} {item part : Value} {own : Option Policy} {put : Value → Value}
      (h : Inherits (own.getD policy) item inherited part put) :
      Inherits policy (.elements grouping type (before ++ item :: after) own) inherited part
        fun new => .elements grouping type (before ++ put new :: after) own
  | selected {policy inherited : Policy} {alternatives : List Field} {index : Nat}
      {content part : Value} {own : Option Policy} {put : Value → Value}
      (h : Inherits (own.getD policy) content inherited part put) :
      Inherits policy (.choice alternatives (some ⟨index, content⟩) own) inherited part
        fun new => .choice alternatives (some ⟨index, put new⟩) own
  | inner {policy inherited : Policy} {tagging : Tagging} {content part : Value}
      {own : Option Policy} {put : Value → Value}
      (h : Inherits (own.getD policy) content inherited part put) :
      Inherits policy (.tagged tagging content own) inherited part
        fun new => .tagged tagging (put new) own

theorem encodeSlots_congr {policy : Policy} {a b : Value}
    (hencoding : a.encoding policy = b.encoding policy) (htag : a.hasOwnTag = b.hasOwnTag)
    (before after : List (Slot Value)) (field : Field) (index : Nat) :
    encodeSlots policy index (before ++ ⟨field, some a⟩ :: after) =
      encodeSlots policy index (before ++ ⟨field, some b⟩ :: after) := by
  induction before generalizing index with
  | nil =>
    rw [List.nil_append, List.nil_append, encodeSlots, encodeSlots, hencoding,
      Field.encode_congr rfl rfl htag]
  | cons slot before ih =>
    obtain ⟨other, content⟩ := slot
    cases content with
    | none => rw [List.cons_append, List.cons_append, encodeSlots, encodeSlots, ih]
    | some value => rw [List.cons_append, List.cons_append, encodeSlots, encodeSlots, ih]

theorem encodeItems_congr {policy : Policy} {a b : Value}
    (hencoding : a.encoding policy = b.encoding policy) (before after : List Value) (index : Nat) :
    encodeItems policy index (before ++ a :: after) =
      encodeItems policy index (before ++ b :: after) := by
  induction before generalizing index with
  | nil => rw [List.nil_append, List.nil_append, encodeItems, encodeItems, hencoding]
  | cons item before ih =>
    rw [List.cons_append, List.cons_append, encodeItems, encodeItems, ih]

namespace Inherits

variable {policy inherited : Policy} {value part : Value} {put : Value → Value}

/-- What is put back where it was taken from makes no change. -/
theorem put_part (h : Inherits policy value inherited part put) : put part = value := by
  induction h with
  | self => rfl
  | slot _ ih | item _ ih | selected _ ih | inner _ ih => simp only [ih]

theorem hasOwnTag_put (h : Inherits policy value inherited part put) {a b : Value}
    (htag : a.hasOwnTag = b.hasOwnTag) : (put a).hasOwnTag = (put b).hasOwnTag := by
  cases h with
  | self => exact htag
  | slot | item | selected | inner => rfl

/-- All that is taken over from the part is its encoding, and whether it has a tag. -/
theorem encoding_put (h : Inherits policy value inherited part put) {a b : Value}
    (hencoding : a.encoding inherited = b.encoding inherited)
    (htag : a.hasOwnTag = b.hasOwnTag) : (put a).encoding policy = (put b).encoding policy := by
  induction h with
  | self => exact hencoding
  | slot hpart ih =>
    rw [encoding, encoding, encodeSlots_congr (ih hencoding) (hpart.hasOwnTag_put htag)]
  | item _ ih => rw [encoding, encoding, encodeItems_congr (ih hencoding)]
  | selected hpart ih =>
    simp only [encoding, ih hencoding, Field.encode_congr rfl rfl (hpart.hasOwnTag_put htag)]
  | inner hpart ih =>
    simp only [encoding, ih hencoding, Tagging.apply_congr (hpart.hasOwnTag_put htag)]

end Inherits

/-- Everything inside a value has its place there. -/
theorem exists_inherits {value part : Value} (h : Relation.ReflTransGen Contains value part)
    (policy : Policy) : ∃ inherited put, Inherits policy value inherited part put := by
  induction h using Relation.ReflTransGen.head_induction_on generalizing policy with
  | refl => exact ⟨policy, id, .self policy part⟩
  | head hfirst _ ih =>
    cases hfirst with
    | @slot _ slots own slot _ hslot hpart =>
      obtain ⟨inherited, put, hplace⟩ := ih (own.getD policy)
      obtain ⟨before, after, rfl⟩ := List.append_of_mem hslot
      obtain ⟨field, content⟩ := slot
      cases hpart
      exact ⟨inherited, _, .slot hplace⟩
    | @item _ _ items own _ hpart =>
      obtain ⟨inherited, put, hplace⟩ := ih (own.getD policy)
      obtain ⟨before, after, rfl⟩ := List.append_of_mem hpart
      exact ⟨inherited, _, .item hplace⟩
    | @selected _ _ _ own =>
      obtain ⟨inherited, put, hplace⟩ := ih (own.getD policy)
      exact ⟨inherited, _, .selected hplace⟩
    | @inner _ _ own =>
      obtain ⟨inherited, put, hplace⟩ := ih (own.getD policy)
      exact ⟨inherited, _, .inner hplace⟩

end Encoding

section Decoding

variable {defs : Definitions} {value : Value}

theorem decodeFrom_withPolicy (hcomposite : value.IsComposite) (hnone : value.policy? = none)
    (depth : Nat) (own policy : Policy) (source : Source) :
    decodeFrom defs depth policy (value.withPolicy own) source =
      (decodeFrom defs depth own value source).map (·.withPolicy own) := by
  cases value with
  | leaf | any => cases hcomposite
  | record =>
    cases hnone
    rw [withPolicy, setPolicy, decodeFrom_record_eq, decodeFrom_record_eq]
    simp only [map_bind, map_map]
    rfl
  | elements =>
    cases hnone
    rw [withPolicy, setPolicy, decodeFrom_elements_eq, decodeFrom_elements_eq]
    simp only [map_bind, map_map]
    rfl
  | choice =>
    cases hnone
    cases source with
    | below => rw [withPolicy, setPolicy, decodeFrom_choice_below, decodeFrom_choice_below]; rfl
    | element =>
      cases depth with
      | zero => rw [withPolicy, setPolicy, decodeFrom_choice_zero, decodeFrom_choice_zero]; rfl
      | succ =>
        rw [withPolicy, setPolicy, decodeFrom_choice_eq, decodeFrom_choice_eq]
        simp only [map_bind, map_map]
        rfl
  | tagged =>
    cases hnone
    rw [withPolicy, setPolicy, decodeFrom_tagged_eq, decodeFrom_tagged_eq]
    simp only [map_map]
    rfl

theorem decodeUnder_withPolicy (hcomposite : value.IsComposite) (hnone : value.policy? = none)
    (tagging : Tagging) (own : Policy) (source : Source) :
    decodeUnder defs own tagging (value.withPolicy own) source =
      (decodeUnder defs own tagging value source).map (·.withPolicy own) := by
  have hvalue := @decodeFrom_withPolicy defs value hcomposite hnone defs.choiceLimit own own
  rw [decodeUnder_eq, decodeUnder_eq, withPolicy, Tagging.outerTag_setPolicy,
    Tagging.modeFor_setPolicy, ← withPolicy, map_bind]
  congr 1
  funext content
  cases tagging.modeFor value with
  | explicit =>
    simp only [hvalue, map_bind, bind_map]
    congr 1
    funext wrapped
    congr 1
    funext decoded
    split <;> rfl
  | implicit => exact hvalue (.below content)

variable (defs)

theorem decode_withPolicy (hcomposite : value.IsComposite) (hnone : value.policy? = none)
    (own policy : Policy) (octets : Octets) :
    decode defs (value.withPolicy own) octets policy =
      (decode defs value octets own).map (·.withPolicy own) := by
  have hcleared : value.cleared.IsComposite := by cases value <;> exact hcomposite
  have hresolve : value.resolve own = own := resolve_of_policy?_eq_none hnone own
  rw [decode_eq, decode_eq, resolve_withPolicy hcomposite, hresolve, withPolicy, cleared_setPolicy,
    ← withPolicy, ← decodeRoot_map]
  simp only [decodeFrom_withPolicy hcleared (policy?_cleared value ▸ hnone)]

theorem taggedDecode_withPolicy (hcomposite : value.IsComposite) (hnone : value.policy? = none)
    (own policy : Policy) (tagging : Tagging) (octets : Octets) :
    taggedDecode defs (value.withPolicy own) tagging octets policy =
      (taggedDecode defs value tagging octets own).map (·.withPolicy own) := by
  have hcleared : value.cleared.IsComposite := by cases value <;> exact hcomposite
  have hresolve : value.resolve own = own := resolve_of_policy?_eq_none hnone own
  rw [taggedDecode_eq, taggedDecode_eq, resolve_withPolicy hcomposite, hresolve, withPolicy,
    cleared_setPolicy, ← withPolicy, ← decodeRoot_map]
  simp only [decodeUnder_withPolicy hcleared (policy?_cleared value ▸ hnone)]

end Decoding

/-- The first value under the one policy and the second under the other have the same octets, or
the same error, however they are asked for. -/
structure SameEncodings (a : Value) (policy : Policy) (b : Value) (policy' : Policy) : Prop where
  encode : a.encode policy = b.encode policy'
  parts : a.encodeParts policy = b.encodeParts policy'
  tagged (tagging : Tagging) : a.taggedEncode tagging policy = b.taggedEncode tagging policy'

theorem sameEncodings_of_encoding {a b : Value} {policy policy' : Policy}
    (hencoding : a.encoding policy = b.encoding policy') (htag : a.hasOwnTag = b.hasOwnTag) :
    SameEncodings a policy b policy' where
  encode := by rw [Value.encode, hencoding, Value.encode]
  parts := by rw [encodeParts, hencoding, encodeParts]
  tagged tagging := by
    rw [taggedEncode, hencoding, taggedEncode]
    simp only [Tagging.apply_congr htag]

/-- A policy does the same whether a value carries it or inherits it. What is decoded keeps the
override and is else the same. Inside a value, where everything has its place, an override that
equals what would be inherited there is as good as none, so giving it to what has none changes
no encoding. -/
theorem carried_as_inherited (defs : Definitions) (value : Value) (policy : Policy) :
    (value.IsComposite → value.policy? = none → ∀ own,
      SameEncodings (value.withPolicy own) policy value own ∧
      (∀ octets, decode defs (value.withPolicy own) octets policy =
        (decode defs value octets own).map (·.withPolicy own)) ∧
      ∀ tagging octets, taggedDecode defs (value.withPolicy own) tagging octets policy =
        (taggedDecode defs value tagging octets own).map (·.withPolicy own)) ∧
    (∀ part, Relation.ReflTransGen Contains value part →
      ∃ inherited put, Inherits policy value inherited part put) ∧
    ∀ inherited part put, Inherits policy value inherited part put →
      SameEncodings (put (part.withPolicy inherited)) policy (put (part.setPolicy none)) policy ∧
      (part.policy? = none →
        SameEncodings (put (part.withPolicy inherited)) policy value policy) := by
  refine ⟨?_, fun part hpart => exists_inherits hpart policy, ?_⟩
  · intro hcomposite hnone own
    refine ⟨?_, decode_withPolicy defs hcomposite hnone own policy, ?_⟩
    · have hencoding := encoding_withPolicy value own policy
      rw [setPolicy_of_policy?_eq hnone] at hencoding
      exact sameEncodings_of_encoding hencoding (hasOwnTag_setPolicy value _)
    · exact taggedDecode_withPolicy defs hcomposite hnone own policy
  · intro inherited part put hplace
    have hpart : (part.withPolicy inherited).encoding inherited =
        (part.setPolicy none).encoding inherited := encoding_withPolicy part inherited inherited
    have htag : (part.withPolicy inherited).hasOwnTag = (part.setPolicy none).hasOwnTag := by
      rw [withPolicy, hasOwnTag_setPolicy, hasOwnTag_setPolicy]
    have halike := sameEncodings_of_encoding (hplace.encoding_put hpart htag)
      (hplace.hasOwnTag_put htag)
    refine ⟨halike, ?_⟩
    intro hnone
    rw [setPolicy_of_policy?_eq hnone, hplace.put_part] at halike
    exact halike

/-- Implicit tags for a SEQUENCE in a SEQUENCE, asked for around both, by the outer one and by
the inner one. -/
theorem implicit_tags_carried_as_inherited :
    ((Value.record .sequence [⟨⟨"body", some 1, none, false, "body"⟩,
        some (.record .sequence [⟨⟨"x", some 0, none, false, "x"⟩, some (.leaf (.integer 5))⟩]
          none)⟩] none).withPolicy (Policy.der.withTagging .implicit)).encode .der =
        .ok [0x30, 0x05, 0xA1, 0x03, 0x80, 0x01, 0x05] ∧
      (Value.record .sequence [⟨⟨"body", some 1, none, false, "body"⟩,
        some (.record .sequence [⟨⟨"x", some 0, none, false, "x"⟩, some (.leaf (.integer 5))⟩]
          (some (Policy.der.withTagging .implicit)))⟩] none).encode
          (Policy.der.withTagging .implicit) =
        .ok [0x30, 0x05, 0xA1, 0x03, 0x80, 0x01, 0x05] := by
  have hvalue : (Value.record .sequence [⟨⟨"body", some 1, none, false, "body"⟩,
      some (.record .sequence [⟨⟨"x", some 0, none, false, "x"⟩, some (.leaf (.integer 5))⟩]
        none)⟩] none).encode (Policy.der.withTagging .implicit) =
      .ok [0x30, 0x05, 0xA1, 0x03, 0x80, 0x01, 0x05] := by rfl
  constructor
  · exact ((carried_as_inherited ⟨[]⟩ _ _).1 (by trivial) (by rfl) _).1.encode.trans hvalue
  · have hplace := @Inherits.slot _ _ .sequence [] []
      ⟨"body", some 1, none, false, "body"⟩ _ _ none _ (.self (Policy.der.withTagging .implicit)
        (.record .sequence [⟨⟨"x", some 0, none, false, "x"⟩, some (.leaf (.integer 5))⟩] none))
    exact (((carried_as_inherited ⟨[]⟩ _ _).2.2 _ _ _ hplace).2 (by rfl)).encode.trans hvalue

end Value

end Asn1
