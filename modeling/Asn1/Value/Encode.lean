import Asn1.Tlv.Basic
import Asn1.Value.Basic

/-!
Encoding. A policy reaches the octets only through the mode it gives to context
tags that name none.
-/

namespace Asn1

/-- An encoding, either still in the two parts that an implicit tag works on or
as complete octets. -/
inductive Encoding where
  | parts (tag : Tag) (content : Octets)
  | whole (raw : Octets)
  deriving DecidableEq, Repr

namespace Encoding

def octets : Encoding → Octets
  | .parts tag content => Tlv.encode tag content
  | .whole raw => raw

def split : Encoding → Except Error (Tag × Octets)
  | .parts tag content => .ok (tag, content)
  | .whole raw =>
    match Tlv.read .basic 0 raw with
    | .error error => .error error
    | .ok (tlv, _) => .ok (tlv.tag, tlv.content)

end Encoding

namespace Tagging

/-- Puts the tag on the encoding of `inner`. -/
def apply (tagging : Tagging) (inner : Value) (encoding : Encoding) : Except Error Encoding :=
  match tagging.modeFor inner with
  | .explicit => .ok (.parts (tagging.tag true) encoding.octets)
  | .implicit =>
    match encoding.split with
    | .error error => .error error
    | .ok (tag, content) => .ok (.parts (tagging.tag tag.constructed) content)

end Tagging

namespace Field

def wrap (field : Field) (policy : Policy) (value : Value) (encoding : Encoding) :
    Except Error Encoding :=
  match field.tagging policy with
  | none => .ok encoding
  | some tagging => tagging.apply value encoding

/-- The octets of `value` as this field, the one at `index`. -/
def encode (field : Field) (index : Nat) (policy : Policy) (value : Value)
    (encoding : Except Error Encoding) : Except Error Octets :=
  match encoding with
  | .error error => .error (.inField index field.name error)
  | .ok encoding =>
    match field.wrap policy value encoding with
    | .error error => .error (.inField index field.name error)
    | .ok wrapped => .ok wrapped.octets

end Field

namespace Value

mutual

def encoding (inherited : Policy) : Value → Except Error Encoding
  | .leaf primitive =>
    match primitive.encode with
    | .error cause => .error (.unencodable cause)
    | .ok content => .ok (.parts primitive.tag content)
  | .record grouping slots own =>
    match encodeSlots (own.getD inherited) 0 slots with
    | .error error => .error error
    | .ok content => .ok (.parts grouping.tag content)
  | .elements grouping _ items own =>
    match encodeItems (own.getD inherited) 0 items with
    | .error error => .error error
    | .ok content => .ok (.parts grouping.tag content)
  | .choice _ none _ => .error (.unencodable .noAlternative)
  | .choice alternatives (some ⟨index, value⟩) own =>
    match alternatives[index]? with
    | none => .error (.noSuchField index alternatives.length)
    | some field =>
      match field.encode index (own.getD inherited) value (encoding (own.getD inherited) value) with
      | .error error => .error error
      | .ok raw => .ok (.whole raw)
  | .tagged tagging inner own =>
    match encoding (own.getD inherited) inner with
    | .error error => .error error
    | .ok encoding => tagging.apply inner encoding
  | .any raw => if raw.isEmpty then .error (.unencodable .emptyAny) else .ok (.whole raw)
termination_by structural value => value

/-- Unset fields leave nothing behind; only optional ones may be unset. -/
def encodeSlots (policy : Policy) (index : Nat) : List (Slot Value) → Except Error Octets
  | [] => .ok []
  | ⟨field, none⟩ :: rest =>
    if field.optional then encodeSlots policy (index + 1) rest
    else .error (.unencodable (.fieldNotSet index field.name))
  | ⟨field, some value⟩ :: rest =>
    match field.encode index policy value (encoding policy value) with
    | .error error => .error error
    | .ok octets =>
      match encodeSlots policy (index + 1) rest with
      | .error error => .error error
      | .ok more => .ok (octets ++ more)
termination_by structural slots => slots

def encodeItems (policy : Policy) (index : Nat) : List Value → Except Error Octets
  | [] => .ok []
  | item :: rest =>
    match encoding policy item with
    | .error error => .error (.inField index "element" error)
    | .ok encoding =>
      match encodeItems policy (index + 1) rest with
      | .error error => .error error
      | .ok more => .ok (encoding.octets ++ more)
termination_by structural items => items

end

/-- The complete encoding, under `policy` unless the value overrides it. -/
def encode (value : Value) (policy : Policy) : Except Error Octets :=
  (value.encoding policy).map Encoding.octets

/-- Tag and content of the encoding. -/
def encodeParts (value : Value) (policy : Policy) : Except Error (Tag × Octets) :=
  match value.encoding policy with
  | .error error => .error error
  | .ok encoding => encoding.split

/-- The encoding under another tag, the value staying as it is. -/
def taggedEncode (value : Value) (tagging : Tagging) (policy : Policy) : Except Error Octets :=
  match value.encoding policy with
  | .error error => .error error
  | .ok encoding => (tagging.apply value encoding).map Encoding.octets

end Value

end Asn1
