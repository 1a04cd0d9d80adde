import Asn1.Field
import Asn1.Primitive
import Asn1.Tag.Codec

/-!
Value trees. A composite carries its own fields, so a tree says how it is to be
encoded without a look at any table of types.
-/

namespace Asn1

/-- The two universal tags of composites. -/
inductive Grouping where
  | sequence
  | set
  deriving DecidableEq, Repr

namespace Grouping

def tag : Grouping → Tag
  | .sequence => .sequence
  | .set => .set

def name (grouping : Grouping) : String := grouping.tag.text

end Grouping

/-- A field with its content, if it is set. -/
structure Slot (α : Type) where
  field : Field
  content : Option α
  deriving Repr

/-- What a CHOICE holds, and the index of the alternative that it belongs to. -/
structure Selection (α : Type) where
  index : Nat
  value : α
  deriving Repr

/-- Composites may override the policy they are used under. -/
inductive Value where
  | leaf (primitive : Primitive)
  /-- SEQUENCE or SET. -/
  | record (grouping : Grouping) (slots : List (Slot Value)) (policy : Option Policy)
  /-- SEQUENCE OF or SET OF the named type. -/
  | elements (grouping : Grouping) (type : String) (items : List Value) (policy : Option Policy)
  | choice (alternatives : List Field) (selection : Option (Selection Value))
      (policy : Option Policy)
  | tagged (tagging : Tagging) (inner : Value) (policy : Option Policy)
  /-- The octets of one complete encoding, or none. -/
  | any (raw : Octets)
  deriving Repr

namespace Value

/-- A SEQUENCE or SET with nothing set. -/
def emptyRecord (grouping : Grouping) (fields : List Field) : Value :=
  .record grouping (fields.map fun field => ⟨field, none⟩) none

def typeName : Value → String
  | .leaf primitive => primitive.typeName
  | .record grouping _ _ => grouping.name
  | .elements grouping _ _ _ => grouping.name ++ " OF"
  | .choice _ _ _ => "CHOICE"
  | .tagged _ inner _ => inner.typeName
  | .any _ => "ANY"

/-- The override that the value carries. -/
def policy? : Value → Option Policy
  | .leaf _ => none
  | .record _ _ own => own
  | .elements _ _ _ own => own
  | .choice _ _ own => own
  | .tagged _ _ own => own
  | .any _ => none

/-- Values without parts take no override. -/
def setPolicy (own : Option Policy) : Value → Value
  | .leaf primitive => .leaf primitive
  | .record grouping slots _ => .record grouping slots own
  | .elements grouping type items _ => .elements grouping type items own
  | .choice alternatives selection _ => .choice alternatives selection own
  | .tagged tagging inner _ => .tagged tagging inner own
  | .any raw => .any raw

def withPolicy (value : Value) (policy : Policy) : Value := value.setPolicy (some policy)

def resolve (value : Value) (inherited : Policy) : Policy := value.policy?.getD inherited

/-- Same type and overrides, no content. -/
def cleared : Value → Value
  | .leaf primitive => .leaf primitive.cleared
  | .record grouping slots own =>
    .record grouping (slots.map fun slot => ⟨slot.field, none⟩) own
  | .elements grouping type _ own => .elements grouping type [] own
  | .choice alternatives _ own => .choice alternatives none own
  | .tagged tagging inner own => .tagged tagging inner.cleared own
  | .any _ => .any []

/-- The value below all its re-tags. -/
def untagged : Value → Value
  | .tagged _ inner _ => inner.untagged
  | value => value

/-- The same re-tags around another value. -/
def putUntagged : Value → Value → Value
  | .tagged tagging inner own, content => .tagged tagging (inner.putUntagged content) own
  | _, content => content

/-- CHOICE and ANY have no tag that another could replace. A re-tagged value has
one, whatever lies below it. -/
def hasOwnTag : Value → Bool
  | .choice _ _ _ => false
  | .any _ => false
  | _ => true

end Value

namespace Tagging

/-- The mode in which the tag really goes on `inner`: values without a tag of
their own are wrapped even where the tagging is implicit. -/
def modeFor (tagging : Tagging) (inner : Value) : TaggingMode :=
  if inner.hasOwnTag then tagging.mode else .explicit

end Tagging

namespace Value

/-- The tag at the front of a complete encoding. -/
def rawTag? (raw : Octets) : Option Tag :=
  match Tag.decode 0 raw with
  | .ok (tag, _) => some tag
  | .error _ => none

/-- For a CHOICE, that of the value it holds. -/
def isConstructed : Value → Bool
  | .leaf primitive => primitive.tag.constructed
  | .record grouping _ _ => grouping.tag.constructed
  | .elements grouping _ _ _ => grouping.tag.constructed
  | .choice _ none _ => false
  | .choice _ (some ⟨_, value⟩) _ => value.isConstructed
  | .tagged tagging inner _ =>
    match tagging.modeFor inner with
    | .explicit => true
    | .implicit => inner.isConstructed
  | .any raw =>
    match rawTag? raw with
    | some tag => tag.constructed
    | none => false

end Value

namespace Tagging

/-- The tag that `inner` shows under the re-tag. -/
def outerTag (tagging : Tagging) (inner : Value) : Tag :=
  match tagging.modeFor inner with
  | .explicit => tagging.tag true
  | .implicit => tagging.tag inner.isConstructed

end Tagging

namespace Value

/-- A CHOICE has no tag of its own, an empty ANY none at all. -/
def tag? : Value → Option Tag
  | .leaf primitive => some primitive.tag
  | .record grouping _ _ => some grouping.tag
  | .elements grouping _ _ _ => some grouping.tag
  | .choice _ _ _ => none
  | .tagged tagging inner _ => some (tagging.outerTag inner)
  | .any raw => rawTag? raw

end Value

end Asn1
