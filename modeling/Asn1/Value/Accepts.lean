import Asn1.Definitions

/-!
Which tags can begin an encoding of a value's type. A CHOICE asks its
alternatives in order up to the first that accepts, and an untagged alternative
asks its own type. Where that leads from CHOICE to CHOICE and round again, the
question has no answer.
-/

namespace Asn1

namespace Field

/-- Whether an encoding with this outer tag belongs to the field, where `inner`
answers for the types of untagged ones. -/
def acceptsBy (inner : String → Option Bool) (tag : Tag) (field : Field) : Option Bool :=
  match field.number with
  | some number => some (tag.cls == .context && tag.number == number)
  | none => inner field.type

/-- The first field that accepts, with its index, the first of all having
`index`. Fields after it are not asked; one without an answer leaves the search
without one. -/
def firstAccepting (accepts : Field → Option Bool) (index : Nat) :
    List Field → Option (Option (Nat × Field))
  | [] => some none
  | field :: rest =>
    match accepts field with
    | none => none
    | some true => some (some (index, field))
    | some false => firstAccepting accepts (index + 1) rest

end Field

namespace Value

/-- The answer, if it takes no more than `depth` CHOICEs one inside the other.
An ANY accepts everything. -/
def acceptsWithin (defs : Definitions) (tag : Tag) : Nat → Value → Option Bool
  | 0, .choice _ _ _ => none
  | depth + 1, .choice alternatives _ _ =>
    let accepts := Field.acceptsBy (fun type => acceptsWithin defs tag depth (defs.template type)) tag
    (Field.firstAccepting accepts 0 alternatives).map Option.isSome
  | _, .any _ => some true
  | _, .tagged tagging _ _ => some (tagging.accepts tag)
  | _, .leaf primitive => some (primitive.tag.sameIdentity tag)
  | _, .record grouping _ _ => some (grouping.tag.sameIdentity tag)
  | _, .elements grouping _ _ _ => some (grouping.tag.sameIdentity tag)

/-- Whether an encoding of the value's type can begin with the tag. -/
def accepts? (value : Value) (defs : Definitions) (tag : Tag) : Option Bool :=
  value.acceptsWithin defs tag defs.choiceLimit

end Value

namespace Field

/-- The answer for a field, if it takes no more than `depth` CHOICEs. -/
def acceptsWithin (defs : Definitions) (tag : Tag) (depth : Nat) (field : Field) : Option Bool :=
  field.acceptsBy (fun type => (defs.template type).acceptsWithin defs tag depth) tag

/-- Whether an encoding with this outer tag belongs to the field. -/
def accepts? (field : Field) (defs : Definitions) (tag : Tag) : Option Bool :=
  field.acceptsWithin defs tag defs.choiceLimit

end Field

namespace Value

/-- A CHOICE accepts a tag if one of its alternatives does. -/
theorem acceptsWithin_choice (defs : Definitions) (tag : Tag) (depth : Nat)
    (alternatives : List Field) (selection : Option (Selection Value)) (own : Option Policy) :
    (Value.choice alternatives selection own).acceptsWithin defs tag (depth + 1) =
      (Field.firstAccepting (Field.acceptsWithin defs tag depth) 0 alternatives).map
        Option.isSome := rfl

end Value

end Asn1
