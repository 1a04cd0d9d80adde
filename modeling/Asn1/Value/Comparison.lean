import Asn1.Definitions

/-!
Comparing types and values. Records and CHOICEs are compared by their fields
alone, but element types by unfolding them, which need not end: a SEQUENCE OF
itself unfolds for ever. Such a comparison has no answer.
-/

namespace Asn1

namespace Value

def fields (slots : List (Slot Value)) : List Field := slots.map (·.field)

/-- Whether the values have the same type. Element types are unfolded at most
`unfoldings` times; there is no answer if that does not suffice. -/
def sameTypeWithin (defs : Definitions) (unfoldings : Nat) (a b : Value) : Option Bool :=
  match a, b with
  | .leaf a, .leaf b => some (a.sameType b)
  | .record grouping slots _, .record grouping' slots' _ =>
    some (grouping == grouping' && Field.sameShapes (fields slots) (fields slots'))
  | .elements grouping type _ _, .elements grouping' type' _ _ =>
    if grouping = grouping' then
      match unfoldings with
      | 0 => none
      | unfoldings + 1 =>
        sameTypeWithin defs unfoldings (defs.template type) (defs.template type')
    else some false
  | .choice alternatives _ _, .choice alternatives' _ _ =>
    some (Field.sameShapes alternatives alternatives')
  | .tagged tagging inner _, .tagged tagging' inner' _ =>
    if tagging = tagging' then sameTypeWithin defs unfoldings inner inner' else some false
  | .any _, .any _ => some true
  | _, _ => some false
termination_by (unfoldings, sizeOf a)

/-- Two names can be unfolded together in no more ways than there are pairs of
entries, so a comparison that takes more unfoldings repeats itself. -/
def unfoldingLimit (defs : Definitions) : Nat := defs.entries.length * defs.entries.length + 1

/-- Whether the values have the same type, their content aside. There is no
answer if their element types unfold for ever. -/
def sameType? (defs : Definitions) (a b : Value) : Option Bool :=
  sameTypeWithin defs (unfoldingLimit defs) a b

/-- The second answer counts only if the first is yes. -/
def bothAnswers (first : Option Bool) (second : Unit → Option Bool) : Option Bool :=
  match first with
  | none => none
  | some false => some false
  | some true => second ()

mutual

/-- Whether the values agree in type, content and overrides. -/
def equal? (defs : Definitions) : Value → Value → Option Bool
  | .leaf a, .leaf b => some (a == b)
  | .record grouping slots own, .record grouping' slots' own' =>
    if grouping == grouping' && Field.sameShapes (fields slots) (fields slots') then
      bothAnswers (equalSlots? defs slots slots') fun _ => some (own == own')
    else some false
  | .elements grouping type items own, .elements grouping' type' items' own' =>
    if grouping == grouping' && items.length == items'.length then
      bothAnswers (equalItems? defs items items') fun _ =>
        if own == own' then sameType? defs (defs.template type) (defs.template type')
        else some false
    else some false
  | .choice alternatives none own, .choice alternatives' none own' =>
    some (Field.sameShapes alternatives alternatives' && own == own')
  | .choice alternatives (some ⟨index, value⟩) own,
      .choice alternatives' (some ⟨index', value'⟩) own' =>
    if Field.sameShapes alternatives alternatives' && index == index' then
      bothAnswers (equal? defs value value') fun _ => some (own == own')
    else some false
  | .tagged tagging inner own, .tagged tagging' inner' own' =>
    if tagging = tagging' then
      bothAnswers (equal? defs inner inner') fun _ => some (own == own')
    else some false
  | .any raw, .any raw' => some (raw == raw')
  | _, _ => some false
termination_by structural value => value

/-- The fields are known to agree. -/
def equalSlots? (defs : Definitions) :
    List (Slot Value) → List (Slot Value) → Option Bool
  | [], [] => some true
  | ⟨_, none⟩ :: rest, ⟨_, none⟩ :: rest' => equalSlots? defs rest rest'
  | ⟨_, some value⟩ :: rest, ⟨_, some value'⟩ :: rest' =>
    bothAnswers (equal? defs value value') fun _ => equalSlots? defs rest rest'
  | _, _ => some false
termination_by structural slots => slots

/-- There are as many of the one as of the other. -/
def equalItems? (defs : Definitions) : List Value → List Value → Option Bool
  | [], [] => some true
  | item :: rest, item' :: rest' =>
    bothAnswers (equal? defs item item') fun _ => equalItems? defs rest rest'
  | _, _ => some false
termination_by structural items => items

end

end Value

end Asn1
