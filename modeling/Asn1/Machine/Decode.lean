import Asn1.Machine.Primitive
import Asn1.Machine.Reader
import Asn1.Value.Decode

/-!
Decoding as a machine does it. Elements are read one after the other with a cursor that knows
where its buffer lies, and what was decoded is put where its index says. Branches that no element
should lead to are faults.
-/

namespace Asn1.Machine

/-- The first field from `index` on that accepts the tag, if there is one. Those passed over must
be optional. -/
def route (defs : Definitions) (tag : Tag) (index : Nat) : List Field → Except Error (Option Nat)
  | [] => .ok none
  | field :: rest =>
    match field.accepts? defs tag with
    | none => .error .endlessType
    | some true => .ok (some index)
    | some false =>
      if field.optional then route defs tag (index + 1) rest
      else .error (.missingField index field.name)

/-- The slots, if none of the fields from `next` on is required. -/
def complete (fields : List Field) (next : Nat) (slots : List (Slot Value)) :
    Checked Error (List (Slot Value)) := do
  let rest ← slice fields next fields.length
  match (rest.zipIdx next).find? fun (field, _) => !field.optional with
  | some (field, index) => throw (.missingField index field.name)
  | none => return slots

/-- The alternative that an element goes to. -/
def alternative (defs : Definitions) (depth : Nat) (alternatives : List Field) (span : Span) :
    Except Error (Nat × Field) :=
  match Field.firstAccepting (Field.acceptsWithin defs span.tag depth) 0 alternatives with
  | none => .error .endlessType
  | some none => .error (.unknownAlternative span.offset span.tag)
  | some (some chosen) => .ok chosen

mutual

/-- A value of the type of `value` from an element whose tag is to be checked. -/
def decodeElement (defs : Definitions) (depth : Nat) (inherited : Policy) (value : Value)
    (span : Span) : Checked Error Value := do
  let policy := value.resolve inherited
  match value with
  | .choice alternatives _ own =>
    match depth with
    | 0 => throw .endlessType
    | depth + 1 =>
      let (index, field) ← settled (alternative defs depth alternatives span)
      let value ← decodeField defs depth policy index field span
      return .choice alternatives (some ⟨index, value⟩) own
  | .any _ => return .any span.raw
  | .tagged tagging inner own =>
    let inner ← decodeTagged defs policy tagging inner span
    return .tagged tagging inner own
  | value =>
    let expected ← (value.tag? : Option Tag)
    if expected.sameIdentity span.tag then
      let offset ← span.contentOffset
      decodeContent defs policy value ⟨span.tag.constructed, span.content, offset⟩
    else throw (.unexpectedTag span.offset expected span.tag)
termination_by (2 * span.content.length + 4, value.choiceWeight depth, 2 * sizeOf value)
decreasing_by
  · exact .right _ (.left _ _ (Nat.lt_succ_self _))
  · refine .right _ (.right' _ (Nat.zero_le _) ?_)
    simp only [Value.tagged.sizeOf_spec]
    omega
  · exact .left _ _ (by omega)

/-- A value of the type of `value` from content whose tag has been dealt with. -/
def decodeContent (defs : Definitions) (inherited : Policy) (value : Value) (content : Content) :
    Checked Error Value := do
  let policy := value.resolve inherited
  match value with
  | .leaf before =>
    let _ ← settled (content.inForm false before.typeName)
    let after ← (primitive before policy.rules content.octets).recast
      fun cause => some (.malformed content.offset cause)
    return .leaf after
  | .record grouping slots own =>
    let _ ← settled (content.inForm true grouping.name)
    let fields := slots.map (·.field)
    let slots ← decodeSlots defs policy fields content.offset
      (.start policy.rules content.octets content.offset) 0 (fields.map (⟨·, none⟩))
    return .record grouping slots own
  | .elements grouping type _ own =>
    let _ ← settled (content.inForm true (grouping.name ++ " OF"))
    let items ← decodeItems defs policy type (.start policy.rules content.octets content.offset) []
    return .elements grouping type items own
  | .tagged tagging inner own =>
    let inner ← decodeTaggedContent defs policy tagging inner content
    return .tagged tagging inner own
  | .choice _ _ _ => fault
  | .any _ => fault
termination_by (2 * content.octets.length + 3, 0, 2 * sizeOf value)
decreasing_by
  · exact .left _ _ (by rw [Cursor.remaining_start]; omega)
  · exact .left _ _ (by rw [Cursor.remaining_start]; omega)
  · refine .right _ (.right _ ?_)
    simp only [Value.tagged.sizeOf_spec]
    omega

/-- A value of the type of `inner` from an element that shows the re-tag. -/
def decodeTagged (defs : Definitions) (policy : Policy) (tagging : Tagging) (inner : Value)
    (span : Span) : Checked Error Value := do
  if tagging.accepts span.tag then
    let offset ← span.contentOffset
    decodeTaggedContent defs policy tagging inner ⟨span.tag.constructed, span.content, offset⟩
  else throw (.unexpectedTag span.offset (tagging.outerTag inner) span.tag)
termination_by (2 * span.content.length + 4, 0, 2 * sizeOf inner + 1)
decreasing_by exact .left _ _ (by omega)

/-- A value of the type of `inner` from the content below the re-tag. -/
def decodeTaggedContent (defs : Definitions) (policy : Policy) (tagging : Tagging) (inner : Value)
    (content : Content) : Checked Error Value := do
  match tagging.modeFor inner with
  | .explicit =>
    if !content.constructed then
      throw (.malformed content.offset (.explicitPrimitive (tagging.tag true)))
    else if content.octets.isEmpty then
      throw (.malformed content.offset (.explicitEmpty (tagging.tag true)))
    else
      let ⟨(span, cursor), _hless⟩ ← (Cursor.start policy.rules content.octets content.offset).next
      let value ← decodeElement defs defs.choiceLimit policy inner span
      if cursor.hasRemaining then
        let offset ← cursor.offset
        throw (.trailing offset cursor.remaining)
      else return value
  | .implicit => decodeContent defs policy inner content
termination_by (2 * content.octets.length + 3, 0, 2 * sizeOf inner + 1)
decreasing_by
  · simp only [Cursor.Advances, Cursor.remaining_start] at _hless
    exact .left _ _ (by omega)
  · exact .right _ (.right _ (Nat.lt_succ_self _))

/-- A fresh value of the field's type. -/
def decodeField (defs : Definitions) (depth : Nat) (policy : Policy) (index : Nat) (field : Field)
    (span : Span) : Checked Error Value :=
  let template := defs.template field.type
  let decoded := match field.tagging policy with
    | none => decodeElement defs depth policy template span
    | some tagging => decodeTagged defs policy tagging template span
  decoded.recast fun error => some (.inField index field.name error)
termination_by (2 * span.content.length + 4, depth, 2 * sizeOf (defs.template field.type) + 2)
decreasing_by
  · exact .right _ (.right' _ (Value.choiceWeight_le _ _) (by omega))
  · exact .right _ (.right' _ (Nat.zero_le _) (by omega))

/-- Puts the elements that are left where their fields are, from field `next` on. -/
def decodeSlots (defs : Definitions) (policy : Policy) (fields : List Field) (offset : Nat)
    (cursor : Cursor) (next : Nat) (slots : List (Slot Value)) :
    Checked Error (List (Slot Value)) := do
  if cursor.hasRemaining then
    let ⟨(span, cursor), _hless⟩ ← cursor.next
    match ← settled (route defs span.tag next (fields.drop next)) with
    | none =>
      let before ← sub span.offset offset
      let remaining ← sub cursor.buffer.length before
      if policy.strict then throw (.trailing span.offset remaining)
      else complete fields next slots
    | some index =>
      let field ← (fields[index]? : Option Field)
      let value ← decodeField defs defs.choiceLimit policy index field span
      let slots ← put slots index ⟨field, some value⟩
      let next ← after fields.length index
      decodeSlots defs policy fields offset cursor next slots
  else complete fields next slots
termination_by (2 * cursor.remaining + 1, 0, 0)
decreasing_by
  · exact .left _ _ (by simp only [Cursor.Advances] at _hless; omega)
  · exact .left _ _ (by simp only [Cursor.Advances] at _hless; omega)

/-- Every element that is left is of the named type. -/
def decodeItems (defs : Definitions) (policy : Policy) (type : String) (cursor : Cursor)
    (items : List Value) : Checked Error (List Value) := do
  if cursor.hasRemaining then
    let ⟨(span, cursor), _hless⟩ ← cursor.next
    let item ← (decodeElement defs defs.choiceLimit policy (defs.template type) span).recast
      fun error => some (.inField items.length "element" error)
    decodeItems defs policy type cursor (items ++ [item])
  else return items
termination_by (2 * cursor.remaining + 1, 0, 0)
decreasing_by
  · exact .left _ _ (by simp only [Cursor.Advances] at _hless; omega)
  · exact .left _ _ (by simp only [Cursor.Advances] at _hless; omega)

end

/-- A value of the type of `value` from a complete encoding. -/
def decode (defs : Definitions) (value : Value) (octets : Octets) (inherited : Policy) :
    Checked Error Value := do
  let policy := value.resolve inherited
  let ⟨(span, cursor), _⟩ ← (Cursor.start policy.rules octets 0).next
  let decoded ← decodeElement defs defs.choiceLimit policy value.cleared span
  cursor.finish policy
  return decoded

def taggedDecode (defs : Definitions) (value : Value) (tagging : Tagging) (octets : Octets)
    (inherited : Policy) : Checked Error Value := do
  let policy := value.resolve inherited
  let ⟨(span, cursor), _⟩ ← (Cursor.start policy.rules octets 0).next
  let decoded ← decodeTagged defs policy tagging value.cleared span
  cursor.finish policy
  return decoded

end Asn1.Machine
