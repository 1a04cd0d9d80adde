import Asn1.Tlv.Stream
import Asn1.Value.Accepts

/-!
Decoding. The value that decoding starts from says what to expect, and the
result has its type. Types are unfolded as octets are consumed, so recursive
definitions need no other bound, except where one CHOICE leads to the next.
-/

namespace Asn1

/-- Content octets whose tag is dealt with, but for its constructed bit. -/
structure Content where
  constructed : Bool
  octets : Octets
  offset : Nat
  deriving DecidableEq, Repr

/-- What a value is decoded from: an element whose tag is to be checked, or the
content below a tag that an implicit one has replaced. -/
inductive Source where
  | element (tlv : Tlv)
  | below (content : Content)
  deriving DecidableEq, Repr

namespace Source

def offset : Source → Nat
  | .element tlv => tlv.offset
  | .below content => content.offset

/-- The content, if the element shows the tag that is expected. -/
def contentUnder (expected : Tag) : Source → Except Error Content
  | .element tlv =>
    if expected.sameIdentity tlv.tag then
      .ok ⟨tlv.tag.constructed, tlv.content, tlv.contentOffset⟩
    else .error (.unexpectedTag tlv.offset expected tlv.tag)
  | .below content => .ok content

/-- Falls with every step into an element. -/
def weight : Source → Nat
  | .element tlv => 2 * tlv.weight
  | .below content => 2 * content.octets.length + 2

theorem weight_of_contentUnder {expected : Tag} {source : Source} {content : Content}
    (h : source.contentUnder expected = .ok content) :
    2 * content.octets.length + 2 ≤ source.weight := by
  cases source with
  | element tlv =>
    simp only [contentUnder] at h
    split at h
    · cases h
      simp only [weight, Tlv.weight]
      omega
    · cases h
  | below content =>
    cases h
    simp [weight]

end Source

namespace Content

/-- The octets, if the constructed bit is as the type wants it. -/
def inForm (content : Content) (constructed : Bool) (type : String) : Except Error Octets :=
  if content.constructed = constructed then .ok content.octets
  else .error (.malformed content.offset (.form type constructed))

/-- The one element that an explicit tag wraps, and what follows it. -/
def wrapped (content : Content) (rules : Rules) (tagging : Tagging) :
    Except Error (Tlv × Octets) :=
  if !content.constructed then
    .error (.malformed content.offset (.explicitPrimitive (tagging.tag true)))
  else if content.octets.isEmpty then
    .error (.malformed content.offset (.explicitEmpty (tagging.tag true)))
  else Tlv.read rules content.offset content.octets

theorem octets_of_inForm {content : Content} {constructed : Bool} {type : String}
    {octets : Octets} (h : content.inForm constructed type = .ok octets) :
    octets = content.octets := by
  simp only [inForm] at h
  split at h
  · cases h
    rfl
  · cases h

theorem weight_of_wrapped {content : Content} {rules : Rules} {tagging : Tagging} {tlv : Tlv}
    {rest : Octets} (h : content.wrapped rules tagging = .ok (tlv, rest)) :
    tlv.weight ≤ content.octets.length := by
  simp only [wrapped] at h
  split at h
  · cases h
  · split at h
    · cases h
    · have := Tlv.weight_le_of_read h
      omega

end Content

namespace Field

/-- The slots of fields for which nothing came; `index` is that of the first. -/
def unsetAll (index : Nat) : List Field → Except Error (List (Slot Value))
  | [] => .ok []
  | field :: rest =>
    if field.optional then
      match unsetAll (index + 1) rest with
      | .error error => .error error
      | .ok slots => .ok (⟨field, none⟩ :: slots)
    else .error (.missingField index field.name)

end Field

namespace Value

/-- How many CHOICEs may still follow, where only a CHOICE leads to another. -/
def choiceWeight (depth : Nat) : Value → Nat
  | .choice _ _ _ => depth
  | _ => 0

theorem choiceWeight_le (depth : Nat) (value : Value) : value.choiceWeight depth ≤ depth := by
  cases value <;> simp [choiceWeight]

end Value

namespace Tagging

theorem choiceWeight_of_implicit {tagging : Tagging} {inner : Value}
    (h : tagging.modeFor inner = .implicit) (depth : Nat) : inner.choiceWeight depth = 0 := by
  cases inner with
  | choice => simp [modeFor, Value.hasOwnTag] at h
  | _ => rfl

end Tagging

private theorem lexOfLe {α : Type} {r : α → α → Prop} {m n : Nat} {a b : α} (hle : m ≤ n)
    (h : r a b) : Prod.Lex (· < ·) r (m, a) (n, b) := by
  rcases Nat.lt_or_eq_of_le hle with hlt | rfl
  · exact .left _ _ hlt
  · exact .right _ h

namespace Value

mutual

/-- A value of the type of `value`; its content does not count. An element may
be passed on through at most `depth` CHOICEs. -/
def decodeFrom (defs : Definitions) (depth : Nat) (inherited : Policy) (value : Value)
    (source : Source) : Except Error Value :=
  match value with
  | .leaf primitive =>
    match source.contentUnder primitive.tag with
    | .error error => .error error
    | .ok content =>
      match content.inForm false primitive.typeName with
      | .error error => .error error
      | .ok octets =>
        match primitive.decode inherited.rules octets with
        | .error cause => .error (.malformed content.offset cause)
        | .ok primitive => .ok (.leaf primitive)
  | .record grouping slots own =>
    match _hcontent : source.contentUnder grouping.tag with
    | .error error => .error error
    | .ok content =>
      match _hform : content.inForm true grouping.name with
      | .error error => .error error
      | .ok octets =>
        let policy := own.getD inherited
        match decodeSlots defs policy (content.offset + octets.length) 0
            (slots.map (·.field)) (Tlv.stream policy.rules content.offset octets) with
        | .error error => .error error
        | .ok slots => .ok (.record grouping slots own)
  | .elements grouping type _ own =>
    match _hcontent : source.contentUnder grouping.tag with
    | .error error => .error error
    | .ok content =>
      match _hform : content.inForm true (grouping.name ++ " OF") with
      | .error error => .error error
      | .ok octets =>
        let policy := own.getD inherited
        match decodeItems defs policy type 0 (Tlv.stream policy.rules content.offset octets) with
        | .error error => .error error
        | .ok items => .ok (.elements grouping type items own)
  | .choice alternatives _ own =>
    match source, depth with
    | .below content, _ => .error (.malformed content.offset (.notImplicit "CHOICE"))
    | .element _, 0 => .error .endlessType
    | .element tlv, depth + 1 =>
      match Field.firstAccepting (Field.acceptsWithin defs tlv.tag depth) 0 alternatives with
      | none => .error .endlessType
      | some none => .error (.unknownAlternative tlv.offset tlv.tag)
      | some (some (index, field)) =>
        match decodeField defs depth (own.getD inherited) index field tlv with
        | .error error => .error error
        | .ok value => .ok (.choice alternatives (some ⟨index, value⟩) own)
  | .tagged tagging inner own =>
    match decodeUnder defs (own.getD inherited) tagging inner source with
    | .error error => .error error
    | .ok inner => .ok (.tagged tagging inner own)
  | .any _ =>
    match source with
    | .element tlv => .ok (.any tlv.raw)
    | .below content => .error (.malformed content.offset (.notImplicit "ANY"))
termination_by (source.weight, value.choiceWeight depth, 2 * sizeOf value)
decreasing_by
  · have := Source.weight_of_contentUnder _hcontent
    have := Tlv.weight_stream_le (own.getD inherited).rules content.offset octets
    have := Content.octets_of_inForm _hform
    subst this
    exact .left _ _ (by omega)
  · have := Source.weight_of_contentUnder _hcontent
    have := Tlv.weight_stream_le (own.getD inherited).rules content.offset octets
    have := Content.octets_of_inForm _hform
    subst this
    exact .left _ _ (by omega)
  · exact .right _ (.left _ _ (Nat.lt_succ_self _))
  · refine .right _ (.right _ ?_)
    simp only [Value.tagged.sizeOf_spec]
    omega

/-- A value of the type of `inner`, from below the re-tag. -/
def decodeUnder (defs : Definitions) (policy : Policy) (tagging : Tagging) (inner : Value)
    (source : Source) : Except Error Value :=
  match _hcontent : source.contentUnder (tagging.outerTag inner) with
  | .error error => .error error
  | .ok content =>
    match _hmode : tagging.modeFor inner with
    | .explicit =>
      match _hwrapped : content.wrapped policy.rules tagging with
      | .error error => .error error
      | .ok (tlv, rest) =>
        match decodeFrom defs defs.choiceLimit policy inner (.element tlv) with
        | .error error => .error error
        | .ok value =>
          if rest.isEmpty then .ok value else .error (.trailing tlv.endOffset rest.length)
    | .implicit => decodeFrom defs defs.choiceLimit policy inner (.below content)
termination_by (source.weight, 0, 2 * sizeOf inner + 1)
decreasing_by
  · have := Source.weight_of_contentUnder _hcontent
    have := Content.weight_of_wrapped _hwrapped
    exact .left _ _ (show 2 * tlv.weight < source.weight by omega)
  · rw [Tagging.choiceWeight_of_implicit _hmode]
    exact lexOfLe (Source.weight_of_contentUnder _hcontent) (.right _ (by omega))

/-- A fresh value of the field's type. -/
def decodeField (defs : Definitions) (depth : Nat) (policy : Policy) (index : Nat)
    (field : Field) (tlv : Tlv) : Except Error Value :=
  let decoded :=
    match _htagging : field.tagging policy with
    | none => decodeFrom defs depth policy (defs.template field.type) (.element tlv)
    | some tagging => decodeUnder defs policy tagging (defs.template field.type) (.element tlv)
  match decoded with
  | .error error => .error (.inField index field.name error)
  | .ok value => .ok value
termination_by (2 * tlv.weight, depth, 2 * sizeOf (defs.template field.type) + 2)
decreasing_by
  · exact .right _ (lexOfLe (choiceWeight_le _ _) (by omega))
  · exact .right _ (lexOfLe (Nat.zero_le _) (by omega))

/-- Each element goes to the first field that accepts it, and the fields passed
over must be optional. Elements beyond the fields end a strict decoding and are
ignored by a lenient one. The content ends at `endOffset`. -/
def decodeSlots (defs : Definitions) (policy : Policy) (endOffset index : Nat)
    (fields : List Field) (stream : Tlv.Stream) : Except Error (List (Slot Value)) :=
  match stream, fields with
  | .done, fields => Field.unsetAll index fields
  | .broken error, _ => .error error
  | .next tlv _, [] =>
    if policy.strict then .error (.trailing tlv.offset (endOffset - tlv.offset)) else .ok []
  | .next tlv rest, field :: fields =>
    match field.accepts? defs tlv.tag with
    | none => .error .endlessType
    | some true =>
      match decodeField defs defs.choiceLimit policy index field tlv with
      | .error error => .error error
      | .ok value =>
        match decodeSlots defs policy endOffset (index + 1) fields rest with
        | .error error => .error error
        | .ok slots => .ok (⟨field, some value⟩ :: slots)
    | some false =>
      if field.optional then
        match decodeSlots defs policy endOffset (index + 1) fields (.next tlv rest) with
        | .error error => .error error
        | .ok slots => .ok (⟨field, none⟩ :: slots)
      else .error (.missingField index field.name)
termination_by (2 * stream.weight + 1, fields.length, 0)
decreasing_by
  · exact .left _ _ (by simp only [Tlv.Stream.weight]; omega)
  · exact .left _ _ (by simp only [Tlv.Stream.weight, Tlv.weight]; omega)
  · exact .right _ (.left _ _ (by simp))

/-- Every element is of the named type; `index` counts those before. -/
def decodeItems (defs : Definitions) (policy : Policy) (type : String) (index : Nat)
    (stream : Tlv.Stream) : Except Error (List Value) :=
  match stream with
  | .done => .ok []
  | .broken error => .error error
  | .next tlv rest =>
    match decodeFrom defs defs.choiceLimit policy (defs.template type) (.element tlv) with
    | .error error => .error (.inField index "element" error)
    | .ok item =>
      match decodeItems defs policy type (index + 1) rest with
      | .error error => .error error
      | .ok items => .ok (item :: items)
termination_by (2 * stream.weight + 1, 0, 0)
decreasing_by
  · exact .left _ _ (by simp only [Source.weight, Tlv.Stream.weight]; omega)
  · exact .left _ _ (by simp only [Tlv.Stream.weight, Tlv.weight]; omega)

end

/-- What is left after the root, which a strict policy wants to be nothing. -/
def atEnd (policy : Policy) (tlv : Tlv) (rest : Octets) (value : Value) : Except Error Value :=
  if policy.strict && !rest.isEmpty then .error (.trailing tlv.endOffset rest.length)
  else .ok value

/-- A value of the type of `value` from a complete encoding. -/
def decode (defs : Definitions) (value : Value) (octets : Octets) (inherited : Policy) :
    Except Error Value :=
  let policy := value.resolve inherited
  match Tlv.read policy.rules 0 octets with
  | .error error => .error error
  | .ok (tlv, rest) =>
    match decodeFrom defs defs.choiceLimit policy value.cleared (.element tlv) with
    | .error error => .error error
    | .ok decoded => atEnd policy tlv rest decoded

/-- Inverse of `taggedEncode`. -/
def taggedDecode (defs : Definitions) (value : Value) (tagging : Tagging) (octets : Octets)
    (inherited : Policy) : Except Error Value :=
  let policy := value.resolve inherited
  match Tlv.read policy.rules 0 octets with
  | .error error => .error error
  | .ok (tlv, rest) =>
    match decodeUnder defs policy tagging value.cleared (.element tlv) with
    | .error error => .error error
    | .ok decoded => atEnd policy tlv rest decoded

end Value

end Asn1
