import Asn1.Value.Decode

/-!
Decoding as a change to the value that it starts from. Below a re-tag the value changes where
it stands, and only then is checked what the re-tag asks for behind it; all else is replaced
as a whole, after its last step has succeeded. A failure may so leave a change half done. It
is a copy that changes in this way, and the value becomes that copy only if all went well.
-/

namespace Asn1

/-- How a change to a value ended, and the value after it. -/
structure Update where
  result : Except Error Unit
  value : Value

namespace Update

/-- The new value, if there is one. -/
def replace (before : Value) : Except Error Value → Update
  | .error error => ⟨.error error, before⟩
  | .ok after => ⟨.ok (), after⟩

/-- The value that the change was made for. -/
def outcome (update : Update) : Except Error Value := update.result.map fun () => update.value

/-- The change to a part as one to the whole. -/
def inside (update : Update) (whole : Value → Value) : Update :=
  { update with value := whole update.value }

end Update

namespace Value

/-- Changes `inner`, which stands below the re-tag, by `fillInner`. -/
def fillUnder (policy : Policy) (tagging : Tagging) (inner : Value) (fillInner : Source → Update)
    (source : Source) : Update :=
  match source.contentUnder (tagging.outerTag inner) with
  | .error error => ⟨.error error, inner⟩
  | .ok content =>
    match tagging.modeFor inner with
    | .explicit =>
      match content.wrapped policy.rules tagging with
      | .error error => ⟨.error error, inner⟩
      | .ok (tlv, rest) =>
        match fillInner (.element tlv) with
        | ⟨.error error, value⟩ => ⟨.error error, value⟩
        | ⟨.ok (), value⟩ =>
          if rest.isEmpty then ⟨.ok (), value⟩
          else ⟨.error (.trailing tlv.endOffset rest.length), value⟩
    | .implicit => fillInner (.below content)

/-- Changes the value to what the source holds. -/
def fill (defs : Definitions) (depth : Nat) (inherited : Policy) : Value → Source → Update
  | .tagged tagging inner own, source =>
    (fillUnder (own.getD inherited) tagging inner
      (inner.fill defs defs.choiceLimit (own.getD inherited)) source).inside (.tagged tagging · own)
  | value, source => .replace value (decodeFrom defs depth inherited value source)

/-- Changes the prototype of the field to what the element holds. -/
def fillField (defs : Definitions) (depth : Nat) (policy : Policy) (field : Field) (tlv : Tlv) :
    Update :=
  let prototype := defs.template field.type
  match field.tagging policy with
  | none => prototype.fill defs depth policy (.element tlv)
  | some tagging =>
    fillUnder policy tagging prototype (prototype.fill defs defs.choiceLimit policy) (.element tlv)

/-- The value becomes the copy if that was filled, up to the end that a strict policy asks for. -/
def adopt (value : Value) (policy : Policy) (tlv : Tlv) (rest : Octets) : Update → Update
  | ⟨.error error, _⟩ => ⟨.error error, value⟩
  | ⟨.ok (), copy⟩ => .replace value (atEnd policy tlv rest copy)

/-- Changes the value to what a complete encoding holds. -/
def decodeInto (defs : Definitions) (value : Value) (octets : Octets) (inherited : Policy) :
    Update :=
  let policy := value.resolve inherited
  match Tlv.read policy.rules 0 octets with
  | .error error => ⟨.error error, value⟩
  | .ok (tlv, rest) =>
    value.adopt policy tlv rest
      (value.cleared.fill defs defs.choiceLimit policy (.element tlv))

/-- The same for an encoding under a tag of its own. -/
def taggedDecodeInto (defs : Definitions) (value : Value) (tagging : Tagging) (octets : Octets)
    (inherited : Policy) : Update :=
  let policy := value.resolve inherited
  match Tlv.read policy.rules 0 octets with
  | .error error => ⟨.error error, value⟩
  | .ok (tlv, rest) =>
    value.adopt policy tlv rest
      (fillUnder policy tagging value.cleared
        (value.cleared.fill defs defs.choiceLimit policy) (.element tlv))

end Value

end Asn1
