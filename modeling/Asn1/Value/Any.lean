import Asn1.Value.Decode
import Asn1.Value.Encode

/-!
ANY values, which keep what they hold in its encoded form.
-/

namespace Asn1.Value

/-- The octets must be one complete encoding under the basic rules. -/
def anyOfOctets (raw : Octets) : Except Error Value :=
  match Tlv.read .basic 0 raw with
  | .error error => .error error
  | .ok (tlv, rest) =>
    if rest.isEmpty then .ok (.any raw) else .error (.trailing tlv.endOffset rest.length)

/-- The encoding of a value under the default policy. -/
def anyOfValue (value : Value) : Except Error Value :=
  (value.encode .der).map .any

/-- What the octets are when they are of the type of `target`. -/
def decodeAny (defs : Definitions) (raw : Octets) (target : Value) : Except Error Value :=
  target.decode defs raw .der

end Asn1.Value
