import Asn1.Kerberos.Field

/-!
Pre-authentication data. The field tags start at 1.
-/

namespace Asn1.Kerberos

structure PaData where
  padataType : Int32
  /-- Usually the encoding of another structure, which the type selects. -/
  padataValue : Octets
  deriving DecidableEq, Repr

namespace PaData

def fields : List Field :=
  [contextField 1 "padata-type" "Int32", contextField 2 "padata-value" "OCTET STRING"]

def ofValue (value : Value) : Except Error PaData :=
  match slotsFor "PA-DATA" value with
  | .error error => .error error
  | .ok slots =>
    match int32 slots 0 with
    | .error error => .error error
    | .ok padataType =>
      match octets slots 1 with
      | .error error => .error error
      | .ok padataValue => .ok ⟨padataType, padataValue⟩

instance : Structure PaData where
  template := .emptyRecord .sequence fields
  toValue data :=
    sequenceValue
      [⟨contextField 1 "padata-type" "Int32", some (integerValue (.ofInt data.padataType.toInt))⟩,
        ⟨contextField 2 "padata-value" "OCTET STRING", some (octetsValue data.padataValue)⟩]
  ofValue := ofValue

/-- Wraps the encoding of a structure. -/
def encapsulate {α : Type} [Structure α] (padataType : Int32) (content : α) :
    Except Error PaData :=
  (encode content .der).map fun octets => ⟨padataType, octets⟩

/-- Inverse of `encapsulate`. -/
def decapsulate (α : Type) [Structure α] (data : PaData) : Except Error α :=
  match decode α data.padataValue .der with
  | .error error => .error (.inField 1 "padata-value" error)
  | .ok content => .ok content

end PaData

end Asn1.Kerberos
