import Asn1.Kerberos.Field
import Asn1.Kerberos.Numbers

/-!
Names of principals.
-/

namespace Asn1.Kerberos

structure PrincipalName where
  nameType : Int32
  nameString : List String
  deriving DecidableEq, Repr

namespace PrincipalName

/-- The ticket-granting service of a realm. -/
def krbtgt (realm : String) : PrincipalName := ⟨NameType.srvInst.value, ["krbtgt", realm]⟩

def knownType (name : PrincipalName) : Except Error NameType :=
  NameType.ofValue name.nameType

def text (name : PrincipalName) : String := "/".intercalate name.nameString

/-- The texts of the components, of which the first has the given index. -/
def components (index : Nat) : List Value → Except Error (List String)
  | [] => .ok []
  | component :: rest =>
    match component.text? with
    | none => .error (.inField 1 "name-string" (.typeMismatch index "KerberosString"))
    | some text =>
      match components (index + 1) rest with
      | .error error => .error error
      | .ok texts => .ok (text :: texts)

def ofValue (value : Value) : Except Error PrincipalName :=
  match slotsFor "PrincipalName" value with
  | .error error => .error error
  | .ok slots =>
    match required slots 1 (Record.getElements slots 1) with
    | .error error => .error error
    | .ok items =>
      match components 0 items with
      | .error error => .error error
      | .ok nameString =>
        match int32 slots 0 with
        | .error error => .error error
        | .ok nameType => .ok ⟨nameType, nameString⟩

instance : Structure PrincipalName where
  template := .emptyRecord .sequence principalNameFields
  toValue name :=
    sequenceValue
      [⟨contextField 0 "name-type" "Int32", some (integerValue (.ofInt name.nameType.toInt))⟩,
        ⟨contextField 1 "name-string" "KerberosStrings", some (textsValue name.nameString)⟩]
  ofValue := ofValue

end PrincipalName

end Asn1.Kerberos
