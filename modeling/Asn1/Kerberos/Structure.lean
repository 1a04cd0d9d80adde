import Asn1.Value.Decode
import Asn1.Value.Encode
import Asn1.Value.Record

/-!
Kerberos structures over value trees. A structure says which value it is written
as and reads itself from values; encoding and decoding follow.
-/

namespace Asn1.Kerberos

/-- A SEQUENCE field under its own explicit or implicit context tag. -/
def contextField (number : UInt32) (name type : String) : Field :=
  ⟨name, some number, none, false, type⟩

def optionalField (number : UInt32) (name type : String) : Field :=
  ⟨name, some number, none, true, type⟩

def integerValue (value : Int64) : Value := .leaf (.integer value)

def octetsValue (octets : Octets) : Value := .leaf (.octetString octets)

/-- Kerberos sends its strings as GeneralString. -/
def textValue (text : String) : Value := .leaf (.characterString ⟨.general, text⟩)

def textsValue (texts : List String) : Value :=
  .elements .sequence "KerberosString" (texts.map textValue) none

def sequenceValue (slots : List (Slot Value)) : Value := .record .sequence slots none

def principalNameFields : List Field :=
  [contextField 0 "name-type" "Int32", contextField 1 "name-string" "KerberosStrings"]

def encryptedDataFields : List Field :=
  [contextField 0 "etype" "Int32", optionalField 1 "kvno" "UInt32",
    contextField 2 "cipher" "OCTET STRING"]

/-- The types that the fields of the structures name. -/
def definitions : Definitions where
  entries :=
    [("Int32", integerValue 0),
      ("UInt32", integerValue 0),
      ("OCTET STRING", octetsValue []),
      ("KerberosString", textValue ""),
      ("KerberosStrings", textsValue []),
      ("PrincipalName", .emptyRecord .sequence principalNameFields),
      ("EncryptedData", .emptyRecord .sequence encryptedDataFields)]

class Structure (α : Type) where
  /-- The empty value to decode into. -/
  template : Value
  toValue : α → Value
  ofValue : Value → Except Error α

variable {α : Type} [Structure α]

def encode (item : α) (policy : Policy) : Except Error Octets :=
  (Structure.toValue item).encode policy

def taggedEncode (item : α) (tagging : Tagging) (policy : Policy) : Except Error Octets :=
  (Structure.toValue item).taggedEncode tagging policy

variable (α) in
def decode (octets : Octets) (policy : Policy) : Except Error α :=
  match (Structure.template α).decode definitions octets policy with
  | .error error => .error error
  | .ok value => Structure.ofValue value

end Asn1.Kerberos
