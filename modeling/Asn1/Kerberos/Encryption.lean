import Asn1.Kerberos.Field

/-!
Keys and encrypted octets. Ciphers are beyond this library.
-/

namespace Asn1.Kerberos

structure EncryptionKey where
  keytype : Int32
  keyvalue : Octets
  deriving DecidableEq, Repr

namespace EncryptionKey

/-- Shows how long the key is, but not the key. -/
def summary (key : EncryptionKey) : String :=
  s!"EncryptionKey \x7b keytype: {key.keytype.toInt}, keyvalue: <{key.keyvalue.length} bytes> \x7d"

def fields : List Field :=
  [contextField 0 "keytype" "Int32", contextField 1 "keyvalue" "OCTET STRING"]

def ofValue (value : Value) : Except Error EncryptionKey :=
  match slotsFor "EncryptionKey" value with
  | .error error => .error error
  | .ok slots =>
    match int32 slots 0 with
    | .error error => .error error
    | .ok keytype =>
      match octets slots 1 with
      | .error error => .error error
      | .ok keyvalue => .ok ⟨keytype, keyvalue⟩

instance : Structure EncryptionKey where
  template := .emptyRecord .sequence fields
  toValue key :=
    sequenceValue
      [⟨contextField 0 "keytype" "Int32", some (integerValue (.ofInt key.keytype.toInt))⟩,
        ⟨contextField 1 "keyvalue" "OCTET STRING", some (octetsValue key.keyvalue)⟩]
  ofValue := ofValue

end EncryptionKey

structure EncryptedData where
  etype : Int32
  kvno : Option UInt32
  cipher : Octets
  deriving DecidableEq, Repr

namespace EncryptedData

def ofValue (value : Value) : Except Error EncryptedData :=
  match slotsFor "EncryptedData" value with
  | .error error => .error error
  | .ok slots =>
    match int32 slots 0 with
    | .error error => .error error
    | .ok etype =>
      match optionalUInt32 slots 1 with
      | .error error => .error error
      | .ok kvno =>
        match octets slots 2 with
        | .error error => .error error
        | .ok cipher => .ok ⟨etype, kvno, cipher⟩

instance : Structure EncryptedData where
  template := .emptyRecord .sequence encryptedDataFields
  toValue data :=
    sequenceValue
      [⟨contextField 0 "etype" "Int32", some (integerValue (.ofInt data.etype.toInt))⟩,
        ⟨optionalField 1 "kvno" "UInt32", data.kvno.map fun kvno => integerValue (.ofNat kvno.toNat)⟩,
        ⟨contextField 2 "cipher" "OCTET STRING", some (octetsValue data.cipher)⟩]
  ofValue := ofValue

end EncryptedData

end Asn1.Kerberos
