import Asn1.Kerberos.Encryption
import Asn1.Kerberos.PrincipalName

/-!
Tickets. Their version is always written and has to be the known one, so it is
not kept.
-/

namespace Asn1.Kerberos

structure Ticket where
  realm : String
  sname : PrincipalName
  encPart : EncryptedData
  deriving DecidableEq, Repr

namespace Ticket

def tagging : Tagging := ⟨.application, 1, .explicit⟩

def fields : List Field :=
  [contextField 0 "tkt-vno" "Int32", contextField 1 "realm" "KerberosString",
    contextField 2 "sname" "PrincipalName", contextField 3 "enc-part" "EncryptedData"]

def ofValue (value : Value) : Except Error Ticket :=
  match slotsFor "Ticket" value with
  | .error error => .error error
  | .ok slots =>
    match required slots 0 (Record.getInteger slots 0) with
    | .error error => .error error
    | .ok tktVno =>
      if tktVno ≠ version then
        .error (.inField 0 "tkt-vno" (.violated (.unsupported "tkt-vno" tktVno)))
      else
        match text slots 1 with
        | .error error => .error error
        | .ok realm =>
          match nested PrincipalName slots 2 with
          | .error error => .error error
          | .ok sname =>
            match nested EncryptedData slots 3 with
            | .error error => .error error
            | .ok encPart => .ok ⟨realm, sname, encPart⟩

instance : Structure Ticket where
  template := .tagged tagging (.emptyRecord .sequence fields) none
  toValue ticket :=
    .tagged tagging
      (sequenceValue
        [⟨contextField 0 "tkt-vno" "Int32", some (integerValue version)⟩,
          ⟨contextField 1 "realm" "KerberosString", some (textValue ticket.realm)⟩,
          ⟨contextField 2 "sname" "PrincipalName", some (Structure.toValue ticket.sname)⟩,
          ⟨contextField 3 "enc-part" "EncryptedData", some (Structure.toValue ticket.encPart)⟩])
      none
  ofValue := ofValue

end Ticket

end Asn1.Kerberos
