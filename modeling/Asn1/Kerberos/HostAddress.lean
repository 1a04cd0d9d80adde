import Asn1.Kerberos.Field

/-!
Addresses of hosts.
-/

namespace Asn1.Kerberos

/-- The address octets of the two Internet protocols. -/
inductive IpAddress where
  | v4 (octets : Octets)
  | v6 (octets : Octets)
  deriving DecidableEq, Repr

namespace IpAddress

/-- The version of the protocol. -/
def version : IpAddress → Nat
  | .v4 _ => 4
  | .v6 _ => 6

def octets : IpAddress → Octets
  | .v4 octets => octets
  | .v6 octets => octets

end IpAddress

structure HostAddress where
  addrType : Int32
  address : Octets
  deriving DecidableEq, Repr

namespace HostAddress

def ipv4Type : Int32 := 2
def netbiosType : Int32 := 20
def ipv6Type : Int32 := 24

/-- NetBIOS names are filled up to 16 octets with spaces. -/
def netbios (name : String) : HostAddress :=
  let octets := Text.Utf8.encode name
  ⟨netbiosType, octets ++ List.replicate (16 - octets.length) 32⟩

def ofIp : IpAddress → HostAddress
  | .v4 octets => ⟨ipv4Type, octets⟩
  | .v6 octets => ⟨ipv6Type, octets⟩

/-- The address of an Internet type that has the right size. -/
def ip? (host : HostAddress) : Option IpAddress :=
  if host.addrType = ipv4Type ∧ host.address.length = 4 then some (.v4 host.address)
  else if host.addrType = ipv6Type ∧ host.address.length = 16 then some (.v6 host.address)
  else none

def fields : List Field :=
  [contextField 0 "addr-type" "Int32", contextField 1 "address" "OCTET STRING"]

def ofValue (value : Value) : Except Error HostAddress :=
  match slotsFor "HostAddress" value with
  | .error error => .error error
  | .ok slots =>
    match int32 slots 0 with
    | .error error => .error error
    | .ok addrType =>
      match octets slots 1 with
      | .error error => .error error
      | .ok address => .ok ⟨addrType, address⟩

instance : Structure HostAddress where
  template := .emptyRecord .sequence fields
  toValue host :=
    sequenceValue
      [⟨contextField 0 "addr-type" "Int32", some (integerValue (.ofInt host.addrType.toInt))⟩,
        ⟨contextField 1 "address" "OCTET STRING", some (octetsValue host.address)⟩]
  ofValue := ofValue

end HostAddress

end Asn1.Kerberos
