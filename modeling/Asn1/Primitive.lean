import Asn1.BitString
import Asn1.CharacterString
import Asn1.Integer
import Asn1.ObjectIdentifier
import Asn1.Time.Generalized
import Asn1.Time.Utc

/-!
Values without parts, each with the universal tag of its type.
-/

namespace Asn1

open Time (Instant)

inductive Primitive where
  | boolean (value : Bool)
  | integer (value : Int64)
  | enumerated (value : Int64)
  | bitString (bits : BitString)
  | octetString (octets : Octets)
  | null
  | objectIdentifier (oid : ObjectIdentifier)
  | characterString (string : CharacterString)
  | utcTime (instant : Instant)
  | generalizedTime (instant : Instant)
  deriving DecidableEq, Repr

namespace Primitive

def tag : Primitive → Tag
  | .boolean _ => .boolean
  | .integer _ => .integer
  | .enumerated _ => .enumerated
  | .bitString _ => .bitString
  | .octetString _ => .octetString
  | .null => .null
  | .objectIdentifier _ => .objectIdentifier
  | .characterString string => string.kind.tag
  | .utcTime _ => .utcTime
  | .generalizedTime _ => .generalizedTime

def typeName (primitive : Primitive) : String := primitive.tag.text

/-- Each type has a tag of its own. -/
def sameType (a b : Primitive) : Bool := a.tag == b.tag

/-- The same type with the content it starts from. -/
def cleared : Primitive → Primitive
  | .boolean _ => .boolean false
  | .integer _ => .integer 0
  | .enumerated _ => .enumerated 0
  | .bitString _ => .bitString .empty
  | .octetString _ => .octetString []
  | .null => .null
  | .objectIdentifier _ => .objectIdentifier ⟨[]⟩
  | .characterString string => .characterString ⟨string.kind, ""⟩
  | .utcTime _ => .utcTime .epoch
  | .generalizedTime _ => .generalizedTime .epoch

def encodeBoolean (value : Bool) : Octets := if value then [0xFF] else [0x00]

/-- The basic rules read every octet but zero as true. -/
def decodeBoolean (rules : Rules) : Octets → Except Malformation Bool
  | [octet] =>
    if octet = 0x00 then .ok false
    else if octet = 0xFF ∨ rules = .basic then .ok true
    else .error (.booleanContent octet)
  | content => .error (.booleanSize content.length)

def encode : Primitive → Except Unencodable Octets
  | .boolean value => .ok (encodeBoolean value)
  | .integer value => .ok (Integer.encode value)
  | .enumerated value => .ok (Integer.encode value)
  | .bitString bits => .ok bits.encode
  | .octetString octets => .ok octets
  | .null => .ok []
  | .objectIdentifier oid => oid.encode
  | .characterString string => string.encode
  | .utcTime instant => Time.Utc.encode instant
  | .generalizedTime instant => Time.Generalized.encode instant

/-- A value of the same type from its content octets. -/
def decode (primitive : Primitive) (rules : Rules) (content : Octets) :
    Except Malformation Primitive :=
  match primitive with
  | .boolean _ => (decodeBoolean rules content).map .boolean
  | .integer _ => (Integer.decode rules content).map .integer
  | .enumerated _ => (Integer.decode rules content).map .enumerated
  | .bitString _ => (BitString.decode rules content).map .bitString
  | .octetString _ => .ok (.octetString content)
  | .null => if content.isEmpty then .ok .null else .error (.nullSize content.length)
  | .objectIdentifier _ => (ObjectIdentifier.decode content).map .objectIdentifier
  | .characterString string => (CharacterString.decode string.kind content).map .characterString
  | .utcTime _ => (Time.Utc.decode rules content).map .utcTime
  | .generalizedTime _ => (Time.Generalized.decode rules content).map .generalizedTime

end Primitive

end Asn1
