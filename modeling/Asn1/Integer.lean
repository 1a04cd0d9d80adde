import Asn1.Error
import Asn1.Policy

/-!
The content of INTEGER and ENUMERATED: two's complement, most significant octet
first. The first nine bits of a minimal encoding are not all alike.
-/

namespace Asn1.Integer

/-- The first octet only repeats the sign of the second. -/
def repeatsSign : Octets → Bool
  | a :: b :: _ => (a == 0x00 && b < 0x80) || (a == 0xFF && 0x80 ≤ b)
  | _ => false

/-- Drops octets that only repeat the sign while more than `width` are left. -/
def shorten (width : Nat) : Octets → Octets
  | [] => []
  | octet :: rest =>
    if width < rest.length + 1 ∧ repeatsSign (octet :: rest) then shorten width rest
    else octet :: rest

/-- The number that the octets are the two's complement of. -/
def signedValue (octets : Octets) : Int :=
  if octets.headD 0 < 0x80 then Octets.toNat octets
  else (Octets.toNat octets : Int) - Int.pow 256 octets.length

def encode (value : Int64) : Octets :=
  shorten 1 (Octets.ofNatWidth 8 value.toUInt64.toNat)

def decode (rules : Rules) (content : Octets) : Except Malformation Int64 :=
  if content.isEmpty then .error .integerEmpty
  else if rules = .distinguished ∧ repeatsSign content then .error .integerNotMinimal
  else
    let shortest := shorten 8 content
    if 8 < shortest.length then .error (.integerTooLarge content.length)
    else .ok (Int64.ofInt (signedValue shortest))

end Asn1.Integer
