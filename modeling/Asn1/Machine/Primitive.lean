import Asn1.Machine.Time
import Asn1.Primitive

/-!
The content of values without parts. Where only the shape of the octets is looked at, nothing can
fault, and the outcome is taken as it is.
-/

namespace Asn1.Machine

/-- A number between the least and the greatest of 64 bits. -/
def signed (n : Int) : Option Int :=
  if Int64.minValue.toInt ≤ n ∧ n ≤ Int64.maxValue.toInt then some n else none

namespace Integer

/-- The first octet only repeats the sign of the second. -/
def repeatsSign (octets : Octets) : Option Bool := do
  let first ← octets[0]?
  let second ← octets[1]?
  return (first == 0x00 && second < 0x80) || (first == 0xFF && 0x80 ≤ second)

/-- Drops octets that only repeat the sign while more than eight are left of what had `size`. -/
def shorten (size : Nat) (octets : Octets) : Checked Malformation Octets := do
  if octets.length ≤ 8 then return octets
  else
    let redundant ← repeatsSign octets
    if redundant then
      match _h : slice octets 1 octets.length with
      | none => fault
      | some rest => shorten size rest
    else throw (.integerTooLarge size)
termination_by octets.length
decreasing_by
  have := length_of_slice _h
  omega

/-- The octets put behind a sign. -/
def value (digits : Octets) : Option Int := do
  let first ← digits[0]?
  digits.foldlM (fun value octet => signed (value * 256 + octet.toNat))
    (if 0x80 ≤ first then -1 else 0)

/-- The distinguished rules want no octet that could be left out. -/
def refused (rules : Rules) (content : Octets) : Option Bool :=
  if rules = .distinguished ∧ 1 < content.length then repeatsSign content else some false

def decode (rules : Rules) (content : Octets) : Checked Malformation Int64 := do
  if content.isEmpty then throw .integerEmpty
  else
    let redundant ← refused rules content
    if redundant then throw .integerNotMinimal
    else
      let digits ← shorten content.length content
      let value ← value digits
      return Int64.ofInt value

end Integer

/-- The unused bits of the last octet. -/
def unusedBits (unused : Nat) (octets : Octets) : Option Nat := do
  let shifted ← push UInt8.size (Nat.pow 2 unused) 1 0
  let mask ← sub shifted 1
  let last ← final octets
  return last.toNat &&& mask

/-- The distinguished rules want zeros in the unused bits. -/
def bitString (rules : Rules) : Octets → Checked Malformation BitString
  | [] => throw .bitStringEmpty
  | unused :: octets => do
    let bits ← settled (BitString.decode .basic (unused :: octets))
    if rules = .distinguished ∧ unused.toNat ≠ 0 then
      let padding ← unusedBits unused.toNat octets
      if padding ≠ 0 then throw .bitStringPadding else return bits
    else return bits

namespace Identifier

/-- The base-128 numbers of the content, after those in `packed` and the groups that gave
`current`. -/
def arcs (packed : List UInt64) (current : Nat) (arcStart : Bool) :
    Octets → Checked Malformation (List UInt64)
  | [] => return packed
  | octet :: rest => do
    if arcStart ∧ octet = 0x80 then throw .arcLeadingZero
    else if ObjectIdentifier.arcLimit / 128 < current then throw .arcTooLarge
    else
      let current ← push UInt64.size 128 current (octet.toNat % 128)
      if octet < 0x80 then arcs (packed ++ [UInt64.ofNat current]) 0 true rest
      else arcs packed current false rest

/-- The first two arcs from their common number. -/
def unpack (packed : UInt64) : Option (List UInt64) :=
  if packed < 40 then some [0, packed]
  else if packed < 80 then (sub packed.toNat 40).map fun second => [1, UInt64.ofNat second]
  else (sub packed.toNat 80).map fun second => [2, UInt64.ofNat second]

def decode (content : Octets) : Checked Malformation ObjectIdentifier := do
  if content.isEmpty then throw .arcsMissing
  else
    let last ← (final content : Option UInt8)
    if 0x80 ≤ last then throw .arcUnfinished
    else
      let packed ← arcs [] 0 true content
      let first ← (packed[0]? : Option UInt64)
      let front ← unpack first
      let _size ← add packed.length 1
      let rest ← slice packed 1 packed.length
      return ⟨front ++ rest⟩

end Identifier

/-- A value of the same type from its content octets. -/
def primitive (before : Primitive) (rules : Rules) (content : Octets) :
    Checked Malformation Primitive := do
  match before with
  | .boolean _ => return .boolean (← settled (Primitive.decodeBoolean rules content))
  | .integer _ => return .integer (← Integer.decode rules content)
  | .enumerated _ => return .enumerated (← Integer.decode rules content)
  | .bitString _ => return .bitString (← bitString rules content)
  | .octetString _ => return .octetString content
  | .null => if content.isEmpty then return .null else throw (.nullSize content.length)
  | .objectIdentifier _ => return .objectIdentifier (← Identifier.decode content)
  | .characterString string =>
    return .characterString (← settled (CharacterString.decode string.kind content))
  | .utcTime _ => return .utcTime (← Utc.decode rules content)
  | .generalizedTime _ => return .generalizedTime (← Generalized.decode rules content)

end Asn1.Machine
