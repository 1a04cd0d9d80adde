/-!
Octet strings and the big-endian numbers written in them.
-/

namespace Asn1

abbrev Octets := List UInt8

namespace Octets

/-- The number whose base-256 digits are the octets, most significant first. -/
def toNat (octets : Octets) : Nat :=
  octets.foldl (fun value octet => value * 256 + octet.toNat) 0

/-- The last `width` base-256 digits of `n`. -/
def ofNatWidth : Nat → Nat → Octets
  | 0, _ => []
  | width + 1, n => ofNatWidth width (n / 256) ++ [UInt8.ofNat n]

/-- The base-256 digits of `n` without leading zeros; zero has none. -/
def ofNat (n : Nat) : Octets :=
  if n = 0 then [] else ofNat (n / 256) ++ [UInt8.ofNat n]

/-- How many binary digits `n` has; zero has none. -/
def bitCount (n : Nat) : Nat :=
  if n = 0 then 0 else n.log2 + 1

/-- How many digits `n` has where each holds `width` bits. -/
def digitCount (width n : Nat) : Nat :=
  (bitCount n + (width - 1)) / width

/-- The upper-case digit of a number below 16. -/
def hexDigit (n : Nat) : Char :=
  if n < 10 then Char.ofNat (48 + n) else Char.ofNat (55 + n)

/-- Two upper-case hexadecimal digits. -/
def hexPair (octet : UInt8) : String :=
  String.ofList [hexDigit (octet.toNat / 16), hexDigit (octet.toNat % 16)]

def toHex (octets : Octets) : String :=
  String.join (octets.map hexPair)

/-- The value of a hexadecimal digit in either case. -/
def hexValue? (digit : Char) : Option Nat :=
  if '0' ≤ digit ∧ digit ≤ '9' then some (digit.toNat - 48)
  else if 'A' ≤ digit ∧ digit ≤ 'F' then some (digit.toNat - 55)
  else if 'a' ≤ digit ∧ digit ≤ 'f' then some (digit.toNat - 87)
  else none

/-- The octets written by pairs of digits; an odd digit out is refused. -/
def ofHexDigits? : List Char → Option Octets
  | [] => some []
  | [_] => none
  | high :: low :: digits => do
    let high ← hexValue? high
    let low ← hexValue? low
    return UInt8.ofNat (16 * high + low) :: (← ofHexDigits? digits)

def ofHex? (text : String) : Option Octets := ofHexDigits? text.toList

end Octets

end Asn1
