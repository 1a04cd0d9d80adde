import Asn1.Octets

/-!
Decimal digits as octets.
-/

namespace Asn1.Time

def isDigit (octet : UInt8) : Bool := 48 ≤ octet && octet ≤ 57

/-- The last `width` decimal digits of `n`. -/
def digits : Nat → Nat → Octets
  | 0, _ => []
  | width + 1, n => digits width (n / 10) ++ [UInt8.ofNat (48 + n % 10)]

/-- The number that digits stand for. -/
def digitsValue (octets : Octets) : Nat :=
  octets.foldl (fun value octet => value * 10 + (octet.toNat - 48)) 0

def trimZeros (octets : Octets) : Octets :=
  (octets.reverse.dropWhile (· == 48)).reverse

/-- Nine digits of a fraction of a second as nanoseconds. Missing digits count
as zeros, digits past the ninth do not count. -/
def nanosOfDigits (fraction : Octets) : Nat :=
  digitsValue (fraction.take 9 ++ List.replicate (9 - fraction.length) 48)

end Asn1.Time
