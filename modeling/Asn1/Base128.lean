import Asn1.Octets

/-!
Numbers as base-128 groups, most significant first, where every octet but the
last carries its high bit. High tag numbers and object identifier arcs are
written this way, both without leading zero groups.
-/

namespace Asn1.Base128

/-- The groups of `n` that are followed by another group. -/
def leading (n : Nat) : Octets :=
  if n = 0 then [] else leading (n / 128) ++ [UInt8.ofNat (n % 128 + 128)]

def encode (n : Nat) : Octets :=
  leading (n / 128) ++ [UInt8.ofNat (n % 128)]

inductive Fault where
  | truncated
  | leadingZero
  | overflow
  deriving DecidableEq, Repr

/-- Reads groups after `count` of them gave `value`. Every result is at most
`limit`, which must be one less than a multiple of 128. A fault comes with the
number of groups before it. -/
def decodeFrom (limit value count : Nat) : Octets → Except (Nat × Fault) (Nat × Octets)
  | [] => .error (count, .truncated)
  | octet :: rest =>
    if count = 0 ∧ octet = 0x80 then .error (count, .leadingZero)
    else if limit / 128 < value then .error (count, .overflow)
    else if octet < 0x80 then .ok (value * 128 + octet.toNat, rest)
    else decodeFrom limit (value * 128 + octet.toNat % 128) (count + 1) rest

/-- One number and the octets after it. -/
def decode (limit : Nat) (octets : Octets) : Except (Nat × Fault) (Nat × Octets) :=
  decodeFrom limit 0 0 octets

theorem decodeFrom_shortens {limit value count : Nat} {octets rest : Octets} {n : Nat}
    (h : decodeFrom limit value count octets = .ok (n, rest)) :
    rest.length < octets.length := by
  induction octets generalizing value count with
  | nil => simp [decodeFrom] at h
  | cons octet tail ih =>
    simp only [decodeFrom] at h
    split at h
    · cases h
    · split at h
      · cases h
      · split at h
        · cases h
          simp
        · have := ih h
          simp only [List.length_cons]
          omega

theorem decode_shortens {limit n : Nat} {octets rest : Octets}
    (h : decode limit octets = .ok (n, rest)) : rest.length < octets.length :=
  decodeFrom_shortens h

end Asn1.Base128
