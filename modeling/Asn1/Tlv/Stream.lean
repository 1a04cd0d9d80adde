import Asn1.Tlv.Basic

/-!
Octets as the sequence of what can be read from them, one after another. A
stream that breaks still offers all that came before the break, so whoever
walks it meets errors in the order of the octets.
-/

namespace Asn1

inductive Tlv.Stream where
  | done
  | broken (error : Error)
  | next (tlv : Tlv) (rest : Tlv.Stream)
  deriving DecidableEq, Repr

namespace Tlv

def stream (rules : Rules) (offset : Nat) (octets : Octets) : Stream :=
  if octets.isEmpty then .done
  else
    match _h : read rules offset octets with
    | .error error => .broken error
    | .ok (tlv, rest) => .next tlv (stream rules tlv.endOffset rest)
termination_by octets.length
decreasing_by
  have := read_length _h
  omega

namespace Stream

def weight : Stream → Nat
  | .done => 0
  | .broken _ => 0
  | .next tlv rest => tlv.weight + rest.weight

end Stream

theorem weight_stream_le (rules : Rules) (offset : Nat) (octets : Octets) :
    (stream rules offset octets).weight ≤ octets.length := by
  fun_induction stream rules offset octets with
  | case1 => simp [Stream.weight]
  | case2 => simp [Stream.weight]
  | case3 _ _ _ _ _ hread ih =>
    have := weight_le_of_read hread
    simp only [Stream.weight]
    omega

end Tlv

end Asn1
