import Asn1.Length
import Asn1.Policy
import Asn1.Tag.Codec

/-!
One tag, length and content, written and read back. What is read keeps its own
header octets and the offset at which it lay, so that errors further in can be
located.
-/

namespace Asn1

structure Tlv where
  tag : Tag
  /-- Of the first tag octet. -/
  offset : Nat
  header : Octets
  content : Octets
  deriving DecidableEq, Repr

namespace Tlv

def raw (tlv : Tlv) : Octets := tlv.header ++ tlv.content

def contentOffset (tlv : Tlv) : Nat := tlv.offset + tlv.header.length

def endOffset (tlv : Tlv) : Nat := tlv.contentOffset + tlv.content.length

/-- A lower bound of `raw.length` for everything that was read. -/
def weight (tlv : Tlv) : Nat := tlv.content.length + 2

def headerOctets (tag : Tag) (contentLength : Nat) : Octets :=
  tag.encode ++ (Length.ofNat contentLength).encode

def encode (tag : Tag) (content : Octets) : Octets :=
  headerOctets tag content.length ++ content

/-- The first of the octets that lie at `offset`, and the octets after it. The
distinguished rules ask for the shortest form of the length. -/
def read (rules : Rules) (offset : Nat) (octets : Octets) : Except Error (Tlv × Octets) :=
  match Tag.decode offset octets with
  | .error error => .error error
  | .ok (tag, afterTag) =>
    let lengthOffset := offset + (octets.length - afterTag.length)
    match Length.decode lengthOffset afterTag with
    | .error error => .error error
    | .ok (length, body) =>
      if rules = .distinguished ∧
          afterTag.length - body.length ≠ (Length.ofNat length.value).encodedLength then
        .error (.malformed lengthOffset (.lengthNotMinimal length.value))
      else if body.length < length.value then
        .error (.malformed offset (.lengthExceeds length.value body.length))
      else
        .ok (⟨tag, offset, octets.take (octets.length - body.length), body.take length.value⟩,
          body.drop length.value)

theorem read_length {rules : Rules} {offset : Nat} {octets rest : Octets} {tlv : Tlv}
    (h : read rules offset octets = .ok (tlv, rest)) :
    2 ≤ tlv.header.length ∧
      octets.length = tlv.header.length + tlv.content.length + rest.length := by
  simp only [read] at h
  split at h
  · cases h
  · rename_i htag
    have tagShortens := Tag.decode_shortens htag
    split at h
    · cases h
    · rename_i hlength
      have lengthShortens := Length.decode_shortens hlength
      split at h
      · cases h
      · split at h
        · cases h
        · cases h
          simp only [List.length_take, List.length_drop]
          omega

theorem weight_le_of_read {rules : Rules} {offset : Nat} {octets rest : Octets} {tlv : Tlv}
    (h : read rules offset octets = .ok (tlv, rest)) :
    tlv.weight + rest.length ≤ octets.length := by
  have := read_length h
  simp only [weight]
  omega

end Tlv

end Asn1
