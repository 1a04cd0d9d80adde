import Asn1.Base128
import Asn1.Error

/-!
Tags as octets: one octet for numbers up to 30, base-128 groups after the first
octet for larger ones.
-/

namespace Asn1

namespace TagClass

def code : TagClass → Nat
  | .universal => 0
  | .application => 1
  | .context => 2
  | .priv => 3

def ofCode : Nat → TagClass
  | 0 => .universal
  | 1 => .application
  | 2 => .context
  | _ => .priv

theorem ofCode_code (cls : TagClass) : ofCode cls.code = cls := by
  cases cls <;> rfl

end TagClass

namespace Tag

/-- The largest number in the one-octet form. -/
def lowLimit : Nat := 30

/-- The largest number. -/
def numberLimit : Nat := UInt32.size - 1

/-- The first octet, where `low` is the number or 31 for the long form. -/
def identifier (tag : Tag) (low : Nat) : UInt8 :=
  UInt8.ofNat (tag.cls.code * 64 + (if tag.constructed then 32 else 0) + low)

def encode (tag : Tag) : Octets :=
  if tag.number.toNat ≤ lowLimit then [tag.identifier tag.number.toNat]
  else tag.identifier 31 :: Base128.encode tag.number.toNat

/-- How many octets the encoding takes, told from the bits of the number. -/
def encodedLength (tag : Tag) : Nat :=
  if tag.number.toNat ≤ lowLimit then 1 else 1 + Octets.digitCount 7 tag.number.toNat

/-- Where and why the groups of a long tag number are refused, `offset` being
that of the first group. -/
def groupError (offset : Nat) : Nat × Base128.Fault → Error
  | (count, .truncated) => .malformed (offset + count) .tagUnfinished
  | (count, .leadingZero) => .malformed (offset + count) .tagLeadingZero
  | (count, .overflow) => .malformed (offset + count) .tagTooLarge

/-- The tag at the front of octets that lie at `offset`, and the octets after
it. Every tag has one encoding. -/
def decode (offset : Nat) : Octets → Except Error (Tag × Octets)
  | [] => .error (.malformed offset .tagMissing)
  | first :: rest =>
    let cls := TagClass.ofCode (first.toNat / 64)
    let constructed := first.toNat / 32 % 2 == 1
    let low := first.toNat % 32
    if low < 31 then .ok (⟨cls, constructed, UInt32.ofNat low⟩, rest)
    else
      match Base128.decode numberLimit rest with
      | .error fault => .error (groupError (offset + 1) fault)
      | .ok (number, rest) =>
        if number ≤ lowLimit then .error (.malformed offset (.tagNotLow number))
        else .ok (⟨cls, constructed, UInt32.ofNat number⟩, rest)

theorem decode_shortens {offset : Nat} {octets rest : Octets} {tag : Tag}
    (h : decode offset octets = .ok (tag, rest)) : rest.length < octets.length := by
  cases octets with
  | nil => simp [decode] at h
  | cons first tail =>
    simp only [decode] at h
    split at h
    · cases h
      simp
    · split at h
      · cases h
      · rename_i hgroups
        have := Base128.decode_shortens hgroups
        split at h
        · cases h
        · cases h
          simp only [List.length_cons]
          omega

end Tag

end Asn1
