import Asn1.Error
import Asn1.Policy

/-!
Bit strings. Bit 0 is the most significant bit of the first octet; the last
octet may have unused bits at its end, whose values are kept as they are.
-/

namespace Asn1

structure BitString where
  octets : Octets
  unused : Nat
  unused_lt : unused < 8 := by omega
  unused_of_empty : octets = [] → unused = 0 := by simp
  deriving DecidableEq, Repr

namespace BitString

def empty : BitString := ⟨[], 0, by omega, fun _ => rfl⟩

def new (octets : Octets) (unused : Nat) : Except Unencodable BitString :=
  if hunused : 7 < unused then .error (.bitStringUnused unused)
  else if hempty : octets = [] ∧ unused ≠ 0 then .error .bitStringNoBits
  else
    .ok
      { octets, unused
        unused_of_empty := fun h => Decidable.byContradiction fun h' => hempty ⟨h, h'⟩ }

/-- As many octets as `size` bits need. -/
def octetsFor (size : Nat) : Nat := (size + 7) / 8

/-- The bits that `size` leaves unused in its last octet. -/
def unusedFor (size : Nat) : Nat := octetsFor size * 8 - size

/-- `size` zeros. -/
def ofSize (size : Nat) : BitString where
  octets := List.replicate (octetsFor size) 0
  unused := unusedFor size
  unused_lt := by simp only [unusedFor, octetsFor]; omega
  unused_of_empty h := by
    have : octetsFor size = 0 := by simpa using congrArg List.length h
    simp only [unusedFor]
    omega

/-- The 32 bits of a word, bit 0 being the most significant. -/
def ofUInt32 (word : UInt32) : BitString where
  octets := Octets.ofNatWidth 4 word.toNat
  unused := 0
  unused_of_empty _ := rfl

def size (bits : BitString) : Nat := bits.octets.length * 8 - bits.unused

/-- Bits past the end read as zero. -/
def bit (bits : BitString) (index : Nat) : Bool :=
  index < bits.size && (bits.octets.getD (index / 8) 0).toNat.testBit (7 - index % 8)

/-- The octet in which only bit `index` of a string's octet is one. -/
def mask (index : Nat) : UInt8 := UInt8.ofNat (Nat.pow 2 (7 - index % 8))

def setMask (octet : UInt8) (index : Nat) (value : Bool) : UInt8 :=
  if value then octet ||| mask index else octet &&& ~~~mask index

/-- At least `size` bits: zero octets are put behind, and the unused bits of the
last octet become part of the string. -/
def grow (bits : BitString) (size : Nat) : BitString :=
  if size ≤ bits.size then bits
  else
    { octets := bits.octets ++ List.replicate (octetsFor size - bits.octets.length) 0
      unused := unusedFor size
      unused_lt := by simp only [unusedFor, octetsFor]; omega
      unused_of_empty := fun h => by
        have := congrArg List.length h
        simp only [List.length_append, List.length_replicate, List.length_nil] at this
        simp only [unusedFor]
        omega }

/-- The string grows when `index` lies past its end. -/
def setBit (bits : BitString) (index : Nat) (value : Bool) : BitString :=
  let grown := bits.grow (index + 1)
  { octets := grown.octets.modify (index / 8) (setMask · index value)
    unused := grown.unused
    unused_lt := grown.unused_lt
    unused_of_empty := fun h => grown.unused_of_empty <| List.length_eq_zero_iff.1 <| by
      simpa using congrArg List.length h }

/-- The unused count, then the octets. -/
def encode (bits : BitString) : Octets := UInt8.ofNat bits.unused :: bits.octets

/-- The distinguished rules want zeros in the unused bits. -/
def decode (rules : Rules) : Octets → Except Malformation BitString
  | [] => .error .bitStringEmpty
  | unused :: octets =>
    if hunused : 7 < unused.toNat then .error (.bitStringUnused unused.toNat)
    else if hempty : octets = [] ∧ unused.toNat ≠ 0 then .error .bitStringNoBits
    else if rules = .distinguished ∧ (octets.getLastD 0).toNat % Nat.pow 2 unused.toNat ≠ 0 then
      .error .bitStringPadding
    else
      .ok
        { octets, unused := unused.toNat
          unused_lt := Nat.lt_succ_of_le (Nat.not_lt.1 hunused)
          unused_of_empty := fun h => Decidable.byContradiction fun h' => hempty ⟨h, h'⟩ }

end BitString

end Asn1
