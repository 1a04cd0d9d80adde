import Asn1.Error

/-!
Definite lengths. The short form is one octet below 128; the long form counts
the base-256 digits that follow.
-/

namespace Asn1

/-- A long form keeps its form even where the short one would do. -/
inductive Length where
  | short (value : Nat)
  | long (value : Nat)
  deriving DecidableEq, Repr

namespace Length

def ofNat (n : Nat) : Length :=
  if n < 128 then .short n else .long n

def value : Length → Nat
  | .short n => n
  | .long n => n

/-- The digits of a long form, at least one. -/
def digits (n : Nat) : Octets :=
  if n = 0 then [0] else Octets.ofNat n

def encode : Length → Octets
  | .short n => [UInt8.ofNat n]
  | .long n => UInt8.ofNat (128 + (digits n).length) :: digits n

/-- How many octets the encoding takes, told from the bits of the number. -/
def encodedLength : Length → Nat
  | .short _ => 1
  | .long n => 1 + max 1 (Octets.digitCount 8 n)

/-- The most digits that are read. -/
def digitLimit : Nat := 8

/-- The length at the front of octets that lie at `offset`, and the octets after
it. A long form need not be minimal. -/
def decode (offset : Nat) : Octets → Except Error (Length × Octets)
  | [] => .error (.malformed offset .lengthMissing)
  | first :: rest =>
    let count := first.toNat - 128
    if first.toNat < 128 then .ok (.short first.toNat, rest)
    else if count = 0 then .error (.malformed offset .lengthIndefinite)
    else if count = 127 then .error (.malformed offset .lengthReserved)
    else if digitLimit < count then .error (.malformed offset (.lengthTooLarge count))
    else if rest.length < count then
      .error (.malformed offset (.lengthUnfinished (1 + count) (1 + rest.length)))
    else .ok (.long (Octets.toNat (rest.take count)), rest.drop count)

theorem decode_shortens {offset : Nat} {octets rest : Octets} {length : Length}
    (h : decode offset octets = .ok (length, rest)) : rest.length < octets.length := by
  cases octets with
  | nil => simp [decode] at h
  | cons first tail =>
    simp only [decode] at h
    repeat' split at h
    all_goals cases h
    all_goals simp only [List.length_cons, List.length_drop]; omega

end Length

end Asn1
