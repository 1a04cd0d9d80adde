import Asn1.Octets

/-!
Texts as UTF-8 octets, and where octets stop being UTF-8.
-/

namespace Asn1.Text.Utf8

def encode (text : String) : Octets :=
  text.toUTF8.data.toList

def decode? (octets : Octets) : Option String :=
  String.fromUTF8? ⟨octets.toArray⟩

/-- Where a sequence starts that cannot be part of UTF-8. -/
inductive Fault where
  /-- The first `count` octets of the sequence rule it out. -/
  | invalid (count index : Nat)
  /-- The octets end before the sequence does. -/
  | incomplete (index : Nat)
  deriving DecidableEq, Repr

/-- After a lead octet: how many octets follow, and the range of the first of
them. -/
def following? (lead : Nat) : Option (Nat × Nat × Nat) :=
  if lead < 0x80 then some (0, 0x80, 0xBF)
  else if lead < 0xC2 then none
  else if lead < 0xE0 then some (1, 0x80, 0xBF)
  else if lead = 0xE0 then some (2, 0xA0, 0xBF)
  else if lead = 0xED then some (2, 0x80, 0x9F)
  else if lead < 0xF0 then some (2, 0x80, 0xBF)
  else if lead = 0xF0 then some (3, 0x90, 0xBF)
  else if lead < 0xF4 then some (3, 0x80, 0xBF)
  else if lead = 0xF4 then some (3, 0x80, 0x8F)
  else none

/-- `owed` octets are missing from the sequence that began at `start`; the next
of them lies between `low` and `high`. -/
def faultFrom (index start owed low high : Nat) : Octets → Fault
  | [] => .incomplete start
  | octet :: rest =>
    if owed = 0 then
      match following? octet.toNat with
      | none => .invalid 1 index
      | some (owed, low, high) => faultFrom (index + 1) index owed low high rest
    else if low ≤ octet.toNat ∧ octet.toNat ≤ high then
      faultFrom (index + 1) start (owed - 1) 0x80 0xBF rest
    else .invalid (index - start) start

/-- The first fault of octets that are not UTF-8. -/
def fault (octets : Octets) : Fault :=
  faultFrom 0 0 0 0x80 0xBF octets

def Fault.message : Fault → String
  | .invalid count index =>
    s!"invalid utf-8 sequence of {count} bytes from index {index}"
  | .incomplete index => s!"incomplete utf-8 byte sequence from index {index}"

end Asn1.Text.Utf8
