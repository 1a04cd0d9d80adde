import Asn1.Kerberos.Structure

/-!
Typed content of the fields of a decoded SEQUENCE.
-/

namespace Asn1.Kerberos

/-- The fields of a SEQUENCE, or why `holder` cannot be read from the value. -/
def slotsFor (holder : String) (value : Value) : Except Error (List (Slot Value)) :=
  match value.slots? with
  | some slots => .ok slots
  | none => .error (.violated (.notSequence holder value.typeName))

/-- An error as it surfaces from field `index`. -/
def inSlot (slots : List (Slot Value)) (index : Nat) (error : Error) : Error :=
  match slots[index]? with
  | some slot => .inField index slot.field.name error
  | none => error

/-- Content that has to be there. -/
def required {β : Type} (slots : List (Slot Value)) (index : Nat)
    (content : Except Error (Option β)) : Except Error β :=
  match content with
  | .error error => .error error
  | .ok none => .error (Record.missing slots index)
  | .ok (some content) => .ok content

def int32Limits (value : Int64) : Prop :=
  Int32.minValue.toInt ≤ value.toInt ∧ value.toInt ≤ Int32.maxValue.toInt

instance (value : Int64) : Decidable (int32Limits value) :=
  inferInstanceAs (Decidable (_ ∧ _))

def uint32Limits (value : Int64) : Prop := 0 ≤ value.toInt ∧ value.toInt < UInt32.size

instance (value : Int64) : Decidable (uint32Limits value) :=
  inferInstanceAs (Decidable (_ ∧ _))

def int32 (slots : List (Slot Value)) (index : Nat) : Except Error Int32 :=
  match required slots index (Record.getInteger slots index) with
  | .error error => .error error
  | .ok value =>
    if int32Limits value then .ok (Int32.ofInt value.toInt)
    else .error (inSlot slots index (.violated (.outside value "Int32")))

def optionalUInt32 (slots : List (Slot Value)) (index : Nat) : Except Error (Option UInt32) :=
  match Record.getInteger slots index with
  | .error error => .error error
  | .ok none => .ok none
  | .ok (some value) =>
    if uint32Limits value then .ok (some (UInt32.ofNat value.toInt.toNat))
    else .error (inSlot slots index (.violated (.outside value "UInt32")))

def text (slots : List (Slot Value)) (index : Nat) : Except Error String :=
  required slots index (Record.getText slots index)

def octets (slots : List (Slot Value)) (index : Nat) : Except Error Octets :=
  required slots index (Record.getOctets slots index)

/-- A field that is a structure itself. -/
def nested (α : Type) [Structure α] (slots : List (Slot Value)) (index : Nat) :
    Except Error α :=
  match required slots index (Record.get slots index) with
  | .error error => .error error
  | .ok value =>
    match (Structure.ofValue value : Except Error α) with
    | .error error => .error (inSlot slots index error)
    | .ok item => .ok item

end Asn1.Kerberos
