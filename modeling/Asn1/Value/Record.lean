import Asn1.Value.Access
import Asn1.Value.Comparison

/-!
The fields of a SEQUENCE or SET by index. A field takes only values of its own
type.
-/

namespace Asn1.Record

open Value

/-- What to report where field `index` has to be set. -/
def missing (slots : List (Slot Value)) (index : Nat) : Error :=
  match slots[index]? with
  | some slot => .missingField index slot.field.name
  | none => .noSuchField index slots.length

def slot (slots : List (Slot Value)) (index : Nat) : Except Error (Slot Value) :=
  match slots[index]? with
  | some slot => .ok slot
  | none => .error (.noSuchField index slots.length)

def get (slots : List (Slot Value)) (index : Nat) : Except Error (Option Value) :=
  (slot slots index).map (·.content)

/-- The value of a field that has to be set. -/
def require (slots : List (Slot Value)) (index : Nat) : Except Error Value :=
  match get slots index with
  | .error error => .error error
  | .ok (some value) => .ok value
  | .ok none => .error (missing slots index)

def isSet (slots : List (Slot Value)) (index : Nat) : Except Error Bool :=
  (get slots index).map Option.isSome

def isEmpty (slots : List (Slot Value)) : Bool := slots.all (·.content.isNone)

/-- The field's content read by `extract`, which knows `expected` values only. -/
def getAs {α : Type} (slots : List (Slot Value)) (index : Nat) (expected : String)
    (extract : Value → Option α) : Except Error (Option α) :=
  match get slots index with
  | .error error => .error error
  | .ok none => .ok none
  | .ok (some value) =>
    match extract value with
    | some content => .ok (some content)
    | none => .error (.typeMismatch index expected)

def getBool (slots : List (Slot Value)) (index : Nat) : Except Error (Option Bool) :=
  getAs slots index "BOOLEAN" bool?

def getInteger (slots : List (Slot Value)) (index : Nat) : Except Error (Option Int64) :=
  getAs slots index "INTEGER" integer?

def getOctets (slots : List (Slot Value)) (index : Nat) : Except Error (Option Octets) :=
  getAs slots index "OCTET STRING" octets?

def getText (slots : List (Slot Value)) (index : Nat) : Except Error (Option String) :=
  getAs slots index "a character string" text?

def getInstant (slots : List (Slot Value)) (index : Nat) : Except Error (Option Time.Instant) :=
  getAs slots index "a time value" instant?

def getBitString (slots : List (Slot Value)) (index : Nat) : Except Error (Option BitString) :=
  getAs slots index "BIT STRING" bitString?

def getObjectIdentifier (slots : List (Slot Value)) (index : Nat) :
    Except Error (Option ObjectIdentifier) :=
  getAs slots index "OBJECT IDENTIFIER" objectIdentifier?

def getRecord (slots : List (Slot Value)) (index : Nat) :
    Except Error (Option (List (Slot Value))) :=
  getAs slots index "SEQUENCE" slots?

def getElements (slots : List (Slot Value)) (index : Nat) : Except Error (Option (List Value)) :=
  getAs slots index "SEQUENCE OF" items?

/-- Fails unless `value` has the named type; `index` says where it was to go. -/
def checkType (defs : Definitions) (index : Nat) (type : String) (value : Value) :
    Except Error Unit :=
  match sameType? defs value (defs.template type) with
  | some true => .ok ()
  | some false => .error (.typeMismatch index (defs.template type).typeName)
  | none => .error .endlessType

def set (defs : Definitions) (slots : List (Slot Value)) (index : Nat) (value : Value) :
    Except Error (List (Slot Value)) :=
  match slot slots index with
  | .error error => .error error
  | .ok slot =>
    match checkType defs index slot.field.type value with
    | .error error => .error error
    | .ok () => .ok (slots.set index ⟨slot.field, some value⟩)

def clear (slots : List (Slot Value)) (index : Nat) : Except Error (List (Slot Value)) :=
  match slot slots index with
  | .error error => .error error
  | .ok slot => .ok (slots.set index ⟨slot.field, none⟩)

/-- Sets the field, or clears it where there is no value. -/
def setOptional (defs : Definitions) (slots : List (Slot Value)) (index : Nat) :
    Option Value → Except Error (List (Slot Value))
  | some value => set defs slots index value
  | none => clear slots index

end Asn1.Record

namespace Asn1.Elements

/-- Appends an item of the named type. -/
def push (defs : Definitions) (type : String) (items : List Value) (value : Value) :
    Except Error (List Value) :=
  match Record.checkType defs items.length type value with
  | .error error => .error error
  | .ok () => .ok (items ++ [value])

end Asn1.Elements

namespace Asn1.Choice

/-- `value` as the alternative at `index`. -/
def select (defs : Definitions) (alternatives : List Field) (index : Nat) (value : Value) :
    Except Error (Selection Value) :=
  match alternatives[index]? with
  | none => .error (.noSuchField index alternatives.length)
  | some field =>
    match Record.checkType defs index field.type value with
    | .error error => .error error
    | .ok () => .ok ⟨index, value⟩

end Asn1.Choice
