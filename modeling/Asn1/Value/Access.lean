import Asn1.Value.Basic

/-!
The content of values as plain data. All readers look through re-tags.
-/

namespace Asn1.Value

open Time (Instant)

def primitive? (value : Value) : Option Primitive :=
  match value.untagged with
  | .leaf primitive => some primitive
  | _ => none

def bool? (value : Value) : Option Bool :=
  match value.primitive? with
  | some (.boolean value) => some value
  | _ => none

/-- An INTEGER or an ENUMERATED. -/
def integer? (value : Value) : Option Int64 :=
  match value.primitive? with
  | some (.integer value) => some value
  | some (.enumerated value) => some value
  | _ => none

def octets? (value : Value) : Option Octets :=
  match value.primitive? with
  | some (.octetString octets) => some octets
  | _ => none

/-- The text of any character string. -/
def text? (value : Value) : Option String :=
  match value.primitive? with
  | some (.characterString string) => some string.text
  | _ => none

/-- Either time type. -/
def instant? (value : Value) : Option Instant :=
  match value.primitive? with
  | some (.utcTime instant) => some instant
  | some (.generalizedTime instant) => some instant
  | _ => none

def bitString? (value : Value) : Option BitString :=
  match value.primitive? with
  | some (.bitString bits) => some bits
  | _ => none

def objectIdentifier? (value : Value) : Option ObjectIdentifier :=
  match value.primitive? with
  | some (.objectIdentifier oid) => some oid
  | _ => none

/-- The slots of a SEQUENCE or SET. -/
def slots? (value : Value) : Option (List (Slot Value)) :=
  match value.untagged with
  | .record _ slots _ => some slots
  | _ => none

/-- The items of a SEQUENCE OF or SET OF. -/
def items? (value : Value) : Option (List Value) :=
  match value.untagged with
  | .elements _ _ items _ => some items
  | _ => none

/-- The alternatives of a CHOICE and what it holds. -/
def choice? (value : Value) : Option (List Field × Option (Selection Value)) :=
  match value.untagged with
  | .choice alternatives selection _ => some (alternatives, selection)
  | _ => none

/-- The octets of an ANY. -/
def raw? (value : Value) : Option Octets :=
  match value.untagged with
  | .any raw => some raw
  | _ => none

end Asn1.Value
